/-
Bolide.Lib.Bytes — big-endian integers as byte lists.

A network format writes its integers as a fixed number of bytes, most
significant first. `beBytes k n` is the `k`-byte writing of `n` (modulo
`256 ^ k`) and `beNat` reads any byte string back; the two-byte and
four-byte forms used by a `u16` and a `u32` are instances. A signed
32-bit field is the `u32` of the same bits.

The round trips are stated once, on `Nat`, and carried to the fixed-width
types by their `toNat` injections.
-/
import Mathlib

namespace Lib

/-! ## Any width -/

/-- The value of a big-endian byte string. -/
def beNat (bs : List UInt8) : Nat :=
  bs.foldl (fun v b => v * 256 + b.toNat) 0

/-- The `k` low bytes of `n`, most significant first. -/
def beBytes : Nat → Nat → List UInt8
  | 0, _ => []
  | k + 1, n => beBytes k (n / 256) ++ [UInt8.ofNat n]

@[simp] theorem length_beBytes (k n : Nat) : (beBytes k n).length = k := by
  induction k generalizing n with
  | zero => rfl
  | succ k ih => simp [beBytes, ih]

/-- Appending one byte multiplies by 256 and adds it. -/
theorem beNat_snoc (bs : List UInt8) (b : UInt8) :
    beNat (bs ++ [b]) = beNat bs * 256 + b.toNat := by
  simp [beNat]

/-- Reading back a writing gives the number modulo the width. -/
theorem beNat_beBytes (k n : Nat) : beNat (beBytes k n) = n % 256 ^ k := by
  induction k generalizing n with
  | zero => simp [beBytes, beNat, Nat.mod_one]
  | succ k ih =>
      have hb : (UInt8.ofNat n).toNat = n % 256 := by simp
      rw [beBytes, beNat_snoc, ih, hb, Nat.pow_succ', Nat.mod_mul]
      ring

/-- A byte string of length `k` is below `256 ^ k`. -/
theorem beNat_lt (bs : List UInt8) : beNat bs < 256 ^ bs.length := by
  induction bs using List.reverseRecOn with
  | nil => simp [beNat]
  | append_singleton bs b ih =>
      have hb : b.toNat < 256 := b.toNat_lt
      rw [beNat_snoc, List.length_append, List.length_singleton, Nat.pow_succ]
      omega

/-- Writing back what was read gives the same bytes. -/
theorem beBytes_beNat (bs : List UInt8) : beBytes bs.length (beNat bs) = bs := by
  induction bs using List.reverseRecOn with
  | nil => rfl
  | append_singleton bs b ih =>
      have hb : b.toNat < 256 := b.toNat_lt
      have hdiv : (beNat bs * 256 + b.toNat) / 256 = beNat bs := by omega
      have hlow : UInt8.ofNat (beNat bs * 256 + b.toNat) = b := by
        apply UInt8.toNat_inj.mp
        simp only [UInt8.toNat_ofNat']
        omega
      rw [beNat_snoc, List.length_append, List.length_singleton, beBytes, hdiv, ih, hlow]

/-! ## `u16`, `u32` and `i32` -/

/-- `u16::to_be_bytes`. -/
def be16 (x : UInt16) : List UInt8 := beBytes 2 x.toNat

/-- `u16::from_be_bytes`. -/
def ofBe16 (bs : List UInt8) : UInt16 := UInt16.ofNat (beNat bs)

/-- `u32::to_be_bytes`. -/
def be32 (x : UInt32) : List UInt8 := beBytes 4 x.toNat

/-- `u32::from_be_bytes`. -/
def ofBe32 (bs : List UInt8) : UInt32 := UInt32.ofNat (beNat bs)

/-- `i32::to_be_bytes`: the bytes of the same 32 bits. -/
def beI32 (x : Int32) : List UInt8 := be32 x.toUInt32

/-- `u32 as i32` after `u32::from_be_bytes`. -/
def ofBeI32 (bs : List UInt8) : Int32 := (ofBe32 bs).toInt32

@[simp] theorem length_be16 (x : UInt16) : (be16 x).length = 2 := length_beBytes 2 _
@[simp] theorem length_be32 (x : UInt32) : (be32 x).length = 4 := length_beBytes 4 _
@[simp] theorem length_beI32 (x : Int32) : (beI32 x).length = 4 := length_beBytes 4 _

@[simp] theorem ofBe16_be16 (x : UInt16) : ofBe16 (be16 x) = x := by
  apply UInt16.toNat_inj.mp
  have hx : x.toNat < 65536 := x.toNat_lt
  rw [ofBe16, be16, beNat_beBytes, UInt16.toNat_ofNat']
  omega

@[simp] theorem ofBe32_be32 (x : UInt32) : ofBe32 (be32 x) = x := by
  apply UInt32.toNat_inj.mp
  have hx : x.toNat < 4294967296 := x.toNat_lt
  rw [ofBe32, be32, beNat_beBytes, UInt32.toNat_ofNat']
  omega

@[simp] theorem ofBeI32_beI32 (x : Int32) : ofBeI32 (beI32 x) = x := by
  simp [ofBeI32, beI32]

/-- The writing of a `u16`, byte by byte. -/
theorem be16_eq (x : UInt16) : ∃ a b, be16 x = [a, b] ∧ ofBe16 [a, b] = x := by
  obtain ⟨a, b, h⟩ := List.length_eq_two.mp (length_be16 x)
  exact ⟨a, b, h, by rw [← h, ofBe16_be16]⟩

/-- The writing of an `i32`, byte by byte. -/
theorem beI32_eq (x : Int32) : ∃ a b c d, beI32 x = [a, b, c, d] ∧ ofBeI32 [a, b, c, d] = x := by
  match h : beI32 x, length_beI32 x with
  | [a, b, c, d], _ => exact ⟨a, b, c, d, rfl, by rw [← h, ofBeI32_beI32]⟩

/-- Two bytes are the writing of the `u16` they denote. -/
theorem be16_ofBe16 {bs : List UInt8} (h : bs.length = 2) : be16 (ofBe16 bs) = bs := by
  have hlt := beNat_lt bs
  rw [h] at hlt
  have hval : (ofBe16 bs).toNat = beNat bs := by
    rw [ofBe16, UInt16.toNat_ofNat']
    omega
  rw [be16, hval, ← h, beBytes_beNat]

/-- Four bytes are the writing of the `u32` they denote. -/
theorem be32_ofBe32 {bs : List UInt8} (h : bs.length = 4) : be32 (ofBe32 bs) = bs := by
  have hlt := beNat_lt bs
  rw [h] at hlt
  have hval : (ofBe32 bs).toNat = beNat bs := by
    rw [ofBe32, UInt32.toNat_ofNat']
    omega
  rw [be32, hval, ← h, beBytes_beNat]

/-! ## Digits in any base -/

/-- The value of a list of digits in base `B`, most significant first. -/
def digitsBe (B : Nat) (ds : List Nat) : Nat := ds.foldl (fun v d => v * B + d) 0

@[simp] theorem digitsBe_nil (B : Nat) : digitsBe B [] = 0 := rfl

theorem digitsBe_snoc (B : Nat) (ds : List Nat) (d : Nat) :
    digitsBe B (ds ++ [d]) = digitsBe B ds * B + d := by
  rw [digitsBe, List.foldl_append, List.foldl_cons, List.foldl_nil, digitsBe]

theorem digitsBe_lt {B : Nat} {ds : List Nat} (h : ∀ d ∈ ds, d < B) :
    digitsBe B ds < B ^ ds.length := by
  induction ds using List.reverseRecOn with
  | nil => simp
  | append_singleton ds d ih =>
      have hd : d < B := h d (by simp)
      have hv := ih (fun e he => h e (by simp [he]))
      rw [digitsBe_snoc, List.length_append, List.length_singleton, Nat.pow_succ]
      calc digitsBe B ds * B + d < digitsBe B ds * B + B := by omega
        _ = (digitsBe B ds + 1) * B := by ring
        _ ≤ B ^ ds.length * B := Nat.mul_le_mul_right B hv

/-- Dividing and reducing takes digit `i` back out. -/
theorem digitsBe_digit {B : Nat} {ds : List Nat} (h : ∀ d ∈ ds, d < B) {i : Nat}
    (hi : i < ds.length) : digitsBe B ds / B ^ (ds.length - 1 - i) % B = ds[i] := by
  induction ds using List.reverseRecOn with
  | nil => simp at hi
  | append_singleton ds d ih =>
      have hd : d < B := h d (by simp)
      have hB : 0 < B := by omega
      rw [List.length_append, List.length_singleton] at hi
      rw [digitsBe_snoc, List.length_append, List.length_singleton, Nat.add_sub_cancel]
      rcases Nat.lt_or_ge i ds.length with hlt | hge
      · have hpow : ds.length - i = (ds.length - 1 - i) + 1 := by omega
        have hdiv : (digitsBe B ds * B + d) / B = digitsBe B ds := by
          rw [Nat.mul_comm, Nat.mul_add_div hB, Nat.div_eq_of_lt hd, Nat.add_zero]
        rw [hpow, Nat.pow_succ', ← Nat.div_div_eq_div_mul, hdiv,
          ih (fun e he => h e (by simp [he])) hlt, List.getElem_append_left hlt]
      · obtain rfl : i = ds.length := by omega
        rw [Nat.sub_self, Nat.pow_zero, Nat.div_one, Nat.mul_comm, Nat.mul_add_mod,
          Nat.mod_eq_of_lt hd]
        simp

end Lib
