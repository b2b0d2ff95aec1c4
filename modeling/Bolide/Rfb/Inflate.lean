/-
Bolide.Rfb.Inflate — the zlib half of the ZRLE decoder (`ZrleDecoder` of
`bolide-rfb/src/zrle.rs`).

`flate2::Decompress` is a parameter: a state and one `decompress` call on
it, with what zlib documents of every call. A call takes some of its input,
gives back at most as many bytes as its buffer holds, and the output it
holds back between calls is finite, so that a call which takes nothing and
gives something leaves less behind. `inflateSlice` is the source's loop
around it. `Inflates` is the rest of zlib's contract, which the results about
the contents of a stream assume and the totality of the loop does not need.
-/
import Bolide.Rfb.Zrle

namespace Bolide.Rfb

open Lib

/-! ## `flate2` -/

/-- What one `decompress` call did: how much input it took, the bytes it
put into the buffer, and whether the status was `StreamEnd`. -/
structure Inflated (State : Type) where
  next : State
  read : Nat
  out : List UInt8
  ended : Bool

/-- `flate2::Decompress`: `decompress state input room` is one call with a
buffer of `room` bytes, and `pending` is how many bytes the state could
give back without more input. -/
structure Decompress where
  State : Type
  new : State
  decompress : State → List UInt8 → Nat → Except String (Inflated State)
  pending : State → Nat
  read_le : ∀ {s input room r}, decompress s input room = .ok r → r.read ≤ input.length
  out_le : ∀ {s input room r}, decompress s input room = .ok r → r.out.length ≤ room
  pending_lt : ∀ {s input room r}, decompress s input room = .ok r → r.read = 0 → r.out ≠ [] →
    pending r.next < pending s

section Contract

variable (z : Decompress)

/-- `s` is where calls take a fresh inflater that has by then been fed `fed`
and has given `given`. -/
inductive Reached : List UInt8 → List UInt8 → z.State → Prop
  | new : Reached [] [] z.new
  | call {fed given s input room r} : Reached fed given s → z.decompress s input room = .ok r →
      Reached (fed ++ input.take r.read) (given ++ r.out) r.next

/-- zlib's contract on the streams that `plain` describes: `plain bytes` is
what a stream beginning with `bytes` has inflated to by their end, or `none`
when no stream begins so. -/
structure Inflates (plain : List UInt8 → Option (List UInt8)) : Prop where
  start : plain [] = some []
  -- only a corrupt stream is called corrupt
  valid {fed given s input} (room : Nat) : Reached z fed given s →
    (plain (fed ++ input)).isSome → ∃ r, z.decompress s input room = .ok r
  -- no progress means no input left and no output pending
  stall {fed given s input room r} : Reached z fed given s → 0 < room →
    z.decompress s input room = .ok r → r.ended = false → r.read = 0 → r.out = [] →
    input = [] ∧ plain fed = some given
  -- at the end of the stream everything was given, and nothing after it counts
  ended {fed given s input room r} : Reached z fed given s →
    z.decompress s input room = .ok r → r.ended = true →
    ∀ more, plain (fed ++ input.take r.read ++ more) = some (given ++ r.out)

/-- The inflater has taken the stream as far as `bytes` and given all of it. -/
def UpTo (plain : List UInt8 → Option (List UInt8)) (s : z.State) (bytes given : List UInt8) :
    Prop :=
  ∃ fed, Reached z fed given s ∧ ∀ more, plain (bytes ++ more) = plain (fed ++ more)

end Contract

/-! ## One slice of the stream -/

/-- The size of the buffer of `inflate_slice`. -/
def inflateBuffer : Nat := 64 * 1024

/-- The loop of `inflate_slice`, from what is left of the payload and what
came out so far. -/
def inflateLoop (z : Decompress) (s : z.State) (rest out : List UInt8) :
    Outcome (List UInt8 × z.State) :=
  match hcall : z.decompress s rest inflateBuffer with
  | .error e => protocolError s!"ZRLE: zlib stream is corrupt: {e}"
  | .ok r =>
      if r.ended then .ok (out ++ r.out, r.next)
      -- nothing moved in either direction
      else if hstall : r.read = 0 ∧ r.out = [] then .ok (out ++ r.out, r.next)
      else inflateLoop z r.next (rest.drop r.read) (out ++ r.out)
termination_by (rest.length, z.pending s)
decreasing_by
  have hread := z.read_le hcall
  rcases Nat.eq_zero_or_pos r.read with h0 | hpos
  · rw [h0, List.drop_zero]
    exact Prod.Lex.right _ (z.pending_lt hcall h0 (fun h => hstall ⟨h0, h⟩))
  · apply Prod.Lex.left
    rw [List.length_drop]
    omega

/-- Push one slice of the stream through the shared inflater and collect
everything it yields. -/
def inflateSlice (z : Decompress) (s : z.State) (payload : List UInt8) :
    Outcome (List UInt8 × z.State) := inflateLoop z s payload []

/-- `ZrleDecoder::decode_rect`: the pixels, and the stream after them. -/
def decodeRect (z : Decompress) (s : z.State) (payload : List UInt8) (fmt : PixelFormat)
    (w h : UInt16) : Outcome (List UInt8 × z.State) := do
  let (plain, s') ← inflateSlice z s payload
  let rgba ← decodeTiles plain fmt w h
  return (rgba, s')

/-- The loop fails only with a protocol error. -/
theorem inflateLoop_fails (z : Decompress) (s : z.State) (rest out : List UInt8) {e : Stop}
    (h : inflateLoop z s rest out = .error e) : e.IsProtocol := by
  fun_induction inflateLoop z s rest out with
  | case1 s rest out e' => cases h; trivial
  | case2 s rest out r => cases h
  | case3 s rest out r => cases h
  | case4 s rest out r hcall hended hstall ih => exact ih h

end Bolide.Rfb
