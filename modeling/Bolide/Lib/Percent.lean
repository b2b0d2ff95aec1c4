/-
Bolide.Lib.Percent — percent-encoding.

`Decodes` says which bytes a text stands for: an escape is a percent sign
and two hexadecimal digits, and every other character stands for its UTF-8.
A text may be encoded in many ways, `percentEncode` is one of them. A reader
that takes the two digits for a number also takes a plus sign for the first
one, and `zeroPlus` is the text such a reader reads.
-/
import Bolide.Lib.Utf8

namespace Lib

namespace Text

/-! ## Escapes -/

/-- The bytes that a text stands for. -/
inductive Decodes : Text → List UInt8 → Prop
  | nil : Decodes [] []
  | plain {c : Char} {s : Text} {bytes : List UInt8} :
      c ≠ '%' → Decodes s bytes → Decodes (c :: s) (String.utf8EncodeChar c ++ bytes)
  | escape {a b : Char} {x y : Nat} {s : Text} {bytes : List UInt8} :
      toDigit 16 a = some x → toDigit 16 b = some y → Decodes s bytes →
      Decodes ('%' :: a :: b :: s) (UInt8.ofNat (x * 16 + y) :: bytes)

section Decodes

variable {a b c : Char} {s : Text} {bytes : List UInt8}

theorem decodes_plain (hc : c ≠ '%') :
    Decodes (c :: s) bytes ↔ ∃ rest, Decodes s rest ∧ bytes = String.utf8EncodeChar c ++ rest := by
  constructor
  · intro h
    cases h with
    | plain _ hrest => exact ⟨_, hrest, rfl⟩
    | escape => exact absurd rfl hc
  · rintro ⟨rest, hrest, rfl⟩
    exact .plain hc hrest

theorem decodes_escape :
    Decodes ('%' :: a :: b :: s) bytes ↔ ∃ x y rest, toDigit 16 a = some x ∧
      toDigit 16 b = some y ∧ Decodes s rest ∧ bytes = UInt8.ofNat (x * 16 + y) :: rest := by
  constructor
  · intro h
    cases h with
    | plain hne _ => exact absurd rfl hne
    | escape hx hy hrest => exact ⟨_, _, _, hx, hy, hrest, rfl⟩
  · rintro ⟨x, y, rest, hx, hy, hrest, rfl⟩
    exact .escape hx hy hrest

/-- An escape that is cut off stands for nothing. -/
theorem not_decodes_short (hs : s.length < 2) : ¬ Decodes ('%' :: s) bytes := by
  intro h
  cases h with
  | plain hne _ => exact hne rfl
  | escape => simp at hs

end Decodes

/-! ## Numbers of two digits -/

theorem toDigit_lt {radix d : Nat} {c : Char} (h : toDigit radix c = some d) : d < radix := by
  simp only [toDigit, Option.ite_none_right_eq_some, Option.some.injEq] at h
  omega

theorem toDigit_plus (radix : Nat) : toDigit radix '+' = none := by
  simp [toDigit]

/-- The first of two digits, with a zero for a plus sign before a digit. -/
def firstDigit (a b : Char) : Char := if a = '+' ∧ (toDigit 16 b).isSome then '0' else a

/-- A number of two digits, or of a plus sign and one digit. -/
theorem fromStrRadix_pair {a b : Char} {n : Nat} :
    fromStrRadix 16 256 [a, b] = some n ↔
      ∃ x y, toDigit 16 (firstDigit a b) = some x ∧ toDigit 16 b = some y ∧ n = x * 16 + y := by
  have hzero : toDigit 16 '0' = some 0 := by decide
  by_cases ha : a = '+'
  · subst ha
    cases hb : toDigit 16 b with
    | none => simp [fromStrRadix, List.isPrefixOf?, valueFrom, hb]
    | some d =>
        have hd := toDigit_lt hb
        have hlt : d < 256 := by omega
        have hread : fromStrRadix 16 256 ['+', b] = some d := by
          simp [fromStrRadix, List.isPrefixOf?, valueFrom, hb, Option.filter, hlt]
        have hfirst : firstDigit '+' b = '0' := if_pos ⟨rfl, by simp [hb]⟩
        simp [hread, hfirst, hzero, eq_comm]
  · have hprefix : ['+'].isPrefixOf? [a, b] = none := by
      simp [List.isPrefixOf?, Ne.symm ha]
    have hfirst : firstDigit a b = a := if_neg fun h => ha h.1
    rw [hfirst]
    cases hx : toDigit 16 a with
    | none => simp [fromStrRadix, hprefix, valueFrom, hx]
    | some x =>
        cases hy : toDigit 16 b with
        | none => simp [fromStrRadix, hprefix, valueFrom, hx, hy]
        | some y =>
            have hxlt := toDigit_lt hx
            have hylt := toDigit_lt hy
            have hlt : x * 16 + y < 256 := by omega
            have hread : fromStrRadix 16 256 [a, b] = some (x * 16 + y) := by
              simp [fromStrRadix, hprefix, valueFrom, hx, hy, Option.filter, hlt]
            simp [hread, eq_comm]

/-- The text that is read by a reader to whom `+f` is a number too. -/
def zeroPlus : Text → Text
  | [] => []
  | '%' :: a :: b :: s => '%' :: firstDigit a b :: b :: zeroPlus s
  | c :: s => c :: zeroPlus s

theorem zeroPlus_escape (a b : Char) (s : Text) :
    zeroPlus ('%' :: a :: b :: s) = '%' :: firstDigit a b :: b :: zeroPlus s := rfl

theorem zeroPlus_short {s : Text} (hs : s.length < 2) : zeroPlus ('%' :: s) = '%' :: s := by
  rcases s with _ | ⟨a, _ | ⟨b, s⟩⟩
  · rfl
  · simp [zeroPlus]
  · simp at hs

theorem zeroPlus_plain {c : Char} (hc : c ≠ '%') (s : Text) :
    zeroPlus (c :: s) = c :: zeroPlus s := by
  rw [zeroPlus]
  exact fun _ _ _ h => absurd h hc

/-- In a text that is decoded there is no plus sign in an escape. -/
theorem zeroPlus_of_decodes {s : Text} {bytes : List UInt8} (h : Decodes s bytes) :
    zeroPlus s = s := by
  induction h with
  | nil => rfl
  | plain hc _ ih => rw [zeroPlus_plain hc, ih]
  | @escape a b x y s bytes hx hy _ ih =>
      have hfirst : firstDigit a b = a := by
        refine if_neg fun h => ?_
        rw [h.1, toDigit_plus] at hx
        cases hx
      rw [zeroPlus_escape, hfirst, ih]

/-! ## Encoding -/

/-- A byte as an escape. -/
def escapeByte (byte : UInt8) : Text :=
  ['%', (byte.toNat / 16).digitChar, (byte.toNat % 16).digitChar]

/-- A text with `%` and the characters that satisfy `must` escaped. -/
def percentEncode (must : Char → Bool) : Text → Text
  | [] => []
  | c :: s =>
      (if c = '%' ∨ must c = true then (String.utf8EncodeChar c).flatMap escapeByte else [c]) ++
        percentEncode must s

theorem toDigit_high (byte : UInt8) :
    toDigit 16 (byte.toNat / 16).digitChar = some (byte.toNat / 16) := by
  have hlt := byte.toNat_lt
  exact toDigit_digitChar (Nat.le_refl 16) (by omega)

theorem toDigit_low (byte : UInt8) :
    toDigit 16 (byte.toNat % 16).digitChar = some (byte.toNat % 16) :=
  toDigit_digitChar (Nat.le_refl 16) (Nat.mod_lt _ (by decide))

theorem decodes_flatMap_escapeByte {s : Text} {bytes : List UInt8} (h : Decodes s bytes)
    (escaped : List UInt8) : Decodes (escaped.flatMap escapeByte ++ s) (escaped ++ bytes) := by
  induction escaped with
  | nil => exact h
  | cons byte escaped ih =>
      have hbyte : byte = UInt8.ofNat (byte.toNat / 16 * 16 + byte.toNat % 16) := by
        rw [Nat.div_add_mod', UInt8.ofNat_toNat]
      have hescape := Decodes.escape (toDigit_high byte) (toDigit_low byte) ih
      rw [← hbyte] at hescape
      exact hescape

theorem decodes_percentEncode (must : Char → Bool) (s : Text) :
    Decodes (percentEncode must s) (utf8Bytes s) := by
  induction s with
  | nil => exact .nil
  | cons c s ih =>
      rw [percentEncode, utf8Bytes_cons]
      split
      · exact decodes_flatMap_escapeByte ih _
      · next hc =>
          rw [not_or] at hc
          exact .plain hc.1 ih

theorem mem_escapeByte {c : Char} {byte : UInt8} (h : c ∈ escapeByte byte) :
    c = '%' ∨ (toDigit 16 c).isSome := by
  simp only [escapeByte, List.mem_cons, List.not_mem_nil, or_false] at h
  rcases h with rfl | rfl | rfl
  · exact .inl rfl
  · exact .inr (by rw [toDigit_high]; rfl)
  · exact .inr (by rw [toDigit_low]; rfl)

/-- What must be escaped is not in the encoding, if no escape has it. -/
theorem not_mem_percentEncode {must : Char → Bool} {c : Char} (hmust : must c = true)
    (hdigit : toDigit 16 c = none) (hpercent : c ≠ '%') (s : Text) : c ∉ percentEncode must s := by
  induction s with
  | nil => exact List.not_mem_nil
  | cons c' s ih =>
      rw [percentEncode, List.mem_append, not_or]
      refine ⟨?_, ih⟩
      split
      · rw [List.mem_flatMap]
        rintro ⟨byte, -, hc⟩
        rcases mem_escapeByte hc with h | h
        · exact hpercent h
        · rw [hdigit] at h
          cases h
      · next hc =>
          rw [List.mem_singleton]
          rintro rfl
          exact hc (.inr hmust)

end Text

end Lib
