/-
Bolide.Lib.Text — strings as lists of characters.

The functions of `str` that take a string apart, and the reading of an
unsigned number. `trim` goes by Unicode's White_Space, and a number may
carry a plus sign and leading zeros.
-/
import Mathlib

namespace Lib

/-- The characters of a string. -/
abbrev Text : Type := List Char

namespace Text

/-- Unicode's White_Space. -/
def isWhitespace (c : Char) : Bool :=
  (9 ≤ c.toNat && c.toNat ≤ 13) || (0x2000 ≤ c.toNat && c.toNat ≤ 0x200a) ||
    [0x20, 0x85, 0xa0, 0x1680, 0x2028, 0x2029, 0x202f, 0x205f, 0x3000].contains c.toNat

/-- Without the characters at the end that satisfy `p`. -/
def trimEnd (p : Char → Bool) (s : Text) : Text := (s.reverse.dropWhile p).reverse

def trim (s : Text) : Text := trimEnd isWhitespace (s.dropWhile isWhitespace)

/-- What is before and what is after the first place of `sep`. -/
def splitOnce (sep : Text) : Text → Option (Text × Text)
  | [] => if sep = [] then some ([], []) else none
  | c :: s =>
      match sep.isPrefixOf? (c :: s) with
      | some rest => some ([], rest)
      | none => (splitOnce sep s).map (fun parts => (c :: parts.1, parts.2))

/-- What is before and what is after the last place of `sep`. -/
def rsplitOnce (sep s : Text) : Option (Text × Text) :=
  (splitOnce sep.reverse s.reverse).map (fun parts => (parts.2.reverse, parts.1.reverse))

/-! ## Places -/

section Places

variable {sep : Char} {s before after : Text}

theorem splitOnce_append (h : sep ∉ before) (after : Text) :
    splitOnce [sep] (before ++ sep :: after) = some (before, after) := by
  induction before with
  | nil => simp [splitOnce, List.isPrefixOf?]
  | cons c before ih =>
      rw [List.mem_cons, not_or] at h
      simp [splitOnce, List.isPrefixOf?, h.1, ih h.2]

theorem splitOnce_eq_none (h : sep ∉ s) : splitOnce [sep] s = none := by
  induction s with
  | nil => simp [splitOnce]
  | cons c s ih =>
      rw [List.mem_cons, not_or] at h
      simp [splitOnce, List.isPrefixOf?, h.1, ih h.2]

theorem splitOnce_eq_some (h : splitOnce [sep] s = some (before, after)) :
    s = before ++ sep :: after ∧ sep ∉ before := by
  by_cases hmem : sep ∈ s
  · obtain ⟨before', after', rfl, hbefore⟩ := List.eq_append_cons_of_mem hmem
    rw [splitOnce_append hbefore] at h
    cases h
    exact ⟨rfl, hbefore⟩
  · rw [splitOnce_eq_none hmem] at h
    cases h

theorem rsplitOnce_append (before : Text) (h : sep ∉ after) :
    rsplitOnce [sep] (before ++ sep :: after) = some (before, after) := by
  have hreverse : (before ++ sep :: after).reverse = after.reverse ++ sep :: before.reverse := by
    simp
  rw [rsplitOnce, hreverse, List.reverse_singleton, splitOnce_append (by simpa using h)]
  simp

theorem rsplitOnce_eq_none (h : sep ∉ s) : rsplitOnce [sep] s = none := by
  rw [rsplitOnce, List.reverse_singleton, splitOnce_eq_none (by simpa using h)]
  rfl

theorem not_mem_of_rsplitOnce (h : rsplitOnce [sep] s = none) : sep ∉ s := by
  intro hmem
  obtain ⟨after, before, hs, hafter⟩ := List.eq_append_cons_of_mem (List.mem_reverse.mpr hmem)
  have hs := congrArg List.reverse hs
  rw [List.reverse_reverse, List.reverse_append, List.reverse_cons, List.append_assoc] at hs
  rw [hs, List.singleton_append, rsplitOnce_append _ (by simpa using hafter)] at h
  cases h

theorem rsplitOnce_eq_some (h : rsplitOnce [sep] s = some (before, after)) :
    s = before ++ sep :: after ∧ sep ∉ after := by
  obtain ⟨⟨a, b⟩, hsplit, heq⟩ := Option.map_eq_some_iff.mp h
  cases heq
  rw [List.reverse_singleton] at hsplit
  obtain ⟨hs, ha⟩ := splitOnce_eq_some hsplit
  have hs := congrArg List.reverse hs
  rw [List.reverse_reverse, List.reverse_append, List.reverse_cons, List.append_assoc] at hs
  exact ⟨hs, by simpa using ha⟩

theorem trimEnd_eq_self {p : Char → Bool} (h : ∀ c ∈ s.getLast?, p c = false) :
    trimEnd p s = s := by
  rw [← List.head?_reverse] at h
  rw [trimEnd]
  cases hs : s.reverse with
  | nil => rw [List.reverse_eq_nil_iff.mp hs]; rfl
  | cons c rest =>
      rw [hs] at h
      rw [List.dropWhile_cons_of_neg (by simpa using h c rfl), ← hs, List.reverse_reverse]

theorem dropWhile_eq_self {α : Type} {p : α → Bool} {l : List α} (h : ∀ a ∈ l.head?, p a = false) :
    l.dropWhile p = l := by
  cases l with
  | nil => rfl
  | cons a l => rw [List.dropWhile_cons_of_neg (by simpa using h a rfl)]

/-- What is left starts with none of what was dropped. -/
theorem head?_dropWhile {α : Type} {p : α → Bool} {l : List α} {a : α}
    (h : a ∈ (l.dropWhile p).head?) : p a = false := by
  have hnot := List.head?_dropWhile_not p l
  rw [Option.mem_def.mp h] at hnot
  exact hnot

end Places

/-! ## Numbers -/

/-- `char::to_digit`. -/
def toDigit (radix : Nat) (c : Char) : Option Nat :=
  let d := if 48 ≤ c.toNat ∧ c.toNat ≤ 57 then c.toNat - 48
    else if 97 ≤ c.toNat ∧ c.toNat ≤ 122 then c.toNat - 87
    else if 65 ≤ c.toNat ∧ c.toNat ≤ 90 then c.toNat - 55
    else radix
  if d < radix then some d else none

/-- The number that digits denote, after `n`. -/
def valueFrom (radix n : Nat) : Text → Option Nat
  | [] => some n
  | c :: s => do
      let d ← toDigit radix c
      valueFrom radix (n * radix + d) s

/-- `from_str_radix` of an unsigned type: a number below `bound`. -/
def fromStrRadix (radix bound : Nat) (s : Text) : Option Nat :=
  let digits := (['+'].isPrefixOf? s).getD s
  if digits = [] then none else (valueFrom radix 0 digits).filter (fun n => n < bound)

/-- An unsigned decimal number below `bound`. -/
def parseUnsigned (bound : Nat) (s : Text) : Option Nat := fromStrRadix 10 bound s

theorem toDigit_ten {c : Char} (h : (toDigit 10 c).isSome) : 48 ≤ c.toNat ∧ c.toNat ≤ 57 := by
  obtain ⟨d, hd⟩ := Option.isSome_iff_exists.mp h
  simp only [toDigit, Option.ite_none_right_eq_some] at hd
  obtain ⟨hlt, -⟩ := hd
  split_ifs at hlt <;> omega

theorem isWhitespace_digit {c : Char} (h : (toDigit 10 c).isSome) : isWhitespace c = false := by
  have hdigit := toDigit_ten h
  have hother : c.toNat ∉ [0x20, 0x85, 0xa0, 0x1680, 0x2028, 0x2029, 0x202f, 0x205f, 0x3000] := by
    intro hmem
    simp only [List.mem_cons, List.not_mem_nil, or_false] at hmem
    omega
  rw [isWhitespace, List.contains_eq_mem, decide_eq_false hother, Bool.or_false,
    Bool.or_eq_false_iff, Bool.and_eq_false_iff, Bool.and_eq_false_iff]
  simp only [decide_eq_false_iff_not]
  omega

theorem valueFrom_append (radix n : Nat) (s t : Text) :
    valueFrom radix n (s ++ t) = (valueFrom radix n s).bind (fun m => valueFrom radix m t) := by
  induction s generalizing n with
  | nil => rfl
  | cons c s ih => cases hd : toDigit radix c <;> simp [valueFrom, hd, ih]

theorem valueFrom_eq_none {radix : Nat} {c : Char} {s : Text} (hc : c ∈ s)
    (hdigit : toDigit radix c = none) (n : Nat) : valueFrom radix n s = none := by
  induction s generalizing n with
  | nil => cases hc
  | cons c' s ih =>
      rcases List.mem_cons.mp hc with rfl | hc
      · simp [valueFrom, hdigit]
      · cases hd : toDigit radix c' with
        | none => simp [valueFrom, hd]
        | some d => simp [valueFrom, hd, ih hc]

/-- A text with a character that is no digit is no number. -/
theorem fromStrRadix_eq_none {radix bound : Nat} {c : Char} {s : Text} (hc : c ∈ s)
    (hdigit : toDigit radix c = none) (hplus : c ≠ '+') : fromStrRadix radix bound s = none := by
  have hmem : c ∈ (['+'].isPrefixOf? s).getD s := by
    cases s with
    | nil => cases hc
    | cons c' s =>
        by_cases hc' : '+' = c'
        · subst hc'
          simpa [List.isPrefixOf?, hplus] using hc
        · simpa [List.isPrefixOf?, hc'] using hc
  simp [fromStrRadix, valueFrom_eq_none hmem hdigit]

section Digits

variable {radix : Nat}

theorem toDigit_digitChar (hradix : radix ≤ 16) {d : Nat} (hd : d < radix) :
    toDigit radix d.digitChar = some d := by
  have hdigit : ∀ d < 16, (toDigit 16 d.digitChar) = some d := by decide
  have h := hdigit d (by omega)
  unfold toDigit at h ⊢
  simp only [Option.ite_none_right_eq_some, Option.some.injEq] at h ⊢
  split_ifs at h ⊢ <;> omega

/-- What is written with digits is read back. -/
theorem valueFrom_toDigits (h : 1 < radix) (hradix : radix ≤ 16) (n : Nat) :
    valueFrom radix 0 (Nat.toDigits radix n) = some n := by
  induction n using Nat.strongRecOn with
  | ind n ih =>
      rw [Nat.toDigits_eq_if h]
      split
      · next hlt => simp [valueFrom, toDigit_digitChar hradix hlt]
      · next hle =>
          rw [valueFrom_append, ih (n / radix) (Nat.div_lt_self (by omega) h)]
          simp [valueFrom, toDigit_digitChar hradix (Nat.mod_lt n (by omega : 0 < radix)),
            Nat.div_add_mod']

theorem isSome_toDigit (h : 1 < radix) (hradix : radix ≤ 16) {n : Nat} {c : Char}
    (hc : c ∈ Nat.toDigits radix n) : (toDigit radix c).isSome := by
  induction n using Nat.strongRecOn with
  | ind n ih =>
      rw [Nat.toDigits_eq_if h] at hc
      split at hc
      · next hlt =>
          rw [List.mem_singleton.mp hc, toDigit_digitChar hradix hlt]
          rfl
      · next hle =>
          rcases List.mem_append.mp hc with hc | hc
          · exact ih (n / radix) (Nat.div_lt_self (by omega) h) hc
          · rw [List.mem_singleton.mp hc,
              toDigit_digitChar hradix (Nat.mod_lt n (by omega : 0 < radix))]
            rfl

/-- A number has no sign. -/
theorem isPrefixOf?_toDigits (h : 1 < radix) (hradix : radix ≤ 16) (n : Nat) :
    ['+'].isPrefixOf? (Nat.toDigits radix n) = none := by
  cases hdigits : Nat.toDigits radix n with
  | nil => rfl
  | cons c s =>
      have hc := isSome_toDigit h hradix (n := n) (c := c) (by simp [hdigits])
      have hne : '+' ≠ c := by
        rintro rfl
        have hplus : toDigit radix '+' = none := by simp [toDigit]
        rw [hplus] at hc
        cases hc
      simp [List.isPrefixOf?, hne]

/-- A number is read back if it is below the bound. -/
theorem fromStrRadix_toDigits_eq (h : 1 < radix) (hradix : radix ≤ 16) (bound n : Nat) :
    fromStrRadix radix bound (Nat.toDigits radix n) = if n < bound then some n else none := by
  simp [fromStrRadix, isPrefixOf?_toDigits h hradix, valueFrom_toDigits h hradix, Option.filter]

theorem fromStrRadix_toDigits (h : 1 < radix) (hradix : radix ≤ 16) {bound n : Nat}
    (hn : n < bound) : fromStrRadix radix bound (Nat.toDigits radix n) = some n := by
  rw [fromStrRadix_toDigits_eq h hradix, if_pos hn]

theorem parseUnsigned_toDigits {bound n : Nat} (hn : n < bound) :
    parseUnsigned bound (Nat.toDigits 10 n) = some n :=
  fromStrRadix_toDigits (by decide) (by decide) hn

end Digits

/-- The order of strings. -/
def order (x y : Text) : Ordering := compareOfLessAndEq x y

end Text

end Lib
