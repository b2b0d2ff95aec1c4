/-
Bolide.Lib.SemVer — versions of Semantic Versioning 2.0.0, and their order.

A `Version` is what the grammar of a version is made of, and `Version.text`
writes it out, so that the valid strings are the texts of versions.
`Version.precedence` is the order of section 11: by major, minor and patch,
then by the prerelease, identifier by identifier, where numbers are ordered
by value and before all other identifiers, and a version without a
prerelease is above those with one. Build metadata has no part in it.
-/
import Bolide.Lib.Order

namespace Lib.SemVer

/-! ## Versions -/

/-- A digit, a letter or a hyphen. -/
def isIdentifierChar (c : Char) : Bool := (Text.toDigit 36 c).isSome || c == '-'

def isNotDigit (c : Char) : Bool := (Text.toDigit 10 c).isNone

/-- An identifier that is not a number. -/
def Alphanumeric : Type := {s : Text // s.all isIdentifierChar ∧ s.any isNotDigit}
  deriving DecidableEq

/-- An identifier of build metadata. -/
def BuildIdentifier : Type := {s : Text // s.all isIdentifierChar ∧ s ≠ []}
  deriving DecidableEq

/-- An identifier of a prerelease. -/
inductive Identifier where
  | numeric (n : Nat)
  | alphanumeric (s : Alphanumeric)
  deriving DecidableEq

/-- A number has no leading zeros. -/
def Identifier.text : Identifier → Text
  | numeric n => Nat.toDigits 10 n
  | alphanumeric s => s.1

structure Version where
  major : Nat
  minor : Nat
  patch : Nat
  -- no identifiers: no prerelease, and no build metadata
  pre : List Identifier
  build : List BuildIdentifier
  deriving DecidableEq

/-- Identifiers with dots between them. -/
def dotted (identifiers : List Text) : Text := ['.'].intercalate identifiers

/-- The numbers of a version. -/
def Version.coreText (v : Version) : Text :=
  dotted [Nat.toDigits 10 v.major, Nat.toDigits 10 v.minor, Nat.toDigits 10 v.patch]

def Version.preText (v : Version) : Text := dotted (v.pre.map Identifier.text)

def Version.buildText (v : Version) : Text := dotted (v.build.map Subtype.val)

def Version.text (v : Version) : Text :=
  v.coreText ++ (if v.pre = [] then [] else '-' :: v.preText) ++
    (if v.build = [] then [] else '+' :: v.buildText)

/-! ## Precedence -/

/-- Numbers by value, other identifiers in ASCII order, and numbers first. -/
def Identifier.precedence : Identifier → Identifier → Ordering
  | numeric n, numeric m => compare n m
  | numeric _, alphanumeric _ => .lt
  | alphanumeric _, numeric _ => .gt
  | alphanumeric s, alphanumeric t => Text.order s.1 t.1

/-- A prerelease is below its release; of two, the first difference decides,
or else the one with more identifiers is above. -/
def prePrecedence : List Identifier → List Identifier → Ordering
  | [], [] => .eq
  | [], _ :: _ => .gt
  | _ :: _, [] => .lt
  | x :: xs, y :: ys => List.compareLex Identifier.precedence (x :: xs) (y :: ys)

/-- The order of section 11. -/
def Version.precedence (a b : Version) : Ordering :=
  (compare a.major b.major).then ((compare a.minor b.minor).then
    ((compare a.patch b.patch).then (prePrecedence a.pre b.pre)))

/-- The example of section 11. -/
example :
    let alpha : Identifier := .alphanumeric ⟨"alpha".toList, by decide⟩
    let beta : Identifier := .alphanumeric ⟨"beta".toList, by decide⟩
    let rc : Identifier := .alphanumeric ⟨"rc".toList, by decide⟩
    let pres := [[alpha], [alpha, .numeric 1], [alpha, beta], [beta], [beta, .numeric 2],
      [beta, .numeric 11], [rc, .numeric 1], []]
    (pres.map fun pre => (⟨1, 0, 0, pre, []⟩ : Version)).Pairwise
      fun a b => a.precedence b = .lt := by decide

/-! ## What texts are made of -/

theorem isIdentifierChar_of_digit {c : Char} (h : (Text.toDigit 10 c).isSome) :
    isIdentifierChar c = true := by
  have hc := Text.toDigit_ten h
  have hsome : (Text.toDigit 36 c).isSome := by
    simp only [Text.toDigit, if_pos hc]
    rw [if_pos (by omega)]
    rfl
  rw [isIdentifierChar, hsome, Bool.true_or]

/-- What is in no identifier is in no number. -/
theorem not_mem_toDigits {c : Char} (hc : isIdentifierChar c = false) (n : Nat) :
    c ∉ Nat.toDigits 10 n := by
  intro hmem
  have hdigit := Text.isSome_toDigit (by decide) (by decide) hmem
  rw [isIdentifierChar_of_digit hdigit] at hc
  cases hc

theorem hyphen_not_mem_toDigits (n : Nat) : '-' ∉ Nat.toDigits 10 n := by
  intro hmem
  have hdigit := Text.isSome_toDigit (by decide) (by decide) hmem
  exact absurd hdigit (by decide)

namespace Identifier

theorem not_mem_text {c : Char} (hc : isIdentifierChar c = false) (x : Identifier) :
    c ∉ x.text := by
  cases x with
  | numeric n => exact not_mem_toDigits hc n
  | alphanumeric s =>
      intro hmem
      rw [List.all_eq_true.mp s.2.1 c hmem] at hc
      cases hc

/-- An identifier that is not a number has a character that is not a digit. -/
theorem exists_not_digit (s : Alphanumeric) :
    ∃ c ∈ s.1, Text.toDigit 10 c = none ∧ isIdentifierChar c = true := by
  obtain ⟨c, hmem, hc⟩ := List.any_eq_true.mp s.2.2
  exact ⟨c, hmem, Option.isNone_iff_eq_none.mp hc, List.all_eq_true.mp s.2.1 c hmem⟩

theorem text_injective : Function.Injective text := by
  have hnot : ∀ n (s : Alphanumeric), Nat.toDigits 10 n ≠ s.1 := by
    intro n s heq
    obtain ⟨c, hmem, hc, -⟩ := exists_not_digit s
    have hdigit := Text.isSome_toDigit (by decide) (by decide) (heq ▸ hmem)
    rw [hc] at hdigit
    cases hdigit
  intro x y h
  cases x with
  | numeric n =>
      cases y with
      | numeric m =>
          have hvalue := congrArg (Text.valueFrom 10 0) h
          rw [text, text, Text.valueFrom_toDigits (by decide) (by decide),
            Text.valueFrom_toDigits (by decide) (by decide)] at hvalue
          rw [Option.some.inj hvalue]
      | alphanumeric t => exact absurd h (hnot n t)
  | alphanumeric s =>
      cases y with
      | numeric m => exact absurd h.symm (hnot m s)
      | alphanumeric t => rw [Subtype.ext h]

theorem precedence_self (x : Identifier) : x.precedence x = .eq := by
  cases x with
  | numeric n => exact compare_eq_iff_eq.mpr rfl
  | alphanumeric s => exact Text.order_self s.1

theorem precedence_eq_eq {x y : Identifier} : x.precedence y = .eq ↔ x = y := by
  refine ⟨fun h => ?_, fun h => h ▸ precedence_self x⟩
  cases x with
  | numeric n =>
      cases y with
      | numeric m => rw [compare_eq_iff_eq.mp h]
      | alphanumeric t => cases h
  | alphanumeric s =>
      cases y with
      | numeric m => cases h
      | alphanumeric t =>
          rw [Subtype.ext (Text.order_eq_eq.mp h)]

end Identifier

theorem mem_dotted {c : Char} {identifiers : List Text} (h : c ∈ dotted identifiers) :
    c = '.' ∨ ∃ s ∈ identifiers, c ∈ s := by
  induction identifiers with
  | nil => cases h
  | cons s identifiers ih =>
      cases identifiers with
      | nil =>
          rw [dotted, List.intercalate_singleton] at h
          exact .inr ⟨s, List.mem_singleton_self s, h⟩
      | cons t identifiers =>
          rw [dotted, List.intercalate_cons_cons, List.append_assoc] at h
          rcases List.mem_append.mp h with h | h
          · exact .inr ⟨s, List.mem_cons_self, h⟩
          · rcases List.mem_cons.mp h with h | h
            · exact .inl h
            · rcases ih h with h | ⟨u, hu, h⟩
              · exact .inl h
              · exact .inr ⟨u, List.mem_cons_of_mem s hu, h⟩

namespace Version

theorem mem_coreText {v : Version} {c : Char} (h : c ∈ v.coreText) :
    c = '.' ∨ ∃ n, c ∈ Nat.toDigits 10 n := by
  rcases mem_dotted h with h | ⟨s, hs, h⟩
  · exact .inl h
  · simp only [List.mem_cons, List.not_mem_nil, or_false] at hs
    rcases hs with rfl | rfl | rfl
    · exact .inr ⟨_, h⟩
    · exact .inr ⟨_, h⟩
    · exact .inr ⟨_, h⟩

theorem hyphen_not_mem_coreText (v : Version) : '-' ∉ v.coreText := by
  intro h
  rcases mem_coreText h with h | ⟨n, h⟩
  · exact absurd h (by decide)
  · exact hyphen_not_mem_toDigits n h

theorem plus_not_mem_coreText (v : Version) : '+' ∉ v.coreText := by
  intro h
  rcases mem_coreText h with h | ⟨n, h⟩
  · exact absurd h (by decide)
  · exact not_mem_toDigits (by decide) n h

theorem plus_not_mem_preText (v : Version) : '+' ∉ v.preText := by
  intro h
  rcases mem_dotted h with h | ⟨s, hs, h⟩
  · exact absurd h (by decide)
  · obtain ⟨x, -, rfl⟩ := List.mem_map.mp hs
    exact x.not_mem_text (by decide) h

theorem splitOn_coreText (v : Version) : v.coreText.splitOn '.' =
    [Nat.toDigits 10 v.major, Nat.toDigits 10 v.minor, Nat.toDigits 10 v.patch] := by
  refine List.splitOn_intercalate '.' ?_ (by simp)
  intro s hs
  simp only [List.mem_cons, List.not_mem_nil, or_false] at hs
  rcases hs with rfl | rfl | rfl <;> exact not_mem_toDigits (by decide) _

theorem splitOn_preText {v : Version} (h : v.pre ≠ []) :
    v.preText.splitOn '.' = v.pre.map Identifier.text := by
  refine List.splitOn_intercalate '.' ?_ (by simpa using h)
  intro s hs
  obtain ⟨x, -, rfl⟩ := List.mem_map.mp hs
  exact x.not_mem_text (by decide)

end Version

end Lib.SemVer
