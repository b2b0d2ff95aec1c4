/-
Bolide.Cli.VersionTheorems — how far `compare_versions` is the precedence of
Semantic Versioning, and what `update` installs by it.

`splitVersion` takes a valid version apart, and an identifier is compared as
a number when it fits a `u64`. Of two versions whose first different
identifiers are both `Ahead` where they have to be, the order is that of
SemVer, and of no others (`compareVersions_eq_iff`).
-/
import Bolide.Cli.Update
import Bolide.Lib.SemVer

namespace Bolide.Cli.Release

open Lib SemVer

/-! ## Taking a version apart -/

/-- The numbers of a version fit a `u64`. -/
def Fits (v : Version) : Prop := v.major < 2 ^ 64 ∧ v.minor < 2 ^ 64 ∧ v.patch < 2 ^ 64

/-- What `compare_versions` compares. -/
abbrev Parts : Type := (Nat × Nat × Nat) × Option Text

/-- The parts of a valid version. -/
def parts (v : Version) : Parts :=
  ((v.major, v.minor, v.patch), if v.pre = [] then none else some v.preText)

/-- Neither a build nor the hyphens and dots in the prerelease get in the way. -/
theorem splitVersion_text {v : Version} (h : Fits v) : splitVersion v.text = some (parts v) := by
  have hfront : '+' ∉ v.coreText ++ (if v.pre = [] then [] else '-' :: v.preText) := by
    intro hmem
    rcases List.mem_append.mp hmem with hmem | hmem
    · exact v.plus_not_mem_coreText hmem
    · split at hmem
      · cases hmem
      · rcases List.mem_cons.mp hmem with hmem | hmem
        · exact absurd hmem (by decide)
        · exact v.plus_not_mem_preText hmem
  have hbuild : ((Text.splitOnce ['+'] v.text).map (fun parts => parts.1)).getD v.text =
      v.coreText ++ (if v.pre = [] then [] else '-' :: v.preText) := by
    rw [Version.text]
    by_cases hb : v.build = []
    · rw [if_pos hb, List.append_nil, Text.splitOnce_eq_none hfront]
      rfl
    · rw [if_neg hb, Text.splitOnce_append hfront]
      rfl
  rw [splitVersion, hbuild]
  by_cases hp : v.pre = []
  · rw [if_pos hp, List.append_nil, Text.splitOnce_eq_none v.hyphen_not_mem_coreText]
    simp only [v.splitOn_coreText]
    rw [Text.parseUnsigned_toDigits h.1, Text.parseUnsigned_toDigits h.2.1,
      Text.parseUnsigned_toDigits h.2.2, parts, if_pos hp]
    rfl
  · rw [if_neg hp, Text.splitOnce_append v.hyphen_not_mem_coreText]
    simp only [v.splitOn_coreText]
    rw [Text.parseUnsigned_toDigits h.1, Text.parseUnsigned_toDigits h.2.1,
      Text.parseUnsigned_toDigits h.2.2, parts, if_neg hp]
    rfl

/-! ## Identifiers -/

/-- The number that the code takes an identifier for. -/
def fitting : Identifier → Option Nat
  | .numeric n => if n < 2 ^ 64 then some n else none
  | .alphanumeric _ => none

theorem parseUnsigned_text (x : Identifier) : Text.parseUnsigned (2 ^ 64) x.text = fitting x := by
  cases x with
  | numeric n => exact Text.fromStrRadix_toDigits_eq (by decide) (by decide) _ n
  | alphanumeric s =>
      obtain ⟨c, hmem, hdigit, hc⟩ := Identifier.exists_not_digit s
      have hplus : c ≠ '+' := by
        rintro rfl
        exact absurd hc (by decide)
      exact Text.fromStrRadix_eq_none hmem hdigit hplus

theorem compareIdentifier_self (x : Identifier) : compareIdentifier x.text x.text = .eq := by
  rw [compareIdentifier, parseUnsigned_text]
  cases fitting x with
  | none => exact Text.order_self x.text
  | some n => exact compare_eq_iff_eq.mpr rfl

theorem fitting_eq_some {x : Identifier} {n : Nat} (h : fitting x = some n) : x = .numeric n := by
  cases x with
  | numeric m =>
      rw [fitting, Option.ite_none_right_eq_some] at h
      rw [Option.some.inj h.2]
  | alphanumeric s => cases h

/-- Identifiers that differ are not equal to the code either. -/
theorem compareIdentifier_eq_eq {x y : Identifier}
    (h : compareIdentifier x.text y.text = .eq) : x = y := by
  rw [compareIdentifier, parseUnsigned_text, parseUnsigned_text] at h
  cases hx : fitting x with
  | none =>
      cases hy : fitting y with
      | none =>
          rw [hx, hy] at h
          exact Identifier.text_injective (Text.order_eq_eq.mp h)
      | some m =>
          rw [hx, hy] at h
          cases h
  | some n =>
      cases hy : fitting y with
      | none =>
          rw [hx, hy] at h
          cases h
      | some m =>
          rw [hx, hy] at h
          rw [fitting_eq_some hx, fitting_eq_some hy, compare_eq_iff_eq.mp h]

/-- A number of 2^64 or more has to come first in ASCII order where the other
identifier is a longer number, or no number. -/
def Ahead : Identifier → Identifier → Prop
  | .numeric n, .numeric m => 2 ^ 64 ≤ n →
      (Nat.toDigits 10 n).length < (Nat.toDigits 10 m).length →
      Nat.toDigits 10 n < Nat.toDigits 10 m
  | .numeric n, .alphanumeric s => 2 ^ 64 ≤ n → Nat.toDigits 10 n < s.1
  | .alphanumeric _, _ => True

theorem ahead_of_lt {n : Nat} (h : n < 2 ^ 64) (y : Identifier) : Ahead (.numeric n) y := by
  cases y with
  | numeric m => exact fun hlong => absurd h (Nat.not_lt.mpr hlong)
  | alphanumeric t => exact fun hlong => absurd h (Nat.not_lt.mpr hlong)

theorem ahead_of_le {n m : Nat} (h : m ≤ n) : Ahead (.numeric n) (.numeric m) := by
  intro _ hlonger
  exact absurd (Text.length_toDigits_mono h) (Nat.not_le.mpr hlonger)

/-- Two long numbers: the order of their digits is that of their values if they have the same
number of digits, and otherwise if the shorter one comes first. -/
theorem order_long {n m : Nat} (hn : 2 ^ 64 ≤ n) (hm : 2 ^ 64 ≤ m) :
    Text.order (Nat.toDigits 10 n) (Nat.toDigits 10 m) = compare n m ↔
      Ahead (.numeric n) (.numeric m) ∧ Ahead (.numeric m) (.numeric n) := by
  rcases lt_trichotomy (Nat.toDigits 10 n).length (Nat.toDigits 10 m).length with h | h | h
  · have hlt : n < m := by
      by_contra hle
      exact absurd (Text.length_toDigits_mono (Nat.not_lt.mp hle)) (Nat.not_le.mpr h)
    rw [compare_lt_iff_lt.mpr hlt, Text.order_eq_lt]
    exact ⟨fun hahead => ⟨fun _ _ => hahead, ahead_of_le hlt.le⟩, fun hahead => hahead.1 hn h⟩
  · rw [Text.order_digits h (Text.valueFrom_toDigits (by decide) (by decide) n)
      (Text.valueFrom_toDigits (by decide) (by decide) m)]
    exact iff_of_true rfl ⟨fun _ hlt => absurd h (Nat.ne_of_lt hlt),
      fun _ hlt => absurd h (Nat.ne_of_gt hlt)⟩
  · have hlt : m < n := by
      by_contra hle
      exact absurd (Text.length_toDigits_mono (Nat.not_lt.mp hle)) (Nat.not_le.mpr h)
    rw [compare_gt_iff_gt.mpr hlt, Text.order_eq_gt]
    exact ⟨fun hahead => ⟨ahead_of_le hlt.le, fun _ _ => hahead⟩, fun hahead => hahead.2 hm h⟩

/-- The code orders two identifiers as SemVer does exactly where both are ahead if they have to
be. -/
theorem compareIdentifier_iff (x y : Identifier) :
    compareIdentifier x.text y.text = x.precedence y ↔ Ahead x y ∧ Ahead y x := by
  rw [compareIdentifier, parseUnsigned_text, parseUnsigned_text]
  cases x with
  | numeric n =>
      cases y with
      | numeric m =>
          by_cases hn : n < 2 ^ 64
          · by_cases hm : m < 2 ^ 64
            · simp only [fitting, if_pos hn, if_pos hm]
              exact iff_of_true rfl ⟨ahead_of_lt hn _, ahead_of_lt hm _⟩
            · have hlt : n < m := by omega
              simp only [fitting, if_pos hn, if_neg hm]
              exact iff_of_true (compare_lt_iff_lt.mpr hlt).symm
                ⟨ahead_of_lt hn _, ahead_of_le hlt.le⟩
          · by_cases hm : m < 2 ^ 64
            · have hlt : m < n := by omega
              simp only [fitting, if_neg hn, if_pos hm]
              exact iff_of_true (compare_gt_iff_gt.mpr hlt).symm
                ⟨ahead_of_le hlt.le, ahead_of_lt hm _⟩
            · simp only [fitting, if_neg hn, if_neg hm]
              exact order_long (Nat.not_lt.mp hn) (Nat.not_lt.mp hm)
      | alphanumeric t =>
          by_cases hn : n < 2 ^ 64
          · simp only [fitting, if_pos hn]
            exact iff_of_true rfl ⟨ahead_of_lt hn _, trivial⟩
          · simp only [fitting, if_neg hn]
            exact ⟨fun h => ⟨fun _ => Text.order_eq_lt.mp h, trivial⟩,
              fun h => Text.order_eq_lt.mpr (h.1 (Nat.not_lt.mp hn))⟩
  | alphanumeric s =>
      cases y with
      | numeric m =>
          by_cases hm : m < 2 ^ 64
          · simp only [fitting, if_pos hm]
            exact iff_of_true rfl ⟨trivial, ahead_of_lt hm _⟩
          · simp only [fitting, if_neg hm]
            exact ⟨fun h => ⟨trivial, fun _ => Text.order_eq_gt.mp h⟩,
              fun h => Text.order_eq_gt.mpr (h.2 (Nat.not_lt.mp hm))⟩
      | alphanumeric t => exact iff_of_true rfl ⟨trivial, trivial⟩

/-! ## Prereleases and versions -/

/-- The loop is the order of lists. -/
theorem compareIdentifiers_eq (xs ys : List Text) :
    compareIdentifiers xs ys = List.compareLex compareIdentifier xs ys := by
  induction xs generalizing ys with
  | nil => cases ys <;> rfl
  | cons x xs ih =>
      cases ys with
      | nil => rfl
      | cons y ys => rw [compareIdentifiers, List.compareLex_cons_cons, ih]

/-- The first identifiers that differ are ahead where they have to be. -/
def AllAhead (xs ys : List Identifier) : Prop :=
  ∀ same x xs' y ys', xs = same ++ x :: xs' → ys = same ++ y :: ys' → x ≠ y →
    Ahead x y ∧ Ahead y x

theorem allAhead_cons_self (x : Identifier) (xs ys : List Identifier) :
    AllAhead (x :: xs) (x :: ys) ↔ AllAhead xs ys := by
  constructor
  · rintro h same x' xs' y' ys' rfl rfl
    exact h (x :: same) x' xs' y' ys' rfl rfl
  · intro h same x' xs' y' ys' hxs hys hne
    cases same with
    | nil =>
        cases hxs
        cases hys
        exact absurd rfl hne
    | cons z same =>
        cases hxs
        exact h same x' xs' y' ys' rfl (List.cons.inj hys).2 hne

theorem allAhead_cons_cons {x y : Identifier} (hne : x ≠ y) (xs ys : List Identifier) :
    AllAhead (x :: xs) (y :: ys) ↔ Ahead x y ∧ Ahead y x := by
  constructor
  · intro h
    exact h [] x xs y ys rfl rfl hne
  · intro h same x' xs' y' ys' hxs hys _
    cases same with
    | nil =>
        cases hxs
        cases hys
        exact h
    | cons z same =>
        cases hxs
        cases hys
        exact absurd rfl hne

theorem allAhead_nil_left (ys : List Identifier) : AllAhead [] ys := by
  intro same x xs' y ys' hxs
  cases same <;> cases hxs

theorem allAhead_nil_right (xs : List Identifier) : AllAhead xs [] := by
  intro same x xs' y ys' _ hys
  cases same <;> cases hys

theorem compareLex_iff (xs ys : List Identifier) :
    List.compareLex compareIdentifier (xs.map Identifier.text) (ys.map Identifier.text) =
      List.compareLex Identifier.precedence xs ys ↔ AllAhead xs ys := by
  induction xs generalizing ys with
  | nil => cases ys <;> exact iff_of_true rfl (allAhead_nil_left _)
  | cons x xs ih =>
      cases ys with
      | nil => exact iff_of_true rfl (allAhead_nil_right _)
      | cons y ys =>
          rw [List.map_cons, List.map_cons, List.compareLex_cons_cons, List.compareLex_cons_cons]
          by_cases h : x = y
          · subst h
            rw [compareIdentifier_self, x.precedence_self, Ordering.eq_then, Ordering.eq_then, ih,
              allAhead_cons_self]
          · rw [allAhead_cons_cons h, ← compareIdentifier_iff,
              then_of_ne_eq (fun heq => h (compareIdentifier_eq_eq heq)),
              then_of_ne_eq (fun heq => h (Identifier.precedence_eq_eq.mp heq))]

/-- The order of prereleases, the last of which is to have none. -/
def comparePre : Option Text → Option Text → Ordering
  | none, none => .eq
  | none, some _ => .gt
  | some _, none => .lt
  | some a, some b => comparePrerelease a b

/-- The order of versions that have been taken apart. -/
def compareParts (a b : Parts) : Ordering :=
  ((compare a.1.1 b.1.1).then ((compare a.1.2.1 b.1.2.1).then (compare a.1.2.2 b.1.2.2))).then
    (comparePre a.2 b.2)

theorem compareVersions_of_split {a b : Text} {x y : Parts}
    (ha : splitVersion a = some x) (hb : splitVersion b = some y) :
    compareVersions a b = some (compareParts x y) := by
  rw [compareVersions, ha, hb]
  obtain ⟨core, pre⟩ := x
  obtain ⟨core', pre'⟩ := y
  cases pre <;> cases pre' <;> rfl

theorem comparePre_iff (a b : Version) :
    comparePre (parts a).2 (parts b).2 = prePrecedence a.pre b.pre ↔ AllAhead a.pre b.pre := by
  cases ha : a.pre with
  | nil =>
      refine iff_of_true ?_ (allAhead_nil_left _)
      rw [parts, parts, if_pos ha]
      cases hb : b.pre with
      | nil => rfl
      | cons y ys => rfl
  | cons x xs =>
      cases hb : b.pre with
      | nil =>
          refine iff_of_true ?_ (allAhead_nil_right _)
          rw [parts, parts, if_neg (by simp [ha]), if_pos hb]
          rfl
      | cons y ys =>
          have ha' : a.pre ≠ [] := by simp [ha]
          have hb' : b.pre ≠ [] := by simp [hb]
          rw [parts, parts, if_neg ha', if_neg hb', comparePre, comparePrerelease,
            Version.splitOn_preText ha', Version.splitOn_preText hb', compareIdentifiers_eq, ha, hb]
          exact compareLex_iff (x :: xs) (y :: ys)

/-- The first identifiers that differ decide, if they do, and are ahead where they have to be. -/
def InOrder (a b : Version) : Prop :=
  a.major = b.major → a.minor = b.minor → a.patch = b.patch → AllAhead a.pre b.pre

theorem compareVersions_text {a b : Version} (ha : Fits a) (hb : Fits b) :
    compareVersions a.text b.text = some (compareParts (parts a) (parts b)) :=
  compareVersions_of_split (splitVersion_text ha) (splitVersion_text hb)

theorem compareVersions_eq_iff {a b : Version} (ha : Fits a) (hb : Fits b) :
    compareVersions a.text b.text = some (a.precedence b) ↔ InOrder a b := by
  rw [compareVersions_text ha hb, Option.some.injEq, compareParts, Version.precedence,
    Ordering.then_assoc, Ordering.then_assoc]
  show (compare a.major b.major).then ((compare a.minor b.minor).then
    ((compare a.patch b.patch).then (comparePre (parts a).2 (parts b).2))) = _ ↔ _
  rw [then_inj, then_inj, then_inj, compare_eq_iff_eq, compare_eq_iff_eq, compare_eq_iff_eq,
    comparePre_iff, InOrder]

/-! ## A total preorder -/

theorem compareIdentifier_swap (x y : Text) :
    compareIdentifier x y = (compareIdentifier y x).swap := by
  rw [compareIdentifier, compareIdentifier]
  cases Text.parseUnsigned (2 ^ 64) x with
  | none =>
      cases Text.parseUnsigned (2 ^ 64) y with
      | none => exact Text.order_swap x y
      | some m => rfl
  | some n =>
      cases Text.parseUnsigned (2 ^ 64) y with
      | none => rfl
      | some m => exact Std.OrientedOrd.eq_swap

instance : Std.TransCmp compareIdentifier where
  eq_swap := compareIdentifier_swap _ _
  isLE_trans := by
    intro x y z hxy hyz
    rw [compareIdentifier] at hxy hyz ⊢
    cases hx : Text.parseUnsigned (2 ^ 64) x with
    | none =>
        cases hy : Text.parseUnsigned (2 ^ 64) y with
        | none =>
            cases hz : Text.parseUnsigned (2 ^ 64) z with
            | none =>
                rw [hx, hy] at hxy
                rw [hy, hz] at hyz
                exact Text.order_trans hxy hyz
            | some k =>
                rw [hy, hz] at hyz
                cases hyz
        | some m =>
            rw [hx, hy] at hxy
            cases hxy
    | some n =>
        cases hz : Text.parseUnsigned (2 ^ 64) z with
        | none => rfl
        | some k =>
            cases hy : Text.parseUnsigned (2 ^ 64) y with
            | none =>
                rw [hy, hz] at hyz
                cases hyz
            | some m =>
                rw [hx, hy] at hxy
                rw [hy, hz] at hyz
                exact Std.TransOrd.isLE_trans hxy hyz

instance : Std.TransCmp comparePrerelease := by
  have heq : comparePrerelease = fun a b =>
      List.compareLex compareIdentifier (a.splitOn '.') (b.splitOn '.') :=
    funext fun a => funext fun b => compareIdentifiers_eq _ _
  rw [heq]
  exact transCmp_on (fun a : Text => a.splitOn '.')

instance : Std.TransCmp comparePre where
  eq_swap := by
    intro a b
    cases a with
    | none => cases b <;> rfl
    | some a =>
        cases b with
        | none => rfl
        | some b =>
            rw [comparePre, comparePre]
            exact Std.OrientedCmp.eq_swap
  isLE_trans := by
    intro a b c hab hbc
    cases a with
    | none =>
        cases b with
        | none => exact hbc
        | some b => cases hab
    | some a =>
        cases c with
        | none => rfl
        | some c =>
            cases b with
            | none => cases hbc
            | some b =>
                rw [comparePre] at hab hbc ⊢
                exact Std.TransCmp.isLE_trans hab hbc

/-- The order of numbers, then of prereleases. -/
instance : Std.TransCmp compareParts :=
  haveI : Std.TransCmp (fun a b : Parts => comparePre a.2 b.2) := transCmp_on Prod.snd
  inferInstanceAs (Std.TransCmp (compareLex
    (compareLex (compareOn fun x : Parts => x.1.1) (compareLex (compareOn fun x : Parts => x.1.2.1)
      (compareOn fun x : Parts => x.1.2.2))) (fun a b : Parts => comparePre a.2 b.2)))

section Versions

variable {a b c : Version}

theorem compareVersions_swap (ha : Fits a) (hb : Fits b) :
    ∃ o, compareVersions a.text b.text = some o ∧ compareVersions b.text a.text = some o.swap := by
  refine ⟨_, compareVersions_text ha hb, ?_⟩
  rw [compareVersions_text hb ha]
  exact congrArg some Std.OrientedCmp.eq_swap

theorem compareVersions_trans (ha : Fits a) (hb : Fits b) (hc : Fits c) {o o' : Ordering}
    (hab : compareVersions a.text b.text = some o) (hbc : compareVersions b.text c.text = some o')
    (hle : o.isLE) (hle' : o'.isLE) :
    ∃ o'', compareVersions a.text c.text = some o'' ∧ o''.isLE := by
  rw [compareVersions_text ha hb, Option.some.injEq] at hab
  rw [compareVersions_text hb hc, Option.some.injEq] at hbc
  subst hab hbc
  exact ⟨_, compareVersions_text ha hc, Std.TransCmp.isLE_trans hle hle'⟩

/-- Build metadata makes no difference. -/
theorem compareVersions_build (ha : Fits a) (hb : Fits b) (build : List BuildIdentifier) :
    compareVersions { a with build := build }.text b.text = compareVersions a.text b.text := by
  have ha' : Fits { a with build := build } := ha
  rw [compareVersions_text ha hb, compareVersions_text ha' hb]
  rfl

end Versions

end Bolide.Cli.Release
