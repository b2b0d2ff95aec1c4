/-
Bolide.Lib.Order — the order of strings, and of what they denote.

Strings are ordered by their first difference (`order_eq`), so parts of the
same length are ordered one after another (`order_append`). Digits are
ordered as their values are, and so are numbers that are written with the
same number of digits (`order_digits`).
-/
import Bolide.Lib.Text

namespace Lib

/-- What is ordered as something else. -/
theorem transCmp_on {α β : Type} {cmp : β → β → Ordering} [Std.TransCmp cmp] (f : α → β) :
    Std.TransCmp (fun a b => cmp (f a) (f b)) where
  eq_swap := Std.OrientedCmp.eq_swap
  isLE_trans := Std.TransCmp.isLE_trans

/-- The first difference decides. -/
theorem then_of_ne_eq {o o' : Ordering} (h : o ≠ .eq) : o.then o' = o := by
  cases o with
  | eq => exact absurd rfl h
  | lt => rfl
  | gt => rfl

theorem then_inj {o p q : Ordering} : o.then p = o.then q ↔ (o = .eq → p = q) := by
  cases o with
  | eq => exact ⟨fun h _ => h, fun h => h rfl⟩
  | lt => exact iff_of_true rfl fun h => by cases h
  | gt => exact iff_of_true rfl fun h => by cases h

theorem compare_map {α β : Type} [LinearOrder α] [LinearOrder β] {f : α → β} (hf : StrictMono f)
    (a b : α) : compare (f a) (f b) = compare a b := by
  rw [← cmp_eq_compare, ← cmp_eq_compare, hf.cmp_map_eq]

theorem compare_natCast (n m : Nat) : compare (n : Int) m = compare n m :=
  compare_map Nat.strictMono_cast n m

/-- What is counted in two units is ordered by the larger one first. -/
theorem compare_mul_add {n n' k : Int} {r r' : Nat} (h : r < k) (h' : r' < k) :
    compare (n * k + r) (n' * k + r') = (compare n n').then (compare r r') := by
  have hk : 0 ≤ k := by omega
  rcases lt_trichotomy n n' with hn | rfl | hn
  · have hmul := Int.mul_le_mul_of_nonneg_right (show n + 1 ≤ n' from hn) hk
    rw [Int.add_mul] at hmul
    rw [compare_lt_iff_lt.mpr hn, Ordering.lt_then, compare_lt_iff_lt]
    omega
  · have hmono : StrictMono fun r : Nat => n * k + (r : Int) := by
      intro r r' hr
      exact Int.add_lt_add_left (Int.ofNat_lt.mpr hr) _
    rw [compare_eq_iff_eq.mpr rfl, Ordering.eq_then]
    exact compare_map hmono r r'
  · have hmul := Int.mul_le_mul_of_nonneg_right (show n' + 1 ≤ n from hn) hk
    rw [Int.add_mul] at hmul
    rw [compare_gt_iff_gt.mpr hn, Ordering.gt_then, compare_gt_iff_gt]
    omega

namespace Text

theorem order_cons (c d : Char) (s t : Text) :
    order (c :: s) (d :: t) = (compare c d).then (order s t) := by
  rcases lt_trichotomy c d with h | rfl | h
  · have hlt : c :: s < d :: t := List.cons_lt_cons_iff.mpr (.inl h)
    rw [order, compareOfLessAndEq, if_pos hlt, compare_lt_iff_lt.mpr h]
    rfl
  · rw [compare_eq_iff_eq.mpr rfl, Ordering.eq_then]
    simp [order, compareOfLessAndEq]
  · have hnot : ¬ c :: s < d :: t := by
      rw [List.cons_lt_cons_iff]
      rintro (hlt | ⟨rfl, -⟩)
      · exact absurd hlt (lt_asymm h)
      · exact absurd h (lt_irrefl c)
    have hne : c :: s ≠ d :: t := fun heq => h.ne' (List.cons.inj heq).1
    rw [order, compareOfLessAndEq, if_neg hnot, if_neg hne, compare_gt_iff_gt.mpr h]
    rfl

/-- Strings are ordered by their first difference. -/
theorem order_eq (x y : Text) : order x y = List.compareLex compare x y := by
  induction x generalizing y with
  | nil => cases y <;> rfl
  | cons c x ih =>
      cases y with
      | nil => rfl
      | cons d y => rw [order_cons, List.compareLex_cons_cons, ih]

instance : Std.TransCmp order := by
  rw [show order = List.compareLex compare from funext fun x => funext fun y => order_eq x y]
  infer_instance

instance : Std.LawfulEqCmp order := by
  rw [show order = List.compareLex compare from funext fun x => funext fun y => order_eq x y]
  infer_instance

theorem order_self (x : Text) : order x x = .eq := Std.ReflCmp.compare_self

theorem order_swap (x y : Text) : order x y = (order y x).swap := Std.OrientedCmp.eq_swap

theorem order_trans {x y z : Text} (hxy : (order x y).isLE) (hyz : (order y z).isLE) :
    (order x z).isLE := Std.TransCmp.isLE_trans hxy hyz

theorem order_eq_eq {x y : Text} : order x y = .eq ↔ x = y := Std.LawfulEqCmp.compare_eq_iff_eq

theorem order_eq_lt {x y : Text} : order x y = .lt ↔ x < y := compareOfLessAndEq_eq_lt

theorem order_eq_gt {x y : Text} : order x y = .gt ↔ y < x := by
  rw [order_swap, Ordering.swap_eq_gt, order_eq_lt]

/-- Parts of the same length are ordered one after another. -/
theorem order_append {x x' : Text} (h : x.length = x'.length) (y y' : Text) :
    order (x ++ y) (x' ++ y') = (order x x').then (order y y') := by
  induction x generalizing x' with
  | nil =>
      obtain rfl := List.length_eq_zero_iff.mp h.symm
      rfl
  | cons c x ih =>
      cases x' with
      | nil => cases h
      | cons c' x' =>
          rw [List.cons_append, List.cons_append, order_cons, order_cons,
            ih (Nat.succ.inj h), Ordering.then_assoc]

theorem order_same_append (x y y' : Text) : order (x ++ y) (x ++ y') = order y y' := by
  rw [order_append rfl, order_self, Ordering.eq_then]

/-! ## Digits -/

theorem toDigit_ten_eq {c : Char} {d : Nat} (h : toDigit 10 c = some d) :
    c.toNat = d + 48 ∧ d < 10 := by
  simp only [toDigit, Option.ite_none_right_eq_some, Option.some.injEq] at h
  obtain ⟨hlt, rfl⟩ := h
  split_ifs at hlt ⊢ <;> omega

/-- Digits are ordered as their values are. -/
theorem compare_digits {c c' : Char} {d d' : Nat} (h : toDigit 10 c = some d)
    (h' : toDigit 10 c' = some d') : compare c c' = compare d d' := by
  obtain ⟨hc, -⟩ := toDigit_ten_eq h
  obtain ⟨hc', -⟩ := toDigit_ten_eq h'
  have hchar : StrictMono Char.toNat := fun _ _ h => h
  have hadd : StrictMono fun d : Nat => d + 48 := fun _ _ h => Nat.add_lt_add_right h 48
  rw [← compare_map hchar c c', hc, hc']
  exact compare_map hadd d d'

theorem compare_snoc {n n' d d' : Nat} (h : d < 10) (h' : d' < 10) :
    compare (n * 10 + d) (n' * 10 + d') = (compare n n').then (compare d d') := by
  rw [← compare_natCast, ← compare_natCast n]
  push_cast
  exact compare_mul_add (Int.ofNat_lt.mpr h) (Int.ofNat_lt.mpr h')

theorem compare_valueFrom {x y : Text} {n n' m m' : Nat} (hlength : x.length = y.length)
    (hx : valueFrom 10 n x = some m) (hy : valueFrom 10 n' y = some m') :
    compare m m' = (compare n n').then (order x y) := by
  induction x generalizing y n n' with
  | nil =>
      obtain rfl := List.length_eq_zero_iff.mp hlength.symm
      cases hx
      cases hy
      exact Ordering.then_eq.symm
  | cons c x ih =>
      cases y with
      | nil => cases hlength
      | cons c' y =>
          obtain ⟨d, hd, hx⟩ := Option.bind_eq_some_iff.mp hx
          obtain ⟨d', hd', hy⟩ := Option.bind_eq_some_iff.mp hy
          rw [ih (Nat.succ.inj hlength) hx hy, order_cons, compare_digits hd hd',
            compare_snoc (toDigit_ten_eq hd).2 (toDigit_ten_eq hd').2, Ordering.then_assoc]

/-- Numbers of the same number of digits are ordered as their digits are. -/
theorem order_digits {x y : Text} {n m : Nat} (hlength : x.length = y.length)
    (hx : valueFrom 10 0 x = some n) (hy : valueFrom 10 0 y = some m) :
    order x y = compare n m := by
  rw [compare_valueFrom hlength hx hy, compare_eq_iff_eq.mpr rfl, Ordering.eq_then]

/-! ## A number of digits -/

/-- The last `width` digits of a number. -/
def fixed : Nat → Nat → Text
  | 0, _ => []
  | width + 1, n => fixed width (n / 10) ++ [(n % 10).digitChar]

theorem length_fixed (width n : Nat) : (fixed width n).length = width := by
  induction width generalizing n with
  | zero => rfl
  | succ width ih => rw [fixed, List.length_append, ih, List.length_singleton]

theorem valueFrom_fixed {width n : Nat} (h : n < 10 ^ width) :
    valueFrom 10 0 (fixed width n) = some n := by
  induction width generalizing n with
  | zero =>
      obtain rfl : n = 0 := by simpa using h
      rfl
  | succ width ih =>
      have hmod := Nat.mod_lt n (show 0 < 10 by decide)
      have hdiv : n / 10 < 10 ^ width := Nat.div_lt_of_lt_mul (by rwa [Nat.pow_succ'] at h)
      rw [fixed, valueFrom_append, ih hdiv, Option.bind_some, valueFrom,
        toDigit_digitChar (by decide) hmod]
      exact congrArg some (Nat.div_add_mod' n 10)

/-- So many digits with this value are these. -/
theorem eq_fixed {x : Text} {n : Nat} (hx : valueFrom 10 0 x = some n) (h : n < 10 ^ x.length) :
    x = fixed x.length n := by
  rw [← order_eq_eq, order_digits (length_fixed _ n).symm hx (valueFrom_fixed h),
    compare_eq_iff_eq]

theorem order_fixed_append {width n m : Nat} (hn : n < 10 ^ width) (hm : m < 10 ^ width)
    (y y' : Text) : order (fixed width n ++ y) (fixed width m ++ y') =
      (compare n m).then (order y y') := by
  have hlength : (fixed width n).length = (fixed width m).length := by
    rw [length_fixed, length_fixed]
  rw [order_append hlength, order_digits hlength (valueFrom_fixed hn) (valueFrom_fixed hm)]

theorem order_cons_self (c : Char) (y y' : Text) : order (c :: y) (c :: y') = order y y' :=
  order_same_append [c] y y'

/-- A number that is not larger is not longer. -/
theorem length_toDigits_mono {n m : Nat} (h : n ≤ m) :
    (Nat.toDigits 10 n).length ≤ (Nat.toDigits 10 m).length := by
  have hm := (Nat.length_toDigits_le_iff (by decide) Nat.length_toDigits_pos).mp
    (le_refl (Nat.toDigits 10 m).length)
  exact (Nat.length_toDigits_le_iff (by decide) Nat.length_toDigits_pos).mpr (by omega)

end Text

end Lib
