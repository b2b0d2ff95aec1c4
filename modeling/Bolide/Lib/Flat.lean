/-
Bolide.Lib.Flat — flat arrays of fixed-size records, and rectangles of them.

An image is usually one flat array: `width * height` records of `k`
elements each, row after row. This module is about such arrays as lists.
`slice?` and `splice?` are the two range operations, `none` when the range
is not inside the array or, for `splice?`, when the lengths differ: what a
checked language answers with a panic. `record k l i` is the `i`-th record,
and the lemmas say what every operation does record by record, which is all
that a reader of an image ever sees.

`copyRows?` is the loop that every blit is: one row of a rectangle after
another, sliced out of a source array and spliced into a destination array,
each with its own row length and origin. `copyRows?_spec` says that it
succeeds when both rectangles fit and that it changes exactly the records
of the destination rectangle.
-/
import Bolide.Lib.Bytes

namespace Lib

variable {α β : Type}

/-! ## A loop over `0..n` that may fail -/

/-- The loop rule: an invariant that holds at the start and that every turn
keeps while succeeding holds at the end. -/
theorem foldlM_range_pure {m : Type → Type} [Monad m] [LawfulMonad m] (f : β → Nat → m β)
    (P : Nat → β → Prop) (n : Nat) (b : β) (h0 : P 0 b)
    (hstep : ∀ i < n, ∀ b, P i b → ∃ b', f b i = pure b' ∧ P (i + 1) b') :
    ∃ b', (List.range n).foldlM f b = pure b' ∧ P n b' := by
  induction n with
  | zero => exact ⟨b, rfl, h0⟩
  | succ n ih =>
      obtain ⟨c, hc, hPc⟩ := ih (fun i hi => hstep i (by omega))
      obtain ⟨d, hd, hPd⟩ := hstep n (by omega) c hPc
      refine ⟨d, ?_, hPd⟩
      rw [List.range_succ, List.foldlM_append, hc, pure_bind, List.foldlM_cons, hd, pure_bind,
        List.foldlM_nil]

/-! ## Ranges -/

/-- `&l[a..b]`. -/
def slice? (l : List α) (a b : Nat) : Option (List α) :=
  if a ≤ b ∧ b ≤ l.length then some ((l.drop a).take (b - a)) else none

/-- `l` with the elements from `i` on replaced by `xs`. -/
def splice (l : List α) (i : Nat) (xs : List α) : List α :=
  l.take i ++ xs ++ l.drop (i + xs.length)

/-- `l[a..b].copy_from_slice(xs)`. -/
def splice? (l : List α) (a b : Nat) (xs : List α) : Option (List α) :=
  if a ≤ b ∧ b ≤ l.length ∧ xs.length = b - a then some (splice l a xs) else none

theorem slice?_eq_some {l : List α} {a b : Nat} (hab : a ≤ b) (hb : b ≤ l.length) :
    slice? l a b = some ((l.drop a).take (b - a)) := by
  rw [slice?, if_pos ⟨hab, hb⟩]

theorem splice?_eq_some {l xs : List α} {a b : Nat} (hab : a ≤ b) (hb : b ≤ l.length)
    (hx : xs.length = b - a) : splice? l a b xs = some (splice l a xs) := by
  rw [splice?, if_pos ⟨hab, hb, hx⟩]

/-- A splice inside the array keeps its length. -/
theorem length_splice {l xs : List α} {i : Nat} (h : i + xs.length ≤ l.length) :
    (splice l i xs).length = l.length := by
  simp only [splice, List.length_append, List.length_take, List.length_drop]
  omega

/-- A splice element by element. -/
theorem getElem?_splice {l xs : List α} {i : Nat} (h : i + xs.length ≤ l.length) (j : Nat) :
    (splice l i xs)[j]? = if i ≤ j ∧ j < i + xs.length then xs[j - i]? else l[j]? := by
  have hi : (l.take i).length = i := by rw [List.length_take]; omega
  have hix : (l.take i ++ xs).length = i + xs.length := by rw [List.length_append, hi]
  rw [splice]
  by_cases h1 : j < i
  · rw [List.append_assoc, List.getElem?_append_left (by omega), if_neg (by omega),
      List.getElem?_take, if_pos h1]
  · by_cases h2 : j < i + xs.length
    · rw [List.getElem?_append_left (by omega), List.getElem?_append_right (by omega), hi,
        if_pos ⟨by omega, h2⟩]
    · rw [List.getElem?_append_right (by omega), hix, List.getElem?_drop, if_neg (by omega)]
      congr 1
      omega

/-! ## Records -/

/-- The `i`-th record of `k` elements. -/
def record (k : Nat) (l : List α) (i : Nat) : List α := (l.drop (k * i)).take k

theorem length_record {k i : Nat} {l : List α} (h : k * (i + 1) ≤ l.length) :
    (record k l i).length = k := by
  rw [Nat.mul_add] at h
  rw [record, List.length_take, List.length_drop]
  omega

theorem getElem?_record (k : Nat) (l : List α) (i j : Nat) :
    (record k l i)[j]? = if j < k then l[k * i + j]? else none := by
  rw [record, List.getElem?_take]
  split
  · rw [List.getElem?_drop]
  · rfl

/-- Record `i` of a slice that starts at record `a` is record `a + i`. -/
theorem record_slice {k a m i : Nat} (l : List α) (h : i < m) :
    record k ((l.drop (k * a)).take (k * m)) i = record k l (a + i) := by
  have hkm : k * (i + 1) ≤ k * m := Nat.mul_le_mul_left k h
  rw [Nat.mul_add] at hkm
  apply List.ext_getElem?
  intro j
  rw [getElem?_record, getElem?_record]
  split
  · rw [List.getElem?_take, if_pos (by omega), List.getElem?_drop, Nat.mul_add, Nat.add_assoc]
  · rfl

/-- A splice of `m` records at record `p` changes exactly the records `p .. p + m`. -/
theorem record_splice {k p m : Nat} {l xs : List α} (hx : xs.length = k * m)
    (h : k * (p + m) ≤ l.length) (q : Nat) :
    record k (splice l (k * p) xs) q
      = if p ≤ q ∧ q < p + m then record k xs (q - p) else record k l q := by
  rw [Nat.mul_add] at h
  apply List.ext_getElem?
  intro j
  rw [getElem?_record]
  by_cases hj : j < k
  · rw [if_pos hj, getElem?_splice (by omega)]
    by_cases hq : p ≤ q ∧ q < p + m
    · have hlo : k * p ≤ k * q := Nat.mul_le_mul_left k hq.1
      have hhi : k * (q + 1) ≤ k * (p + m) := Nat.mul_le_mul_left k hq.2
      rw [Nat.mul_add, Nat.mul_add] at hhi
      rw [if_pos hq, if_pos (by omega), getElem?_record, if_pos hj, Nat.mul_sub]
      congr 1
      omega
    · have hout : ¬ (k * p ≤ k * q + j ∧ k * q + j < k * p + xs.length) := by
        rcases Nat.lt_or_ge q p with h1 | h1
        · have : k * (q + 1) ≤ k * p := Nat.mul_le_mul_left k h1
          rw [Nat.mul_add] at this
          omega
        · have : k * (p + m) ≤ k * q := Nat.mul_le_mul_left k (by omega)
          rw [Nat.mul_add] at this
          omega
      rw [if_neg hq, if_neg hout, getElem?_record, if_pos hj]
  · rw [if_neg hj]
    split <;> rw [getElem?_record, if_neg hj]

/-- Arrays of as many records that agree record by record are equal. -/
theorem eq_of_record {k n : Nat} {l l' : List α} (hl : l.length = k * n)
    (hl' : l'.length = k * n) (h : ∀ i < n, record k l i = record k l' i) : l = l' := by
  apply List.ext_getElem?
  intro j
  by_cases hj : j < k * n
  · have hk : 0 < k := by
      rcases Nat.eq_zero_or_pos k with rfl | hk
      · simp at hj
      · exact hk
    have hjn : j / k < n := Nat.div_lt_of_lt_mul hj
    have hmod : j % k < k := Nat.mod_lt j hk
    have hrec := congrArg (·[j % k]?) (h (j / k) hjn)
    simpa [getElem?_record, hmod, Nat.div_add_mod] using hrec
  · rw [List.getElem?_eq_none (by omega), List.getElem?_eq_none (by omega)]

/-- Record `i` of `n` equally long pieces put end to end is the `i`-th piece. -/
theorem record_flatten {k : Nat} : ∀ {ls : List (List α)}, (∀ l ∈ ls, l.length = k) →
    ∀ {i : Nat} (hi : i < ls.length), record k ls.flatten i = ls[i]
  | l :: ls, hall, 0, _ => by
      have hl : l.length = k := hall l (by simp)
      simp [record, ← hl]
  | l :: ls, hall, i + 1, hi => by
      have hl : l.length = k := hall l (by simp)
      have hdrop : (l :: ls).flatten.drop (k * (i + 1)) = ls.flatten.drop (k * i) := by
        rw [List.flatten_cons, Nat.mul_add, Nat.mul_one, Nat.add_comm, ← List.drop_drop,
          ← hl, List.drop_left]
      have hi' : i < ls.length := by simpa using hi
      have ih : record k ls.flatten i = ls[i] :=
        record_flatten (fun l' h => hall l' (by simp [h])) hi'
      rw [record, hdrop]
      exact ih

theorem length_flatten_of_forall {k : Nat} : ∀ {ls : List (List α)}, (∀ l ∈ ls, l.length = k) →
    ls.flatten.length = k * ls.length
  | [], _ => by simp
  | l :: ls, hall => by
      have hl : l.length = k := hall l (by simp)
      have ih : ls.flatten.length = k * ls.length :=
        length_flatten_of_forall (fun l' h => hall l' (by simp [h]))
      rw [List.flatten_cons, List.length_append, ih, hl, List.length_cons, Nat.mul_add]
      omega

/-! ## Rectangles -/

/-- Copy a `w` by `h` rectangle of records, one row after another: from
`(sx, sy)` of a source whose rows hold `sw` records to `(dx, dy)` of a
destination whose rows hold `dw`. -/
def copyRows? (k : Nat) (dst : List α) (dw dx dy : Nat) (src : List α) (sw sx sy : Nat)
    (w h : Nat) : Option (List α) :=
  (List.range h).foldlM (fun acc row => do
    let s := (sy + row) * (sw * k) + sx * k
    let d := (dy + row) * (dw * k) + dx * k
    let line ← slice? src s (s + w * k)
    splice? acc d (d + w * k) line) dst

theorem index_lt {w h x y : Nat} (hx : x < w) (hy : y < h) : y * w + x < w * h := by
  have : (y + 1) * w ≤ h * w := Nat.mul_le_mul_right w hy
  rw [Nat.add_mul] at this
  rw [Nat.mul_comm w h]
  omega

/-- A run of records of row `y'` that starts at column `x'` holds `(x, y)`
exactly when `y` is that row and `x` is in the run. -/
theorem index_mem_run {w x y x' y' m : Nat} (hx : x < w) (hm : x' + m ≤ w) :
    (y' * w + x' ≤ y * w + x ∧ y * w + x < y' * w + x' + m) ↔ y = y' ∧ x' ≤ x ∧ x < x' + m := by
  constructor
  · rintro ⟨h1, h2⟩
    have hy : y = y' := by
      rcases Nat.lt_trichotomy y y' with h | h | h
      · have : (y + 1) * w ≤ y' * w := Nat.mul_le_mul_right w h
        rw [Nat.add_mul] at this
        omega
      · exact h
      · have : (y' + 1) * w ≤ y * w := Nat.mul_le_mul_right w h
        rw [Nat.add_mul] at this
        omega
    subst hy
    omega
  · rintro ⟨rfl, h1, h2⟩
    omega

/-- What a rectangle copy does: it keeps the length, puts the source's records
inside the destination rectangle and leaves every other record as it was. -/
theorem copyRows?_spec {k : Nat} {dst src : List α} {dw dh dx dy sw sx sy w h : Nat}
    (hdst : dst.length = k * (dw * dh)) (hdx : dx + w ≤ dw) (hdy : dy + h ≤ dh)
    (hsrc : k * (sw * (sy + h)) ≤ src.length) (hsx : sx + w ≤ sw) :
    ∃ out, copyRows? k dst dw dx dy src sw sx sy w h = some out ∧ out.length = dst.length ∧
      ∀ x < dw, ∀ y, record k out (y * dw + x)
        = if (dx ≤ x ∧ x < dx + w) ∧ dy ≤ y ∧ y < dy + h
            then record k src ((sy + (y - dy)) * sw + (sx + (x - dx)))
            else record k dst (y * dw + x) := by
  -- after `r` rows, the rows `dy .. dy + r` of the rectangle are copied
  let P : Nat → List α → Prop := fun r out => out.length = dst.length ∧
    ∀ x < dw, ∀ y, record k out (y * dw + x)
      = if (dx ≤ x ∧ x < dx + w) ∧ dy ≤ y ∧ y < dy + r
          then record k src ((sy + (y - dy)) * sw + (sx + (x - dx)))
          else record k dst (y * dw + x)
  refine foldlM_range_pure _ P h dst ⟨rfl, fun x _ y => by rw [if_neg (by omega)]⟩ ?_
  rintro r hr acc ⟨hlen, hrec⟩
  have hs : (sy + r) * (sw * k) + sx * k = k * ((sy + r) * sw + sx) := by ring
  have hd : (dy + r) * (dw * k) + dx * k = k * ((dy + r) * dw + dx) := by ring
  have hsend : (sy + r) * sw + sx + w ≤ sw * (sy + h) := by
    have : (sy + r + 1) * sw ≤ (sy + h) * sw := Nat.mul_le_mul_right sw (by omega)
    rw [Nat.add_mul] at this
    rw [Nat.mul_comm sw]
    omega
  have hdend : (dy + r) * dw + dx + w ≤ dw * dh := by
    have : (dy + r + 1) * dw ≤ dh * dw := Nat.mul_le_mul_right dw (by omega)
    rw [Nat.add_mul] at this
    rw [Nat.mul_comm dw]
    omega
  have hsb : k * ((sy + r) * sw + sx) + w * k ≤ src.length := by
    have : k * ((sy + r) * sw + sx + w) ≤ k * (sw * (sy + h)) := Nat.mul_le_mul_left k hsend
    rw [Nat.mul_add, Nat.mul_comm k w] at this
    omega
  have hdb : k * ((dy + r) * dw + dx) + w * k ≤ acc.length := by
    have : k * ((dy + r) * dw + dx + w) ≤ k * (dw * dh) := Nat.mul_le_mul_left k hdend
    rw [Nat.mul_add, Nat.mul_comm k w] at this
    omega
  let line := (src.drop (k * ((sy + r) * sw + sx))).take (k * w)
  have hline : line.length = k * w := by
    simp only [line, List.length_take, List.length_drop]
    rw [Nat.mul_comm w k] at hsb
    omega
  refine ⟨splice acc (k * ((dy + r) * dw + dx)) line, ?_, ?_, ?_⟩
  · simp only [hs, hd]
    rw [slice?_eq_some (by omega) hsb, Nat.add_sub_cancel_left, Nat.mul_comm w k]
    simp only [Option.bind_eq_bind, Option.bind_some]
    rw [Nat.mul_comm w k] at hdb
    exact splice?_eq_some (Nat.le_add_right _ _) hdb (by rw [Nat.add_sub_cancel_left]; exact hline)
  · rw [length_splice (by rw [hline, Nat.mul_comm k w]; exact hdb), hlen]
  · intro x hx y
    have hfit : k * ((dy + r) * dw + dx + w) ≤ acc.length := by
      rw [Nat.mul_add, Nat.mul_comm k w]
      exact hdb
    rw [record_splice hline hfit]
    simp only [index_mem_run hx hdx, hrec x hx y]
    by_cases hin : y = dy + r ∧ dx ≤ x ∧ x < dx + w
    · obtain ⟨rfl, hx1, hx2⟩ := hin
      have hoff : (dy + r) * dw + x - ((dy + r) * dw + dx) = x - dx := by omega
      rw [if_pos ⟨rfl, hx1, hx2⟩, if_pos ⟨⟨hx1, hx2⟩, by omega, by omega⟩, hoff,
        record_slice src (by omega)]
      congr 1
      rw [Nat.add_sub_cancel_left]
      omega
    · rw [if_neg hin]
      by_cases hold : (dx ≤ x ∧ x < dx + w) ∧ dy ≤ y ∧ y < dy + r
      · rw [if_pos hold, if_pos ⟨hold.1, hold.2.1, by omega⟩]
      · rw [if_neg hold, if_neg (by omega)]

end Lib
