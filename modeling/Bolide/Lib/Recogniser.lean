/-
Bolide.Lib.Recogniser — parsers that accept exactly a relation.

A parser takes tokens off the front of its input and returns a value or
fails. `Recognises E p R` says everything there is to say about one: it
returns `a` leaving `s'` exactly when the input is `bs ++ s'` with `bs`
related to `a` by `R`, and whatever it fails with is allowed by `E`. A
grammar written as relations is then met by a parser by composing the rules
below, one per way of putting parsers together, and both "only well-formed
input is accepted" and "all of it is" come out of the same proof.

`Many P bs as` is the repetition of a relation: `bs` is one piece per
element of `as`, end to end.
-/
import Mathlib

namespace Lib

variable {τ ε α β : Type}

/-- A parser of `τ`s: it fails, or returns a value and the rest of the input. -/
abbrev Parser (τ ε α : Type) := StateT (List τ) (Except ε) α

/-- `p` accepts exactly `R`, and fails only with `E`. -/
structure Recognises (E : ε → Prop) (p : Parser τ ε α) (R : List τ → α → Prop) : Prop where
  accepts : ∀ s a s', p s = .ok (a, s') ↔ ∃ bs, R bs a ∧ s = bs ++ s'
  fails : ∀ s e, p s = .error e → E e

namespace Recognises

variable {E : ε → Prop}

/-- A parser meets every relation equal to one it meets. -/
theorem congr {p : Parser τ ε α} {R R' : List τ → α → Prop} (hp : Recognises E p R)
    (h : ∀ bs a, R bs a ↔ R' bs a) : Recognises E p R' := by
  refine ⟨fun s a s' => ?_, hp.fails⟩
  rw [hp.accepts]
  exact exists_congr fun bs => and_congr_left fun _ => h bs a

theorem ret (a : α) :
    Recognises E (pure a : Parser τ ε α) (fun bs b => bs = [] ∧ b = a) := by
  refine ⟨fun s b s' => ?_, fun s e h => by cases h⟩
  constructor
  · intro h
    cases h
    exact ⟨[], ⟨rfl, rfl⟩, rfl⟩
  · rintro ⟨bs, ⟨rfl, rfl⟩, rfl⟩
    rfl

theorem fail {e : ε} (he : E e) :
    Recognises E (throw e : Parser τ ε α) (fun _ _ => False) := by
  refine ⟨fun s b s' => ⟨fun h => (by cases h), fun ⟨_, h, _⟩ => h.elim⟩, fun s e' h => ?_⟩
  cases h
  exact he

/-- Sequential composition: the second parser is only ever run on a value
the first can return. -/
theorem andThen {p : Parser τ ε α} {f : α → Parser τ ε β} {P : List τ → α → Prop}
    {Q : α → List τ → β → Prop} (hp : Recognises E p P)
    (hf : ∀ xs a, P xs a → Recognises E (f a) (Q a)) :
    Recognises E (p >>= f) (fun bs b => ∃ xs ys a, bs = xs ++ ys ∧ P xs a ∧ Q a ys b) := by
  have hrun : ∀ s, (p >>= f) s = match p s with
      | .ok (a, s1) => f a s1
      | .error e => .error e := by
    intro s
    show (p s >>= fun x => f x.1 x.2) = _
    rcases p s with e | ⟨a, s1⟩ <;> rfl
  constructor
  · intro s b s'
    rw [hrun]
    constructor
    · intro h
      rcases hps : p s with e | ⟨a, s1⟩
      · rw [hps] at h; cases h
      · rw [hps] at h
        obtain ⟨xs, hxs, rfl⟩ := (hp.accepts s a s1).mp hps
        obtain ⟨ys, hys, rfl⟩ := ((hf xs a hxs).accepts s1 b s').mp h
        exact ⟨xs ++ ys, ⟨xs, ys, a, rfl, hxs, hys⟩, by rw [List.append_assoc]⟩
    · rintro ⟨_, ⟨xs, ys, a, rfl, hxs, hys⟩, rfl⟩
      have h1 : p (xs ++ ys ++ s') = .ok (a, ys ++ s') :=
        (hp.accepts _ a _).mpr ⟨xs, hxs, List.append_assoc _ _ _⟩
      rw [h1]
      exact ((hf xs a hxs).accepts _ b s').mpr ⟨ys, hys, rfl⟩
  · intro s e h
    rw [hrun] at h
    rcases hps : p s with e' | ⟨a, s1⟩
    · rw [hps] at h
      cases h
      exact hp.fails s e hps
    · rw [hps] at h
      obtain ⟨xs, hxs, -⟩ := (hp.accepts s a s1).mp hps
      exact (hf xs a hxs).fails s1 e h

/-- A private computation on what was read. -/
theorem lift {x : Except ε α} (h : ∀ e, x = .error e → E e) :
    Recognises E (liftM x : Parser τ ε α) (fun bs a => bs = [] ∧ x = .ok a) := by
  cases x with
  | error e => exact (fail (h e rfl)).congr fun bs a => by simp
  | ok a => exact (ret a).congr fun bs b => by simp [eq_comm]

end Recognises

/-! ## Private computations over a list -/

theorem mapM_ok_iff {f : α → Except ε β} : ∀ {l : List α} {bs : List β},
    l.mapM f = .ok bs ↔ List.Forall₂ (fun a b => f a = .ok b) l bs
  | [], bs => by
      rw [List.mapM_nil, List.forall₂_nil_left_iff]
      constructor
      · rintro ⟨⟩; rfl
      · rintro rfl; rfl
  | a :: l, bs => by
      have ih : ∀ bs', l.mapM f = .ok bs' ↔ List.Forall₂ (fun a b => f a = .ok b) l bs' :=
        fun _ => mapM_ok_iff
      rw [List.mapM_cons, List.forall₂_cons_left_iff]
      constructor
      · intro h
        cases ha : f a with
        | error e => rw [ha] at h; cases h
        | ok b =>
            cases hl : l.mapM f with
            | error e => rw [ha, hl] at h; cases h
            | ok bs' =>
                rw [ha, hl] at h
                cases h
                exact ⟨b, bs', rfl, (ih bs').mp hl, rfl⟩
      · rintro ⟨b, bs', ha, hl, rfl⟩
        rw [ha, (ih bs').mpr hl]
        rfl

theorem mapM_error {f : α → Except ε β} {e : ε} : ∀ {l : List α},
    l.mapM f = .error e → ∃ a ∈ l, f a = .error e
  | [], h => by rw [List.mapM_nil] at h; cases h
  | a :: l, h => by
      rw [List.mapM_cons] at h
      cases ha : f a with
      | error e' =>
          rw [ha] at h
          cases h
          exact ⟨a, by simp, ha⟩
      | ok b =>
          cases hl : l.mapM f with
          | error e' =>
              rw [ha, hl] at h
              cases h
              obtain ⟨a', ha', he⟩ := mapM_error hl
              exact ⟨a', by simp [ha'], he⟩
          | ok bs' => rw [ha, hl] at h; cases h

/-! ## Repetition -/

/-- `bs` is a piece for each element of the list, end to end. -/
inductive Many (P : List τ → α → Prop) : List τ → List α → Prop
  | nil : Many P [] []
  | cons {xs ys a as} : P xs a → Many P ys as → Many P (xs ++ ys) (a :: as)

theorem many_nil_iff {P : List τ → α → Prop} {bs : List τ} : Many P bs [] ↔ bs = [] := by
  constructor
  · intro h; cases h; rfl
  · rintro rfl; exact .nil

theorem Many.append {P : List τ → α → Prop} {xs ys : List τ} {as bs : List α}
    (hx : Many P xs as) (hy : Many P ys bs) : Many P (xs ++ ys) (as ++ bs) := by
  induction hx with
  | nil => exact hy
  | cons h _ ih => rw [List.append_assoc]; exact .cons h ih

/-- A repetition of repetitions is one. -/
theorem Many.flatten {P : List τ → α → Prop} {bs : List τ} {ass : List (List α)}
    (h : Many (Many P) bs ass) : Many P bs ass.flatten := by
  induction h with
  | nil => exact .nil
  | cons hx _ ih => exact hx.append ih

/-- A writer that can fail writes a repetition when each writing is a piece. -/
theorem mapM_many {P : List τ → β → Prop} (enc : α → Except ε (List τ)) {f : α → β} :
    ∀ {l : List α}, (∀ a ∈ l, ∃ bs, enc a = .ok bs ∧ P bs (f a)) →
      ∃ bss, l.mapM enc = .ok bss ∧ Many P bss.flatten (l.map f)
  | [], _ => ⟨[], rfl, .nil⟩
  | a :: l, h => by
      obtain ⟨bs, hbs, hp⟩ := h a (by simp)
      obtain ⟨bss, hbss, hmany⟩ := mapM_many enc (l := l) (fun b hb => h b (by simp [hb]))
      exact ⟨bs :: bss, by rw [List.mapM_cons, hbs, hbss]; rfl, .cons hp hmany⟩

theorem Many.forall {P : List τ → α → Prop} {Q : α → Prop} {bs : List τ} {as : List α}
    (h : Many P bs as) (hq : ∀ xs a, P xs a → Q a) : ∀ a ∈ as, Q a := by
  induction h with
  | nil => intro a ha; cases ha
  | cons hx _ ih =>
      intro a ha
      rcases List.mem_cons.mp ha with rfl | ha
      · exact hq _ _ hx
      · exact ih a ha

/-- Run a parser `n` times. -/
def times (p : Parser τ ε α) : Nat → Parser τ ε (List α)
  | 0 => pure []
  | n + 1 => do
      let a ← p
      let as ← times p n
      pure (a :: as)

theorem Recognises.times {E : ε → Prop} {p : Parser τ ε α} {P : List τ → α → Prop}
    (hp : Recognises E p P) (n : Nat) :
    Recognises E (Lib.times p n) (fun bs as => as.length = n ∧ Many P bs as) := by
  induction n with
  | zero =>
      refine (Recognises.ret []).congr fun bs as => ?_
      constructor
      · rintro ⟨rfl, rfl⟩; exact ⟨rfl, .nil⟩
      · rintro ⟨h, hm⟩
        have has : as = [] := List.length_eq_zero_iff.mp h
        subst has
        exact ⟨many_nil_iff.mp hm, rfl⟩
  | succ n ih =>
      refine (Recognises.andThen hp fun _ a _ => Recognises.andThen ih fun _ as _ =>
        Recognises.ret (a :: as)).congr fun bs as => ?_
      constructor
      · rintro ⟨xs, ys, a, rfl, hx, zs, ws, as', rfl, ⟨hlen, hm⟩, rfl, rfl⟩
        exact ⟨by simp [hlen], by rw [List.append_nil]; exact .cons hx hm⟩
      · rintro ⟨hlen, hm⟩
        cases hm with
        | nil => simp at hlen
        | cons hx hy =>
            exact ⟨_, _, _, rfl, hx, _, [], _, by rw [List.append_nil],
              ⟨by simpa using hlen, hy⟩, rfl, rfl⟩

end Lib
