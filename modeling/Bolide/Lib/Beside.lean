/-
Bolide.Lib.Beside — a system of tasks beside another.

The tasks of `front` run while those of `base` do. They have a shared state
of their own and look at the one of `base`, which they do not change: what
they do to it is done by tasks of `base`. A step is one operation of one
task of either.

`Reaches.base` forgets the front, so that every invariant of the base holds
beside it. `Reaches.joint` is the proof rule for invariants of both.
-/
import Bolide.Lib.Tasks

namespace Lib

open Prog

/-- Two systems that run at once. -/
structure Beside (σ : Sig) (ε α S L : Type) (τ : Sig) (ε' α' S' L' : Type) where
  base : Tasks σ ε α S L
  front : Tasks τ ε' α' S' L'

namespace Beside

variable {σ τ : Sig} {ε α S L M ε' α' S' L' M' G : Type}

/-- One operation of one task of either system. -/
def act (does : Does σ S L M) (does' : S → Does τ S' L' M') (c : Beside σ ε α S L τ ε' α' S' L') :
    (Nat × M) ⊕ (Nat × M') → Option (Beside σ ε α S L τ ε' α' S' L')
  | .inl (i, m) => (c.base.act does i m).map (fun base => { c with base })
  | .inr (i, m) => (c.front.act (does' c.base.shared) i m).map (fun front => { c with front })

/-- One interleaving, as long as its steps pass a check. -/
def runWhile (check : Beside σ ε α S L τ ε' α' S' L' → (Nat × M) ⊕ (Nat × M') → Bool)
    (does : Does σ S L M) (does' : S → Does τ S' L' M') :
    List ((Nat × M) ⊕ (Nat × M')) → Beside σ ε α S L τ ε' α' S' L' →
      Option (Beside σ ε α S L τ ε' α' S' L')
  | [], c => some c
  | move :: rest, c =>
      if check c move = true then
        match c.act does does' move with
        | some c => c.runWhile check does does' rest
        | none => none
      else none

/-- Everything interleavings reach whose steps are all allowed. -/
inductive Reaches (does : Does σ S L M) (does' : S → Does τ S' L' M')
    (allowed : Beside σ ε α S L τ ε' α' S' L' → (Nat × M) ⊕ (Nat × M') → Prop)
    (c : Beside σ ε α S L τ ε' α' S' L') : Beside σ ε α S L τ ε' α' S' L' → Prop
  | start : Reaches does does' allowed c c
  | act {c' c'' move} : Reaches does does' allowed c c' → allowed c' move →
      c'.act does does' move = some c'' → Reaches does does' allowed c c''

variable {does : Does σ S L M} {does' : S → Does τ S' L' M'}
  {allowed : Beside σ ε α S L τ ε' α' S' L' → (Nat × M) ⊕ (Nat × M') → Prop}
  {c₀ c c' : Beside σ ε α S L τ ε' α' S' L'}

/-- What a schedule leads to is reached. -/
theorem reaches_runWhile
    {check : Beside σ ε α S L τ ε' α' S' L' → (Nat × M) ⊕ (Nat × M') → Bool}
    (hcheck : ∀ c move, check c move = true → allowed c move)
    {schedule : List ((Nat × M) ⊕ (Nat × M'))}
    (h : c.runWhile check does does' schedule = some c')
    (h₀ : Reaches does does' allowed c₀ c) : Reaches does does' allowed c₀ c' := by
  induction schedule generalizing c with
  | nil =>
      cases h
      exact h₀
  | cons move rest ih =>
      rw [runWhile] at h
      split at h
      · next hok =>
          split at h
          · next c₁ hact => exact ih h (.act h₀ (hcheck _ _ hok) hact)
          · cases h
      · cases h

/-- Beside another, a system runs as it does alone. -/
theorem Reaches.base (h : Reaches does does' allowed c₀ c) :
    ∃ t, Tasks.Runs does Tasks.Anyhow c₀.base t c.base := by
  induction h with
  | start => exact ⟨[], .start⟩
  | @act c₁ c₂ move _ _ hact ih =>
      obtain ⟨t, hrun⟩ := ih
      cases move with
      | inl move =>
          obtain ⟨base, hbase, rfl⟩ := Option.map_eq_some_iff.mp hact
          obtain ⟨o, k, l, r, s', l', htask, hdoes, rfl⟩ := Tasks.act_eq_some hbase
          exact ⟨_, hrun.act trivial htask hdoes⟩
      | inr move =>
          obtain ⟨front, _, rfl⟩ := Option.map_eq_some_iff.mp hact
          exact ⟨t, hrun⟩

/-- An invariant of the front's ghost states and of both systems, that one
allowed operation of either keeps, holds after every allowed interleaving. -/
theorem Reaches.joint {D : Discipline τ ε' G} {Q : α' → G → Prop}
    {J : (Nat → G) → Beside σ ε α S L τ ε' α' S' L' → Prop} {γ : Nat → G}
    (h : Reaches does does' allowed c₀ c) (hroles : Tasks.Roles D Q γ c₀.front) (hj : J γ c₀)
    (hbase : ∀ c γ i m o k l r s' l', Reaches does does' allowed c₀ c → allowed c (.inl (i, m)) →
      Tasks.Roles D Q γ c.front → J γ c → c.base.tasks[i]? = some (.step o k, l) →
      does o m c.base.shared l = some (r, s', l') →
      J γ { c with base := ⟨s', c.base.tasks.set i (k r, l')⟩ })
    (hfront : ∀ c γ i m o k l r s' l', Reaches does does' allowed c₀ c → allowed c (.inr (i, m)) →
      Tasks.Roles D Q γ c.front → J γ c → c.front.tasks[i]? = some (.step o k, l) →
      D.may (γ i) o → does' c.base.shared o m c.front.shared l = some (r, s', l') →
      D.answers (γ i) o r ∧
        J (Tasks.moved D γ i o r) { c with front := ⟨s', c.front.tasks.set i (k r, l')⟩ }) :
    ∃ γ', Tasks.Roles D Q γ' c.front ∧ J γ' c := by
  induction h with
  | start => exact ⟨γ, hroles, hj⟩
  | @act c₁ c₂ move hreach hallowed hact ih =>
      obtain ⟨γ', hroles', hj'⟩ := ih
      cases move with
      | inl move =>
          obtain ⟨base, hbaseAct, rfl⟩ := Option.map_eq_some_iff.mp hact
          obtain ⟨o, k, l, r, s', l', htask, hdoes, rfl⟩ := Tasks.act_eq_some hbaseAct
          exact ⟨γ', hroles', hbase _ _ _ _ _ _ _ _ _ _ hreach hallowed hroles' hj' htask hdoes⟩
      | inr move =>
          obtain ⟨front, hfrontAct, rfl⟩ := Option.map_eq_some_iff.mp hact
          obtain ⟨o, k, l, r, s', l', htask, hdoes, rfl⟩ := Tasks.act_eq_some hfrontAct
          obtain ⟨hans, hj''⟩ := hfront _ _ _ _ _ _ _ _ _ _ hreach hallowed hroles' hj' htask
            (hroles' _ _ _ htask).1 hdoes
          exact ⟨_, Tasks.roles_act hroles' htask hans, hj''⟩

end Beside

end Lib
