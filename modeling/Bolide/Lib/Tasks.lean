/-
Bolide.Lib.Tasks — programs that run side by side.

`Tasks` is a shared state and a list of programs, each with a state of its
own. In one step one task performs its next operation. What an operation
does is given by a `Does`: it may be disabled, so that the task waits, and
what the model leaves open (what arrives, which way a choice goes) is the
scheduler's choice `m`. `Reaches` is every interleaving whose steps all meet
a condition.

`Reaches.sound` is the proof rule. Each task follows a discipline from a
ghost state of its own, and `J` ties a task's ghost state to the shared
state. It is enough that one operation of one task keeps this, for itself
and for every other task.
-/
import Bolide.Lib.Prog

namespace Lib

open Prog

variable {σ : Sig} {ε α S L M G : Type}

/-- What an operation does, under the scheduler's choice: its answer, the
shared state and the task's own state after it. -/
abbrev Does (σ : Sig) (S L M : Type) := (o : σ.Op) → M → S → L → Option (σ.Resp o × S × L)

/-- Tasks on a shared state. -/
structure Tasks (σ : Sig) (ε α S L : Type) where
  shared : S
  tasks : List (Prog σ ε α × L)

namespace Tasks

/-- Task `i` performs its next operation. -/
def act (does : Does σ S L M) (i : Nat) (m : M) (c : Tasks σ ε α S L) :
    Option (Tasks σ ε α S L) :=
  match c.tasks[i]? with
  | some (.step o k, l) =>
      (does o m c.shared l).map (fun a => ⟨a.2.1, c.tasks.set i (k a.1, a.2.2)⟩)
  | _ => none

/-- One interleaving. -/
def run (does : Does σ S L M) : List (Nat × M) → Tasks σ ε α S L → Option (Tasks σ ε α S L)
  | [], c => some c
  | (i, m) :: rest, c => do
      let c ← c.act does i m
      c.run does rest

/-- One interleaving, as long as its steps pass a check. -/
def runWhile (check : Tasks σ ε α S L → Nat → M → Bool) (does : Does σ S L M) :
    List (Nat × M) → Tasks σ ε α S L → Option (Tasks σ ε α S L)
  | [], c => some c
  | (i, m) :: rest, c =>
      if check c i m = true then do
        let c ← c.act does i m
        c.runWhile check does rest
      else none

/-- Everything interleavings reach whose steps are all allowed. -/
inductive Reaches (does : Does σ S L M) (allowed : Tasks σ ε α S L → Nat → M → Prop)
    (c : Tasks σ ε α S L) : Tasks σ ε α S L → Prop
  | start : Reaches does allowed c c
  | act {c' c'' i m} : Reaches does allowed c c' → allowed c' i m → c'.act does i m = some c'' →
      Reaches does allowed c c''

variable {does : Does σ S L M} {allowed : Tasks σ ε α S L → Nat → M → Prop}
  {c c' : Tasks σ ε α S L} {i : Nat} {m : M}

/-- A step is one operation of one task. -/
theorem act_eq_some (h : c.act does i m = some c') :
    ∃ o k l r s' l', c.tasks[i]? = some (.step o k, l) ∧
      does o m c.shared l = some (r, s', l') ∧ c' = ⟨s', c.tasks.set i (k r, l')⟩ := by
  rw [act] at h
  split at h
  · next o k l htask =>
      rw [Option.map_eq_some_iff] at h
      obtain ⟨⟨r, s', l'⟩, hdoes, rfl⟩ := h
      exact ⟨o, k, l, r, s', l', htask, hdoes, rfl⟩
  · cases h

theorem reaches_run {schedule : List (Nat × M)} {c₀ : Tasks σ ε α S L}
    (h : c.run does schedule = some c') (h₀ : Reaches does (fun _ _ _ => True) c₀ c) :
    Reaches does (fun _ _ _ => True) c₀ c' := by
  induction schedule generalizing c with
  | nil =>
      cases h
      exact h₀
  | cons move rest ih =>
      rw [run, Option.bind_eq_bind, Option.bind_eq_some_iff] at h
      obtain ⟨c₁, hact, hrest⟩ := h
      exact ih hrest (.act h₀ trivial hact)

theorem reaches_runWhile {check : Tasks σ ε α S L → Nat → M → Bool}
    (hcheck : ∀ c i m, check c i m = true → allowed c i m) {schedule : List (Nat × M)}
    {c₀ : Tasks σ ε α S L} (h : c.runWhile check does schedule = some c')
    (h₀ : Reaches does allowed c₀ c) : Reaches does allowed c₀ c' := by
  induction schedule generalizing c with
  | nil =>
      cases h
      exact h₀
  | cons move rest ih =>
      rw [runWhile] at h
      split at h
      · next hok =>
          rw [Option.bind_eq_bind, Option.bind_eq_some_iff] at h
          obtain ⟨c₁, hact, hrest⟩ := h
          exact ih hrest (.act h₀ (hcheck _ _ _ hok) hact)
      · cases h

/-! ## What has happened -/

/-- One operation of one task, and its answer. -/
structure Entry (σ : Sig) where
  task : Nat
  op : σ.Op
  answer : σ.Resp op

/-- A place in what has happened is the last one, or one before it. -/
theorem snoc_split {β : Type} {t before after : List β} {e e' : β}
    (h : t ++ [e] = before ++ e' :: after) :
    (after = [] ∧ t = before ∧ e = e') ∨
      ∃ rest, after = rest ++ [e] ∧ t = before ++ e' :: rest := by
  rcases List.eq_nil_or_concat after with rfl | ⟨rest, last, rfl⟩
  · obtain ⟨ht, he⟩ := List.append_inj' h rfl
    exact .inl ⟨rfl, ht, List.singleton_inj.mp he⟩
  · rw [List.concat_eq_append, ← List.cons_append, ← List.append_assoc] at h
    obtain ⟨ht, he⟩ := List.append_inj' h rfl
    cases he
    exact .inr ⟨rest, List.concat_eq_append, ht⟩

/-- Everything interleavings reach whose steps are all allowed, with the
operations that led there, the oldest first. -/
inductive Runs (does : Does σ S L M)
    (within : List (Entry σ) → Tasks σ ε α S L → Nat → M → Prop) (c : Tasks σ ε α S L) :
    List (Entry σ) → Tasks σ ε α S L → Prop
  | start : Runs does within c [] c
  | act {t c' i m o k l r s' l'} : Runs does within c t c' → within t c' i m →
      c'.tasks[i]? = some (.step o k, l) → does o m c'.shared l = some (r, s', l') →
      Runs does within c (t ++ [⟨i, o, r⟩]) ⟨s', c'.tasks.set i (k r, l')⟩

/-- Every interleaving. -/
abbrev Anyhow : List (Entry σ) → Tasks σ ε α S L → Nat → M → Prop := fun _ _ _ _ => True

/-- Task `i` performs its next operation, which is noted. -/
def note (does : Does σ S L M) (i : Nat) (m : M) (t : List (Entry σ)) (c : Tasks σ ε α S L) :
    Option (List (Entry σ) × Tasks σ ε α S L) :=
  match c.tasks[i]? with
  | some (.step o k, l) =>
      (does o m c.shared l).map
        (fun a => (t ++ [⟨i, o, a.1⟩], ⟨a.2.1, c.tasks.set i (k a.1, a.2.2)⟩))
  | _ => none

/-- One interleaving, as long as its steps pass a check, and what happened. -/
def record (check : List (Entry σ) → Tasks σ ε α S L → Nat → M → Bool) (does : Does σ S L M) :
    List (Nat × M) → List (Entry σ) → Tasks σ ε α S L →
      Option (List (Entry σ) × Tasks σ ε α S L)
  | [], t, c => some (t, c)
  | (i, m) :: rest, t, c =>
      if check t c i m = true then
        match c.note does i m t with
        | some (t, c) => c.record check does rest t
        | none => none
      else none

/-- What a schedule leads to is a run. -/
theorem runs_record {within : List (Entry σ) → Tasks σ ε α S L → Nat → M → Prop}
    {check : List (Entry σ) → Tasks σ ε α S L → Nat → M → Bool}
    (hcheck : ∀ t c i m, check t c i m = true → within t c i m) {schedule : List (Nat × M)}
    {c₀ : Tasks σ ε α S L} {t t' : List (Entry σ)}
    (h : c.record check does schedule t = some (t', c')) (h₀ : Runs does within c₀ t c) :
    Runs does within c₀ t' c' := by
  induction schedule generalizing t c with
  | nil =>
      cases h
      exact h₀
  | cons move rest ih =>
      rw [record] at h
      split at h
      · next hok =>
          split at h
          · next t₁ c₁ hnote =>
              rw [note] at hnote
              split at hnote
              · next o k l htask =>
                  rw [Option.map_eq_some_iff] at hnote
                  obtain ⟨⟨r, s', l'⟩, hdoes, heq⟩ := hnote
                  cases heq
                  exact ih h (.act h₀ (hcheck _ _ _ _ hok) htask hdoes)
              · cases hnote
          · cases h
      · cases h

/-- A schedule at whose end task `j` has returned. -/
theorem returned_of_record {within : List (Entry σ) → Tasks σ ε α S L → Nat → M → Prop}
    {check : List (Entry σ) → Tasks σ ε α S L → Nat → M → Bool}
    (hcheck : ∀ t c i m, check t c i m = true → within t c i m) {schedule : List (Nat × M)}
    {j : Nat} {a : α}
    (h : ((c.record check does schedule []).bind (fun e => e.2.tasks[j]?)).map
      (fun e => e.1.value?) = some (some a)) :
    ∃ t c' l, Runs does within c t c' ∧ c'.tasks[j]? = some (.ret a, l) := by
  obtain ⟨⟨p, l⟩, hget, hvalue⟩ := Option.map_eq_some_iff.mp h
  obtain ⟨⟨t, c'⟩, hrecord, hget⟩ := Option.bind_eq_some_iff.mp hget
  cases value?_eq_some hvalue
  exact ⟨t, c', l, runs_record hcheck hrecord .start, hget⟩

/-! ## The rule -/

/-- Every task follows the discipline, and the states agree with it. -/
structure Sound (D : Discipline σ ε G) (Q : α → G → Prop) (J : Nat → G → S → L → Prop)
    (c : Tasks σ ε α S L) : Prop where
  tasks : ∀ j p l, c.tasks[j]? = some (p, l) → ∃ g, Follows D g p Q ∧ J j g c.shared l

/-- What task `i` keeps by one operation: its own ghost state, and that of
every other task. -/
structure Kept (D : Discipline σ ε G) (Q : α → G → Prop) (J : Nat → G → S → L → Prop)
    (c : Tasks σ ε α S L) (i : Nat) (g : G) (o : σ.Op) (r : σ.Resp o) (s' : S) (l' : L) :
    Prop where
  answers : D.answers g o r
  own : J i (D.next g o r) s' l'
  others : ∀ j p l g, j ≠ i → c.tasks[j]? = some (p, l) → Follows D g p Q → J j g c.shared l →
    J j g s' l

variable {D : Discipline σ ε G} {Q : α → G → Prop} {J : Nat → G → S → L → Prop}

theorem sound_act (hc : Sound D Q J c) (hact : c.act does i m = some c')
    (hstep : ∀ o k l g r s' l', c.tasks[i]? = some (.step o k, l) → Follows D g (.step o k) Q →
      J i g c.shared l → does o m c.shared l = some (r, s', l') → Kept D Q J c i g o r s' l') :
    Sound D Q J c' := by
  obtain ⟨o, k, l, r, s', l', htask, hdoes, rfl⟩ := act_eq_some hact
  obtain ⟨g, hf, hj⟩ := hc.tasks _ _ _ htask
  have hkept := hstep o k l g r s' l' htask hf hj hdoes
  refine ⟨fun j p₂ l₂ hget => ?_⟩
  by_cases hji : j = i
  · subst hji
    rw [List.getElem?_set_self (List.getElem?_eq_some_iff.mp htask).1] at hget
    cases hget
    exact ⟨_, hf.2 r hkept.answers, hkept.own⟩
  · rw [List.getElem?_set_ne (Ne.symm hji)] at hget
    obtain ⟨g₂, hf₂, hj₂⟩ := hc.tasks _ _ _ hget
    exact ⟨g₂, hf₂, hkept.others j p₂ l₂ g₂ hji hget hf₂ hj₂⟩

/-- What one allowed operation keeps holds after every allowed interleaving. -/
theorem Reaches.sound (h : Reaches does allowed c c') (hc : Sound D Q J c)
    (hstep : ∀ (c : Tasks σ ε α S L) i m o k l g r s' l', allowed c i m → Sound D Q J c →
      c.tasks[i]? = some (.step o k, l) → Follows D g (.step o k) Q → J i g c.shared l →
      does o m c.shared l = some (r, s', l') → Kept D Q J c i g o r s' l') :
    Sound D Q J c' := by
  induction h with
  | start => exact hc
  | act _ hallowed hact ih =>
      exact sound_act ih hact (fun o k l g r s' l' => hstep _ _ _ o k l g r s' l' hallowed ih)

/-! ## The rule for invariants of several tasks at once -/

/-- Every task follows the discipline, from its own ghost state. -/
def Roles (D : Discipline σ ε G) (Q : α → G → Prop) (γ : Nat → G) (c : Tasks σ ε α S L) : Prop :=
  ∀ j p l, c.tasks[j]? = some (p, l) → Follows D (γ j) p Q

/-- The ghost states after an operation of task `i`. -/
def moved (D : Discipline σ ε G) (γ : Nat → G) (i : Nat) (o : σ.Op) (r : σ.Resp o) : Nat → G :=
  Function.update γ i (D.next (γ i) o r)

@[simp] theorem moved_self (D : Discipline σ ε G) (γ : Nat → G) (i : Nat) (o : σ.Op)
    (r : σ.Resp o) : moved D γ i o r i = D.next (γ i) o r := Function.update_self _ _ _

theorem moved_of_ne (D : Discipline σ ε G) (γ : Nat → G) {i j : Nat} (h : j ≠ i) (o : σ.Op)
    (r : σ.Resp o) : moved D γ i o r j = γ j := Function.update_of_ne h _ _

theorem roles_act {γ : Nat → G} {o : σ.Op} {k : σ.Resp o → Prog σ ε α} {l l' : L} {r : σ.Resp o}
    {s' : S} (hroles : Roles D Q γ c) (htask : c.tasks[i]? = some (.step o k, l))
    (hans : D.answers (γ i) o r) :
    Roles D Q (moved D γ i o r) ⟨s', c.tasks.set i (k r, l')⟩ := by
  intro j p l₂ hget
  by_cases hji : j = i
  · subst hji
    rw [List.getElem?_set_self (List.getElem?_eq_some_iff.mp htask).1] at hget
    cases hget
    rw [moved_self]
    exact (hroles j _ _ htask).2 r hans
  · rw [List.getElem?_set_ne (Ne.symm hji)] at hget
    rw [moved_of_ne D γ hji]
    exact hroles j p l₂ hget

/-- An invariant of the ghost states, of what has happened and of the system,
that one allowed operation keeps, holds after every allowed run. -/
theorem Runs.joint {J : (Nat → G) → List (Entry σ) → Tasks σ ε α S L → Prop} {γ : Nat → G}
    {within : List (Entry σ) → Tasks σ ε α S L → Nat → M → Prop} {t : List (Entry σ)}
    (h : Runs does within c t c') (hroles : Roles D Q γ c) (hj : J γ [] c)
    (hstep : ∀ t (c : Tasks σ ε α S L) γ i m o k l r s' l', within t c i m → Roles D Q γ c →
      J γ t c → c.tasks[i]? = some (.step o k, l) → D.may (γ i) o →
      does o m c.shared l = some (r, s', l') →
      D.answers (γ i) o r ∧
        J (moved D γ i o r) (t ++ [⟨i, o, r⟩]) ⟨s', c.tasks.set i (k r, l')⟩) :
    ∃ γ', Roles D Q γ' c' ∧ J γ' t c' := by
  induction h with
  | start => exact ⟨γ, hroles, hj⟩
  | act _ hwithin htask hdoes ih =>
      obtain ⟨γ', hroles', hj'⟩ := ih
      obtain ⟨hans, hj''⟩ := hstep _ _ γ' _ _ _ _ _ _ _ _ hwithin hroles' hj' htask
        (hroles' _ _ _ htask).1 hdoes
      exact ⟨_, roles_act hroles' htask hans, hj''⟩

end Tasks

end Lib
