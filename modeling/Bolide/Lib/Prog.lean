/-
Bolide.Lib.Prog — programs of atomic operations.

A task of a concurrent system computes privately and touches what it shares
with others one atomic operation at a time. `Prog σ ε α` is such a task as
a tree: it returns, fails, or performs an operation of the signature `σ`
and goes on with the answer. One such value has two readings.

* Alone: `run h p s` performs every operation on a state by the handler
  `h`, until the program returns or fails. `run_bind` composes runs, and
  `Lib.Prog.run` is a plain function, so a sequential theorem is an equation
  about it.
* Among others: `Step` performs ONE operation, and a system interleaves the
  steps of several programs as it likes.

`Discipline` is the proof rule both readings share. It gives a program a
private ghost state, says which operations may be performed in it, which
answers to expect and how it moves, and `Follows` checks a program against
it by recursion on the tree: `follows_bind` composes, and
`Follows.step` says that a program that follows a discipline still does
after one operation, whatever the rest of the system did in between.
-/
import Mathlib

namespace Lib

/-- The operations of a signature and the type of each one's answer. -/
structure Sig where
  Op : Type
  Resp : Op → Type

/-- The operations of both. -/
abbrev Sig.sum (σ τ : Sig) : Sig where
  Op := σ.Op ⊕ τ.Op
  Resp := Sum.elim σ.Resp τ.Resp

/-- A program over `σ` that fails with an `ε` or returns an `α`. -/
inductive Prog (σ : Sig) (ε α : Type) : Type where
  | ret (a : α)
  | fail (e : ε)
  | step (o : σ.Op) (k : σ.Resp o → Prog σ ε α)

namespace Prog

variable {σ : Sig} {ε α β S : Type}

/-! ## The monad -/

def bind : Prog σ ε α → (α → Prog σ ε β) → Prog σ ε β
  | ret a, f => f a
  | fail e, _ => fail e
  | step o k, f => step o (fun r => (k r).bind f)

instance : Monad (Prog σ ε) where
  pure := ret
  bind := bind

/-- Perform one operation and return its answer. -/
def perform (o : σ.Op) : Prog σ ε (σ.Resp o) := step o ret

/-- Run to the end and return how it ended. -/
def attempt : Prog σ ε α → Prog σ ε (Except ε α)
  | ret a => ret (.ok a)
  | fail e => ret (.error e)
  | step o k => step o (fun r => (k r).attempt)

/-- Go on with the value of a private computation, or fail as it did. -/
def ofExcept : Except ε α → Prog σ ε α
  | .ok a => ret a
  | .error e => fail e

@[simp] theorem pure_eq (a : α) : (pure a : Prog σ ε α) = ret a := rfl
@[simp] theorem ret_bind (a : α) (f : α → Prog σ ε β) : (ret a >>= f) = f a := rfl
@[simp] theorem fail_bind (e : ε) (f : α → Prog σ ε β) : (fail e >>= f) = fail e := rfl
@[simp] theorem step_bind (o : σ.Op) (k : σ.Resp o → Prog σ ε α) (f : α → Prog σ ε β) :
    (step o k >>= f) = step o (fun r => k r >>= f) := rfl
@[simp] theorem perform_bind (o : σ.Op) (f : σ.Resp o → Prog σ ε β) :
    (perform o >>= f) = step o f := rfl
@[simp] theorem ofExcept_ok (a : α) : (ofExcept (.ok a) : Prog σ ε α) = ret a := rfl
@[simp] theorem ofExcept_error (e : ε) : (ofExcept (.error e) : Prog σ ε α) = fail e := rfl

instance : LawfulMonad (Prog σ ε) := LawfulMonad.mk' _
  (fun p => by
    induction p with
    | ret a => rfl
    | fail e => rfl
    | step o k ih => exact congrArg (step o) (funext ih))
  (fun _ _ => rfl)
  (fun p f g => by
    induction p with
    | ret a => rfl
    | fail e => rfl
    | step o k ih => exact congrArg (step o) (funext ih))

/-- What a program that is done returned. -/
def value? : Prog σ ε α → Option α
  | ret a => some a
  | _ => none

theorem value?_eq_some {p : Prog σ ε α} {a : α} (h : p.value? = some a) : p = ret a := by
  cases p with
  | ret b =>
      cases h
      rfl
  | fail e => cases h
  | step o k => cases h

/-- The operation a program performs next. -/
def next? : Prog σ ε α → Option σ.Op
  | step o _ => some o
  | _ => none

theorem next?_eq_some {p : Prog σ ε α} {o : σ.Op} (h : p.next? = some o) : ∃ k, p = step o k := by
  cases p with
  | ret a => cases h
  | fail e => cases h
  | step o' k =>
      cases h
      exact ⟨k, rfl⟩

/-- The program can come to an operation that satisfies `P`. -/
inductive Comes (P : σ.Op → Prop) : Prog σ ε α → Prop
  | here {o k} : P o → Comes P (step o k)
  | later {o k} (r : σ.Resp o) : Comes P (k r) → Comes P (step o k)

/-! ## Larger signatures -/

/-- Run a program of the smaller signature and return how it ended. -/
def call {σ τ : Sig} {ε ε' α : Type} : Prog σ ε α → Prog (σ.sum τ) ε' (Except ε α)
  | ret a => ret (.ok a)
  | fail e => ret (.error e)
  | step o k => step (.inl o) (fun r => (k r).call)

/-! ## Alone -/

/-- What an operation does to a state: its answer, and the state after. -/
abbrev Handler (σ : Sig) (S : Type) : Type := (o : σ.Op) → S → σ.Resp o × S

/-- Run a program to its end. -/
def run (h : Handler σ S) : Prog σ ε α → S → Except ε α × S
  | ret a, s => (.ok a, s)
  | fail e, s => (.error e, s)
  | step o k, s => (k (h o s).1).run h (h o s).2

variable {h : Handler σ S}

@[simp] theorem run_ret (a : α) (s : S) : (ret a : Prog σ ε α).run h s = (.ok a, s) := rfl
@[simp] theorem run_fail (e : ε) (s : S) : (fail e : Prog σ ε α).run h s = (.error e, s) := rfl
@[simp] theorem run_step (o : σ.Op) (k : σ.Resp o → Prog σ ε α) (s : S) :
    (step o k).run h s = (k (h o s).1).run h (h o s).2 := rfl

/-- A composed program runs its first part and goes on from where that ended. -/
theorem run_bind (p : Prog σ ε α) (f : α → Prog σ ε β) (s : S) :
    (p >>= f).run h s =
      match p.run h s with
      | (.ok a, s') => (f a).run h s'
      | (.error e, s') => (.error e, s') := by
  induction p generalizing s with
  | ret a => rfl
  | fail e => rfl
  | step o k ih => exact ih _ _

theorem run_attempt (p : Prog σ ε α) (s : S) :
    p.attempt.run h s = (.ok (p.run h s).1, (p.run h s).2) := by
  induction p generalizing s with
  | ret a => rfl
  | fail e => rfl
  | step o k ih => exact ih _ _

theorem run_bind_ok {p : Prog σ ε α} {f : α → Prog σ ε β} {s s' : S} {a : α}
    (hp : p.run h s = (.ok a, s')) : (p >>= f).run h s = (f a).run h s' := by
  rw [run_bind, hp]

theorem run_bind_error {p : Prog σ ε α} {f : α → Prog σ ε β} {s s' : S} {e : ε}
    (hp : p.run h s = (.error e, s')) : (p >>= f).run h s = (.error e, s') := by
  rw [run_bind, hp]

/-- A program that fails whatever its first part returns. -/
theorem run_bind_fail (p : Prog σ ε α) (e : α → ε) (s : S) :
    ∃ e', ((p >>= fun a => (fail (e a) : Prog σ ε β)).run h s).1 = .error e' := by
  rw [run_bind]
  rcases hp : p.run h s with ⟨a | a, s'⟩
  · exact ⟨a, rfl⟩
  · exact ⟨e a, rfl⟩

/-! ## One operation at a time -/

/-- One operation of the program on the shared state. -/
inductive Step (h : Handler σ S) : Prog σ ε α → S → Prog σ ε α → S → Prop
  | op (o k s) : Step h (step o k) s (k (h o s).1) (h o s).2

/-- Any number of operations. -/
inductive Steps (h : Handler σ S) (p : Prog σ ε α) (s : S) : Prog σ ε α → S → Prop
  | refl : Steps h p s p s
  | tail {p' s' p'' s''} : Steps h p s p' s' → Step h p' s' p'' s'' → Steps h p s p'' s''

theorem Steps.head {p p' p'' : Prog σ ε α} {s s' s'' : S} (hs : Step h p s p' s')
    (hrest : Steps h p' s' p'' s'') : Steps h p s p'' s'' := by
  induction hrest with
  | refl => exact .tail .refl hs
  | tail _ hstep ih => exact .tail ih hstep

/-- Running to the end is stepping to the end. -/
theorem steps_run (p : Prog σ ε α) (s : S) :
    Steps h p s (ofExcept (p.run h s).1) (p.run h s).2 := by
  induction p generalizing s with
  | ret a => exact .refl
  | fail e => exact .refl
  | step o k ih => exact Steps.head (.op o k s) (ih _ _)

/-! ## Traces -/

/-- An operation and its answer. -/
abbrev Event (σ : Sig) : Type := (o : σ.Op) × σ.Resp o

/-- The program ends this way when its operations are answered so: whoever
answers, and whatever the answers. -/
inductive Traced : Prog σ ε α → List (Event σ) → Except ε α → Prop
  | ret (a) : Traced (ret a) [] (.ok a)
  | fail (e) : Traced (fail e) [] (.error e)
  | step {o k trace ended} (r : σ.Resp o) : Traced (k r) trace ended →
      Traced (step o k) (⟨o, r⟩ :: trace) ended

theorem Traced.of_ret {a : α} {trace : List (Event σ)} {ended : Except ε α}
    (h : Traced (Prog.ret a) trace ended) : trace = [] ∧ ended = .ok a := by
  cases h
  exact ⟨rfl, rfl⟩

theorem Traced.of_fail {e : ε} {trace : List (Event σ)} {ended : Except ε α}
    (h : Traced (Prog.fail e) trace ended) : trace = [] ∧ ended = .error e := by
  cases h
  exact ⟨rfl, rfl⟩

theorem Traced.of_step {o : σ.Op} {k : σ.Resp o → Prog σ ε α} {trace : List (Event σ)}
    {ended : Except ε α} (h : Traced (Prog.step o k) trace ended) :
    ∃ r rest, trace = ⟨o, r⟩ :: rest ∧ Traced (k r) rest ended := by
  cases h with
  | step r h => exact ⟨r, _, rfl, h⟩

/-- A composed program ends in its first part, or goes on from its value. -/
theorem Traced.of_bind {p : Prog σ ε α} {f : α → Prog σ ε β} {trace : List (Event σ)}
    {ended : Except ε β} (h : Traced (p >>= f) trace ended) :
    (∃ a before after, trace = before ++ after ∧ Traced p before (.ok a) ∧
      Traced (f a) after ended) ∨ ∃ e, ended = .error e ∧ Traced p trace (.error e) := by
  induction p generalizing trace with
  | ret a => exact .inl ⟨a, [], trace, rfl, .ret a, h⟩
  | fail e =>
      obtain ⟨rfl, rfl⟩ := h.of_fail
      exact .inr ⟨e, rfl, .fail e⟩
  | step o k ih =>
      obtain ⟨r, rest, rfl, hrest⟩ := h.of_step
      rcases ih r hrest with ⟨a, before, after, rfl, hp, hf⟩ | ⟨e, rfl, hp⟩
      · exact .inl ⟨a, ⟨o, r⟩ :: before, after, rfl, .step r hp, hf⟩
      · exact .inr ⟨e, rfl, .step r hp⟩

/-! ## Disciplines -/

/-- A ghost protocol for one program: in ghost state `g`, which operations
it may perform, which answers come, how `g` moves, and how it may fail. -/
structure Discipline (σ : Sig) (ε G : Type) where
  may : G → σ.Op → Prop
  answers : G → (o : σ.Op) → σ.Resp o → Prop
  next : G → (o : σ.Op) → σ.Resp o → G
  fails : G → ε → Prop

variable {G : Type} (D : Discipline σ ε G)

/-- The program follows the discipline from `g` and returns only with `Q`. -/
def Follows (g : G) : Prog σ ε α → (α → G → Prop) → Prop
  | ret a, Q => Q a g
  | fail e, _ => D.fails g e
  | step o k, Q => D.may g o ∧ ∀ r, D.answers g o r → Follows (D.next g o r) (k r) Q

variable {D}

@[simp] theorem follows_ret {g : G} {a : α} {Q : α → G → Prop} :
    Follows D g (ret a) Q ↔ Q a g := Iff.rfl

@[simp] theorem follows_fail {g : G} {e : ε} {Q : α → G → Prop} :
    Follows D g (fail e) Q ↔ D.fails g e := Iff.rfl

@[simp] theorem follows_step {g : G} {o : σ.Op} {k : σ.Resp o → Prog σ ε α}
    {Q : α → G → Prop} :
    Follows D g (step o k) Q ↔
      D.may g o ∧ ∀ r, D.answers g o r → Follows D (D.next g o r) (k r) Q := Iff.rfl

/-- An operation, and what is done with its answer. -/
theorem follows_perform {g : G} {o : σ.Op} {f : σ.Resp o → Prog σ ε α} {Q : α → G → Prop}
    (hmay : D.may g o) (hf : ∀ r, D.answers g o r → Follows D (D.next g o r) (f r) Q) :
    Follows D g (perform o >>= f) Q := ⟨hmay, hf⟩

theorem Follows.mono {p : Prog σ ε α} : ∀ {g : G} {Q Q' : α → G → Prop},
    Follows D g p Q → (∀ a g', Q a g' → Q' a g') → Follows D g p Q' := by
  induction p with
  | ret a => intro g Q Q' hf hq; exact hq a g hf
  | fail e => intro g Q Q' hf _; exact hf
  | step o k ih =>
      intro g Q Q' hf hq
      exact ⟨hf.1, fun r hr => ih r (hf.2 r hr) hq⟩

/-- Sequential composition. -/
theorem follows_bind {p : Prog σ ε α} {f : α → Prog σ ε β} : ∀ {g : G} {R : α → G → Prop}
    {Q : β → G → Prop}, Follows D g p R → (∀ a g', R a g' → Follows D g' (f a) Q) →
    Follows D g (p >>= f) Q := by
  induction p with
  | ret a => intro g R Q hp hf; exact hf a g hp
  | fail e => intro g R Q hp _; exact hp
  | step o k ih =>
      intro g R Q hp hf
      exact ⟨hp.1, fun r hr => ih r (hp.2 r hr) hf⟩

/-- A failure that is caught leaves the ghost state where it happened. -/
theorem follows_attempt {p : Prog σ ε α} : ∀ {g : G} {R : α → G → Prop}
    {Q : Except ε α → G → Prop}, Follows D g p R → (∀ a g', R a g' → Q (.ok a) g') →
    (∀ e g', D.fails g' e → Q (.error e) g') → Follows D g p.attempt Q := by
  induction p with
  | ret a => intro g R Q hp hok _; exact hok a g hp
  | fail e => intro g R Q hp _ herr; exact herr e g hp
  | step o k ih =>
      intro g R Q hp hok herr
      exact ⟨hp.1, fun r hr => ih r (hp.2 r hr) hok herr⟩

/-- Every operation the program can come to satisfies `P`, and every value it
can return satisfies `R`. -/
def Only (P : σ.Op → Prop) (R : α → Prop) : Prog σ ε α → Prop
  | ret a => R a
  | fail _ => True
  | step o k => P o ∧ ∀ r, (k r).Only P R

theorem Only.bind {P : σ.Op → Prop} {R : α → Prop} {R' : β → Prop} {p : Prog σ ε α}
    {f : α → Prog σ ε β} (hp : p.Only P R) (hf : ∀ a, R a → (f a).Only P R') :
    (p >>= f).Only P R' := by
  induction p with
  | ret a => exact hf a hp
  | fail e => trivial
  | step o k ih => exact ⟨hp.1, fun r => ih r (hp.2 r)⟩

theorem Only.mono {P : σ.Op → Prop} {R R' : α → Prop} {p : Prog σ ε α} (hp : p.Only P R)
    (h : ∀ a, R a → R' a) : p.Only P R' := by
  induction p with
  | ret a => exact h a hp
  | fail e => trivial
  | step o k ih => exact ⟨hp.1, fun r => ih r (hp.2 r)⟩

theorem Only.attempt {P : σ.Op → Prop} {R : α → Prop} {p : Prog σ ε α} (hp : p.Only P R) :
    p.attempt.Only P (fun ended => ∀ a, ended = .ok a → R a) := by
  induction p with
  | ret a =>
      intro a' h
      cases h
      exact hp
  | fail e =>
      intro a h
      cases h
  | step o k ih => exact ⟨hp.1, fun r => ih r (hp.2 r)⟩

theorem Only.call {σ τ : Sig} {ε ε' α : Type} {P : (σ.sum τ).Op → Prop} {R : α → Prop}
    {p : Prog σ ε α} (hp : p.Only (fun o => P (.inl o)) R) :
    (p.call : Prog (σ.sum τ) ε' (Except ε α)).Only P (fun ended => ∀ a, ended = .ok a → R a) := by
  induction p with
  | ret a =>
      intro a' h
      cases h
      exact hp
  | fail e =>
      intro a h
      cases h
  | step o k ih => exact ⟨hp.1, fun r => ih r (hp.2 r)⟩

/-- Every failure the program can come to satisfies `F`, and every value it
can return satisfies `R`. -/
def Closes (F : ε → Prop) (R : α → Prop) : Prog σ ε α → Prop
  | ret a => R a
  | fail e => F e
  | step _ k => ∀ r, (k r).Closes F R

theorem Closes.bind {F : ε → Prop} {R : α → Prop} {R' : β → Prop} {p : Prog σ ε α}
    {f : α → Prog σ ε β} (hp : p.Closes F R) (hf : ∀ a, R a → (f a).Closes F R') :
    (p >>= f).Closes F R' := by
  induction p with
  | ret a => exact hf a hp
  | fail e => exact hp
  | step o k ih => exact fun r => ih r (hp r)

/-- A called program returns how it ended. -/
theorem Closes.call {σ τ : Sig} {ε ε' α : Type} {F : ε → Prop} {F' : ε' → Prop} {R : α → Prop}
    {p : Prog σ ε α} (hp : p.Closes F R) :
    (p.call : Prog (σ.sum τ) ε' (Except ε α)).Closes F'
      (fun ended => (∀ a, ended = .ok a → R a) ∧ ∀ e, ended = .error e → F e) := by
  induction p with
  | ret a =>
      refine ⟨fun a' h => ?_, nofun⟩
      cases h
      exact hp
  | fail e =>
      refine ⟨nofun, fun e' h => ?_⟩
      cases h
      exact hp
  | step o k ih => exact fun r => ih r (hp r)

/-- A program that performs only operations allowed in `g` stays in `g`. -/
theorem follows_of_only {P : σ.Op → Prop} {R : α → Prop} {g : G}
    (hmay : ∀ o, P o → D.may g o) (hnext : ∀ o r, P o → D.next g o r = g)
    (hfails : ∀ e, D.fails g e) {p : Prog σ ε α} (hp : p.Only P R) :
    Follows D g p (fun a g' => R a ∧ g' = g) := by
  induction p with
  | ret a => exact ⟨hp, rfl⟩
  | fail e => exact hfails e
  | step o k ih =>
      refine ⟨hmay o hp.1, fun r _ => ?_⟩
      rw [hnext o r hp.1]
      exact ih r (hp.2 r)

/-- A program that follows a discipline follows every one that simulates it. -/
theorem Follows.map {G₁ G₂ : Type} {D₁ : Discipline σ ε G₁} {D₂ : Discipline σ ε G₂} (φ : G₁ → G₂)
    (hmay : ∀ g o, D₁.may g o → D₂.may (φ g) o)
    (hans : ∀ g o r, D₁.may g o → D₂.answers (φ g) o r → D₁.answers g o r)
    (hnext : ∀ g o r, D₁.may g o → D₂.next (φ g) o r = φ (D₁.next g o r))
    (hfails : ∀ g e, D₁.fails g e → D₂.fails (φ g) e) {p : Prog σ ε α} :
    ∀ {g : G₁} {Q₁ : α → G₁ → Prop} {Q₂ : α → G₂ → Prop}, Follows D₁ g p Q₁ →
      (∀ a g, Q₁ a g → Q₂ a (φ g)) → Follows D₂ (φ g) p Q₂ := by
  induction p with
  | ret a => intro g Q₁ Q₂ hf hq; exact hq a g hf
  | fail e => intro g Q₁ Q₂ hf _; exact hfails g e hf
  | step o k ih =>
      intro g Q₁ Q₂ hf hq
      refine ⟨hmay g o hf.1, fun r hr => ?_⟩
      rw [hnext g o r hf.1]
      exact ih r (hf.2 r (hans g o r hf.1 hr)) hq

/-- Two disciplines at once, the second for the programs that have a ghost
state for it. -/
def Discipline.also {H : Type} (D : Discipline σ ε G) (E : Discipline σ ε H) :
    Discipline σ ε (G × Option H) where
  may g o := D.may g.1 o ∧ ∀ h ∈ g.2, E.may h o
  answers g o r := D.answers g.1 o r ∧ ∀ h ∈ g.2, E.answers h o r
  next g o r := (D.next g.1 o r, g.2.map (fun h => E.next h o r))
  fails g e := D.fails g.1 e ∧ ∀ h ∈ g.2, E.fails h e

/-- A program that follows both. -/
theorem Follows.also {H : Type} {E : Discipline σ ε H} {R : α → H → Prop} {p : Prog σ ε α} :
    ∀ {g : G} {h : H} {Q : α → G → Prop}, Follows D g p Q → Follows E h p R →
      Follows (D.also E) (g, some h) p (fun a s => Q a s.1 ∧ ∀ h ∈ s.2, R a h) := by
  induction p with
  | ret a =>
      intro g h Q hd he
      refine ⟨hd, fun h' hh => ?_⟩
      cases hh
      exact he
  | fail e =>
      intro g h Q hd he
      refine ⟨hd, fun h' hh => ?_⟩
      cases hh
      exact he
  | step o k ih =>
      intro g h Q hd he
      refine ⟨⟨hd.1, fun h' hh => ?_⟩, fun r hr => ih r (hd.2 r hr.1) (he.2 r (hr.2 h rfl))⟩
      cases hh
      exact he.1

/-- A program of which only the first is asked. -/
theorem Follows.unasked {H : Type} {E : Discipline σ ε H} {R : α → H → Prop} {p : Prog σ ε α} :
    ∀ {g : G} {Q : α → G → Prop}, Follows D g p Q →
      Follows (D.also E) (g, none) p (fun a s => Q a s.1 ∧ ∀ h ∈ s.2, R a h) := by
  induction p with
  | ret a => intro g Q hd; exact ⟨hd, nofun⟩
  | fail e => intro g Q hd; exact ⟨hd, nofun⟩
  | step o k ih => intro g Q hd; exact ⟨⟨hd.1, nofun⟩, fun r hr => ih r (hd.2 r hr.1)⟩

/-- The discipline of a program that is called, with what its failures are
allowed to be. -/
def Discipline.inl {σ τ : Sig} {ε ε' G : Type} (D : Discipline (σ.sum τ) ε' G)
    (fails : G → ε → Prop) : Discipline σ ε G where
  may g o := D.may g (.inl o)
  answers g o r := D.answers g (.inl o) r
  next g o r := D.next g (.inl o) r
  fails := fails

/-- A called program follows the caller's discipline. -/
theorem follows_call {σ τ : Sig} {ε ε' α G : Type} {D : Discipline (σ.sum τ) ε' G}
    {p : Prog σ ε α} : ∀ {g : G} {Q : Except ε α → G → Prop},
    Follows (D.inl (fun g e => Q (.error e) g)) g p (fun a g => Q (.ok a) g) →
    Follows D g p.call Q := by
  induction p with
  | ret a => intro g Q hp; exact hp
  | fail e => intro g Q hp; exact hp
  | step o k ih =>
      intro g Q hp
      exact ⟨hp.1, fun r hr => ih r (hp.2 r hr)⟩

/-- What one operation leaves behind still follows the discipline. -/
theorem Follows.step {p p' : Prog σ ε α} {s s' : S} {g : G} {Q : α → G → Prop}
    (hf : Follows D g p Q) (hs : Step h p s p' s')
    (hans : ∀ o, D.may g o → D.answers g o (h o s).1) :
    ∃ o, D.may g o ∧ s' = (h o s).2 ∧ Follows D (D.next g o (h o s).1) p' Q := by
  cases hs with
  | op o k _ => exact ⟨o, hf.1, rfl, hf.2 _ (hans o hf.1)⟩

/-- A discipline whose operations keep an invariant keeps it at every point
of every run. -/
theorem Follows.steps {p p' : Prog σ ε α} {s s' : S} {g : G} {Q : α → G → Prop}
    {I : G → S → Prop} (hf : Follows D g p Q) (h0 : I g s) (hs : Steps h p s p' s')
    (hans : ∀ g o s, I g s → D.may g o → D.answers g o (h o s).1)
    (hinv : ∀ g o s, I g s → D.may g o → I (D.next g o (h o s).1) (h o s).2) :
    ∃ g', Follows D g' p' Q ∧ I g' s' := by
  induction hs with
  | refl => exact ⟨g, hf, h0⟩
  | tail _ hstep ih =>
      obtain ⟨g', hf', h'⟩ := ih
      obtain ⟨o, hmay, rfl, hnext⟩ := hf'.step hstep (fun o ho => hans g' o _ h' ho)
      exact ⟨_, hnext, hinv g' o _ h' hmay⟩

/-- The same of the run to the end. -/
theorem Follows.run {p : Prog σ ε α} {s : S} {g : G} {Q : α → G → Prop} {I : G → S → Prop}
    (hf : Follows D g p Q) (h0 : I g s)
    (hans : ∀ g o s, I g s → D.may g o → D.answers g o (h o s).1)
    (hinv : ∀ g o s, I g s → D.may g o → I (D.next g o (h o s).1) (h o s).2) :
    ∃ g', Follows D g' (ofExcept (p.run h s).1) Q ∧ I g' (p.run h s).2 :=
  hf.steps h0 (steps_run p s) hans hinv

end Prog

end Lib
