/-
Bolide.Lib.Duplex — two programs at the two ends of a connection.

Each end is a program with a state of its own. What one end writes is in
flight until the other has read it, in order and without loss, and a read
waits until all that it asks for has arrived; when the far end is over and
not enough is in flight, it is told so. A step is one operation of either
end, so a run is any interleaving of the two.

`output` is an end by itself, as a function of what has arrived. Neither end
can tell in which order the steps were taken: a step of one end is still
there, and does the same, after a step of the other (`Step.commutes`).
Programs are trees, so every run comes to an end (`exists_ends`), and it is
the same one (`Ends.of_runs`): what a single schedule comes to is what every
schedule comes to.
-/
import Bolide.Lib.Prog

namespace Lib

open Prog Relation

/-! ## One end -/

/-- What an operation does at its end of a connection, with its answer and
the state after it. A read of `n` is answered with the `n` next items, or
with nothing when the stream ends before. -/
inductive Act (B R L : Type) where
  | read (n : Nat) (k : Option (List B) → R × L)
  | write (items : List B) (r : R) (l : L)
  | own (r : R) (l : L)

/-- What the operations of a signature do. -/
abbrev Acts (σ : Sig) (B L : Type) := (o : σ.Op) → L → Act B (σ.Resp o) L

/-- A program, and its own state. -/
structure End (σ : Sig) (ε α L : Type) where
  prog : Prog σ ε α
  own : L

/-- The program has returned or failed. -/
def Prog.over {σ : Sig} {ε α : Type} : Prog σ ε α → Bool
  | .step _ _ => false
  | _ => true

section Ends

variable {σ : Sig} {ε α B L : Type} {acts : Acts σ B L} {e e' : End σ ε α L}
  {arrived rest written more : List B} {closed : Bool}

/-- One operation of an end: the end after it, what has arrived and is not
read, and what it writes. -/
def advance (acts : Acts σ B L) (closed : Bool) (e : End σ ε α L) (arrived : List B) :
    Option (End σ ε α L × List B × List B) :=
  match e.prog with
  | .step o k =>
      match acts o e.own with
      | .read n got =>
          if n ≤ arrived.length then
            let (r, own) := got (some (arrived.take n))
            some (⟨k r, own⟩, arrived.drop n, [])
          else if closed = true then
            let (r, own) := got none
            some (⟨k r, own⟩, arrived, [])
          else none
      | .write items r own => some (⟨k r, own⟩, arrived, items)
      | .own r own => some (⟨k r, own⟩, arrived, [])
  | _ => none

/-- An end that is over does nothing. -/
theorem advance_over (h : e.prog.over = true) : advance acts closed e arrived = none := by
  rcases e with ⟨prog, own⟩
  cases prog with
  | step o k => cases h
  | _ => rfl

/-- An end that can go on can do so when more has arrived, and does the same. -/
theorem advance_append (h : advance acts false e arrived = some (e', rest, written))
    (more : List B) : advance acts closed e (arrived ++ more) = some (e', rest ++ more, written) := by
  rcases e with ⟨prog, own⟩
  cases prog with
  | step o k =>
      simp only [advance] at h ⊢
      split at h
      · next n got hacts =>
          split at h
          · next hn =>
              cases h
              rw [if_pos (by rw [List.length_append]; omega), List.take_append_of_le_length hn,
                List.drop_append_of_le_length hn]
          · simp at h
      · cases h
        rfl
      · cases h
        rfl
  | _ => cases h

/-- What is read is taken off the front. -/
theorem suffix_of_advance (h : advance acts closed e arrived = some (e', rest, written)) :
    rest <:+ arrived := by
  rcases e with ⟨prog, own⟩
  cases prog with
  | step o k =>
      simp only [advance] at h
      split at h
      · next n got hacts =>
          split at h
          · cases h
            exact List.drop_suffix n arrived
          · split at h
            · cases h
              exact List.suffix_refl _
            · cases h
      · cases h
        exact List.suffix_refl _
      · cases h
        exact List.suffix_refl _
  | _ => cases h

/-- Everything an end writes when so much has arrived, and the far end is not
over. -/
def output (acts : Acts σ B L) : Prog σ ε α → L → List B → List B
  | .step o k, own, arrived =>
      match acts o own with
      | .read n got =>
          if n ≤ arrived.length then
            output acts (k (got (some (arrived.take n))).1) (got (some (arrived.take n))).2
              (arrived.drop n)
          else []
      | .write items r own => items ++ output acts (k r) own arrived
      | .own r own => output acts (k r) own arrived
  | _, _, _ => []

/-- What an end writes in all is what it writes by one operation, and then. -/
theorem output_advance (h : advance acts false e arrived = some (e', rest, written))
    (more : List B) :
    output acts e.prog e.own (arrived ++ more) =
      written ++ output acts e'.prog e'.own (rest ++ more) := by
  rcases e with ⟨prog, own⟩
  cases prog with
  | step o k =>
      simp only [advance] at h
      simp only [output]
      split at h
      · next n got hacts =>
          split at h
          · next hn =>
              cases h
              rw [if_pos (by rw [List.length_append]; omega), List.take_append_of_le_length hn,
                List.drop_append_of_le_length hn, List.nil_append]
          · simp at h
      · cases h
        rfl
      · cases h
        rfl
  | _ => cases h

theorem output_over (h : e.prog.over = true) (arrived : List B) :
    output acts e.prog e.own arrived = [] := by
  rcases e with ⟨prog, own⟩
  cases prog with
  | step o k => cases h
  | _ => rfl

end Ends

/-! ## Both -/

/-- Two ends, and what is in flight to each. -/
structure Duplex (σ : Sig) (ε α L : Type) (τ : Sig) (ε' α' L' B : Type) where
  left : End σ ε α L
  right : End τ ε' α' L'
  toLeft : List B
  toRight : List B

namespace Duplex

variable {σ τ : Sig} {ε ε' α α' L L' B : Type} {acts : Acts σ B L} {acts' : Acts τ B L'}
  {c c₁ c₂ e e' : Duplex σ ε α L τ ε' α' L' B}

/-- One operation of either end. -/
inductive Step (acts : Acts σ B L) (acts' : Acts τ B L') (c : Duplex σ ε α L τ ε' α' L' B) :
    Duplex σ ε α L τ ε' α' L' B → Prop
  | left {left rest written} :
      advance acts c.right.prog.over c.left c.toLeft = some (left, rest, written) →
      Step acts acts' c { c with left, toLeft := rest, toRight := c.toRight ++ written }
  | right {right rest written} :
      advance acts' c.left.prog.over c.right c.toRight = some (right, rest, written) →
      Step acts acts' c { c with right, toRight := rest, toLeft := c.toLeft ++ written }

/-- Any number of operations, in any order. -/
abbrev Runs (acts : Acts σ B L) (acts' : Acts τ B L') :
    Duplex σ ε α L τ ε' α' L' B → Duplex σ ε α L τ ε' α' L' B → Prop :=
  ReflTransGen (Step acts acts')

/-- Neither end can go on. -/
def Still (acts : Acts σ B L) (acts' : Acts τ B L') (c : Duplex σ ε α L τ ε' α' L' B) : Prop :=
  ∀ c', ¬ Step acts acts' c c'

/-- A run that has come to its end. -/
structure Ends (acts : Acts σ B L) (acts' : Acts τ B L') (c e : Duplex σ ε α L τ ε' α' L' B) :
    Prop where
  runs : Runs acts acts' c e
  still : Still acts acts' e

/-! ## In any order -/

theorem not_over_of_advance {here : End σ ε α L} {closed : Bool} {arrived : List B}
    {out : End σ ε α L × List B × List B} (h : advance acts closed here arrived = some out) :
    here.prog.over = false := by
  cases hover : here.prog.over with
  | false => rfl
  | true =>
      rw [advance_over hover] at h
      cases h

/-- Steps of the two ends can be taken in either order. -/
theorem Step.commutes (h₁ : Step acts acts' c c₁) (h₂ : Step acts acts' c c₂) :
    ∃ d, ReflGen (Step acts acts') c₁ d ∧ Runs acts acts' c₂ d := by
  cases h₁ with
  | @left e rest written h₁ =>
      cases h₂ with
      | left h₂ =>
          cases h₁.symm.trans h₂
          exact ⟨_, .refl, .refl⟩
      | @right e' rest' written' h₂ =>
          -- neither end is over, and what it reads is still in flight
          rw [not_over_of_advance h₂] at h₁
          rw [not_over_of_advance h₁] at h₂
          exact ⟨⟨e, e', rest ++ written', rest' ++ written⟩,
            .single (.right (advance_append h₂ written)), .single (.left (advance_append h₁ written'))⟩
  | @right e rest written h₁ =>
      cases h₂ with
      | right h₂ =>
          cases h₁.symm.trans h₂
          exact ⟨_, .refl, .refl⟩
      | @left e' rest' written' h₂ =>
          rw [not_over_of_advance h₂] at h₁
          rw [not_over_of_advance h₁] at h₂
          exact ⟨⟨e', e, rest' ++ written, rest ++ written'⟩,
            .single (.left (advance_append h₂ written)), .single (.right (advance_append h₁ written'))⟩

/-- Nothing follows an end. -/
theorem Still.eq_of_runs (h : Still acts acts' c) (hruns : Runs acts acts' c c₁) : c₁ = c := by
  rcases hruns.cases_head with rfl | ⟨d, hstep, -⟩
  · rfl
  · exact absurd hstep (h d)

/-- **Every run goes on to the one end.** -/
theorem Ends.of_runs (h : Ends acts acts' c e) (hruns : Runs acts acts' c c₁) :
    Ends acts acts' c₁ e := by
  obtain ⟨d, he, hd⟩ := church_rosser (fun _ _ _ => Step.commutes) h.runs hruns
  cases h.still.eq_of_runs he
  exact ⟨hd, h.still⟩

theorem Ends.unique (h : Ends acts acts' c e) (h' : Ends acts acts' c e') : e = e' :=
  h'.still.eq_of_runs (h.of_runs h'.runs).runs

/-! ## To the end -/

/-- A program goes on with one of its subtrees. -/
inductive Sub {σ : Sig} {ε α : Type} : Prog σ ε α → Prog σ ε α → Prop
  | child (o : σ.Op) (k : σ.Resp o → Prog σ ε α) (r : σ.Resp o) : Sub (k r) (.step o k)

theorem wellFounded_sub : WellFounded (Sub : Prog σ ε α → Prog σ ε α → Prop) := by
  refine ⟨fun p => ?_⟩
  induction p with
  | ret a => exact ⟨_, nofun⟩
  | fail e => exact ⟨_, nofun⟩
  | step o k ih =>
      refine ⟨_, fun p hp => ?_⟩
      cases hp with
      | child _ _ r => exact ih r

theorem sub_of_advance {here e' : End σ ε α L} {closed : Bool} {arrived rest written : List B}
    (h : advance acts closed here arrived = some (e', rest, written)) : Sub e'.prog here.prog := by
  rcases here with ⟨prog, own⟩
  cases prog with
  | step o k =>
      simp only [advance] at h
      split at h
      · split at h
        · cases h
          exact .child o k _
        · split at h
          · cases h
            exact .child o k _
          · cases h
      · cases h
        exact .child o k _
      · cases h
        exact .child o k _
  | _ => cases h

/-- A step takes one of the two programs to a subtree. -/
theorem Step.gameAdd (h : Step acts acts' c c₁) :
    Prod.GameAdd Sub Sub (c₁.left.prog, c₁.right.prog) (c.left.prog, c.right.prog) := by
  cases h with
  | left h => exact .fst (sub_of_advance h)
  | right h => exact .snd (sub_of_advance h)

/-- Every run comes to an end. -/
theorem exists_ends (acts : Acts σ B L) (acts' : Acts τ B L')
    (c : Duplex σ ε α L τ ε' α' L' B) : ∃ e, Ends acts acts' c e := by
  have hwf : WellFounded (Prod.GameAdd (Sub : Prog σ ε α → _ → Prop) (Sub : Prog τ ε' α' → _ → Prop)) :=
    wellFounded_sub.prod_gameAdd wellFounded_sub
  generalize hp : (c.left.prog, c.right.prog) = p
  induction p using hwf.induction generalizing c with
  | _ p ih =>
      by_cases hstill : Still acts acts' c
      · exact ⟨c, .refl, hstill⟩
      · obtain ⟨c₁, hstep⟩ := not_forall_not.mp hstill
        obtain ⟨e, he⟩ := ih _ (hp ▸ hstep.gameAdd) c₁ rfl
        exact ⟨e, .head hstep he.runs, he.still⟩

/-- There is exactly one. -/
theorem existsUnique_ends (acts : Acts σ B L) (acts' : Acts τ B L')
    (c : Duplex σ ε α L τ ε' α' L' B) : ∃! e, Ends acts acts' c e := by
  obtain ⟨e, he⟩ := exists_ends acts acts' c
  exact ⟨e, he, fun e' he' => he'.unique he⟩

/-- An end that is not over and cannot go on waits for more than has arrived,
from a far end that is not over either. -/
theorem waits_of_advance {here : End σ ε α L} {closed : Bool} {arrived : List B}
    (h : advance acts closed here arrived = none) (hover : here.prog.over = false) :
    closed = false ∧ ∃ o k n got, here.prog = .step o k ∧ acts o here.own = .read n got ∧
      arrived.length < n := by
  rcases here with ⟨prog, own⟩
  cases prog with
  | step o k =>
      simp only [advance] at h
      split at h
      · next n got hacts =>
          split at h
          · cases h
          · next hn =>
              split at h
              · cases h
              · next hclosed =>
                  exact ⟨Bool.eq_false_iff.mpr hclosed, o, k, n, got, rfl, hacts, by omega⟩
      · cases h
      · cases h
  | _ => cases hover

theorem Still.left (h : Still acts acts' c) :
    advance acts c.right.prog.over c.left c.toLeft = none :=
  Option.eq_none_iff_forall_ne_some.mpr (fun _ hsome => h _ (.left hsome))

theorem Still.right (h : Still acts acts' c) :
    advance acts' c.left.prog.over c.right c.toRight = none :=
  Option.eq_none_iff_forall_ne_some.mpr (fun _ hsome => h _ (.right hsome))

/-- An end that is over stays so. -/
theorem Step.right_over (h : Step acts acts' c c₁) (hover : c₁.right.prog.over = false) :
    c.right.prog.over = false := by
  cases h with
  | left h => exact hover
  | right h => exact not_over_of_advance h

/-- Where both programs are over there is nothing more to do. -/
theorem still_of_over (hleft : c.left.prog.over = true) (hright : c.right.prog.over = true) :
    Still acts acts' c := by
  intro c' h
  cases h with
  | left h => rw [not_over_of_advance h] at hleft; cases hleft
  | right h => rw [not_over_of_advance h] at hright; cases hright

end Duplex

end Lib
