/-
Bolide.Lib.Marks — programs that say what they are doing.

A marked program is a program with marks in it: operations that touch nothing
and are only written down, together with what there is to see of the state at
that moment. `erase` takes the marks out; what is left is the program, step
for step (`steps_erase`), so a marked program is a proof device for what a
plain one does between its operations.
-/
import Bolide.Lib.Prog

namespace Lib.Prog

/-- Marks of type `μ`, which are answered by nothing. -/
abbrev markSig (μ : Type) : Sig where
  Op := μ
  Resp := fun _ => Unit

variable {σ : Sig} {ε α β S μ ν : Type}

/-- A program that leaves marks. -/
abbrev Marked (σ : Sig) (μ ε α : Type) : Type := Prog (σ.sum (markSig μ)) ε α

/-- Leave a mark. -/
def mark (m : μ) : Marked σ μ ε Unit := step (.inr m) ret

/-- A program without marks. -/
def unmarked : Prog σ ε α → Marked σ μ ε α
  | ret a => ret a
  | fail e => fail e
  | step o k => step (.inl o) (fun r => (k r).unmarked)

/-- Take the marks out. -/
def erase : Marked σ μ ε α → Prog σ ε α
  | ret a => ret a
  | fail e => fail e
  | step (.inl o) k => step o (fun r => (k r).erase)
  | step (.inr _) k => (k ()).erase

@[simp] theorem erase_ret (a : α) : (ret a : Marked σ μ ε α).erase = ret a := rfl
@[simp] theorem erase_fail (e : ε) : (fail e : Marked σ μ ε α).erase = fail e := rfl

@[simp] theorem erase_mark (m : μ) : (mark m : Marked σ μ ε Unit).erase = ret () := rfl

@[simp] theorem erase_unmarked (p : Prog σ ε α) : (p.unmarked : Marked σ μ ε α).erase = p := by
  induction p with
  | ret a => rfl
  | fail e => rfl
  | step o k ih => exact congrArg (step o) (funext ih)

@[simp] theorem erase_bind (p : Marked σ μ ε α) (f : α → Marked σ μ ε β) :
    (p >>= f).erase = (p.erase >>= fun a => (f a).erase) := by
  induction p with
  | ret a => rfl
  | fail e => rfl
  | step o k ih =>
      cases o with
      | inl o => exact congrArg (step o) (funext ih)
      | inr m => exact ih ()

@[simp] theorem erase_attempt (p : Marked σ μ ε α) : p.attempt.erase = p.erase.attempt := by
  induction p with
  | ret a => rfl
  | fail e => rfl
  | step o k ih =>
      cases o with
      | inl o => exact congrArg (step o) (funext ih)
      | inr m => exact ih ()

@[simp] theorem erase_ofExcept (x : Except ε α) :
    (ofExcept x : Marked σ μ ε α).erase = ofExcept x := by
  cases x with
  | ok a => rfl
  | error e => rfl

/-- Marks are written down with what `see` sees of the state. -/
def noting (h : Handler σ S) (see : S → ν) : Handler (σ.sum (markSig μ)) (S × List (μ × ν))
  | .inl o, (s, notes) => ((h o s).1, (h o s).2, notes)
  | .inr m, (s, notes) => ((), s, notes ++ [(m, see s)])

/-- What a marked program does to the state, the program without the marks does. -/
theorem steps_erase {h : Handler σ S} {see : S → ν} {p p' : Marked σ μ ε α}
    {w w' : S × List (μ × ν)} (hsteps : Steps (noting h see) p w p' w') :
    Steps h p.erase w.1 p'.erase w'.1 := by
  induction hsteps with
  | refl => exact .refl
  | tail _ hstep ih =>
      cases hstep with
      | op o k _ =>
          cases o with
          | inl o => exact ih.tail (.op o (fun r => (k r).erase) _)
          | inr m => exact ih

/-! ## Disciplines of the marks -/

variable {G : Type} {D : Discipline (σ.sum (markSig μ)) ε G}

/-- Leave a mark that may be left. -/
theorem follows_mark {g : G} {m : μ} {f : Unit → Marked σ μ ε α} {Q : α → G → Prop}
    (hmay : D.may g (.inr m)) (hf : Follows D (D.next g (.inr m) ()) (f ()) Q) :
    Follows D g (mark m >>= f) Q :=
  ⟨hmay, fun _ _ => hf⟩

/-- A program without marks follows every discipline that asks nothing of it. -/
theorem follows_unmarked {R : α → Prop} (hmay : ∀ g o, D.may g (.inl o))
    (hfails : ∀ g e, D.fails g e) {p : Prog σ ε α} (hp : p.Only (fun _ => True) R) (g : G) :
    Follows D g (p.unmarked : Marked σ μ ε α) (fun a _ => R a) := by
  induction p generalizing g with
  | ret a => exact hp
  | fail e => exact hfails g e
  | step o k ih => exact ⟨hmay g o, fun r _ => ih r (hp.2 r) _⟩

end Lib.Prog
