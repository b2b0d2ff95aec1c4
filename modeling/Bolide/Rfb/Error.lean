/-
Bolide.Rfb.Error — how a computation of the RFB client can end early.

`Error` is the crate's error type (`lib.rs`), with the text of every
`Error::Protocol` the modelled functions build. A Rust function can also
end in a panic (an index, slice or copy out of range, a division by zero),
and a read may wait for ever for bytes nobody sends. `Stop` has all three,
so that "this never panics" is a statement about the model and not a
property of the host language.
-/
import Bolide.Lib.Flat

namespace Bolide.Rfb

/-- A `std::time::Duration`, in nanoseconds. -/
abbrev Duration := Nat

/-- `bolide_rfb::Error`. -/
inductive Error where
  | io (what : String)
  | notRfb
  | unsupportedVersion (major minor : Nat)
  | noSupportedSecurity (offered : List UInt8)
  | passwordRequired
  | usernameRequired
  | authFailed (reason : String)
  | refused (reason : String)
  | protocol (what : String)
  | unsupportedEncoding (encoding : Int32)
  | timeout (after : Duration)
  | closed
  deriving DecidableEq, Repr

/-- Why a computation did not return: an `Err`, a panic, or a read that
waits for ever. -/
inductive Stop where
  | err (e : Error)
  | panic
  | parked
  deriving DecidableEq, Repr

/-- The outcome of a computation that can fail. -/
abbrev Outcome (α : Type) := Except Stop α

/-- `Err(Error::Protocol(what))`. -/
def protocolError {α : Type} (what : String) : Outcome α := .error (.err (.protocol what))

/-- The value of a checked range operation, or the panic of one out of range. -/
def orPanic {α : Type} : Option α → Outcome α
  | some a => .ok a
  | none => .error .panic

@[simp] theorem orPanic_some {α : Type} (a : α) : orPanic (some a) = .ok a := rfl

@[simp] theorem ok_bind {α β : Type} (a : α) (f : α → Outcome β) :
    ((Except.ok a : Outcome α) >>= f) = f a := rfl

@[simp] theorem error_bind {α β : Type} (s : Stop) (f : α → Outcome β) :
    ((Except.error s : Outcome α) >>= f) = .error s := rfl

/-- The stop is an `Error::Protocol`: what malformed input is answered with. -/
def Stop.IsProtocol : Stop → Prop
  | .err (.protocol _) => True
  | _ => False

@[simp] theorem isProtocol_protocol (what : String) :
    (Stop.err (.protocol what)).IsProtocol := trivial

theorem Stop.isProtocol_iff {s : Stop} :
    s.IsProtocol ↔ ∃ what, s = .err (.protocol what) := by
  constructor
  · intro h
    cases s with
    | err e =>
        cases e with
        | protocol what => exact ⟨what, rfl⟩
        | _ => exact h.elim
    | panic => exact h.elim
    | parked => exact h.elim
  · rintro ⟨what, rfl⟩
    trivial

theorem Stop.IsProtocol.ne_panic {s : Stop} (h : s.IsProtocol) : s ≠ .panic := by
  rintro rfl
  exact h

end Bolide.Rfb
