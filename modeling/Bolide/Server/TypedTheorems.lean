/-
Bolide.Server.TypedTheorems — what `type` sends can be read back.

`readBack` reads the text out of the planned key events. It is the text that
was typed, with a line feed for every carriage return, and so two texts have
one plan only if they differ in that.
-/
import Bolide.Rfb.KeysymTheorems
import Bolide.Server.PlanTheorems

namespace Bolide.Server

open Bolide.Rfb

/-- The character an operation types: a key going down. -/
def typedChar : RfbOp → Option Char
  | .key keysym true => some (charOf keysym)
  | _ => none

/-- The text that operations type. -/
def readBack (ops : List RfbOp) : List Char := ops.filterMap typedChar

theorem readBack_taps (cs : List Char) :
    readBack ((cs.map keysymForChar).flatMap tap) = cs.map newline := by
  induction cs with
  | nil => rfl
  | cons c cs ih =>
      have htap : readBack (tap (keysymForChar c)) = [newline c] := by
        rw [← charOf_keysymForChar]
        rfl
      rw [List.map_cons, List.flatMap_cons, readBack, List.filterMap_append, ← readBack, ← readBack,
        htap, ih]
      rfl

theorem map_keysymForChar_newline (cs : List Char) :
    (cs.map newline).map keysymForChar = cs.map keysymForChar := by
  rw [List.map_map]
  exact List.map_congr_left fun c _ => keysymForChar_newline c

/-- Two texts have one plan exactly when they are equal but for how their lines end. -/
theorem plan_type_eq_iff {s t : String} {ctx : PlanContext} :
    plan (.type s) ctx = plan (.type t) ctx ↔
      s.toList.map newline = t.toList.map newline := by
  have hplan : ∀ text, plan (.type text) ctx =
      .ok ((text.toList.map keysymForChar).flatMap tap) := fun text => typed_eq text.toList
  rw [hplan, hplan]
  constructor
  · intro h
    rw [← readBack_taps, Except.ok.inj h, readBack_taps]
  · intro h
    rw [← map_keysymForChar_newline, h, map_keysymForChar_newline]

theorem keysymForChar_shared {c d : Char} (hne : c ≠ d)
    (h : keysymForChar c = keysymForChar d) :
    c = '\r' ∧ d = '\n' ∨ c = '\n' ∧ d = '\r' := by
  rw [keysymForChar_eq_iff] at h
  unfold newline at h
  split at h
  · next hc =>
      split at h
      · next hd => exact absurd (hc.trans hd.symm) hne
      · exact .inl ⟨hc, h.symm⟩
  · split at h
    · next hd => exact .inr ⟨h, hd⟩
    · exact absurd h hne

/-- The three ways to a keysym agree, and what is typed can be read back. -/
theorem typing_read_back :
    (∀ c, keysymForTyped c = .ok (keysymForChar c)) ∧
    (∀ c, keysymFor (String.singleton c) = some (keysymForChar c) ↔ c ∉ macGlyphs) ∧
    (∀ c d, c ≠ d → keysymForChar c = keysymForChar d →
      c = '\r' ∧ d = '\n' ∨ c = '\n' ∧ d = '\r') ∧
    (∀ c, Unprinting (keysymForChar c) ↔ c ∈ controls) ∧
    ∀ (s t : String) (ctx : PlanContext), plan (.type s) ctx = plan (.type t) ctx ↔
      s.toList.map newline = t.toList.map newline :=
  ⟨keysymForTyped_eq, keysymFor_singleton_iff, fun _ _ => keysymForChar_shared,
    unprinting_keysymForChar_iff, fun _ _ _ => plan_type_eq_iff⟩

end Bolide.Server
