/-
Bolide.Testkit.ReadMessage — the fake server reads its client
(`read_loop` and `read_message` in `bolide-testkit/src/server.rs`).

The parser is written by itself, field by field, and knows nothing of the
builders of `Bolide.Rfb.Proto`. `readMessage` reads one message and leaves
the rest of the stream, and `readLoop` goes on until it cannot.

Translation notes. What a client has sent is one list of bytes, the end of
which is the end of the stream. An array of a fixed size is indexed with a
default that is never used. A message that breaks off is left whole.
-/
import Bolide.Testkit.Server
import Bolide.Rfb.ProtoTheorems

namespace Bolide.Testkit

open Lib Rfb

/-! ## Reading -/

/-- The errors of `read_message`. -/
inductive ReadError where
  | unexpectedEof
  | other (text : String)
  deriving DecidableEq, Repr

/-- A reader of what the client has sent. -/
abbrev Reader (α : Type) := StateT (List UInt8) (Except ReadError) α

/-- `read_exact`. -/
def readExact (n : Nat) : Reader (List UInt8) := fun input =>
  if n ≤ input.length then .ok (input.take n, input.drop n) else .error .unexpectedEof

/-- `chunks_exact(4)`. -/
def chunksExact4 : List UInt8 → List (List UInt8)
  | a :: b :: c :: d :: rest => [a, b, c, d] :: chunksExact4 rest
  | _ => []

/-- The text of a `TestkitError::Protocol`. -/
def unexpected (what : String) : String := s!"the client sent something unexpected: {what}"

/-- The arms of `read_message`. -/
def readBody (kind : UInt8) : Reader ClientEvent :=
  if kind = ClientMsg.setPixelFormat then do
    let rest ← readExact 19
    return .setPixelFormat (.decode (rest.drop 3))
  else if kind = ClientMsg.setEncodings then do
    let head ← readExact 3
    let count := (ofBe16 (head.drop 1)).toNat
    let body ← readExact (count * 4)
    return .setEncodings ((chunksExact4 body).map ofBeI32)
  else if kind = ClientMsg.framebufferUpdateRequest then do
    let rest ← readExact 9
    return .updateRequest (rest.getD 0 0 ≠ 0) (ofBe16 ((rest.drop 1).take 2))
      (ofBe16 ((rest.drop 3).take 2)) (ofBe16 ((rest.drop 5).take 2))
      (ofBe16 ((rest.drop 7).take 2))
  else if kind = ClientMsg.keyEvent then do
    let rest ← readExact 7
    return .key (ofBe32 (rest.drop 3)) (rest.getD 0 0 ≠ 0)
  else if kind = ClientMsg.pointerEvent then do
    let rest ← readExact 5
    return .pointer (ofBe16 ((rest.drop 1).take 2)) (ofBe16 ((rest.drop 3).take 2))
      (rest.getD 0 0)
  else if kind = ClientMsg.clientCutText then do
    let head ← readExact 7
    let len := (ofBe32 (head.drop 3)).toNat
    let body ← readExact len
    return .cutText (fromLatin1 body)
  else throw (.other (unexpected s!"client message type {kind}"))

/-- `read_message`. -/
def readMessage : Reader ClientEvent := do
  let kind ← readExact 1
  readBody (kind.getD 0 0)

/-! ## What is read is gone -/

/-- A reader takes bytes off the front. -/
def Shrinks {α : Type} (p : Reader α) : Prop :=
  ∀ input a rest, p input = .ok (a, rest) → rest.length ≤ input.length

theorem readExact_eq_ok {n : Nat} {input bytes rest : List UInt8}
    (h : readExact n input = .ok (bytes, rest)) : rest.length + n = input.length := by
  unfold readExact at h
  split at h
  · next hle =>
      cases h
      rw [List.length_drop]
      omega
  · cases h

theorem Reader.bind_eq_ok {α β : Type} {p : Reader α} {f : α → Reader β} {input rest : List UInt8}
    {b : β} (h : (p >>= f) input = .ok (b, rest)) :
    ∃ a mid, p input = .ok (a, mid) ∧ f a mid = .ok (b, rest) := by
  simp only [bind, StateT.bind, Except.bind] at h
  split at h
  · cases h
  · next got heq => exact ⟨got.1, got.2, heq, h⟩

theorem shrinks_readExact (n : Nat) : Shrinks (readExact n) := by
  intro input a rest h
  have := readExact_eq_ok h
  omega

theorem shrinks_pure {α : Type} (a : α) : Shrinks (pure a : Reader α) := by
  intro input b rest h
  cases h
  exact Nat.le_refl _

theorem Shrinks.bind {α β : Type} {p : Reader α} {f : α → Reader β} (hp : Shrinks p)
    (hf : ∀ a, Shrinks (f a)) : Shrinks (p >>= f) := by
  intro input b rest h
  obtain ⟨a, mid, hmid, hrest⟩ := Reader.bind_eq_ok h
  exact (hf a mid b rest hrest).trans (hp input a mid hmid)

theorem shrinks_readBody (kind : UInt8) : Shrinks (readBody kind) := by
  have hthen : ∀ (n : Nat) (f : List UInt8 → ClientEvent),
      Shrinks (do
        let bytes ← readExact n
        return f bytes) := fun n f =>
    (shrinks_readExact n).bind (fun bytes => shrinks_pure (f bytes))
  unfold readBody
  split
  · exact hthen 19 _
  · split
    · exact (shrinks_readExact 3).bind (fun head => hthen _ _)
    · split
      · exact hthen 9 _
      · split
        · exact hthen 7 _
        · split
          · exact hthen 5 _
          · split
            · exact (shrinks_readExact 7).bind (fun head => hthen _ _)
            · intro input a rest h
              cases h

/-- A message takes at least its type byte. -/
theorem readMessage_shorter {input rest : List UInt8} {event : ClientEvent}
    (h : readMessage input = .ok (event, rest)) : rest.length < input.length := by
  obtain ⟨kind, mid, hkind, hbody⟩ := Reader.bind_eq_ok h
  have hlen := readExact_eq_ok hkind
  have hle := shrinks_readBody _ mid event rest hbody
  omega

/-- `read_loop`: the events it records, and what it leaves unread. -/
def readLoop (input : List UInt8) : List ClientEvent × List UInt8 :=
  match _h : readMessage input with
  | .error _ => ([], input)
  | .ok (event, rest) => (event :: (readLoop rest).1, (readLoop rest).2)
termination_by input.length
decreasing_by all_goals exact readMessage_shorter (by assumption)

end Bolide.Testkit
