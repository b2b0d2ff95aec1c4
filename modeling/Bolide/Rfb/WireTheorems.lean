/-
Bolide.Rfb.WireTheorems — running a task on a connection.

The first half evaluates: a read that the far end has served takes its
bytes, a write the connection takes is added to what was sent, and the
composed reads of `Conn` follow. `Serves` is the state such a run moves
through: what the far end has sent so far is what was read and what is
still to come.

The second half is for arguments that hold whatever arrives. `hearing` is
the discipline of a task on a connection: it may read and draw random bytes
at any time, and write what `may` allows in view of everything read and
written so far. `Heard` is that view, and `Agrees` ties it to the wire.
-/
import Bolide.Rfb.Handshake

namespace Bolide.Rfb

open Lib Prog

/-! ## Evaluating -/

/-- The failures that do not refuse the security types on offer. -/
def Stop.Plain (e : Stop) : Prop := ∀ offered, e ≠ .err (.noSupportedSecurity offered)

theorem plain_protocol (what : String) : Stop.Plain (.err (.protocol what)) := by
  intro offered h
  cases h

theorem plain_fillFrom (ending : Ending) (timeout : Duration) (armed : Bool) {n : Nat}
    {input : List UInt8} (h : input.length < n) :
    ∃ e, e.Plain ∧ (fillFrom ending timeout armed n input).1 = .error e := by
  unfold fillFrom
  rw [if_neg (by omega)]
  cases ending with
  | closed => refine ⟨_, ?_, rfl⟩; intro offered h; cases h
  | silent =>
      cases armed with
      | true => refine ⟨_, ?_, rfl⟩; intro offered h; cases h
      | false => refine ⟨_, ?_, rfl⟩; intro offered h; cases h

/-- What the far end has sent is what the client has read, then `rest`. -/
def Serves (peer : Peer) (w : Wire) (rest : List UInt8) : Prop :=
  peer.sends w.sent = w.got ++ rest

section Run

variable {peer : Peer} {timeout : Duration} {w : Wire} {rest : List UInt8} {α : Type}

/-- The wire after a read. -/
def Wire.read (w : Wire) (bytes : List UInt8) : Wire := { w with got := w.got ++ bytes }

/-- The wire after a write that was taken. -/
def Wire.wrote (w : Wire) (bytes : List UInt8) : Wire := { w with sent := w.sent ++ bytes }

@[simp] theorem read_got (bytes : List UInt8) : (w.read bytes).got = w.got ++ bytes := rfl
@[simp] theorem read_sent (bytes : List UInt8) : (w.read bytes).sent = w.sent := rfl
@[simp] theorem wrote_got (bytes : List UInt8) : (w.wrote bytes).got = w.got := rfl
@[simp] theorem wrote_sent (bytes : List UInt8) :
    (w.wrote bytes).sent = w.sent ++ bytes := rfl
@[simp] theorem read_read (a b : List UInt8) : (w.read a).read b = w.read (a ++ b) := by
  simp [Wire.read]

/-- Reading takes the bytes off what is to come. -/
theorem serves_read {bytes : List UInt8} (h : Serves peer w (bytes ++ rest)) :
    Serves peer (w.read bytes) rest := by
  rw [Serves] at h ⊢
  simp [h]

/-- A read of bytes that have been sent. -/
theorem wire_fill (timeout : Duration) {bytes : List UInt8} (h : Serves peer w (bytes ++ rest)) :
    wire peer timeout (.fill bytes.length) w = (.ok bytes, w.read bytes) := by
  have hfill : fillFrom peer.ending timeout true bytes.length (bytes ++ rest) = (.ok bytes, rest) := by
    unfold fillFrom
    simp
  simp only [wire]
  rw [h, List.drop_left, hfill]
  rfl

/-- A read of more than has been sent. -/
theorem wire_fill_short (timeout : Duration) {n : Nat} (h : Serves peer w rest) (hn : rest.length < n) :
    ∃ e, e.Plain ∧ wire peer timeout (.fill n) w = (.error e, w) := by
  obtain ⟨e, he, hfill⟩ := plain_fillFrom peer.ending timeout true hn
  refine ⟨e, he, ?_⟩
  simp only [wire]
  rw [h, List.drop_left]
  split
  · next heq => rw [heq] at hfill; cases hfill
  · next heq => rw [heq] at hfill; cases hfill; rfl

/-- A read that is served. -/
theorem run_fill {bytes : List UInt8} {n : Nat} {f : List UInt8 → Task α}
    (h : Serves peer w (bytes ++ rest)) (hn : bytes.length = n) :
    (fill n >>= f).run (wire peer timeout) w = (f bytes).run (wire peer timeout) (w.read bytes) := by
  subst hn
  simp only [fill, op, step_bind, ret_bind, run_step]
  rw [wire_fill timeout h, ofExcept_ok, ret_bind]

/-- A read the far end does not serve ends in an error. -/
theorem run_fill_short (timeout : Duration) {n : Nat} (f : List UInt8 → Task α) (h : Serves peer w rest)
    (hn : rest.length < n) :
    ∃ e, (fill n >>= f).run (wire peer timeout) w = (.error e, w) := by
  obtain ⟨e, _, hfill⟩ := wire_fill_short timeout h hn
  refine ⟨e, ?_⟩
  simp only [fill, op, step_bind, ret_bind, run_step]
  rw [hfill, ofExcept_error, fail_bind, run_fail]

theorem run_u8 {b : UInt8} {f : UInt8 → Task α} (h : Serves peer w (b :: rest)) :
    (Conn.u8 >>= f).run (wire peer timeout) w =
      (f b).run (wire peer timeout) (w.read [b]) := by
  rw [Conn.u8, bind_assoc]
  exact run_fill (List.singleton_append ▸ h) rfl

theorem run_u16 {v : UInt16} {f : UInt16 → Task α} (h : Serves peer w (be16 v ++ rest)) :
    (Conn.u16 >>= f).run (wire peer timeout) w =
      (f v).run (wire peer timeout) (w.read (be16 v)) := by
  rw [Conn.u16, bind_assoc, run_fill h (length_be16 v), ofBe16_be16]
  rfl

theorem run_u32 {v : UInt32} {f : UInt32 → Task α} (h : Serves peer w (be32 v ++ rest)) :
    (Conn.u32 >>= f).run (wire peer timeout) w =
      (f v).run (wire peer timeout) (w.read (be32 v)) := by
  rw [Conn.u32, bind_assoc, run_fill h (length_be32 v), ofBe32_be32]
  rfl

theorem run_string {cap : Nat} {text : List UInt8} {f : String → Task α}
    (hcap : text.length ≤ cap) (hword : text.length < 2 ^ 32)
    (h : Serves peer w (be32 (UInt32.ofNat text.length) ++ (text ++ rest))) :
    (Conn.string cap >>= f).run (wire peer timeout) w =
      (f (fromLatin1 text)).run (wire peer timeout)
        (w.read (be32 (UInt32.ofNat text.length) ++ text)) := by
  have hlen : (UInt32.ofNat text.length).toNat = text.length := by
    rw [UInt32.toNat_ofNat']
    exact Nat.mod_eq_of_lt hword
  rw [Conn.string, bind_assoc, run_u32 h, if_neg (by omega), bind_assoc, Conn.bytes,
    run_fill (serves_read h) hlen.symm, read_read]
  rfl

/-- A write the connection takes. -/
theorem run_write {bytes : List UInt8} {f : Unit → Task α}
    (h : peer.takesOf (w.sent ++ bytes) = w.sent ++ bytes) :
    (Conn.write bytes >>= f).run (wire peer timeout) w =
      (f ()).run (wire peer timeout) (w.wrote bytes) := by
  simp only [Conn.write, op, step_bind, ret_bind, run_step, wire, h, if_true, ofExcept_ok]
  rfl

/-- A write on a connection that breaks. -/
theorem run_write_broken {bytes : List UInt8} {f : Unit → Task α}
    (h : peer.takesOf (w.sent ++ bytes) ≠ w.sent ++ bytes) :
    (Conn.write bytes >>= f).run (wire peer timeout) w =
      (.error (.err (.io "broken pipe")), { w with sent := peer.takesOf (w.sent ++ bytes) }) := by
  simp only [Conn.write, op, step_bind, ret_bind, run_step, wire, if_neg h, ofExcept_error,
    fail_bind, run_fail]

/-- The banner and its answer. -/
theorem run_readVersion {banner reply : List UInt8} {minor dialect : Nat} {f : Nat → Task α}
    (h : Serves peer w (banner ++ rest)) (hlen : banner.length = 12)
    (hversion : parseVersion banner = some (3, minor)) (hminor : 3 ≤ minor)
    (hn : negotiate minor = (reply, dialect)) :
    (readVersion >>= f).run (wire peer timeout) w =
      (Conn.write reply >>= fun _ => f dialect).run (wire peer timeout) (w.read banner) := by
  rw [readVersion, bind_assoc, run_fill h hlen, hversion]
  simp only
  rw [if_neg (by omega), hn, bind_assoc]
  rfl

end Run

/-- What was read stays read. -/
theorem wire_got (peer : Peer) (timeout : Duration) (o : Op) (w : Wire) :
    w.got <+: (wire peer timeout o w).2.got := by
  cases o with
  | fill n =>
      simp only [wire]
      split
      · exact List.prefix_append _ _
      · exact List.prefix_refl _
  | _ => exact List.prefix_refl _

/-! ## What arrives of a write -/

theorem takesOf_initial (peer : Peer) (bytes : List UInt8) : peer.takesOf bytes <+: bytes := by
  unfold Peer.takesOf
  cases peer.takes with
  | none => exact List.prefix_refl _
  | some room => exact List.take_prefix _ _

/-- A broken connection takes nothing more. -/
theorem takesOf_append (peer : Peer) (a b : List UInt8) :
    peer.takesOf (peer.takesOf a ++ b) = peer.takesOf (a ++ b) := by
  unfold Peer.takesOf
  cases peer.takes with
  | none => rfl
  | some room =>
      simp only [List.take_append, List.take_take, List.length_take, Nat.min_self]
      congr 2
      omega

/-! ## Whatever arrives -/

/-- Everything the task has read and written. -/
structure Heard where
  got : List UInt8
  sent : List UInt8

/-- What is read off `stream`, and written as `may` allows. -/
def hearing (stream : List UInt8) (may : Heard → List UInt8 → Prop) (fails : Stop → Prop) :
    Discipline SessionSig Stop Heard where
  may g o := match o with
    | .fill _ => True
    | .random _ => True
    | .write bytes => may g bytes
    | _ => False
  answers g o r := match o, r with
    | .fill n, .ok bytes => bytes.length = n ∧ g.got ++ bytes <+: stream
    | .fill _, .error e => e.Plain
    | .write _, .error e => e.Plain
    | .random n, .ok bytes => bytes.length = n
    | _, _ => True
  next g o r := match o, r with
    | .fill _, .ok bytes => { g with got := g.got ++ bytes }
    | .write bytes, _ => { g with sent := g.sent ++ bytes }
    | _, _ => g
  fails _ e := fails e

section Hearing

variable {stream : List UInt8} {may : Heard → List UInt8 → Prop} {fails : Stop → Prop}
  {g : Heard} {α : Type} {Q : α → Heard → Prop}

theorem hears_fill {n : Nat} {f : List UInt8 → Task α} (hplain : ∀ e, Stop.Plain e → fails e)
    (hf : ∀ bytes, bytes.length = n → g.got ++ bytes <+: stream →
      Follows (hearing stream may fails) { g with got := g.got ++ bytes } (f bytes) Q) :
    Follows (hearing stream may fails) g (fill n >>= f) Q := by
  simp only [fill, op, step_bind, ret_bind, follows_step]
  refine ⟨trivial, fun r hr => ?_⟩
  cases r with
  | ok bytes => exact hf bytes hr.1 hr.2
  | error e => exact hplain e hr

theorem hears_u8 {f : UInt8 → Task α} (hplain : ∀ e, Stop.Plain e → fails e)
    (hf : ∀ b, g.got ++ [b] <+: stream →
      Follows (hearing stream may fails) { g with got := g.got ++ [b] } (f b) Q) :
    Follows (hearing stream may fails) g (Conn.u8 >>= f) Q := by
  rw [Conn.u8, bind_assoc]
  refine hears_fill hplain (fun bytes hlen hpre => ?_)
  obtain ⟨b, rfl⟩ := List.length_eq_one_iff.mp hlen
  exact hf b hpre

theorem hears_u16 {f : UInt16 → Task α} (hplain : ∀ e, Stop.Plain e → fails e)
    (hf : ∀ v, g.got ++ be16 v <+: stream →
      Follows (hearing stream may fails) { g with got := g.got ++ be16 v } (f v) Q) :
    Follows (hearing stream may fails) g (Conn.u16 >>= f) Q := by
  rw [Conn.u16, bind_assoc]
  refine hears_fill hplain (fun bytes hlen hpre => ?_)
  have h := hf (ofBe16 bytes)
  rw [be16_ofBe16 hlen] at h
  exact h hpre

theorem hears_u32 {f : UInt32 → Task α} (hplain : ∀ e, Stop.Plain e → fails e)
    (hf : ∀ v, g.got ++ be32 v <+: stream →
      Follows (hearing stream may fails) { g with got := g.got ++ be32 v } (f v) Q) :
    Follows (hearing stream may fails) g (Conn.u32 >>= f) Q := by
  rw [Conn.u32, bind_assoc]
  refine hears_fill hplain (fun bytes hlen hpre => ?_)
  have h := hf (ofBe32 bytes)
  rw [be32_ofBe32 hlen] at h
  exact h hpre

/-- A string's length and its bytes. -/
theorem hears_string {cap : Nat} {f : String → Task α} (hplain : ∀ e, Stop.Plain e → fails e)
    (hf : ∀ len text, text.length = len.toNat → len.toNat ≤ cap →
      g.got ++ be32 len ++ text <+: stream →
      Follows (hearing stream may fails) { g with got := g.got ++ be32 len ++ text }
        (f (fromLatin1 text)) Q) :
    Follows (hearing stream may fails) g (Conn.string cap >>= f) Q := by
  rw [Conn.string, bind_assoc]
  refine hears_u32 hplain (fun len _ => ?_)
  split
  · exact hplain _ (plain_protocol _)
  · next hcap =>
      rw [bind_assoc, Conn.bytes]
      refine hears_fill hplain (fun text hlen hpre => ?_)
      exact hf len text hlen (by omega) hpre

theorem hears_write {bytes : List UInt8} {f : Unit → Task α}
    (hplain : ∀ e, Stop.Plain e → fails e) (hmay : may g bytes)
    (hf : Follows (hearing stream may fails) { g with sent := g.sent ++ bytes } (f ()) Q) :
    Follows (hearing stream may fails) g (Conn.write bytes >>= f) Q := by
  simp only [Conn.write, op, step_bind, ret_bind, follows_step]
  refine ⟨hmay, fun r hr => ?_⟩
  cases r with
  | ok u => exact hf
  | error e => exact hplain e hr

/-- A write that ends a section. -/
theorem hears_write_last {bytes : List UInt8} {Q : Unit → Heard → Prop}
    (hplain : ∀ e, Stop.Plain e → fails e) (hmay : may g bytes)
    (hq : Q () { g with sent := g.sent ++ bytes }) :
    Follows (hearing stream may fails) g (Conn.write bytes) Q := by
  rw [← bind_pure (Conn.write bytes)]
  exact hears_write hplain hmay hq

theorem hears_random {n : Nat} {f : List UInt8 → Task α} (hplain : ∀ e, Stop.Plain e → fails e)
    (hf : ∀ bytes, bytes.length = n → Follows (hearing stream may fails) g (f bytes) Q) :
    Follows (hearing stream may fails) g (fillRandom n >>= f) Q := by
  simp only [fillRandom, op, step_bind, ret_bind, follows_step]
  refine ⟨trivial, fun r hr => ?_⟩
  cases r with
  | ok bytes => exact hf bytes hr
  | error e => exact hplain _ (plain_protocol _)

end Hearing

/-! ## The wire keeps the discipline -/

/-- The view of a run on the wire. -/
structure Agrees (peer : Peer) (stream : List UInt8) (g : Heard) (w : Wire) : Prop where
  got : w.got = g.got
  sent : w.sent = peer.takesOf g.sent
  read : g.got <+: stream

/-- A far end that has sent `stream` from the start. -/
def Peer.playing (stream : List UInt8) (peer : Peer) : Peer := { peer with sends := fun _ => stream }

section Agreeing

variable {stream : List UInt8} {may : Heard → List UInt8 → Prop} {fails : Stop → Prop}
  {peer : Peer} {timeout : Duration}

/-- What is still to come of the stream. -/
theorem Agrees.serves {g : Heard} {w : Wire} {more : List UInt8}
    (hw : Agrees (peer.playing stream) stream g w) (hmore : g.got ++ more = stream) :
    Serves (peer.playing stream) w more := by
  rw [Serves, hw.got, hmore]
  rfl

/-- A read takes the next bytes of the stream, or fails without taking any. -/
theorem Agrees.fill {g : Heard} {w : Wire} (hw : Agrees (peer.playing stream) stream g w)
    (timeout : Duration) (n : Nat) :
    (∃ bytes, bytes.length = n ∧ g.got ++ bytes <+: stream ∧
      wire (peer.playing stream) timeout (.fill n) w = (.ok bytes, w.read bytes)) ∨
    (∃ e, e.Plain ∧ wire (peer.playing stream) timeout (.fill n) w = (.error e, w)) := by
  obtain ⟨more, hmore⟩ := hw.read
  have hserves := hw.serves hmore
  rcases Nat.lt_or_ge more.length n with hshort | hlong
  · exact .inr (wire_fill_short timeout hserves hshort)
  · refine .inl ⟨more.take n, List.length_take_of_le hlong, ?_, ?_⟩
    · rw [← hmore, List.prefix_append_right_inj]
      exact List.take_prefix _ _
    · rw [← List.take_append_drop n more] at hserves
      have h := wire_fill timeout hserves
      rwa [List.length_take_of_le hlong] at h

theorem wire_answers {g : Heard} {w : Wire} (hw : Agrees (peer.playing stream) stream g w)
    {o : Op} (hmay : (hearing stream may fails).may g o) :
    (hearing stream may fails).answers g o (wire (peer.playing stream) timeout o w).1 := by
  cases o with
  | fill n =>
      rcases hw.fill timeout n with ⟨bytes, hlen, hpre, h⟩ | ⟨e, he, h⟩
      · rw [h]
        exact ⟨hlen, hpre⟩
      · rw [h]
        exact he
  | write bytes =>
      simp only [wire]
      split
      · trivial
      · intro offered h
        cases h
  | random n =>
      simp only [wire]
      cases (peer.playing stream).draws w.drawn with
      | ok f => exact (List.length_map f).trans List.length_range
      | error e => trivial
  | _ => exact hmay.elim

theorem wire_agrees {g : Heard} {w : Wire} (hw : Agrees (peer.playing stream) stream g w)
    {o : Op} (hmay : (hearing stream may fails).may g o) :
    Agrees (peer.playing stream) stream
      ((hearing stream may fails).next g o (wire (peer.playing stream) timeout o w).1)
      (wire (peer.playing stream) timeout o w).2 := by
  cases o with
  | fill n =>
      rcases hw.fill timeout n with ⟨bytes, _, hpre, h⟩ | ⟨e, _, h⟩
      · rw [h]
        exact ⟨by simp [hearing, hw.got], hw.sent, hpre⟩
      · rw [h]
        exact hw
  | write bytes =>
      refine ⟨hw.got, ?_, hw.read⟩
      simp only [wire, hearing, hw.sent]
      exact takesOf_append _ _ _
  | random n => exact ⟨hw.got, hw.sent, hw.read⟩
  | _ => exact hmay.elim

end Agreeing

end Bolide.Rfb
