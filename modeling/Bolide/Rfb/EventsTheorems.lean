/-
Bolide.Rfb.EventsTheorems — who hears a session's events knows the session.

The size of the screen, the clipboard, the generation and the painted flag
are each set by one kind of event or another, and the reader announces what
it does to them: it resizes the screen and then says so, it keeps a clipboard
and then says so, it counts a paint, marks it, and then says so. `Unsaid` is
what it has yet to say. An invariant of every run is that the session is what
its events and that one make of it (`Accounted`), and `events_tell` is what
follows for a caller that looks at the session once and listens from any
earlier event on.
-/
import Bolide.Lib.Register
import Bolide.Rfb.DeathTheorems

namespace Bolide.Rfb

open Lib Prog

/-! ## What events say -/

namespace ServerEvent

def size? : ServerEvent → Option (UInt16 × UInt16)
  | resized w h => some (w, h)
  | _ => none

def clipboard? : ServerEvent → Option (Option String)
  | cutText text => some (some text)
  | _ => none

def generation? : ServerEvent → Option Nat
  | painted generation => some generation
  | _ => none

def painted? : ServerEvent → Option Bool
  | painted _ => some true
  | resized _ _ => some false
  | _ => none

/-- An event that says nothing of these. -/
def Mute (e : ServerEvent) : Prop :=
  e.size? = none ∧ e.clipboard? = none ∧ e.generation? = none ∧ e.painted? = none

theorem mute_bell : bell.Mute := ⟨rfl, rfl, rfl, rfl⟩

theorem mute_disconnected (reason : Option Error) : (disconnected reason).Mute :=
  ⟨rfl, rfl, rfl, rfl⟩

end ServerEvent

/-! ## What the reader has yet to say -/

inductive Unsaid where
  | nothing
  | resized (w h : UInt16)
  | cutText (text : String)
  | numbered (generation : Nat)
  | shown (generation : Nat)

namespace Unsaid

def may : Unsaid → Op → Prop
  | nothing, .setPainted => False
  | nothing, .emit event => event.Mute
  | nothing, _ => True
  | resized w h, o => o = .storeNeedsFull true ∨ o = .emit (.resized w h)
  | cutText text, o => o = .emit (.cutText text)
  | numbered _, o => o = .setPainted ∨ ∃ update, o = .storeLastPainted update
  | shown generation, o => o = .emit (.painted generation)

def next : Unsaid → (o : Op) → o.Resp → Unsaid
  | nothing, .desktopSize w h, _ => resized w h
  | nothing, .setCutText text, _ => cutText text
  | nothing, .nextGeneration, generation => numbered generation
  | resized _ _, .emit _, _ => nothing
  | cutText _, .emit _, _ => nothing
  | numbered generation, .setPainted, _ => shown generation
  | shown _, .emit _, _ => nothing
  | unsaid, _, _ => unsaid

def discipline : Discipline SessionSig Stop Unsaid where
  may := may
  answers _ := Answered
  next := next
  fails unsaid _ := unsaid = nothing

/-- The event that is owed. -/
def event : Unsaid → List ServerEvent
  | resized w h => [.resized w h]
  | cutText text => [.cutText text]
  | numbered generation => [.painted generation]
  | shown generation => [.painted generation]
  | _ => []

/-- The event that is owed, if the painted flag shows it. -/
def flagged : Unsaid → List ServerEvent
  | numbered _ => []
  | unsaid => unsaid.event

@[simp] theorem event_nothing : nothing.event = [] := rfl

@[simp] theorem flagged_nothing : nothing.flagged = [] := rfl

end Unsaid

/-! ## The reader says what it does -/

section Reader

variable {continuous : Bool} {α β : Type}

/-- An operation that leaves nothing to say. -/
def Op.Plain : Op → Prop
  | .desktopSize _ _ => False
  | .setCutText _ => False
  | .nextGeneration => False
  | .setPainted => False
  | .emit event => event.Mute
  | _ => True

theorem only_op {o : Op} (h : o.Plain) : (op o).Only Op.Plain (fun _ => True) :=
  ⟨h, fun _ => trivial⟩

theorem only_ofExcept (r : Outcome α) :
    (Prog.ofExcept r : Task α).Only Op.Plain (fun _ => True) := by
  cases r <;> trivial

theorem only_bind {p : Task α} {f : α → Task β} (hp : p.Only Op.Plain (fun _ => True))
    (hf : ∀ a, (f a).Only Op.Plain (fun _ => True)) :
    (p >>= f).Only Op.Plain (fun _ => True) := hp.bind (fun a _ => hf a)

theorem only_fill (n : Nat) : (fill n).Only Op.Plain (fun _ => True) :=
  only_bind (only_op trivial) only_ofExcept

theorem only_u8 : Conn.u8.Only Op.Plain (fun _ => True) :=
  only_bind (only_fill 1) (fun _ => only_ofExcept _)

theorem only_u16 : Conn.u16.Only Op.Plain (fun _ => True) :=
  only_bind (only_fill 2) (fun _ => trivial)

theorem only_u32 : Conn.u32.Only Op.Plain (fun _ => True) :=
  only_bind (only_fill 4) (fun _ => trivial)

theorem only_i32 : Conn.i32.Only Op.Plain (fun _ => True) := only_bind only_u32 (fun _ => trivial)

theorem only_bytes (n : Nat) : (Conn.bytes n).Only Op.Plain (fun _ => True) := only_fill n

theorem only_skip (n : Nat) : (Conn.skip n).Only Op.Plain (fun _ => True) := by
  fun_induction Conn.skip n with
  | case1 n hn take ih => exact only_bind (only_fill _) (fun _ => ih)
  | case2 n hn => trivial

theorem only_string (cap : Nat) : (Conn.string cap).Only Op.Plain (fun _ => True) := by
  refine only_bind only_u32 (fun len => ?_)
  split
  · exact only_ofExcept _
  · exact only_bind (only_bytes _) (fun _ => trivial)

theorem only_draw (f : Framebuffer → Outcome Framebuffer) :
    (draw f).Only Op.Plain (fun _ => True) :=
  only_bind (only_op trivial) only_ofExcept

theorem only_send (command : Command) : (send command).Only Op.Plain (fun _ => True) := by
  refine only_bind (only_op trivial) (fun connected => ?_)
  split
  · trivial
  · refine only_bind ?_ (fun _ => only_bind (only_op trivial) (fun _ => trivial))
    cases command with
    | write bytes => trivial
    | request incremental => exact only_op trivial

theorem only_markDead (reason : Option Error) :
    (markDead reason).Only Op.Plain (fun _ => True) := by
  refine only_bind (only_op trivial) (fun was => ?_)
  split
  · exact only_bind (only_op (ServerEvent.mute_disconnected reason)) (fun _ => only_op trivial)
  · trivial

/-- `Tells p`: whatever `p` does to the session, it says. -/
def Tells (p : Task α) : Prop :=
  Follows Unsaid.discipline .nothing p (fun _ unsaid => unsaid = .nothing)

theorem tells_of_only {p : Task α} (h : p.Only Op.Plain (fun _ => True)) : Tells p := by
  have hfollows := follows_of_only (D := Unsaid.discipline) (g := .nothing) (P := Op.Plain)
    (fun o ho => by cases o <;> first | exact ho | trivial)
    (fun o r ho => by cases o <;> first | rfl | exact ho.elim) (fun _ => rfl) h
  exact hfollows.mono (fun _ _ h => h.2)

theorem Tells.bind {p : Task α} {f : α → Task β} (hp : Tells p) (hf : ∀ a, Tells (f a)) :
    Tells (p >>= f) :=
  follows_bind hp (fun a _ h => by
    subst h
    exact hf a)

theorem tells_pure (a : α) : Tells (pure a : Task α) := rfl

section Rects

variable {z : Decompress}

theorem readRaw_tells (p : Progress z) (x y w h : UInt16) : Tells (readRaw p x y w h) :=
  tells_of_only (only_bind (only_bytes _) (fun _ => only_bind (only_draw _) (fun _ => trivial)))

theorem readCopyRect_tells (p : Progress z) (x y w h : UInt16) : Tells (readCopyRect p x y w h) :=
  tells_of_only (only_bind only_u16 (fun _ => only_bind only_u16 (fun _ =>
    only_bind (only_draw _) (fun _ => trivial))))

theorem readZrle_tells (p : Progress z) (x y w h : UInt16) : Tells (readZrle p x y w h) := by
  refine tells_of_only (only_bind only_u32 (fun len => ?_))
  split
  · exact only_ofExcept _
  · refine only_bind (only_bytes _) (fun payload => only_bind (only_ofExcept _) (fun decoded => ?_))
    exact only_bind (only_draw _) (fun _ => trivial)

theorem readDesktopSize_tells (p : Progress z) (w h : UInt16) : Tells (readDesktopSize p w h) :=
  follows_perform trivial (fun _ _ => follows_perform (.inl rfl) (fun _ _ =>
    follows_perform (.inr rfl) (fun _ _ => rfl)))

theorem readRect_tells (p : Progress z) : Tells (readRect p) := by
  refine (tells_of_only only_u16).bind (fun x => (tells_of_only only_u16).bind (fun y =>
    (tells_of_only only_u16).bind (fun w => (tells_of_only only_u16).bind (fun h =>
      (tells_of_only only_i32).bind (fun encoding => ?_)))))
  split
  · exact readRaw_tells p x y w h
  · split
    · exact readCopyRect_tells p x y w h
    · split
      · exact readZrle_tells p x y w h
      · split
        · exact readDesktopSize_tells p w h
        · exact rfl

theorem readRects_tells (n : Nat) : ∀ p : Progress z, Tells (readRects n p) := by
  induction n with
  | zero => exact tells_pure
  | succ n ih => exact fun p => (readRect_tells p).bind ih

end Rects

theorem announcePainted_tells (update : Nat) (painted : Bool) :
    Tells (announcePainted update painted) := by
  cases painted with
  | false => exact tells_pure ()
  | true =>
      exact follows_perform trivial (fun generation _ => follows_perform (.inr ⟨update, rfl⟩)
        (fun _ _ => follows_perform (.inl rfl) (fun _ _ => ⟨rfl, fun _ _ => rfl⟩)))

theorem askAgain_tells (wanted : Bool) : Tells (askAgain wanted) := by
  cases wanted with
  | false => exact tells_pure ()
  | true => exact tells_of_only (only_bind (only_send _) (fun _ => trivial))

theorem readFramebufferUpdate_tells {z : Decompress} (d : Decoders z) :
    Tells (readFramebufferUpdate continuous d) := by
  refine Tells.bind (tells_of_only (only_op trivial)) (fun update => ?_)
  refine (tells_of_only only_u8).bind (fun _ => (tells_of_only only_u16).bind (fun count => ?_))
  refine (readRects_tells count.toNat _).bind (fun p => ?_)
  exact Tells.bind (tells_of_only (only_op trivial)) (fun _ => (askAgain_tells _).bind (fun _ =>
    (announcePainted_tells update _).bind (fun _ => tells_pure _)))

theorem readCutText_tells : Tells readCutText := by
  refine (tells_of_only (only_skip 3)).bind (fun _ => ?_)
  refine (tells_of_only (only_string maxCutText)).bind (fun text => ?_)
  exact follows_perform trivial (fun _ _ => ⟨rfl, fun _ _ => rfl⟩)

theorem handleMessage_tells {z : Decompress} (d : Decoders z) (message : UInt8) :
    Tells (handleMessage continuous d message) := by
  unfold handleMessage
  split
  · exact readFramebufferUpdate_tells d
  · split
    · refine Tells.bind (tells_of_only ?_) (fun _ => tells_pure d)
      exact only_bind only_u8 (fun _ => only_bind only_u16 (fun _ => only_bind only_u16 (fun _ =>
        only_skip _)))
    · split
      · exact Tells.bind (tells_of_only (only_op ServerEvent.mute_bell)) (fun _ => tells_pure d)
      · split
        · exact readCutText_tells.bind (fun _ => tells_pure d)
        · exact tells_of_only (only_ofExcept _)

theorem readMessage_tells {z : Decompress} (d : Decoders z) : Tells (readMessage continuous d) :=
  Tells.bind (tells_of_only (only_op trivial)) (fun _ =>
    (tells_of_only only_u8).bind (fun message =>
      Tells.bind (tells_of_only (only_op trivial)) (fun _ => handleMessage_tells d message)))

/-- The reader says whatever it does to the session. -/
theorem readerTask_tells {z : Decompress} (n : Nat) : ∀ d : Decoders z,
    Tells (readerTask continuous n d) := by
  induction n with
  | zero => exact fun _ => tells_pure ()
  | succ n ih =>
      intro d
      have hattempt : Follows Unsaid.discipline .nothing (readMessage continuous d).attempt
          (fun _ unsaid => unsaid = .nothing) :=
        follows_attempt (readMessage_tells d) (fun _ _ h => h) (fun _ _ h => h)
      refine Tells.bind hattempt (fun outcome => ?_)
      cases outcome with
      | ok d => exact ih d
      | error stop =>
          cases stop with
          | err e => exact tells_of_only (only_markDead _)
          | _ => exact rfl

end Reader

/-! ## What a step does to the four facts -/

/-- The size of the screen, the clipboard, the generation and the painted
flag are as they were. -/
structure SameFacts (i i' : Inner) : Prop where
  size : i'.size = i.size
  clipboard : i'.state.lastCutText = i.state.lastCutText
  generation : i'.generation = i.generation
  painted : i'.state.painted = i.state.painted

/-- The operations that are for the reader to announce. -/
def Op.Sets : Op → Prop
  | .desktopSize _ _ => True
  | .setCutText _ => True
  | .nextGeneration => True
  | .setPainted => True
  | _ => False

theorem after_same {o : Op} (hsets : ¬ o.Sets) (hdraw : ∀ f, o = .draw f → KeepsSize f)
    (r : o.Resp) (i : Inner) : SameFacts i (o.after r i) := by
  have hresize : ∀ w h, o ≠ .desktopSize w h := fun w h ho => by
    subst ho
    exact hsets trivial
  have hsize := after_size hresize hdraw r i
  cases o with
  | draw f =>
      simp only [Op.after, execInner] at hsize ⊢
      split at hsize <;> exact ⟨hsize, rfl, rfl, rfl⟩
  | push command =>
      simp only [Op.after, execInner] at hsize ⊢
      split <;> exact ⟨rfl, rfl, rfl, rfl⟩
  | pop => cases r <;> exact ⟨hsize, rfl, rfl, rfl⟩
  | desktopSize w h => exact absurd trivial hsets
  | setCutText text => exact absurd trivial hsets
  | nextGeneration => exact absurd trivial hsets
  | setPainted => exact absurd trivial hsets
  | _ => exact ⟨hsize, rfl, rfl, rfl⟩

/-! ## The invariant -/

/-- The session is what the events heard, and the one that is owed, make of
what it was. -/
structure Accounted (was : Inner) (heard : List ServerEvent) (unsaid : Unsaid) (i : Inner) :
    Prop where
  size : i.size = latest ServerEvent.size? was.size (heard ++ unsaid.event)
  clipboard : i.state.lastCutText =
    latest ServerEvent.clipboard? was.state.lastCutText (heard ++ unsaid.event)
  generation : i.generation =
    latest ServerEvent.generation? was.generation (heard ++ unsaid.event)
  painted : i.state.painted =
    latest ServerEvent.painted? was.state.painted (heard ++ unsaid.flagged)

section Accounted

variable {was i i' : Inner} {heard : List ServerEvent} {unsaid : Unsaid}

/-- Something happens that is no concern of the reader's. -/
theorem Accounted.keep (h : Accounted was heard unsaid i) (hsame : SameFacts i i')
    {es : List ServerEvent} (hmute : ∀ e ∈ es, e.Mute) : Accounted was (heard ++ es) unsaid i' where
  size := by
    rw [hsame.size, h.size]
    simp only [latest_append, latest_mute _ _ (fun e he => (hmute e he).1)]
  clipboard := by
    rw [hsame.clipboard, h.clipboard]
    simp only [latest_append, latest_mute _ _ (fun e he => (hmute e he).2.1)]
  generation := by
    rw [hsame.generation, h.generation]
    simp only [latest_append, latest_mute _ _ (fun e he => (hmute e he).2.2.1)]
  painted := by
    rw [hsame.painted, h.painted]
    simp only [latest_append, latest_mute _ _ (fun e he => (hmute e he).2.2.2)]

/-- Something is taken up, and is now owed. -/
theorem Accounted.owe (h : Accounted was heard .nothing i) {e : ServerEvent}
    (hevent : unsaid.event = [e])
    (hsize : i'.size = e.size?.getD i.size)
    (hclipboard : i'.state.lastCutText = e.clipboard?.getD i.state.lastCutText)
    (hgeneration : i'.generation = e.generation?.getD i.generation)
    (hpainted : i'.state.painted = latest ServerEvent.painted? i.state.painted unsaid.flagged) :
    Accounted was heard unsaid i' where
  size := by simp [hevent, hsize, h.size]
  clipboard := by simp [hevent, hclipboard, h.clipboard]
  generation := by simp [hevent, hgeneration, h.generation]
  painted := by simp [hpainted, h.painted]

/-- What is owed is said. -/
theorem Accounted.say (h : Accounted was heard unsaid i) (hsame : SameFacts i i')
    (hflagged : unsaid.flagged = unsaid.event) :
    Accounted was (heard ++ unsaid.event) .nothing i' where
  size := by simp [hsame.size, h.size]
  clipboard := by simp [hsame.clipboard, h.clipboard]
  generation := by simp [hsame.generation, h.generation]
  painted := by simp [hsame.painted, h.painted, hflagged]

/-- A session is what it is, whatever of its own events is heard again. -/
theorem Accounted.again (h : Accounted was heard unsaid i) {heard' : List ServerEvent}
    (hsuffix : heard' <:+ heard) : Accounted i heard' unsaid i := by
  have hagain : ∀ owed, heard' ++ owed <:+ heard ++ owed := fun owed =>
    List.suffix_append_self_iff.mpr hsuffix
  constructor
  · rw [h.size]
    exact (latest_again _ _ (hagain _)).symm
  · rw [h.clipboard]
    exact (latest_again _ _ (hagain _)).symm
  · rw [h.generation]
    exact (latest_again _ _ (hagain _)).symm
  · rw [h.painted]
    exact (latest_again _ _ (hagain _)).symm

end Accounted

/-! ## One step -/

section Steps

variable {was i i' : Inner} {heard : List ServerEvent} {unsaid : Unsaid} {o : Op} {m : Choice}
  {own own' : Own} {r : o.Resp}

/-- A step that changes none of the facts, and sends nothing. -/
theorem Accounted.silent (h : Accounted was heard unsaid i) (hsame : SameFacts i i')
    (hemits : o.emits = []) : Accounted was (heard ++ o.emits) unsaid i' := by
  rw [hemits]
  exact h.keep hsame (fun e he => by cases he)

/-- The reader with nothing to say: it takes something up, or goes on. -/
theorem Accounted.take (h : Accounted was heard .nothing i) (hdraw : ∀ f, o = .draw f → KeepsSize f)
    (hmay : Unsaid.nothing.may o) (hdoes : sessionDoes o m i own = some (r, i', own')) :
    Accounted was (heard ++ o.emits) (Unsaid.nothing.next o r) i' := by
  have hafter := sessionDoes_after hdoes
  by_cases hsets : o.Sets
  · cases o with
    | desktopSize width height =>
        cases hdoes
        show Accounted was (heard ++ []) _ _
        rw [List.append_nil]
        exact h.owe rfl rfl rfl rfl rfl
    | setCutText text =>
        cases hdoes
        show Accounted was (heard ++ []) _ _
        rw [List.append_nil]
        exact h.owe rfl rfl rfl rfl rfl
    | nextGeneration =>
        cases hdoes
        show Accounted was (heard ++ []) _ _
        rw [List.append_nil]
        exact h.owe rfl rfl rfl rfl rfl
    | setPainted => exact hmay.elim
    | _ => exact hsets.elim
  · have hnext : Unsaid.nothing.next o r = .nothing := by
      cases o <;> first | rfl | exact absurd trivial hsets
    have hmute : ∀ e ∈ o.emits, e.Mute := by
      intro e he
      cases o with
      | emit event =>
          cases List.mem_singleton.mp he
          exact hmay
      | _ => cases he
    rw [hnext, hafter]
    exact h.keep (after_same hsets hdraw r i) hmute

/-- The reader, whatever it has to say. -/
theorem Accounted.reader (h : Accounted was heard unsaid i) (hdraw : ∀ f, o = .draw f → KeepsSize f)
    (hmay : unsaid.may o) (hdoes : sessionDoes o m i own = some (r, i', own')) :
    Accounted was (heard ++ o.emits) (unsaid.next o r) i' := by
  cases unsaid with
  | nothing => exact h.take hdraw hmay hdoes
  | resized width height =>
      rcases hmay with rfl | rfl
      · cases hdoes
        exact h.silent ⟨rfl, rfl, rfl, rfl⟩ rfl
      · cases hdoes
        exact h.say ⟨rfl, rfl, rfl, rfl⟩ rfl
  | cutText text =>
      cases (hmay : o = _)
      cases hdoes
      exact h.say ⟨rfl, rfl, rfl, rfl⟩ rfl
  | numbered generation =>
      rcases hmay with rfl | ⟨update, rfl⟩
      · cases hdoes
        obtain ⟨hsize, hclipboard, hgeneration, -⟩ := h
        show Accounted was (heard ++ []) _ _
        rw [List.append_nil]
        refine ⟨hsize, hclipboard, hgeneration, ?_⟩
        simp [Unsaid.next, Unsaid.flagged, Unsaid.event, execInner, Inner.setPainted,
          ServerEvent.painted?]
      · cases hdoes
        exact h.silent ⟨rfl, rfl, rfl, rfl⟩ rfl
  | shown generation =>
      cases (hmay : o = _)
      cases hdoes
      exact h.say ⟨rfl, rfl, rfl, rfl⟩ rfl

/-- A task that is not the reader. -/
theorem Accounted.others (h : Accounted was heard unsaid i) {role : Role} (hmay : role.may o)
    (hrole : ∀ reading, role ≠ .reader reading)
    (hdoes : sessionDoes o m i own = some (r, i', own')) :
    Accounted was (heard ++ o.emits) unsaid i' := by
  have hreader : ¬ o.OfReader := by
    intro hop
    obtain ⟨reading, hreading⟩ := Role.reader_of_ops hmay hop
    exact hrole reading hreading
  have hsets : ¬ o.Sets := fun hsets => hreader (by cases o <;> trivial)
  have hdraw : ∀ f, o = .draw f → KeepsSize f := by
    intro f ho
    subst ho
    exact absurd trivial hreader
  have hmute : ∀ e ∈ o.emits, e.Mute := by
    intro e he
    cases o with
    | emit event =>
        cases List.mem_singleton.mp he
        by_cases hsaid : e.isDisconnected = false
        · obtain ⟨reading, hreading⟩ := Role.says_reader hmay ⟨e, rfl, hsaid⟩
          exact absurd hreading (hrole reading)
        · cases e with
          | disconnected reason => exact ServerEvent.mute_disconnected reason
          | _ => exact absurd rfl hsaid
    | _ => cases he
  rw [sessionDoes_after hdoes]
  exact h.keep (after_same hsets hdraw r i) hmute

end Steps

/-! ## Every run -/

/-- The tasks of a session, with what the reader has to say. -/
abbrev speaking (continuous : Bool) : Discipline SessionSig Stop (Role × Option Unsaid) :=
  (protocol continuous).also Unsaid.discipline

/-- At the start the reader has nothing to say. -/
def sessionUnsaid (continuous : Bool) (calls : List Call) (j : Nat) : Role × Option Unsaid :=
  (sessionRoles continuous calls j, if j = 0 then some .nothing else none)

/-- The invariant of a run from a state in which the session was `was` and
had already sent `past`. -/
structure Listening (was : Inner) (past : List ServerEvent) (γ : Nat → Role × Option Unsaid)
    (i : Inner) : Prop where
  alone : ∀ j r, (γ j).1 = .reader r → j = 0
  told : ∃ heard unsaid, i.events = past ++ heard ∧ (γ 0).2 = some unsaid ∧
    Accounted was heard unsaid i

section Runs

variable {z : Decompress} {width height : UInt16} {name : String} {continuous : Bool} {n m : Nat}
  {d : Decoders z} {calls : List Call}

theorem session_tells : Tasks.Roles (speaking continuous)
    (fun returned s => s.1.Ended returned ∧ ∀ unsaid ∈ s.2, unsaid = .nothing)
    (sessionUnsaid continuous calls) (session width height name continuous n m d calls) := by
  intro j p own hget
  have hrole := session_roles width height name n m d calls j p own hget
  cases j with
  | zero =>
      cases hget
      have htells : Tells (quietly (readerTask continuous n d)) :=
        (readerTask_tells n d).bind (fun _ => tells_pure none)
      exact hrole.also htells
  | succ j => exact hrole.unasked

theorem listening_step {was i i' : Inner} {past : List ServerEvent} {γ : Nat → Role × Option Unsaid}
    (h : Listening was past γ i) {j : Nat} {o : Op} {choice : Choice} {own own' : Own} {r : o.Resp}
    (hmay : (speaking continuous).may (γ j) o)
    (hdoes : sessionDoes o choice i own = some (r, i', own')) :
    Listening was past (Tasks.moved (speaking continuous) γ j o r) i' := by
  obtain ⟨heard, unsaid, hevents, hunsaid, hheard⟩ := h.told
  have hevents' : i'.events = past ++ (heard ++ o.emits) := by
    rw [sessionDoes_after hdoes, after_events, hevents, List.append_assoc]
  refine ⟨fun k role hrole => ?_, ?_⟩
  · by_cases hk : k = j
    · subst hk
      rw [Tasks.moved_self] at hrole
      cases hj : (γ k).1 with
      | reader reading => exact h.alone k reading hj
      | _ =>
          simp only [speaking, Discipline.also, protocol, hj] at hrole
          cases hrole
    · rw [Tasks.moved_of_ne _ _ hk] at hrole
      exact h.alone k role hrole
  · by_cases hj : 0 = j
    · subst hj
      refine ⟨heard ++ o.emits, unsaid.next o r, hevents', ?_, ?_⟩
      · rw [Tasks.moved_self]
        simp [Discipline.also, hunsaid, Unsaid.discipline]
      · refine hheard.reader (fun f ho => ?_) (hmay.2 unsaid hunsaid) hdoes
        subst ho
        exact Role.keepsSize hmay.1
    · refine ⟨heard ++ o.emits, unsaid, hevents', ?_, ?_⟩
      · rw [Tasks.moved_of_ne _ _ hj]
        exact hunsaid
      · exact hheard.others hmay.1 (fun reading hreading =>
          hj (h.alone j reading hreading).symm) hdoes

/-- The invariant, from the start of the session. -/
theorem listening_runs {t : List (Tasks.Entry SessionSig)}
    {c : Tasks SessionSig Stop Returned Inner Own}
    (h : Tasks.Runs sessionDoes Tasks.Anyhow
      (session width height name continuous n m d calls) t c) :
    ∃ γ, Tasks.Roles (speaking continuous)
        (fun returned s => s.1.Ended returned ∧ ∀ unsaid ∈ s.2, unsaid = .nothing) γ c ∧
      Listening (.new width height name) [] γ c.shared := by
  have hstart : Listening (.new width height name) [] (sessionUnsaid continuous calls)
      (session width height name continuous n m d calls).shared :=
    ⟨(posted_start continuous calls).readers, [], .nothing, rfl, rfl, ⟨rfl, rfl, rfl, rfl⟩⟩
  refine h.joint (J := fun γ _ c => Listening (.new width height name) [] γ c.shared)
    session_tells hstart (fun t c γ i m o k l r s' l' _ _ hj _ hmay hdoes => ⟨?_, ?_⟩)
  · exact ⟨sessionDoes_answered hdoes, fun _ _ => sessionDoes_answered hdoes⟩
  · exact listening_step hj hmay hdoes

/-- A session that is looked at is as it will be known from then on. -/
theorem Listening.restart {γ : Nat → Role × Option Unsaid} {i i₀ : Inner}
    (h : Listening i₀ [] γ i) (p : Nat) : Listening i (i.events.take p) γ i := by
  obtain ⟨heard, unsaid, hevents, hunsaid, hheard⟩ := h.told
  refine ⟨h.alone, i.events.drop p, unsaid, (List.take_append_drop p _).symm, hunsaid, ?_⟩
  refine hheard.again ?_
  rw [hevents]
  exact List.drop_suffix p _

/-- What a caller knows who saw the session as it `was` and has `heard`
events: the session is that, but for one event it has yet to send. -/
structure Known (was : Inner) (heard pending : List ServerEvent) (i : Inner) : Prop where
  size : i.size = latest ServerEvent.size? was.size (heard ++ pending)
  clipboard : i.state.lastCutText =
    latest ServerEvent.clipboard? was.state.lastCutText (heard ++ pending)
  generation : i.generation = latest ServerEvent.generation? was.generation (heard ++ pending)
  painted : i.state.painted = latest ServerEvent.painted? was.state.painted heard ∨
    i.state.painted = latest ServerEvent.painted? was.state.painted (heard ++ pending)

theorem Accounted.known {was i : Inner} {heard : List ServerEvent} {unsaid : Unsaid}
    (h : Accounted was heard unsaid i) : Known was heard unsaid.event i := by
  refine ⟨h.size, h.clipboard, h.generation, ?_⟩
  have hpainted := h.painted
  cases unsaid with
  | numbered generation =>
      rw [Unsaid.flagged, List.append_nil] at hpainted
      exact .inl hpainted
  | _ => exact .inr hpainted

theorem Unsaid.length_event (unsaid : Unsaid) : unsaid.event.length ≤ 1 := by
  cases unsaid <;> simp [Unsaid.event]

/-- The reader is between two messages, or has ended. -/
def Rested (p : Task Returned) : Prop := BetweenMessages p ∨ p.next? = none

theorem Unsaid.nothing_of_rested {s : Role × Option Unsaid} {unsaid : Unsaid} {p : Task Returned}
    {Q : Returned → Role × Option Unsaid → Prop} (hrested : Rested p) (hunsaid : s.2 = some unsaid)
    (hf : Follows (speaking continuous) s p Q)
    (hQ : ∀ returned, Q returned s → ∀ unsaid ∈ s.2, unsaid = .nothing) : unsaid = .nothing := by
  have hdisarm : ∀ {o : Op}, unsaid.may o → (o = .disarm ∨ o = .fill 1) → unsaid = .nothing := by
    intro o hmay ho
    cases unsaid with
    | nothing => rfl
    | resized w h => rcases ho with rfl | rfl <;> rcases hmay with h | h <;> cases h
    | cutText text => rcases ho with rfl | rfl <;> cases hmay
    | numbered generation => rcases ho with rfl | rfl <;> rcases hmay with h | ⟨_, h⟩ <;> cases h
    | shown generation => rcases ho with rfl | rfl <;> cases hmay
  rcases hrested with hbetween | hended
  · cases hbetween with
    | disarms k => exact hdisarm (hf.1.2 unsaid hunsaid) (.inl rfl)
    | listens k _ => exact hdisarm (hf.1.2 unsaid hunsaid) (.inr rfl)
  · cases p with
    | ret returned => exact hQ returned hf unsaid hunsaid
    | fail e => exact hf.2 unsaid hunsaid
    | step o k => cases hended

/-- **The events tell the session.** A caller that looks at it once, and has
every event from some event on that is no later, knows at any later time its
size, its clipboard, its generation and whether it is painted: there is at
most one more event to come for what the reader has done, and none while the
reader waits for a message. -/
theorem events_tell {t₁ t₂ : List (Tasks.Entry SessionSig)}
    {c₁ c₂ : Tasks SessionSig Stop Returned Inner Own}
    (h₁ : Tasks.Runs sessionDoes Tasks.Anyhow
      (session width height name continuous n m d calls) t₁ c₁)
    (h₂ : Tasks.Runs sessionDoes Tasks.Anyhow c₁ t₂ c₂) {p : Nat}
    (hp : p ≤ c₁.shared.events.length) :
    ∃ pending : List ServerEvent, pending.length ≤ 1 ∧
      Known c₁.shared (c₂.shared.events.drop p) pending c₂.shared ∧
      ∀ q own, c₂.tasks[0]? = some (q, own) → Rested q → pending = [] := by
  obtain ⟨γ₁, hroles₁, hlistening₁⟩ := listening_runs h₁
  obtain ⟨γ, hroles, hlistening⟩ := h₂.joint
    (J := fun γ _ c => Listening c₁.shared (c₁.shared.events.take p) γ c.shared) hroles₁
    (hlistening₁.restart p) (fun t c γ i m o k l r s' l' _ _ hj _ hmay hdoes =>
      ⟨⟨sessionDoes_answered hdoes, fun _ _ => sessionDoes_answered hdoes⟩,
        listening_step hj hmay hdoes⟩)
  obtain ⟨heard, unsaid, hevents, hunsaid, hheard⟩ := hlistening.told
  have hdrop : c₂.shared.events.drop p = heard := by
    rw [hevents, List.drop_append_of_le_length (by simp [hp]), List.drop_of_length_le (by simp)]
    rfl
  rw [hdrop]
  refine ⟨unsaid.event, unsaid.length_event, hheard.known, fun q own hget hrested => ?_⟩
  have hnothing := Unsaid.nothing_of_rested hrested hunsaid (hroles 0 q own hget)
    (fun returned h => h.2)
  rw [hnothing, Unsaid.event_nothing]

end Runs

/-- A session that has been resized, and has yet to say so. -/
theorem events_tell_resized :
    ∃ t c, Tasks.Runs sessionDoes Tasks.Anyhow
        (session 1 1 "desktop" false 1 0 (Decoders.new stored) []) t c ∧
      c.shared.events = [] ∧ c.shared.size = (2, 1) ∧
      ∃ pending : List ServerEvent, pending.length ≤ 1 ∧
        Known (.new 1 1 "desktop") [] pending c.shared := by
  have hend : ((session 1 1 "desktop" false 1 0 (Decoders.new stored) []).record
      (fun _ _ _ _ => true) sessionDoes (resizes.take 12) []).map
        (fun e => (e.2.shared.events, e.2.shared.size)) = some ([], (2, 1)) := by
    decide +kernel
  obtain ⟨⟨t, c⟩, hrecord, hfacts⟩ := Option.map_eq_some_iff.mp hend
  obtain ⟨hevents, hsize⟩ := Prod.mk.inj hfacts
  have hrun : Tasks.Runs sessionDoes Tasks.Anyhow
      (session 1 1 "desktop" false 1 0 (Decoders.new stored) []) t c :=
    Tasks.runs_record (fun _ _ _ _ _ => trivial) hrecord .start
  obtain ⟨pending, hone, hknown, -⟩ := events_tell .start hrun (Nat.zero_le _)
  refine ⟨t, c, hrun, hevents, hsize, pending, hone, ?_⟩
  rwa [List.drop_zero, hevents] at hknown

end Bolide.Rfb
