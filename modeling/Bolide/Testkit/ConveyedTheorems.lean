/-
Bolide.Testkit.ConveyedTheorems — what the callers said is what the server
reads.

A command is accepted when its push is answered true, and the order in which
commands are accepted is the order of the queue. The writer writes their
messages one after the other, so what is on the wire is at every moment a
prefix of all of them (`Conveys`, the invariant of the writer's role), and
the read loop of the fake server reads the whole as the callers' events.
-/
import Bolide.Rfb.Written
import Bolide.Testkit.ReadMessageTheorems

namespace Bolide.Testkit

open Lib Rfb

/-! ## What is said -/

/-- The message a call sends of its own, and the events it is. -/
def sends : Call → Option (List UInt8 × List ClientEvent)
  | .pointer x y buttons => some (pointerEvent x y buttons, [.pointer x y buttons])
  | .key keysym down => some (keyEvent keysym down, [.key keysym down])
  | .keyBurst events =>
      some (events.flatMap (fun e => keyEvent e.1 e.2), events.map (fun e => .key e.1 e.2))
  | .cutText text => some (clientCutText text, [.cutText (lowered text)])
  | .refresh _ _ _ => none
  | .close => none

/-- The message of a command of task `task`, and the events it is. A request
is made when it is written, of the size in force then. -/
inductive Says (calls : List Call) (task : Nat) :
    Command → List UInt8 → List ClientEvent → Prop
  | call {j call bytes events} (htask : task = j + 3) (hcall : calls[j]? = some call)
      (hsends : sends call = some (bytes, events)) : Says calls task (.write bytes) bytes events
  | request (incremental first : Bool) (w h : UInt16) :
      Says calls task (.request incremental)
        (framebufferUpdateRequest (incremental && !first) 0 0 w h)
        [.updateRequest (incremental && !first) 0 0 w h]

/-- A command that was said, by whom, and what it means. -/
structure Saying (calls : List Call) where
  task : Nat
  command : Command
  message : List UInt8
  events : List ClientEvent
  meaning : Says calls task command message events

/-- Who said it. -/
def Saying.source {calls : List Call} (s : Saying calls) : Nat × Command := (s.task, s.command)

/-- A call whose latin-1 text fits its length field. -/
def Fits (calls : List Call) : Prop :=
  ∀ text, Call.cutText text ∈ calls → (toLatin1 text).length < 2 ^ 32

/-- Every message is read as its events. -/
theorem Saying.reads {calls : List Call} (hfits : Fits calls) (s : Saying calls) :
    Reads s.message s.events := by
  obtain ⟨task, command, message, events, hsaid⟩ := s
  cases hsaid with
  | request incremental first w h =>
      exact reads_of_readMessage (readMessage_framebufferUpdateRequest _ 0 0 w h)
  | @call j call bytes events _ hcall hsends =>
      cases call with
      | pointer x y buttons =>
          cases hsends
          exact reads_of_readMessage (readMessage_pointerEvent x y buttons)
      | key keysym down =>
          cases hsends
          exact reads_of_readMessage (readMessage_keyEvent keysym down)
      | keyBurst events =>
          cases hsends
          exact reads_keys events
      | cutText text =>
          cases hsends
          exact reads_of_readMessage
            (readMessage_clientCutText (hfits text (List.mem_of_getElem? hcall)))
      | refresh n incremental timeout => cases hsends
      | close => cases hsends

section Invariant

variable {calls : List Call}

/-- Every command on the list means something. -/
def Sayable (calls : List Call) (acc : List (Nat × Command)) : Prop :=
  ∀ a ∈ acc, ∃ message events, Says calls a.1 a.2 message events

theorem Sayable.said {acc : List (Nat × Command)} (h : Sayable calls acc) :
    ∃ said : List (Saying calls), said.map Saying.source = acc := by
  induction acc with
  | nil => exact ⟨[], rfl⟩
  | cons a acc ih =>
      obtain ⟨message, events, hsaid⟩ := h a List.mem_cons_self
      obtain ⟨said, rfl⟩ := ih (fun b hb => h b (List.mem_cons_of_mem _ hb))
      exact ⟨⟨a.1, a.2, message, events, hsaid⟩ :: said, rfl⟩

theorem Sayable.append {acc more : List (Nat × Command)} (h : Sayable calls acc)
    (hmore : Sayable calls more) : Sayable calls (acc ++ more) := by
  intro a ha
  rcases List.mem_append.mp ha with ha | ha
  · exact h a ha
  · exact hmore a ha

/-- `bytes` is the messages of the commands, one after the other. -/
def Whole (calls : List Call) (acc : List (Nat × Command)) (bytes : List UInt8) : Prop :=
  ∃ said : List (Saying calls), said.map Saying.source = acc ∧ said.flatMap Saying.message = bytes

/-- `bytes` is a prefix of them. -/
def Part (calls : List Call) (acc : List (Nat × Command)) (bytes : List UInt8) : Prop :=
  ∃ said : List (Saying calls), said.map Saying.source = acc ∧
    bytes <+: said.flatMap Saying.message

theorem Whole.part {acc : List (Nat × Command)} {bytes : List UInt8} (h : Whole calls acc bytes) :
    Part calls acc bytes := by
  obtain ⟨said, hsource, rfl⟩ := h
  exact ⟨said, hsource, List.prefix_refl _⟩

/-- Commands that follow change nothing. -/
theorem Part.append {acc more : List (Nat × Command)} {bytes : List UInt8}
    (h : Part calls acc bytes) (hmore : Sayable calls more) : Part calls (acc ++ more) bytes := by
  obtain ⟨said, rfl, hbytes⟩ := h
  obtain ⟨others, rfl⟩ := hmore.said
  refine ⟨said ++ others, List.map_append, ?_⟩
  rw [List.flatMap_append]
  exact hbytes.trans (List.prefix_append _ _)

/-- One more message. -/
theorem Whole.snoc {acc : List (Nat × Command)} {bytes message : List UInt8}
    {events : List ClientEvent} {j : Nat} {command : Command} (h : Whole calls acc bytes)
    (hsaid : Says calls j command message events) :
    Whole calls (acc ++ [(j, command)]) (bytes ++ message) := by
  obtain ⟨said, rfl, rfl⟩ := h
  exact ⟨said ++ [⟨j, command, message, events, hsaid⟩], by simp [Saying.source], by simp⟩

/-- The beginning of one more message. -/
theorem Whole.part_snoc {acc : List (Nat × Command)} {bytes message part : List UInt8}
    {events : List ClientEvent} {j : Nat} {command : Command} (h : Whole calls acc bytes)
    (hsaid : Says calls j command message events) (hpart : part <+: message) :
    Part calls (acc ++ [(j, command)]) (bytes ++ part) := by
  obtain ⟨said, hsource, hbytes⟩ := h.snoc hsaid
  obtain ⟨rest, rfl⟩ := hpart
  refine ⟨said, hsource, ?_⟩
  rw [hbytes, ← List.append_assoc]
  exact List.prefix_append _ _

/-! ## The writer -/

/-- What the writer's role says of the commands that were accepted: which are
written, which one it is at, and which are queued. -/
def Conveys (calls : List Call) (acc : List (Nat × Command)) (queue : List Command) (w : Written) :
    Writing → Prop
  | .ready => ∃ done queued, acc = done ++ queued ∧ queued.map Prod.snd = queue ∧
      Whole calls done w.sent.flatten
  | .asked incremental => ∃ done j queued, acc = done ++ (j, .request incremental) :: queued ∧
      queued.map Prod.snd = queue ∧ Whole calls done w.sent.flatten
  | .sized incremental _ => ∃ done j queued, acc = done ++ (j, .request incremental) :: queued ∧
      queued.map Prod.snd = queue ∧ Whole calls done w.sent.flatten
  | .writing command message _ => ∃ done j queued, acc = done ++ (j, command) :: queued ∧
      queued.map Prod.snd = queue ∧ Whole calls done w.sent.flatten ∧
        ∃ events, Says calls j command message events
  | _ => Part calls acc w.bytes

/-- What is on the wire is a prefix of what was accepted. -/
theorem Conveys.part {role : Writing} {acc : List (Nat × Command)} {queue : List Command}
    {w : Written} (h : Conveys calls acc queue w role) (hagrees : role.Agrees w)
    (hsayable : Sayable calls acc) : Part calls acc w.bytes := by
  have hbytes : w.part = [] → w.bytes = w.sent.flatten := by
    intro hpart
    rw [Written.bytes, hpart, List.append_nil]
  cases role with
  | ready =>
      obtain ⟨done, queued, rfl, _, hwhole⟩ := h
      rw [hbytes hagrees]
      exact hwhole.part.append (fun a ha => hsayable a (List.mem_append_right _ ha))
  | asked incremental =>
      obtain ⟨done, j, queued, rfl, _, hwhole⟩ := h
      rw [hbytes hagrees]
      exact hwhole.part.append (fun a ha => hsayable a (List.mem_append_right _ ha))
  | sized incremental first =>
      obtain ⟨done, j, queued, rfl, _, hwhole⟩ := h
      rw [hbytes hagrees]
      exact hwhole.part.append (fun a ha => hsayable a (List.mem_append_right _ ha))
  | writing command message rest =>
      obtain ⟨done, j, queued, rfl, _, hwhole, events, hsaid⟩ := h
      rw [List.append_cons]
      exact (hwhole.part_snoc hsaid ⟨rest, hagrees.1⟩).append
        (fun a ha => hsayable a (List.mem_append_right _ (List.mem_cons_of_mem _ ha)))
  | _ => exact h

/-- More commands are accepted. -/
theorem Conveys.push {role : Writing} {acc more : List (Nat × Command)} {queue : List Command}
    {w : Written} (h : Conveys calls acc queue w role) (hmore : Sayable calls more) :
    Conveys calls (acc ++ more) (queue ++ more.map Prod.snd) w role := by
  cases role with
  | ready =>
      obtain ⟨done, queued, rfl, rfl, hwhole⟩ := h
      exact ⟨done, queued ++ more, by simp, by simp, hwhole⟩
  | asked incremental =>
      obtain ⟨done, j, queued, rfl, rfl, hwhole⟩ := h
      exact ⟨done, j, queued ++ more, by simp, by simp, hwhole⟩
  | sized incremental first =>
      obtain ⟨done, j, queued, rfl, rfl, hwhole⟩ := h
      exact ⟨done, j, queued ++ more, by simp, by simp, hwhole⟩
  | writing command message rest =>
      obtain ⟨done, j, queued, rfl, rfl, hwhole, hsaid⟩ := h
      exact ⟨done, j, queued ++ more, by simp, by simp, hwhole, hsaid⟩
  | _ => exact Part.append h hmore

theorem says_write {j : Nat} {bytes message : List UInt8} {events : List ClientEvent}
    (h : Says calls j (.write bytes) message events) : message = bytes := by
  cases h
  rfl

/-- An operation of the writer. -/
theorem Conveys.next {role : Writing} {acc : List (Nat × Command)} {i i' : Inner}
    {own own' : Own} {o : Op} {m : Choice} {r : o.Resp} {w : Written}
    (h : Conveys calls acc i.commands w role) (hagrees : role.Agrees w)
    (hsayable : Sayable calls acc) (hmay : role.may o)
    (hdoes : sessionDoes o m i own = some (r, i', own')) :
    Conveys calls acc i'.commands (w.note o r) (role.next o r) := by
  have hpart := h.part hagrees hsayable
  cases role with
  | ready =>
      cases (hmay : o = .pop)
      obtain ⟨done, queued, rfl, hqueued, hwhole⟩ := h
      rcases pop_cases hdoes with ⟨command, rest, hcommands, rfl, rfl⟩ | ⟨_, rfl, rfl⟩
      · rw [hcommands] at hqueued
        obtain ⟨⟨j, command'⟩, queued', rfl, rfl, rfl⟩ := List.map_eq_cons_iff.mp hqueued
        cases command' with
        | request incremental => exact ⟨done, j, queued', rfl, rfl, hwhole⟩
        | write bytes =>
            obtain ⟨message, events, hsaid⟩ := hsayable (j, .write bytes) (by simp)
            cases says_write hsaid
            show Conveys calls _ _ w (.left (.write bytes) bytes bytes)
            unfold Writing.left
            split
            · next hempty =>
                subst hempty
                refine ⟨done ++ [(j, .write [])], queued', by simp, rfl, ?_⟩
                have hsnoc := hwhole.snoc hsaid
                rwa [List.append_nil] at hsnoc
            · exact ⟨done, j, queued', rfl, rfl, hwhole, events, hsaid⟩
      · exact hpart
  | asked incremental =>
      cases (hmay : o = .swapNeedsFull)
      cases hdoes
      exact h
  | sized incremental first =>
      cases (hmay : o = .size)
      cases hdoes
      obtain ⟨done, j, queued, hacc, hqueued, hwhole⟩ := h
      show Conveys calls _ _ w (.left (.request incremental) _ _)
      rw [Writing.left_of_ne (framebufferUpdateRequest_ne_nil _ _ _ _ _)]
      exact ⟨done, j, queued, hacc, hqueued, hwhole, _, .request incremental first _ _⟩
  | writing command message rest =>
      cases (hmay : o = .pollWrite rest)
      have hcommands : i'.commands = i.commands := by rw [sessionDoes_after hdoes]; rfl
      rw [hcommands]
      match r with
      | .error e => exact hpart
      | .ok 0 =>
          have hbytes : (w.take rest 0).bytes = w.bytes := by
            rw [Written.take, if_pos (List.length_pos_iff.mpr hagrees.2)]
            simp only [Written.bytes, List.take_zero, List.append_nil]
          show Part calls acc (w.take rest 0).bytes
          rw [hbytes]
          exact hpart
      | .ok (n + 1) =>
          obtain ⟨done, j, queued, rfl, hqueued, hwhole, events, hsaid⟩ := h
          show Conveys calls _ _ (w.take rest (n + 1)) (.left command message (rest.drop (n + 1)))
          rcases Writing.sent_next (n := n + 1) hagrees with ⟨hsame, hlt⟩ | ⟨hadd, hge⟩
          · rw [Writing.left_of_ne (fun hdrop => by
              rw [List.drop_eq_nil_iff] at hdrop
              omega)]
            exact ⟨done, j, queued, rfl, hqueued, hsame ▸ hwhole, events, hsaid⟩
          · rw [Writing.left, if_pos (by rw [List.drop_eq_nil_iff]; omega)]
            refine ⟨done ++ [(j, command)], queued, by simp, hqueued, ?_⟩
            rw [hadd, List.flatten_append, List.flatten_singleton]
            exact hwhole.snoc hsaid
  | failed =>
      cases (hmay : o = .swapConnected)
      cases hdoes
      show Conveys calls _ _ w (.buried (.swapped i.connected))
      cases i.connected <;> exact hpart
  | dying d =>
      rw [note_of_not_writes (fun hwrites => Dying.not_writer hmay hwrites.ofWriter)]
      have hpart' : Part calls acc w.bytes := h
      show Conveys calls _ _ w (.buried (d.next o r))
      cases d.next o r <;> exact hpart'
  | closing =>
      cases (hmay : o = .closeCommands)
      cases hdoes
      exact hpart
  | gone => exact hmay.elim

/-! ## Every run -/

/-- The invariant: what is accepted, and what is about to be, means something,
and the writer's role says how much of it is written. -/
structure Conveyed (calls : List Call) (γ : Nat → Role) (t : List (Tasks.Entry SessionSig))
    (i : Rfb.Inner) : Prop where
  copying : Copying γ t
  senders : ∀ j command s, γ j = .sender command s →
    ∃ message events, Says calls j command message events
  sayable : Sayable calls (accepted t)
  writer : ∀ w, γ 1 = .writer w → Conveys calls (accepted t) i.commands (written t) w

/-- What an operation queues means something. -/
theorem Conveyed.queues {γ : Nat → Role} {t : List (Tasks.Entry SessionSig)} {i : Rfb.Inner}
    (h : Conveyed calls γ t i) {j : Nat} {o : Op} (hmay : (γ j).may o) (r : o.Resp) :
    Sayable calls ((o.queues r).map (fun command => (j, command))) := by
  intro a ha
  obtain ⟨command, hmem, rfl⟩ := List.mem_map.mp ha
  cases o with
  | push command' =>
      cases r with
      | false => cases hmem
      | true =>
          cases List.mem_singleton.mp hmem
          rcases Role.pushes hmay with hrole | ⟨rfl, _⟩ | ⟨incremental, _, rfl, _⟩
          · exact h.senders j _ _ hrole
          · exact ⟨_, _, .request true false 0 0⟩
          · exact ⟨_, _, .request incremental false 0 0⟩
  | _ => cases hmem

/-- The writer queues nothing. -/
theorem writer_queues {w : Writing} {o : Op} (hmay : (Role.writer w).may o) (r : o.Resp) :
    o.queues r = [] := by
  cases o with
  | push command =>
      rcases Role.pushes hmay with hrole | ⟨_, _, _, hrole⟩ | ⟨_, _, _, hrole⟩ <;> cases hrole
  | _ => rfl

theorem conveyed_step {continuous : Bool} {γ : Nat → Role} {t : List (Tasks.Entry SessionSig)}
    {i : Nat} {o : Op} {m : Choice} {r : o.Resp} {s s' : Rfb.Inner} {own own' : Own}
    (h : Conveyed calls γ t s) (hmay : (γ i).may o)
    (hdoes : sessionDoes o m s own = some (r, s', own')) :
    Conveyed calls (Tasks.moved (protocol continuous) γ i o r) (t ++ [⟨i, o, r⟩]) s' := by
  have hqueues := h.queues hmay r
  refine ⟨copying_step h.copying hmay (sessionDoes_answered hdoes), fun j command sending hj => ?_,
    ?_, fun w hw => ?_⟩
  · by_cases hji : j = i
    · subst hji
      rw [Tasks.moved_self] at hj
      cases hrole : γ j with
      | sender command' s' =>
          rw [hrole] at hj
          cases hj
          exact h.senders j _ _ hrole
      | _ =>
          rw [hrole] at hj
          cases hj
    · rw [Tasks.moved_of_ne _ _ hji] at hj
      exact h.senders j command sending hj
  · rw [accepted_snoc]
    exact h.sayable.append hqueues
  · rw [accepted_snoc, written_snoc]
    by_cases h1 : 1 = i
    · subst h1
      obtain ⟨w', hw'⟩ := h.copying.posted.writer
      rw [Tasks.moved_self, hw'] at hw
      cases hw
      rw [hw'] at hmay
      rw [writer_queues hmay, List.map_nil, List.append_nil]
      exact (h.writer w' hw').next (h.copying.agrees w' hw') h.sayable hmay hdoes
    · rw [Tasks.moved_of_ne _ _ h1] at hw
      have hpop : o ≠ .pop := fun heq =>
        h.copying.posted.not_writer hmay (Ne.symm h1) (heq ▸ trivial)
      rw [h.copying.note_of_ne hmay (Ne.symm h1), sessionDoes_commands hdoes hpop]
      have hpush := (h.writer w hw).push hqueues
      have hcommands : ((o.queues r).map (fun command => (i, command))).map Prod.snd = o.queues r := by
        rw [List.map_map]
        exact List.map_id _
      rwa [hcommands] at hpush

theorem conveyed_start (continuous : Bool) (width height : UInt16) (name : String) :
    Conveyed calls (sessionRoles continuous calls) [] (.new width height name) := by
  refine ⟨copying_start continuous calls, fun j command s hj => ?_, nofun, fun w hw => ?_⟩
  · match j, hj with
    | 0, hj => cases hj
    | 1, hj => cases hj
    | 2, hj =>
        cases hj
        exact ⟨_, _, .request true false 0 0⟩
    | j + 3, hj =>
        simp only [sessionRoles] at hj
        cases hcall : calls[j]? with
        | none =>
            rw [hcall] at hj
            cases hj
        | some call =>
            rw [hcall] at hj
            cases call with
            | refresh n incremental timeout => cases hj
            | close => cases hj
            | _ =>
                cases hj
                exact ⟨_, _, .call rfl hcall rfl⟩
  · cases hw
    exact ⟨[], [], rfl, rfl, [], rfl, rfl⟩

end Invariant

/-- **The client's half of the wire is faithful**: in every interleaving of a
session's tasks, whatever their calls are, the bytes the writer has written
are a prefix of the messages of the commands that were accepted, one after
the other in the order of the queue; and the fake server, which was sent any
pixel format and any list of encodings before, reads all of them and records
exactly their events, in that order. -/
theorem wire_faithful {z : Decompress} {width height : UInt16} {name : String}
    {continuous : Bool} {n m : Nat} {d : Decoders z} {calls : List Call}
    {t : List (Tasks.Entry SessionSig)} {c : Tasks SessionSig Stop Returned Rfb.Inner Own}
    (hfits : Fits calls)
    (hrun : Tasks.Runs sessionDoes Tasks.Anyhow
      (session width height name continuous n m d calls) t c) :
    ∃ said : List (Saying calls), said.map Saying.source = accepted t ∧
      (written t).bytes <+: said.flatMap Saying.message ∧
      ∀ (format : PixelFormat) (encodings : List Int32), encodings.length ≤ 65535 →
        readLoop (setPixelFormat format ++ setEncodings encodings ++ said.flatMap Saying.message)
          = (.setPixelFormat format :: .setEncodings encodings :: said.flatMap Saying.events, []) := by
  obtain ⟨γ, _, hconveyed⟩ := hrun.joint (D := protocol continuous)
    (J := fun γ t c => Conveyed calls γ t c.shared) (session_roles width height name n m d calls)
    (conveyed_start continuous width height name)
    (fun t c γ i m o k l r s' l' _ _ hj _ hmay hdoes =>
      ⟨sessionDoes_answered hdoes, conveyed_step hj hmay hdoes⟩)
  obtain ⟨w, hw⟩ := hconveyed.copying.posted.writer
  obtain ⟨said, hsource, hprefix⟩ :=
    (hconveyed.writer w hw).part (hconveyed.copying.agrees w hw) hconveyed.sayable
  refine ⟨said, hsource, hprefix, fun format encodings hlen => ?_⟩
  have hformat : Reads (setPixelFormat format) [.setPixelFormat format] :=
    reads_of_readMessage (readMessage_setPixelFormat format)
  have hencodings : Reads (setEncodings encodings) [.setEncodings encodings] :=
    reads_of_readMessage (readMessage_setEncodings hlen)
  have hsaid : Reads (said.flatMap Saying.message) (said.flatMap Saying.events) :=
    .flatMap (fun s _ => s.reads hfits)
  exact ((hformat.append hencodings).append hsaid).readLoop

/-! ## One run -/

/-- A burst, and a text with a CR and a character past U+00FF. -/
def twoCalls : List Call := [.keyBurst [(97, true), (97, false)], .cutText "a\r\n€"]

def speaking : Tasks SessionSig Stop Returned Rfb.Inner Own :=
  session 1 1 "desktop" false 0 1 (Decoders.new stored) twoCalls

/-- The text is accepted first, and its first two bytes are written. -/
def speaks : List (Nat × Choice) :=
  moves 4 [[], []] ++ moves 3 [[], []] ++ moves 1 [[], [6, 0]]

/-- A session in which two bytes of a text are on the wire. -/
theorem wire_faithful_two :
    ∃ t c, Tasks.Runs sessionDoes Tasks.Anyhow speaking t c ∧
      accepted t = [(4, .write [6, 0, 0, 0, 0, 0, 0, 3, 97, 10, 63]),
        (3, .write [4, 1, 0, 0, 0, 0, 0, 97, 4, 0, 0, 0, 0, 0, 0, 97])] ∧
      ∃ said : List (Saying twoCalls), said.map Saying.source = accepted t ∧
        (written t).bytes <+: said.flatMap Saying.message ∧
        ∀ (format : PixelFormat) (encodings : List Int32), encodings.length ≤ 65535 →
          readLoop (setPixelFormat format ++ setEncodings encodings ++
              said.flatMap Saying.message)
            = (.setPixelFormat format :: .setEncodings encodings ::
                said.flatMap Saying.events, []) := by
  have hend : (speaking.record (fun _ _ _ _ => true) sessionDoes speaks []).map
      (fun e => accepted e.1) = some [(4, .write [6, 0, 0, 0, 0, 0, 0, 3, 97, 10, 63]),
        (3, .write [4, 1, 0, 0, 0, 0, 0, 97, 4, 0, 0, 0, 0, 0, 0, 97])] := by
    decide +kernel
  obtain ⟨⟨t, c⟩, hrecord, haccepted⟩ := Option.map_eq_some_iff.mp hend
  have hrun : Tasks.Runs sessionDoes Tasks.Anyhow speaking t c :=
    Tasks.runs_record (fun _ _ _ _ _ => trivial) hrecord .start
  have hfits : Fits twoCalls := by
    intro text hmem
    simp only [twoCalls, List.mem_cons, List.not_mem_nil, or_false, reduceCtorEq, false_or,
      Call.cutText.injEq] at hmem
    subst hmem
    decide +kernel
  exact ⟨t, c, hrun, haccepted, wire_faithful hfits hrun⟩

end Bolide.Testkit
