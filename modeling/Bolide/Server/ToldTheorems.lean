/-
Bolide.Server.ToldTheorems — what the desktop is told to do.

`Turns` says what the session has received, and `Conveys` what becomes of a
queue of commands on its way to the wire. Here they meet: at the far end of
the connection is the fake server's read loop, and the PointerEvents and
KeyEvents it reads are the turns of the requests, in order, as far as they
are written (`Outgoing`, kept by every step of a server).

Translation notes. A server's commands are numbered as they are accepted, so
that `Conveys` takes each for a call of its own.
-/
import Bolide.Server.BraidTheorems
import Bolide.Testkit.ConveyedTheorems

namespace Bolide.Server

open Lib Prog Bolide.Rfb Bolide.Testkit

/-! ## A stream that breaks off -/

/-- A reader that has enough reads the same when more follows. -/
def Steady {α : Type} (p : Testkit.Reader α) : Prop :=
  ∀ input a rest more, p input = .ok (a, rest) → p (input ++ more) = .ok (a, rest ++ more)

theorem steady_readExact (n : Nat) : Steady (readExact n) := by
  intro input bytes rest more h
  unfold readExact at h ⊢
  split at h
  · next hle =>
      cases h
      rw [if_pos (by rw [List.length_append]; omega), List.take_append_of_le_length hle,
        List.drop_append_of_le_length hle]
  · cases h

theorem steady_pure {α : Type} (a : α) : Steady (pure a : Testkit.Reader α) := by
  intro input b rest more h
  cases h
  rfl

theorem Steady.bind {α β : Type} {p : Testkit.Reader α} {f : α → Testkit.Reader β} (hp : Steady p)
    (hf : ∀ a, Steady (f a)) : Steady (p >>= f) := by
  intro input b rest more h
  obtain ⟨a, mid, hmid, hrest⟩ := Testkit.Reader.bind_eq_ok h
  rw [Testkit.Reader.bind_ok (hp input a mid more hmid)]
  exact hf a mid b rest more hrest

theorem steady_readBody (kind : UInt8) : Steady (readBody kind) := by
  have hthen : ∀ (n : Nat) (f : List UInt8 → ClientEvent),
      Steady (do
        let bytes ← readExact n
        return f bytes) := fun n f => (steady_readExact n).bind (fun bytes => steady_pure (f bytes))
  unfold readBody
  split
  · exact hthen 19 _
  · split
    · exact (steady_readExact 3).bind (fun head => hthen _ _)
    · split
      · exact hthen 9 _
      · split
        · exact hthen 7 _
        · split
          · exact hthen 5 _
          · split
            · exact (steady_readExact 7).bind (fun head => hthen _ _)
            · intro input a rest more h
              cases h

theorem steady_readMessage : Steady readMessage :=
  (steady_readExact 1).bind (fun kind => steady_readBody (kind.getD 0 0))

/-- Of a stream that breaks off the read loop records what it records of the
whole, as far as it goes. -/
theorem readLoop_append_le (bytes more : List UInt8) :
    (readLoop bytes).1 <+: (readLoop (bytes ++ more)).1 := by
  induction bytes using readLoop.induct with
  | case1 bytes e h =>
      rw [readLoop, h]
      exact List.nil_prefix
  | case2 bytes event rest h ih =>
      rw [readLoop, readLoop, h, steady_readMessage bytes event rest more h]
      exact (List.prefix_cons_inj event).mpr ih

/-! ## The session in a server's run -/

/-- An operation on the session. -/
def ofSession? : Tasks.Entry ServeSig → Option (Tasks.Entry SessionSig)
  | ⟨i, .inl (.inl o), r⟩ => some ⟨i, o, r⟩
  | _ => none

/-- The operations on the session. -/
def ofSession (t : List (Tasks.Entry ServeSig)) : List (Tasks.Entry SessionSig) :=
  t.filterMap ofSession?

/-- The commands the session has accepted. -/
def commands (t : List (Tasks.Entry ServeSig)) : List Command :=
  (accepted (ofSession t)).map Prod.snd

/-- The bytes on the wire. -/
def wireOf (t : List (Tasks.Entry ServeSig)) : Written := written (ofSession t)

theorem ofSession_session (t : List (Tasks.Entry ServeSig)) (i : Nat) (o : Op) (r : o.Resp) :
    ofSession (t ++ [⟨i, .inl (.inl o), r⟩]) = ofSession t ++ [⟨i, o, r⟩] := by
  rw [ofSession, List.filterMap_append]
  rfl

theorem ofSession_other (t : List (Tasks.Entry ServeSig)) {e : Tasks.Entry ServeSig}
    (h : ofSession? e = none) : ofSession (t ++ [e]) = ofSession t := by
  rw [ofSession, List.filterMap_append, List.filterMap_cons_none h, List.filterMap_nil,
    List.append_nil]
  rfl

theorem commands_session (t : List (Tasks.Entry ServeSig)) (i : Nat) (o : Op) (r : o.Resp) :
    commands (t ++ [⟨i, .inl (.inl o), r⟩]) = commands t ++ o.queues r := by
  rw [commands, ofSession_session, accepted_snoc, List.map_append, List.map_map]
  exact congrArg _ (List.map_id _)

theorem wireOf_session (t : List (Tasks.Entry ServeSig)) (i : Nat) (o : Op) (r : o.Resp) :
    wireOf (t ++ [⟨i, .inl (.inl o), r⟩]) = (wireOf t).note o r := by
  rw [wireOf, ofSession_session, written_snoc]
  rfl

/-! ## What a command tells -/

/-- The event a command is. -/
def input? : Command → Option Input
  | .write bytes => Input.ofMessage? bytes
  | .request _ => none

theorem filterMap_singleton {α β : Type} (f : α → Option β) (a : α) :
    [a].filterMap f = (f a).toList := by
  cases h : f a with
  | none => rw [List.filterMap_cons_none h]; rfl
  | some b => rw [List.filterMap_cons_some h]; rfl

/-- What a session receives is what its commands are. -/
theorem received_eq (t : List (Tasks.Entry ServeSig)) :
    received t = (commands t).filterMap input? := by
  induction t using List.reverseRecOn with
  | nil => rfl
  | append_singleton t e ih =>
      rw [received_append, received_singleton, ih]
      match e with
      | ⟨i, .inl (.inl o), r⟩ =>
          have hcommands : commands (t ++ [⟨i, .inl (.inl o), r⟩]) = commands t ++ Op.queues o r :=
            commands_session t i o r
          rw [hcommands, List.filterMap_append]
          congr 1
          cases o with
          | push command =>
              cases r with
              | false => cases command <;> rfl
              | true =>
                  cases command with
                  | request incremental => rfl
                  | write bytes =>
                      exact (filterMap_singleton input? (.write bytes)).symm
          | _ => rfl
      | ⟨i, .inl (.inr o), r⟩ =>
          rw [commands, commands, ofSession_other t (e := ⟨i, .inl (.inr o), r⟩) rfl]
          exact List.append_nil _
      | ⟨i, .inr o, r⟩ =>
          rw [commands, commands, ofSession_other t (e := ⟨i, .inr o, r⟩) rfl]
          exact List.append_nil _

/-- The PointerEvents and KeyEvents of what the desktop has read. -/
def told (events : List ClientEvent) : List Input :=
  events.filterMap (fun event =>
    match event with
    | .pointer x y buttons => some (.pointer x y buttons)
    | .key keysym down => some (.key keysym down)
    | _ => none)

/-- A call that tells what its message is. -/
def Plain (call : Call) : Prop :=
  ∀ bytes events, sends call = some (bytes, events) →
    told events = (Input.ofMessage? bytes).toList

theorem plain_pointer (x y : UInt16) (buttons : UInt8) : Plain (.pointer x y buttons) := by
  intro bytes events h
  cases h
  exact congrArg Option.toList (Input.ofMessage_message (.pointer x y buttons)).symm

theorem plain_key (keysym : UInt32) (down : Bool) : Plain (.key keysym down) := by
  intro bytes events h
  cases h
  exact congrArg Option.toList (Input.ofMessage_message (.key keysym down)).symm

theorem plain_cutText (text : String) : Plain (.cutText text) := by
  intro bytes events h
  cases h
  rfl

/-- What a server's tasks hand the session. -/
inductive Spoken (jobs : List Job) : Command → Prop
  | input (event : Input) : Spoken jobs (.write event.message)
  | clipboard {text} : Job.clipboard text ∈ jobs → Spoken jobs (.write (clientCutText text))
  | request (incremental : Bool) : Spoken jobs (.request incremental)

/-- Texts that fit their length field. -/
def TextsFit (jobs : List Job) : Prop :=
  ∀ text, Job.clipboard text ∈ jobs → (toLatin1 text).length < 2 ^ 32

/-- The call that a command is. -/
structure Calls (command : Command) (call : Call) : Prop where
  plain : Plain call
  fits : ∀ text, call = .cutText text → (toLatin1 text).length < 2 ^ 32
  sends : ∀ bytes, command = .write bytes → ∃ events, Testkit.sends call = some (bytes, events)

theorem Spoken.calls {jobs : List Job} {command : Command} (h : Spoken jobs command)
    (hfits : TextsFit jobs) : ∃ call, Calls command call := by
  cases h with
  | input event =>
      cases event with
      | pointer x y buttons =>
          exact ⟨.pointer x y buttons, plain_pointer x y buttons, nofun, fun bytes h => by
            cases h; exact ⟨_, rfl⟩⟩
      | key keysym down =>
          exact ⟨.key keysym down, plain_key keysym down, nofun, fun bytes h => by
            cases h; exact ⟨_, rfl⟩⟩
  | @clipboard text hmem =>
      refine ⟨.cutText text, plain_cutText text, fun text' h => ?_, fun bytes h => ?_⟩
      · cases h
        exact hfits text hmem
      · cases h
        exact ⟨_, rfl⟩
  | request incremental =>
      exact ⟨.close, fun bytes events h => by (cases h), nofun, nofun⟩

/-! ## Commands by number -/

/-- Each command with a number of its own, that of a caller's task. -/
def numbered (cs : List Command) : List (Nat × Command) := cs.zipIdx.map (fun a => (a.2 + 3, a.1))

theorem numbered_append (cs more : List Command) : ∃ others,
    numbered (cs ++ more) = numbered cs ++ others ∧ others.map Prod.snd = more := by
  refine ⟨(more.zipIdx (0 + cs.length)).map (fun a => (a.2 + 3, a.1)), ?_, ?_⟩
  · rw [numbered, List.zipIdx_append, List.map_append]
    rfl
  · rw [List.map_map]
    exact List.zipIdx_map_fst _ more

theorem map_snd_numbered (cs : List Command) : (numbered cs).map Prod.snd = cs := by
  rw [numbered, List.map_map]
  exact List.zipIdx_map_fst 0 cs

/-- Commands that are calls are said by one list of them. -/
theorem exists_calls {cs : List Command} (h : ∀ command ∈ cs, ∃ call, Calls command call) :
    ∃ calls, Testkit.Fits calls ∧ Sayable calls (numbered cs) ∧ ∀ call ∈ calls, Plain call := by
  have : Nonempty Call := ⟨.close⟩
  choose! call hcall using h
  refine ⟨cs.map call, fun text hmem => ?_, fun a ha => ?_, fun c hc => ?_⟩
  · obtain ⟨command, hcommand, heq⟩ := List.mem_map.mp hmem
    exact (hcall command hcommand).fits text heq
  · obtain ⟨⟨command, i⟩, hmem, rfl⟩ := List.mem_map.mp ha
    have hget : cs[i]? = some command := List.mem_zipIdx_iff_getElem?.mp hmem
    cases command with
    | request incremental => exact ⟨_, _, .request incremental false 0 0⟩
    | write bytes =>
        obtain ⟨events, hsends⟩ := (hcall _ (List.mem_of_getElem? hget)).sends bytes rfl
        exact ⟨bytes, events, .call rfl (by rw [List.getElem?_map, hget]; rfl) hsends⟩
  · obtain ⟨command, hcommand, rfl⟩ := List.mem_map.mp hc
    exact (hcall command hcommand).plain

/-- What is said of commands tells what they are. -/
theorem told_said {calls : List Call} (hplain : ∀ call ∈ calls, Plain call)
    (said : List (Saying calls)) :
    told (said.flatMap Saying.events) = (said.map (fun s => s.command)).filterMap input? := by
  induction said with
  | nil => rfl
  | cons s said ih =>
      have hone : told s.events = (input? s.command).toList := by
        obtain ⟨task, command, message, events, hsays⟩ := s
        cases hsays with
        | request incremental first w h => rfl
        | call htask hcall hsends => exact hplain _ (List.mem_of_getElem? hcall) _ _ hsends
      have happend (xs ys : List ClientEvent) : told (xs ++ ys) = told xs ++ told ys :=
        List.filterMap_append
      rw [List.flatMap_cons, happend, ih, hone, ← filterMap_singleton, ← List.filterMap_append]
      rfl

/-! ## On the way to the wire -/

/-- The part of a task that is not the writer. -/
def Part.Aside : Part → Prop
  | .session (.writer _) => False
  | _ => True

/-- A task that is not the writer takes no command, and writes nothing. -/
theorem Part.Aside.not_writer {part : Part} (h : part.Aside) {o : Op}
    (hmay : part.may (.inl (.inl o))) : o ≠ .pop ∧ ¬ o.Writes := by
  have hwatches (hwatches : Watches (.inl o)) : o ≠ .pop ∧ ¬ o.Writes := by
    cases o with
    | pop => exact hwatches.elim
    | pollWrite bytes => exact hwatches.elim
    | _ => exact ⟨nofun, fun h => h⟩
  cases part with
  | session role =>
      obtain ⟨o', heq, hmay⟩ := hmay
      cases heq
      have hnot : ¬ o.OfWriter := by
        intro hop
        obtain ⟨w, rfl⟩ := Role.writer_of_ops hmay hop
        exact h
      exact ⟨fun heq => hnot (heq ▸ trivial), fun hwrites => hnot hwrites.ofWriter⟩
  | watching =>
      obtain ⟨o', heq, hmay⟩ := hmay
      cases heq
      exact hwatches hmay
  | released action done rest cursor =>
      obtain ⟨o', heq, hmay⟩ := hmay
      cases heq
      exact hwatches hmay
  | fresh action =>
      cases hmay
      exact ⟨nofun, fun h => h⟩
  | acting action done op rest step =>
      cases step with
      | check =>
          cases hmay
          exact ⟨nofun, fun h => h⟩
      | push =>
          obtain ⟨event, _, heq⟩ := hmay
          cases heq
          exact ⟨nofun, fun h => h⟩
      | doze => obtain ⟨deadline, heq⟩ := hmay; cases heq
      | record => obtain ⟨x, y, buttons, _, heq⟩ := hmay; cases heq
      | _ => cases hmay
  | ending action done rest finish => cases finish <;> cases hmay
  | dropping action done rest => cases hmay
  | queued action ops => cases hmay
  | rejected e => exact hmay.elim
  | dropped action done rest => exact hmay.elim

/-- What the task of a part sends is spoken. -/
def Part.Speaks (jobs : List Job) : Part → Prop
  | .session (.sender command _) => Spoken jobs command
  | _ => True

/-- What a task has accepted is spoken. -/
theorem Part.Speaks.queues {jobs : List Job} {part : Part} (h : part.Speaks jobs) {o : Op}
    (hmay : part.may (.inl (.inl o))) (r : o.Resp) : ∀ command ∈ o.queues r, Spoken jobs command := by
  intro command hmem
  cases o with
  | push command' =>
      cases r with
      | false => cases hmem
      | true =>
          cases List.mem_singleton.mp hmem
          cases part with
          | session role =>
              obtain ⟨o', heq, hmay⟩ := hmay
              cases heq
              rcases Role.pushes hmay with rfl | ⟨rfl, _⟩ | ⟨incremental, _, rfl, _⟩
              · exact h
              · exact .request true
              · exact .request incremental
          | watching =>
              obtain ⟨o', heq, hmay⟩ := hmay
              cases heq
              obtain ⟨incremental, rfl⟩ := hmay
              exact .request incremental
          | released action done rest cursor =>
              obtain ⟨o', heq, hmay⟩ := hmay
              cases heq
              obtain ⟨incremental, rfl⟩ := hmay
              exact .request incremental
          | acting action done op rest step =>
              cases step with
              | push =>
                  obtain ⟨event, _, heq⟩ := hmay
                  cases heq
                  exact .input event
              | doze => obtain ⟨deadline, heq⟩ := hmay; cases heq
              | record => obtain ⟨x, y, buttons, _, heq⟩ := hmay; cases heq
              | _ => cases hmay
          | ending action done rest finish => cases finish <;> cases hmay
          | rejected e => exact hmay.elim
          | dropped action done rest => exact hmay.elim
          | _ => cases hmay
  | _ => cases hmem

/-- A part stays aside, and goes on saying what is spoken. -/
theorem Part.Goes.aside {drag : DragPacing} {part part' : Part} {o : ServeSig.Op}
    {r : ServeSig.Resp o} (h : part.Goes drag o r part')
    (hsession : ∀ role, part ≠ .session role) : part'.Aside ∧ ∀ jobs, part'.Speaks jobs := by
  have hbegin (action : ComputerAction) (done rest : List RfbOp) :
      (Part.begin action done rest).Aside ∧ ∀ jobs, (Part.begin action done rest).Speaks jobs := by
    cases rest <;> exact ⟨trivial, fun _ => trivial⟩
  cases h with
  | session _ _ => exact absurd rfl (hsession _)
  | @watches part o r hwatching _ =>
      cases part with
      | watching => exact ⟨trivial, fun _ => trivial⟩
      | released action done rest cursor => exact ⟨trivial, fun _ => trivial⟩
      | _ => exact hwatching.elim
  | @sized action size =>
      rcases planned_cases drag action size with ⟨ops, hplan⟩ | ⟨e, hplan⟩ <;> rw [hplan] <;>
        exact ⟨trivial, fun _ => trivial⟩
  | begun => exact hbegin _ _ _
  | through _ => exact hbegin _ _ _
  | recorded => exact hbegin _ _ _
  | _ => exact ⟨trivial, fun _ => trivial⟩

/-- The next role of a task of the session: the writer writes for good, and
nobody else does. -/
theorem next_session (continuous : Bool) (role : Rfb.Role) (o : Op) (r : o.Resp) :
    ((∀ w, role ≠ .writer w) → ∀ w, role.next continuous o r ≠ .writer w) ∧
      ∀ jobs, (Part.session role).Speaks jobs → (Part.session (role.next continuous o r)).Speaks jobs := by
  cases role with
  | writer w => exact ⟨fun h => absurd rfl (h w), fun _ _ => trivial⟩
  | _ => exact ⟨fun _ _ => nofun, fun _ h => h⟩

/-- The commands a server's session has accepted are spoken, and the writer is
as far with them as its role says. -/
structure Outgoing (jobs : List Job) (γ : Nat → Part) (t : List (Tasks.Entry ServeSig))
    (i : Inner) : Prop where
  aside : ∀ j, j ≠ 1 → (γ j).Aside
  speaks : ∀ j, (γ j).Speaks jobs
  spoken : ∀ command ∈ commands t, Spoken jobs command
  writer : ∃ w, γ 1 = .session (.writer w) ∧ w.Agrees (wireOf t) ∧
    ∀ calls, Sayable calls (numbered (commands t)) →
      Conveys calls (numbered (commands t)) i.commands (wireOf t) w

section

variable {jobs : List Job} {γ : Nat → Part} {t : List (Tasks.Entry ServeSig)} {s s' : Inner}
  {i : Nat} {continuous : Bool} {drag : DragPacing}

/-- An operation of the writer. -/
theorem Outgoing.write (h : Outgoing jobs γ t s) {o : Op} {m : Choice} {r : o.Resp} {own own' : Own}
    (hmay : (γ 1).may (.inl (.inl o))) (hdoes : sessionDoes o m s own = some (r, s', own')) :
    Outgoing jobs (Function.update γ 1 ((γ 1).next continuous drag (.inl (.inl o)) r))
      (t ++ [⟨1, .inl (.inl o), r⟩]) s' := by
  obtain ⟨w, hw, hagrees, hconveys⟩ := h.writer
  rw [hw] at hmay ⊢
  obtain ⟨o', heq, hmay⟩ := hmay
  cases heq
  have hcommands : commands (t ++ [⟨1, .inl (.inl o), r⟩]) = commands t := by
    rw [commands_session, writer_queues hmay, List.append_nil]
  refine ⟨(Function.forall_update_iff γ (fun j part => j ≠ 1 → part.Aside)).mpr
      ⟨fun hne => absurd rfl hne, fun j _ => h.aside j⟩,
    (Function.forall_update_iff γ (fun _ part => part.Speaks jobs)).mpr ⟨trivial, fun j _ => h.speaks j⟩,
    ?_, w.next o r, Function.update_self _ _ _, ?_, fun calls hsay => ?_⟩
  · rw [hcommands]
    exact h.spoken
  · rw [wireOf_session]
    exact Writing.agrees_next hagrees hmay (sessionDoes_answered hdoes)
  · rw [hcommands] at hsay ⊢
    rw [wireOf_session]
    exact (hconveys calls hsay).next hagrees hsay hmay hdoes

/-- An operation of another task on the session. -/
theorem Outgoing.aside_step (h : Outgoing jobs γ t s) (hi : i ≠ 1) {o : Op} {m : Choice} {r : o.Resp}
    {own own' : Own} (hmay : (γ i).may (.inl (.inl o)))
    (hdoes : sessionDoes o m s own = some (r, s', own')) {part' : Part} (haside : part'.Aside)
    (hspeaks : part'.Speaks jobs) :
    Outgoing jobs (Function.update γ i part') (t ++ [⟨i, .inl (.inl o), r⟩]) s' := by
  obtain ⟨hpop, hwrites⟩ := (h.aside i hi).not_writer hmay
  obtain ⟨w, hw, hagrees, hconveys⟩ := h.writer
  have hwire : wireOf (t ++ [⟨i, .inl (.inl o), r⟩]) = wireOf t := by
    rw [wireOf_session, note_of_not_writes hwrites]
  refine ⟨(Function.forall_update_iff γ (fun j part => j ≠ 1 → part.Aside)).mpr
      ⟨fun _ => haside, fun j _ => h.aside j⟩,
    (Function.forall_update_iff γ (fun _ part => part.Speaks jobs)).mpr ⟨hspeaks, fun j _ => h.speaks j⟩,
    ?_, w, ?_, ?_, fun calls hsay => ?_⟩
  · intro command hmem
    rw [commands_session] at hmem
    rcases List.mem_append.mp hmem with hmem | hmem
    · exact h.spoken command hmem
    · exact (h.speaks i).queues hmay r command hmem
  · rw [Function.update_of_ne (Ne.symm hi), hw]
  · rwa [hwire]
  · rw [commands_session] at hsay ⊢
    obtain ⟨others, happend, hothers⟩ := numbered_append (commands t) (o.queues r)
    rw [happend] at hsay ⊢
    rw [hwire, sessionDoes_commands hdoes hpop, ← hothers]
    exact (hconveys calls (fun a ha => hsay a (List.mem_append_left _ ha))).push
      (fun a ha => hsay a (List.mem_append_right _ ha))

/-- An operation that is not on the session. -/
theorem Outgoing.elsewhere (h : Outgoing jobs γ t s) (hi : i ≠ 1) {e : Tasks.Entry ServeSig}
    (he : ofSession? e = none) {part' : Part} (haside : part'.Aside) (hspeaks : part'.Speaks jobs) :
    Outgoing jobs (Function.update γ i part') (t ++ [e]) s := by
  have hcommands : commands (t ++ [e]) = commands t := by rw [commands, ofSession_other t he]; rfl
  have hwire : wireOf (t ++ [e]) = wireOf t := by rw [wireOf, ofSession_other t he]; rfl
  obtain ⟨w, hw, hwriter⟩ := h.writer
  refine ⟨(Function.forall_update_iff γ (fun j part => j ≠ 1 → part.Aside)).mpr
      ⟨fun _ => haside, fun j _ => h.aside j⟩,
    (Function.forall_update_iff γ (fun _ part => part.Speaks jobs)).mpr ⟨hspeaks, fun j _ => h.speaks j⟩,
    ?_, w, ?_, ?_⟩
  · rw [hcommands]
    exact h.spoken
  · rw [Function.update_of_ne (Ne.symm hi), hw]
  · rw [hcommands, hwire]
    exact hwriter

/-- Every operation of every task. -/
theorem outgoing_step {o : ServeSig.Op} {m : Choice} {r : ServeSig.Resp o} {desk desk' : Desk}
    {own own' : Own} (h : Outgoing jobs γ t desk.1.1) (hmay : (γ i).may o)
    (hdoes : serveDoes o m desk own = some (r, desk', own')) :
    Outgoing jobs (Function.update γ i ((γ i).next continuous drag o r)) (t ++ [⟨i, o, r⟩])
      desk'.1.1 := by
  have hnext (hi : i ≠ 1) : ((γ i).next continuous drag o r).Aside ∧
      ((γ i).next continuous drag o r).Speaks jobs := by
    have haside := h.aside i hi
    have hspeaks := h.speaks i
    cases hpart : γ i with
    | session role =>
        rw [hpart] at hmay haside hspeaks
        obtain ⟨o', rfl, -⟩ := hmay
        obtain ⟨hwriter, hsays⟩ := next_session continuous role o' r
        refine ⟨?_, hsays jobs hspeaks⟩
        show (Part.session (role.next continuous o' r)).Aside
        have hnot := hwriter (fun w hw => by rw [hw] at haside; exact haside)
        cases hrole : role.next continuous o' r with
        | writer w => exact absurd hrole (hnot w)
        | _ => trivial
    | _ =>
        have hgoes : (γ i).Goes drag o r ((γ i).next continuous drag o r) := Part.goes hmay r
        rw [hpart] at hgoes
        exact ⟨(hgoes.aside nofun).1, (hgoes.aside nofun).2 jobs⟩
  have hother (hne : ∀ o', o ≠ .inl (.inl o')) : i ≠ 1 := by
    rintro rfl
    obtain ⟨w, hw, _⟩ := h.writer
    rw [hw] at hmay
    obtain ⟨o', heq, _⟩ := hmay
    exact hne o' heq
  cases o with
  | inl o =>
      cases o with
      | inl o =>
          obtain ⟨hsession, _, _⟩ := serveDoes_session hdoes
          by_cases hi : i = 1
          · subst hi
            exact h.write hmay hsession
          · exact h.aside_step hi hmay hsession (hnext hi).1 (hnext hi).2
      | inr o =>
          have hi := hother nofun
          rw [(serveDoes_app hdoes).2.1]
          exact h.elsewhere hi rfl (hnext hi).1 (hnext hi).2
  | inr o =>
      have hi := hother nofun
      rw [(serveDoes_inr hdoes).2.1]
      exact h.elsewhere hi rfl (hnext hi).1 (hnext hi).2

theorem outgoing_start (continuous : Bool) (jobs : List Job) (width height : UInt16) (name : String) :
    Outgoing jobs (serviceParts continuous jobs) [] (.new width height name) := by
  have hjob (j : Nat) : (serviceParts continuous jobs (j + 3)).Aside ∧
      (serviceParts continuous jobs (j + 3)).Speaks jobs := by
    simp only [serviceParts]
    cases hget : jobs[j]? with
    | none => exact ⟨trivial, trivial⟩
    | some job =>
        cases job with
        | clipboard text => exact ⟨trivial, .clipboard (List.mem_of_getElem? hget)⟩
        | _ => exact ⟨trivial, trivial⟩
  refine ⟨fun j hj => ?_, fun j => ?_, fun _ h => absurd h List.not_mem_nil, .ready, rfl, rfl,
    fun calls _ => ⟨[], [], rfl, rfl, [], rfl, rfl⟩⟩
  · rcases j with _ | _ | _ | j
    · trivial
    · exact absurd rfl hj
    · trivial
    · exact (hjob j).1
  · rcases j with _ | _ | _ | j
    · trivial
    · trivial
    · exact .request true
    · exact (hjob j).2

end

/-! ## The far end -/

/-- What the desktop reads of what a client has written, after the two
messages that open a session. -/
def desktop (format : PixelFormat) (encodings : List Int32) (bytes : List UInt8) : List ClientEvent :=
  (readLoop (setPixelFormat format ++ setEncodings encodings ++ bytes)).1

/-- What is said of the commands is read as what they are. -/
theorem desktop_said {calls : List Call} (hfits : Testkit.Fits calls) (hplain : ∀ call ∈ calls, Plain call)
    (format : PixelFormat) {encodings : List Int32} (hlen : encodings.length ≤ 65535)
    (said : List (Saying calls)) :
    told (desktop format encodings (said.flatMap Saying.message)) =
      (said.map (fun s => s.command)).filterMap input? := by
  have hformat : Reads (setPixelFormat format) [.setPixelFormat format] :=
    reads_of_readMessage (readMessage_setPixelFormat format)
  have hencodings : Reads (setEncodings encodings) [.setEncodings encodings] :=
    reads_of_readMessage (readMessage_setEncodings hlen)
  have hsaid : Reads (said.flatMap Saying.message) (said.flatMap Saying.events) :=
    .flatMap (fun s _ => s.reads hfits)
  rw [desktop, ((hformat.append hencodings).append hsaid).readLoop, ← told_said hplain]
  rfl

section

variable {jobs : List Job} {γ : Nat → Part} {t : List (Tasks.Entry ServeSig)} {s : Inner}
  {format : PixelFormat} {encodings : List Int32}

/-- What the desktop is told is what the session received, as far as it is
written. -/
theorem Outgoing.told_prefix (h : Outgoing jobs γ t s) (hfits : TextsFit jobs)
    (hlen : encodings.length ≤ 65535) :
    told (desktop format encodings (wireOf t).bytes) <+: received t := by
  obtain ⟨calls, hcalls, hsay, hplain⟩ :=
    exists_calls (fun command hmem => (h.spoken command hmem).calls hfits)
  obtain ⟨w, -, hagrees, hconveys⟩ := h.writer
  obtain ⟨said, hsource, more, hmore⟩ := (hconveys calls hsay).part hagrees hsay
  have hcommands : said.map (fun s => s.command) = commands t := by
    rw [← map_snd_numbered (commands t), ← hsource, List.map_map]
    rfl
  rw [received_eq, ← hcommands, ← desktop_said hcalls hplain format hlen said, ← hmore, desktop,
    desktop, ← List.append_assoc]
  exact (readLoop_append_le _ more).filterMap _

/-- A writer that has nothing to write has written all of it. -/
theorem Outgoing.told_all (h : Outgoing jobs γ t s) (hfits : TextsFit jobs)
    (hlen : encodings.length ≤ 65535) (hready : (γ 1).may (.inl (.inl .pop)))
    (hempty : s.commands = []) :
    told (desktop format encodings (wireOf t).bytes) = received t := by
  obtain ⟨calls, hcalls, hsay, hplain⟩ :=
    exists_calls (fun command hmem => (h.spoken command hmem).calls hfits)
  obtain ⟨w, hw, hagrees, hconveys⟩ := h.writer
  rw [hw] at hready
  obtain ⟨o', heq, hmay⟩ := hready
  cases heq
  cases w with
  | ready =>
      obtain ⟨done, queued, hacc, hqueued, said, hsource, hbytes⟩ := hconveys calls hsay
      have hnone : queued = [] := List.map_eq_nil_iff.mp (hqueued.trans hempty)
      rw [hnone, List.append_nil] at hacc
      have hcommands : said.map (fun s => s.command) = commands t := by
        rw [← map_snd_numbered (commands t), hacc, ← hsource, List.map_map]
        rfl
      have hwritten : (wireOf t).bytes = said.flatMap Saying.message := by
        rw [Written.bytes, show (wireOf t).part = [] from hagrees, List.append_nil, hbytes]
      rw [hwritten, desktop_said hcalls hplain format hlen said, hcommands, received_eq]
  | dying d => exact (Dying.not_writer hmay trivial).elim
  | gone => exact hmay.elim
  | _ => cases hmay

end

/-! ## Every run -/

section

variable {z : Decompress} {width height : UInt16} {name : String} {continuous : Bool} {n m : Nat}
  {d : Decoders z} {time : Duration} {config : HandlerConfig} {jobs : List Job}
  {t : List (Tasks.Entry ServeSig)} {c : Tasks ServeSig Left Reply Desk Own}

/-- **The desktop is told what the requests plan, one after another**: in
every run of a server, with handlers dropped where they stand and sessions
that fail, the PointerEvents and KeyEvents at the far end of the connection
are those of one request after another, in the order in which they acquired
the hands, and each request's are the beginning of its plan. What is missing
at the end has not been written yet: when the writer waits for a command and
none is queued, nothing is. -/
theorem desk_told (hfits : TextsFit jobs) (format : PixelFormat) (encodings : List Int32)
    (hlen : encodings.length ≤ 65535)
    (h : Tasks.Runs serveDoes Tasks.Anyhow
      (service width height name continuous n m d time config jobs) t c) :
    told (desktop format encodings (wireOf t).bytes) <+: (acquired t).flatMap (fun i => sentBy i t) ∧
      (acquired t).Nodup ∧
      (∀ i ∈ acquired t, ∃ n action ops, ∃ size : UInt16 × UInt16,
        jobOf jobs i = some (.computer n action) ∧ ⟨i, .inl (.inl .size), size⟩ ∈ t ∧
        plan action { width := size.1, height := size.2, drag := config.drag } = .ok ops ∧
        sentBy i t <+: inputs ops) ∧
      ∀ k own, c.tasks[1]? = some (.step (.inl (.inl .pop)) k, own) → c.shared.1.1.commands = [] →
        told (desktop format encodings (wireOf t).bytes) =
          (acquired t).flatMap (fun i => sentBy i t) := by
  obtain ⟨γ, hroles, hturns, hplanned, hout⟩ := service_parted
    (J := fun γ t c => Turns γ t c ∧ Planned jobs config.drag γ t ∧ Outgoing jobs γ t c.shared.1.1) h
    ⟨turns_start width height name continuous n m d time config jobs,
      (braided_start z width height name continuous n m d time config jobs).planned,
      outgoing_start continuous jobs width height name⟩
    (fun t c γ i m o k own r s' own' _ hj _ hmay hdoes =>
      ⟨turns_step hj.1 (Part.goes hmay r) hdoes, planned_step hj.2.1 (Part.goes hmay r),
        outgoing_step hj.2.2 hmay hdoes⟩)
  rw [← hturns.received]
  refine ⟨hout.told_prefix hfits hlen, hturns.nodup, fun i hi => ?_, fun k own htask hempty => ?_⟩
  · obtain ⟨action, ops, hplan⟩ := ((hturns.turns i).mp hi).plan
    obtain ⟨n, hjob⟩ := hplanned.asks i action (.inr ⟨ops, hplan⟩)
    obtain ⟨size, hmem, hok⟩ := hplanned.plans i action ops hplan
    exact ⟨n, action, ops, size, hjob, hmem, hok, hturns.sent i ▸ Part.sent_prefix hplan⟩
  · exact hout.told_all hfits hlen (hroles 1 _ _ htask).1 hempty

end

/-! ## One run -/

/-- A server with a request to move the pointer, whose writer goes on. -/
def telling : Tasks ServeSig Left Reply Desk Own :=
  service 8 8 "desktop" false 0 2 (Decoders.new stored) 0
    ⟨⟨500000000, 5000000000⟩, ⟨20, 20, 150⟩⟩ [.computer 0 (.mouseMove (3, 4))]

/-- The pointer is moved, and the move is written. -/
def tells : List (Nat × Choice) :=
  moves 3 (List.replicate 9 []) ++ moves 1 [[], [5, 0, 0, 3, 0, 4]]

theorem desk_told_move :
    ∃ t c, Tasks.Runs serveDoes Tasks.Anyhow telling t c ∧ acquired t = [3] ∧
      (wireOf t).bytes = [5, 0, 0, 3, 0, 4] ∧
      told (desktop .rgbx32 [0] (wireOf t).bytes) <+: (acquired t).flatMap (fun i => sentBy i t) := by
  have hend : (telling.record (fun _ _ _ _ => true) serveDoes tells []).map
      (fun e => (acquired e.1, (wireOf e.1).bytes)) = some ([3], [5, 0, 0, 3, 0, 4]) := by
    decide +kernel
  obtain ⟨⟨t, c⟩, hrecord, heq⟩ := Option.map_eq_some_iff.mp hend
  obtain ⟨hacquired, hbytes⟩ := Prod.mk.inj heq
  have hrun : Tasks.Runs serveDoes Tasks.Anyhow telling t c :=
    Tasks.runs_record (fun _ _ _ _ _ => trivial) hrecord .start
  have hfits : TextsFit [.computer 0 (.mouseMove (3, 4))] := by
    intro text hmem
    simp at hmem
  exact ⟨t, c, hrun, hacquired, hbytes, (desk_told hfits .rgbx32 [0] (by decide) hrun).1⟩

end Bolide.Server
