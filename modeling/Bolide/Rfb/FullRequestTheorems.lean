/-
Bolide.Rfb.FullRequestTheorems — a screen that is new gets a full request.

The reader replaces the framebuffer, sets `needs_full` and, after the last
rect, asks for a request; the writer takes a request, swaps `needs_full` and
reads the size. The steps interleave as they like. After a resize somebody
always owes a full request of the size now in force: the reader, until it has
asked (`Reading.Owes`), then the queue or the writer (`Owing`), until one is
written.
-/
import Bolide.Rfb.Written

namespace Bolide.Rfb

open Lib Prog

/-! ## What the system comes to -/

/-- A connected session in which there is nothing to write and nothing half
read. -/
structure AtRest (c : Tasks SessionSig Stop Returned Inner Own) : Prop where
  connected : c.shared.connected = true
  commands : c.shared.commands = []
  writer : ∃ k own, c.tasks[1]? = some (.step .pop k, own)
  reader : ∃ p own, c.tasks[0]? = some (p, own) ∧ BetweenMessages p

/-- A FramebufferUpdateRequest, by its type byte. -/
def isRequest (message : List UInt8) : Bool :=
  message.head? == some ClientMsg.framebufferUpdateRequest

/-- The request for the whole screen. -/
def fullRequest (size : UInt16 × UInt16) : List UInt8 :=
  framebufferUpdateRequest false 0 0 size.1 size.2

/-- A writer that takes the next command has written the one before. -/
theorem Writing.ready_of_pop {continuous : Bool} {role : Writing} {k} (hf : Follows (protocol continuous)
    (.writer role) (.step .pop k : Task Returned) Role.Ended) : role = .ready := by
  have hmay : role.may .pop := hf.1
  cases role with
  | ready => rfl
  | dying d =>
      cases d with
      | announce =>
          obtain ⟨reason, hmay⟩ := hmay
          cases hmay
      | done => exact hmay.elim
      | _ => cases hmay
  | gone => exact hmay.elim
  | _ => cases hmay

/-! ## Who owes a full request -/

/-- The reader has replaced the framebuffer, and has not asked for a request
since. -/
def Reading.Owes (needsFull : Bool) : Reading → Prop
  | resizing _ _ => True
  | flagged _ _ => needsFull = true
  | begun _ _ resized => resized = true ∧ needsFull = true
  | asking _ _ _ => needsFull = true
  | failed => True
  | dying _ => True
  | _ => False

/-- The writer has stopped writing. -/
def Writing.Stops : Writing → Prop
  | failed => True
  | dying _ => True
  | closing => True
  | gone => True
  | _ => False

/-- A full request is queued, or with the writer, or written among the
messages after the first `b`, or there will be no more. -/
inductive Owing (i : Inner) (role : Writing) (w : Written) (b : Nat) : Prop
  | closed (h : i.connected = false)
  | stopped (h : role.Stops)
  | queued (incremental : Bool) (hfull : i.needsFull = true)
      (h : .request incremental ∈ i.commands)
  | asked (incremental : Bool) (hfull : i.needsFull = true) (h : role = .asked incremental)
  | sized (incremental : Bool) (h : role = .sized incremental true)
  | writing (command : Command) (rest : List UInt8) (hb : b ≤ w.sent.length)
      (h : role = .writing command (fullRequest i.size) rest)
  | written (h : fullRequest i.size ∈ w.sent.drop b)

/-- The writer has no part in what keeps these. -/
theorem Owing.mono {i i' : Inner} {role : Writing} {w : Written} {b : Nat} (h : Owing i role w b)
    (hconnected : i.connected = false → i'.connected = false)
    (hneeds : i.needsFull = true → i'.needsFull = true)
    (hcommands : ∀ command ∈ i.commands, command ∈ i'.commands) (hsize : i'.size = i.size) :
    Owing i' role w b := by
  cases h with
  | closed h => exact .closed (hconnected h)
  | stopped h => exact .stopped h
  | queued incremental hfull h => exact .queued incremental (hneeds hfull) (hcommands _ h)
  | asked incremental hfull h => exact .asked incremental (hneeds hfull) h
  | sized incremental h => exact .sized incremental h
  | writing command rest hb h => exact .writing command rest hb (by rw [hsize, h])
  | written h => exact .written (by rw [hsize]; exact h)

/-- An operation of a task other than the writer, other than a resize. -/
theorem Owing.other {role : Role} {writer : Writing} {i i' : Inner} {own own' : Own} {o : Op}
    {m : Choice} {r : o.Resp} {w : Written} {b : Nat} (h : Owing i writer w b) (hmay : role.may o)
    (hwriter : ¬ o.OfWriter) (hresize : ∀ width height, o ≠ .desktopSize width height)
    (hdoes : sessionDoes o m i own = some (r, i', own')) : Owing i' writer w b := by
  have hpop : o ≠ .pop := fun heq => hwriter (heq ▸ trivial)
  have hcommands := sessionDoes_commands hdoes hpop
  have hafter := sessionDoes_after hdoes
  refine h.mono (fun h => ?_) (fun h => ?_) (fun command hmem => ?_) ?_
  · rw [hafter]
    exact connected_after h r
  · rw [hafter]
    by_cases hstore : ∃ full, o = .storeNeedsFull full
    · obtain ⟨full, rfl⟩ := hstore
      exact (Role.storesNeedsFull hmay).1
    · rw [after_needsFull (fun full heq => hstore ⟨full, heq⟩)
        (fun heq => hwriter (heq ▸ trivial))]
      exact h
  · rw [hcommands]
    exact List.mem_append_left _ hmem
  · rw [hafter]
    exact after_size hresize (fun f heq => Role.keepsSize (heq ▸ hmay)) r i

/-! ## The reader -/

theorem Reading.owes_sending {s : Sending} {update : Nat} {painted : Bool}
    (h : ∀ accepted, s ≠ .sent accepted) : (sending update painted s).Owes true := by
  cases s with
  | sent accepted => exact absurd rfl (h accepted)
  | _ => rfl

/-- While the reader owes a request it either still does or has queued one. -/
theorem Reading.owes_next {continuous : Bool} {role : Reading} {writer : Writing} {i i' : Inner}
    {own own' : Own} {o : Op} {m : Choice} {r : o.Resp} {w : Written} {b : Nat}
    (h : role.Owes i.needsFull) (hclosed : i.commandsOpen = false → writer.Stops)
    (hmay : role.may o) (hresize : ∀ width height, o ≠ .desktopSize width height)
    (hdoes : sessionDoes o m i own = some (r, i', own')) :
    (role.next continuous o r).Owes i'.needsFull ∨ Owing i' writer w b := by
  have hafter := sessionDoes_after hdoes
  cases role with
  | resizing update painted =>
      cases (hmay : o = .storeNeedsFull true)
      cases hdoes
      exact .inl rfl
  | flagged update painted =>
      obtain ⟨width, height, rfl⟩ := hmay
      cases hdoes
      exact .inl ⟨rfl, h⟩
  | begun update painted resized =>
      obtain ⟨hresized, hfull⟩ := h
      cases o with
      | fill n =>
          rw [hafter]
          cases r with
          | ok bytes => exact .inl ⟨hresized, hfull⟩
          | error e => exact .inl trivial
      | draw f =>
          rw [hafter, after_needsFull (o := .draw f) nofun nofun]
          cases r with
          | ok _ => exact .inl ⟨hresized, hfull⟩
          | error e => exact .inl trivial
      | desktopSize width height => exact absurd rfl (hresize width height)
      | swapConnected => exact .inl trivial
      | storeOutstanding n =>
          cases hdoes
          left
          show (drained (resized || continuous) update painted).Owes i.needsFull
          rw [hresized]
          exact hfull
      | _ => exact hmay.elim
  | asking s update painted =>
      have hfull : i.needsFull = true := h
      cases s with
      | check =>
          cases (hmay : o = .loadConnected)
          cases hdoes
          cases hconnected : i.connected with
          | false => exact .inr (.closed hconnected)
          | true =>
              left
              show (sending update painted (if i.connected = true then .count else _)).Owes i.needsFull
              rw [hfull, if_pos hconnected]
              exact owes_sending nofun
      | count =>
          cases (hmay : o = .addOutstanding)
          cases hdoes
          left
          show (sending update painted .push).Owes i.needsFull
          rw [hfull]
          exact owes_sending nofun
      | push =>
          cases (hmay : o = .push (.request true))
          right
          have hanswer := push_answer hdoes
          have hcommands := sessionDoes_commands hdoes nofun
          cases r with
          | false => exact .stopped (hclosed hanswer.symm)
          | true =>
              refine .queued true ?_ ?_
              · rw [hafter, after_needsFull (o := .push (.request true)) nofun nofun]
                exact hfull
              · rw [hcommands]
                exact List.mem_append_right _ (List.mem_singleton_self _)
      | sent accepted => exact hmay.elim
  | failed =>
      cases (hmay : o = .swapConnected)
      exact .inl trivial
  | dying d => exact .inl trivial
  | _ => exact h.elim

/-! ## The writer -/

theorem Writing.stops_buried (d : Dying) : (buried d).Stops := by
  cases d <;> trivial

/-- A swap that found `needs_full` set makes the request a full one, of the
size that is read next. -/
theorem Writing.next_sized (incremental : Bool) (size : UInt16 × UInt16) :
    Writing.next (.sized incremental true) .size size
      = .writing (.request incremental) (fullRequest size) (fullRequest size) := by
  simp only [next, Bool.not_true, Bool.and_false]
  exact left_of_ne (framebufferUpdateRequest_ne_nil _ _ _ _ _)

/-- An operation of the writer: what it owes it still does, or has written. -/
theorem Owing.write {role : Writing} {i i' : Inner} {own own' : Own} {o : Op} {m : Choice}
    {r : o.Resp} {w : Written} {b : Nat} (h : Owing i role w b) (hagrees : role.Agrees w)
    (hb : b ≤ w.begun) (hmay : role.may o)
    (hdoes : sessionDoes o m i own = some (r, i', own')) :
    Owing i' (role.next o r) (w.note o r) b := by
  have hafter := sessionDoes_after hdoes
  have hsize : i'.size = i.size := by
    have hrole : (Role.writer role).may o := hmay
    rw [hafter]
    refine after_size (fun width height heq => ?_) (fun f heq => ?_) r i
    · obtain ⟨_, _, _, h⟩ := Role.resizes (heq ▸ hrole)
      cases h
    · exact Role.keepsSize (heq ▸ hrole)
  cases h with
  | closed h =>
      refine .closed ?_
      rw [hafter]
      exact connected_after h r
  | stopped h =>
      refine .stopped ?_
      cases role with
      | failed =>
          cases (hmay : o = .swapConnected)
          exact Writing.stops_buried _
      | dying d => exact Writing.stops_buried _
      | closing =>
          cases (hmay : o = .closeCommands)
          trivial
      | gone => trivial
      | _ => exact h.elim
  | queued incremental hfull h =>
      cases role with
      | ready =>
          cases (hmay : o = .pop)
          rcases pop_cases hdoes with ⟨command, rest, hcommands, rfl, rfl⟩ | ⟨_, rfl, _⟩
          · rw [hcommands] at h
            rcases List.mem_cons.mp h with rfl | h
            · exact .asked incremental hfull rfl
            · exact .queued incremental hfull h
          · exact .stopped trivial
      | asked incremental' =>
          cases (hmay : o = .swapNeedsFull)
          cases hdoes
          refine .sized incremental' ?_
          show Writing.sized incremental' i.needsFull = _
          rw [hfull]
      | sized incremental' first =>
          cases (hmay : o = .size)
          cases hdoes
          exact .queued incremental hfull h
      | writing command message rest =>
          cases (hmay : o = .pollWrite rest)
          rw [hafter]
          exact .queued incremental hfull h
      | failed =>
          cases (hmay : o = .swapConnected)
          exact .stopped (Writing.stops_buried _)
      | dying d => exact .stopped (Writing.stops_buried _)
      | closing =>
          cases (hmay : o = .closeCommands)
          exact .stopped trivial
      | gone => exact hmay.elim
  | asked incremental hfull h =>
      subst h
      cases (hmay : o = .swapNeedsFull)
      cases hdoes
      refine .sized incremental ?_
      show Writing.sized incremental i.needsFull = _
      rw [hfull]
  | sized incremental h =>
      subst h
      cases (hmay : o = .size)
      cases hdoes
      refine .writing (.request incremental) (fullRequest i.size) ?_ ?_
      · have hpart : w.part = [] := hagrees
        show b ≤ w.sent.length
        simpa [Written.begun, hpart] using hb
      · exact Writing.next_sized incremental i.size
  | writing command rest hsent h =>
      subst h
      cases (hmay : o = .pollWrite rest)
      rcases r with e | _ | n
      · exact .stopped trivial
      · exact .stopped trivial
      · rcases Writing.sent_next (n := n + 1) hagrees with ⟨hsame, hlt⟩ | ⟨hadd, _⟩
        · refine .writing command (rest.drop (n + 1)) ?_ ?_
          · exact hsent.trans_eq (congrArg List.length hsame.symm)
          · rw [hsize]
            refine Writing.left_of_ne (fun hdrop => ?_)
            rw [List.drop_eq_nil_iff] at hdrop
            omega
        · refine .written ?_
          show _ ∈ (w.take rest (n + 1)).sent.drop b
          rw [hadd, hsize, List.drop_append_of_le_length hsent]
          exact List.mem_append_right _ (List.mem_singleton_self _)
  | written h =>
      refine .written ?_
      obtain ⟨more, hmore⟩ := Written.sent_le_note w o r
      rw [hsize, ← hmore, List.drop_append]
      exact List.mem_append_left _ h

/-- The reader's debt does not depend on the writer. -/
theorem Owing.of_reader {reader : Reading} {role : Writing} {i i' : Inner} {own own' : Own} {o : Op}
    {m : Choice} {r : o.Resp} {w : Written} {b : Nat} (h : reader.Owes i.needsFull)
    (hmay : role.may o) (hdoes : sessionDoes o m i own = some (r, i', own')) :
    reader.Owes i'.needsFull ∨ Owing i' (role.next o r) (w.note o r) b := by
  have hafter := sessionDoes_after hdoes
  by_cases hswap : o = .swapNeedsFull
  · subst hswap
    cases role with
    | asked incremental =>
        cases hdoes
        cases hfull : i.needsFull with
        | true =>
            refine .inr (.sized incremental ?_)
            show Writing.sized incremental i.needsFull = _
            rw [hfull]
        | false =>
            rw [hfull] at h
            left
            cases reader with
            | begun update painted resized => exact absurd h.2 nofun
            | flagged update painted => exact absurd h nofun
            | asking s update painted => exact absurd h nofun
            | _ => exact h
    | dying d => exact (Dying.not_writer hmay trivial).elim
    | gone => exact hmay.elim
    | _ => cases hmay
  · left
    rw [hafter, after_needsFull (fun full heq => ?_) hswap]
    · exact h
    · have hrole : (Role.writer role).may o := hmay
      obtain ⟨_, _, _, h⟩ := Role.storesNeedsFull (heq ▸ hrole)
      cases h

/-! ## The first request -/

/-- A command that is not a request does not look like one. -/
def Command.Plain : Command → Prop
  | .write bytes => Rfb.isRequest bytes = false
  | .request _ => True

theorem plain_of_call {call : Call} {command : Command} {s : Sending}
    (h : call.role = .sender command s) : command.Plain := by
  cases call with
  | pointer x y buttons =>
      cases h
      rfl
  | key keysym down =>
      cases h
      rfl
  | keyBurst events =>
      cases h
      cases events <;> rfl
  | cutText text =>
      cases h
      rfl
  | refresh n incremental timeout => cases h
  | close => cases h

/-- What the writer's role says as long as no request is written. -/
def Writing.First (needsFull : Bool) : Writing → Prop
  | ready => needsFull = true
  | asked _ => needsFull = true
  | sized _ first => first = true
  | writing (.write bytes) message _ => needsFull = true ∧ message = bytes ∧ isRequest bytes = false
  | writing (.request _) message _ => ∃ size, message = fullRequest size
  | _ => True

/-- The first request that is written is for the whole screen. -/
def FirstFull (sent : List (List UInt8)) : Prop :=
  ∀ message, sent.find? isRequest = some message → ∃ size, message = fullRequest size

/-- The invariant: what is queued and what is sent is plain, and the first
request is full. -/
structure Opened (γ : Nat → Role) (t : List (Tasks.Entry SessionSig)) (i : Inner) : Prop where
  queue : ∀ command ∈ i.commands, command.Plain
  senders : ∀ j command s, γ j = .sender command s → command.Plain
  first : FirstFull (written t).sent
  next : ∀ w, γ 1 = .writer w → (written t).sent.find? isRequest = none → w.First i.needsFull

theorem Writing.First.mono {role : Writing} {needsFull needsFull' : Bool} (h : role.First needsFull)
    (hmono : needsFull = true → needsFull' = true) : role.First needsFull' := by
  cases role with
  | ready => exact hmono h
  | asked incremental => exact hmono h
  | sized incremental whole => exact h
  | writing command message rest =>
      cases command with
      | write bytes => exact ⟨hmono h.1, h.2⟩
      | request incremental => exact h
  | _ => trivial

theorem FirstFull.append {sent : List (List UInt8)} (h : FirstFull sent) {message : List UInt8}
    (hmessage : sent.find? isRequest = none → isRequest message = true →
      ∃ size, message = fullRequest size) : FirstFull (sent ++ [message]) := by
  intro found hfound
  rw [List.find?_append] at hfound
  cases hsent : sent.find? isRequest with
  | some earlier =>
      rw [hsent] at hfound
      cases hfound
      exact h found hsent
  | none =>
      rw [hsent, Option.none_or] at hfound
      have hrequest := List.find?_some hfound
      have hmem := List.mem_of_find?_eq_some hfound
      rw [List.mem_singleton] at hmem
      subst hmem
      exact hmessage hsent hrequest

/-- An operation of the writer: the first request it writes is full. -/
theorem Writing.first_next {role : Writing} {i i' : Inner} {own own' : Own} {o : Op} {m : Choice}
    {r : o.Resp} {w : Written} (hqueue : ∀ command ∈ i.commands, command.Plain)
    (hfirst : FirstFull w.sent) (h : w.sent.find? isRequest = none → role.First i.needsFull)
    (hagrees : role.Agrees w) (hmay : role.may o)
    (hdoes : sessionDoes o m i own = some (r, i', own')) :
    FirstFull (w.note o r).sent ∧
      ((w.note o r).sent.find? isRequest = none → (role.next o r).First i'.needsFull) := by
  have hafter := sessionDoes_after hdoes
  cases role with
  | ready =>
      cases (hmay : o = .pop)
      refine ⟨hfirst, fun hnone => ?_⟩
      have hfull : i.needsFull = true := h hnone
      rcases pop_cases hdoes with ⟨command, rest, hcommands, rfl, rfl⟩ | ⟨_, rfl, _⟩
      · have hplain : command.Plain := hqueue command (by rw [hcommands]; exact List.mem_cons_self)
        cases command with
        | request incremental => exact hfull
        | write bytes =>
            show (left (.write bytes) bytes bytes).First i.needsFull
            unfold left
            split
            · exact hfull
            · exact ⟨hfull, rfl, hplain⟩
      · trivial
  | asked incremental =>
      cases (hmay : o = .swapNeedsFull)
      cases hdoes
      exact ⟨hfirst, fun hnone => h hnone⟩
  | sized incremental first =>
      cases (hmay : o = .size)
      cases hdoes
      refine ⟨hfirst, fun hnone => ?_⟩
      have htrue : first = true := h hnone
      subst htrue
      show (Writing.next (.sized incremental true) .size i.size).First _
      rw [next_sized]
      exact ⟨i.size, rfl⟩
  | writing command message rest =>
      cases (hmay : o = .pollWrite rest)
      rw [hafter]
      match r, hdoes with
      | .error e, _ => exact ⟨hfirst, fun _ => trivial⟩
      | .ok 0, hdoes =>
          rcases sent_next (n := 0) hagrees with ⟨hsame, _⟩ | ⟨_, hge⟩
          · exact ⟨hsame ▸ hfirst, fun _ => trivial⟩
          · exact absurd (List.length_eq_zero_iff.mp (Nat.le_zero.mp hge)) hagrees.2
      | .ok (n + 1), _ =>
          rcases sent_next (n := n + 1) hagrees with ⟨hsame, hlt⟩ | ⟨hadd, hge⟩
          · refine ⟨hsame ▸ hfirst, fun hnone => ?_⟩
            have hnone' : w.sent.find? isRequest = none := hsame ▸ hnone
            show (left command message (rest.drop (n + 1))).First i.needsFull
            rw [left_of_ne (fun hdrop => by
              rw [List.drop_eq_nil_iff] at hdrop
              omega)]
            cases command with
            | write bytes => exact h hnone'
            | request incremental => exact h hnone'
          · show FirstFull (w.take rest (n + 1)).sent ∧
              ((w.take rest (n + 1)).sent.find? isRequest = none →
                (left command message (rest.drop (n + 1))).First i.needsFull)
            rw [hadd]
            refine ⟨hfirst.append (fun hnone hrequest => ?_), fun hnone => ?_⟩
            · cases command with
              | write bytes =>
                  obtain ⟨_, rfl, hplain⟩ := h hnone
                  rw [hplain] at hrequest
                  cases hrequest
              | request incremental => exact h hnone
            · rw [List.find?_append, Option.or_eq_none_iff] at hnone
              have hdone : rest.drop (n + 1) = [] := by
                rw [List.drop_eq_nil_iff]
                omega
              rw [hdone]
              cases command with
              | write bytes => exact (h hnone.1).1
              | request incremental =>
                  obtain ⟨size, rfl⟩ := h hnone.1
                  cases hnone.2
  | failed =>
      cases (hmay : o = .swapConnected)
      refine ⟨hfirst, fun _ => ?_⟩
      cases r <;> trivial
  | dying d =>
      refine ⟨?_, fun _ => ?_⟩
      · rw [note_of_not_writes (fun hwrites => Dying.not_writer hmay hwrites.ofWriter)]
        exact hfirst
      · show (buried (d.next o r)).First _
        cases d.next o r <;> trivial
  | closing =>
      cases (hmay : o = .closeCommands)
      exact ⟨hfirst, fun _ => trivial⟩
  | gone => exact hmay.elim

theorem opened_step {continuous : Bool} {γ : Nat → Role} {t : List (Tasks.Entry SessionSig)}
    {i : Nat} {o : Op} {m : Choice} {r : o.Resp} {s s' : Inner} {own own' : Own}
    (h : Opened γ t s) (hcopying : Copying γ t) (hmay : (γ i).may o)
    (hdoes : sessionDoes o m s own = some (r, s', own')) :
    Opened (Tasks.moved (protocol continuous) γ i o r) (t ++ [⟨i, o, r⟩]) s' := by
  have hafter := sessionDoes_after hdoes
  refine ⟨fun command hmem => ?_, fun j command sending hj => ?_, ?_, fun writer hwriter hnone => ?_⟩
  · by_cases hpop : o = .pop
    · subst hpop
      rcases pop_cases hdoes with ⟨command', rest, hcommands, _, rfl⟩ | ⟨_, _, rfl⟩
      · exact h.queue command (by rw [hcommands]; exact List.mem_cons_of_mem _ hmem)
      · exact h.queue command hmem
    · rw [sessionDoes_commands hdoes hpop] at hmem
      rcases List.mem_append.mp hmem with hmem | hmem
      · exact h.queue command hmem
      · cases o with
        | push command' =>
            cases r with
            | false => cases hmem
            | true =>
                cases List.mem_singleton.mp hmem
                rcases Role.pushes hmay with hrole | ⟨rfl, _⟩ | ⟨incremental, _, rfl, _⟩
                · exact h.senders i command _ hrole
                · trivial
                · trivial
        | _ => cases hmem
  · by_cases hji : j = i
    · subst hji
      rw [Tasks.moved_self] at hj
      cases hrole : γ j with
      | sender command' s' =>
          rw [hrole] at hj
          cases hj
          exact h.senders j _ _ hrole
      | _ =>
          rw [hrole] at hj
          cases hj
    · rw [Tasks.moved_of_ne _ _ hji] at hj
      exact h.senders j command sending hj
  · rw [written_snoc]
    by_cases h1 : i = 1
    · subst h1
      obtain ⟨w, hw⟩ := hcopying.posted.writer
      rw [hw] at hmay
      exact (Writing.first_next h.queue h.first (h.next w hw) (hcopying.agrees w hw) hmay hdoes).1
    · rw [hcopying.note_of_ne hmay h1]
      exact h.first
  · rw [written_snoc] at hnone
    by_cases h1 : 1 = i
    · subst h1
      obtain ⟨w, hw⟩ := hcopying.posted.writer
      rw [hw] at hmay
      rw [Tasks.moved_self, hw] at hwriter
      cases hwriter
      exact (Writing.first_next h.queue h.first (h.next w hw) (hcopying.agrees w hw) hmay hdoes).2 hnone
    · rw [Tasks.moved_of_ne _ _ h1] at hwriter
      rw [hcopying.note_of_ne hmay (Ne.symm h1)] at hnone
      refine (h.next writer hwriter hnone).mono (fun hfull => ?_)
      rw [hafter]
      by_cases hstore : ∃ full, o = .storeNeedsFull full
      · obtain ⟨full, rfl⟩ := hstore
        exact (Role.storesNeedsFull hmay).1
      · rw [after_needsFull (fun full heq => hstore ⟨full, heq⟩)
          (fun heq => hcopying.posted.not_writer hmay (Ne.symm h1) (heq ▸ trivial))]
        exact hfull

theorem opened_start (continuous : Bool) (calls : List Call) (width height : UInt16)
    (name : String) : Opened (sessionRoles continuous calls) [] (.new width height name) := by
  refine ⟨nofun, fun j command s hj => ?_, nofun, fun w hw _ => ?_⟩
  · match j, hj with
    | 0, hj => cases hj
    | 1, hj => cases hj
    | 2, hj =>
        cases hj
        trivial
    | j + 3, hj =>
        rcases sessionRoles_call continuous calls j with h | ⟨call, _, h⟩
        · rw [h] at hj
          cases hj
        · rw [h] at hj
          exact plain_of_call hj
  · cases hw
    rfl

/-! ## Every run -/

/-- A DesktopSize rect. -/
def Op.resizes : Op → Bool
  | .desktopSize _ _ => true
  | _ => false

/-- The invariant. -/
structure Owed (γ : Nat → Role) (t : List (Tasks.Entry SessionSig)) (i : Inner) : Prop where
  copying : Copying γ t
  opened : Opened γ t i
  closed : i.commandsOpen = false → γ 1 = .writer .gone
  owes : ∀ before j w h answer after reader writer,
    t = before ++ ⟨j, .desktopSize w h, answer⟩ :: after → (∀ e ∈ after, e.op.resizes = false) →
      γ 0 = .reader reader → γ 1 = .writer writer →
        reader.Owes i.needsFull ∨ Owing i writer (written t) (written before).begun

theorem owed_step {continuous : Bool} {γ : Nat → Role} {t : List (Tasks.Entry SessionSig)}
    {i : Nat} {o : Op} {m : Choice} {r : o.Resp} {s s' : Inner} {own own' : Own}
    (h : Owed γ t s) (hmay : (γ i).may o)
    (hdoes : sessionDoes o m s own = some (r, s', own')) :
    Owed (Tasks.moved (protocol continuous) γ i o r) (t ++ [⟨i, o, r⟩]) s' := by
  have hafter := sessionDoes_after hdoes
  have hposted := h.copying.posted
  refine ⟨copying_step h.copying hmay (sessionDoes_answered hdoes),
    opened_step h.opened h.copying hmay hdoes, fun hclosed => ?_, ?_⟩
  · by_cases hclose : o = .closeCommands
    · subst hclose
      have hrole := Role.closes hmay
      cases hposted.writers i _ hrole
      rw [Tasks.moved_self, hrole]
      rfl
    · rw [hafter, after_commandsOpen hclose] at hclosed
      have hgone := h.closed hclosed
      rw [Tasks.moved_of_ne _ _ (fun h1 => ?_)]
      · exact hgone
      · subst h1
        rw [hgone] at hmay
        exact hmay
  · intro before j w height answer after reader writer heq hafter' hreader hwriter
    rcases Tasks.snoc_split heq with ⟨rfl, rfl, hlast⟩ | ⟨rest, rfl, hbefore⟩
    · -- the rect has just been handled
      cases hlast
      obtain ⟨update, painted, resized, hrole⟩ := Role.resizes hmay
      cases hposted.readers i _ hrole
      rw [Tasks.moved_self, hrole] at hreader
      cases hreader
      exact .inl trivial
    · have hnot : ∀ w h, o ≠ .desktopSize w h := by
        intro w h heq
        subst heq
        cases hafter' ⟨i, .desktopSize w h, r⟩ (by simp)
      have hrest : ∀ e ∈ rest, e.op.resizes = false := fun e he => hafter' e (by simp [he])
      have hbegun : (written before).begun ≤ (written t).begun := by
        rw [hbefore]
        exact begun_le_append _ _
      obtain ⟨reader', hreader'⟩ := hposted.reader
      obtain ⟨writer', hwriter'⟩ := hposted.writer
      have howes :=
        h.owes before j w height answer rest reader' writer' hbefore hrest hreader' hwriter'
      rw [written_snoc]
      by_cases h0 : i = 0
      · subst h0
        rw [Tasks.moved_of_ne _ _ (by decide), hwriter'] at hwriter
        cases hwriter
        rw [Tasks.moved_self, hreader'] at hreader
        cases hreader
        rw [h.copying.note_of_ne hmay (by decide)]
        rcases howes with howes | howing
        · rw [hreader'] at hmay
          refine Reading.owes_next howes (fun hclosed => ?_) hmay hnot hdoes
          have hgone := h.closed hclosed
          rw [hwriter'] at hgone
          cases hgone
          trivial
        · exact .inr (howing.other hmay (hposted.not_writer hmay (by decide)) hnot hdoes)
      · rw [Tasks.moved_of_ne _ _ (Ne.symm h0), hreader'] at hreader
        cases hreader
        by_cases h1 : i = 1
        · subst h1
          rw [Tasks.moved_self, hwriter'] at hwriter
          cases hwriter
          rw [hwriter'] at hmay
          rcases howes with howes | howing
          · exact Owing.of_reader howes hmay hdoes
          · exact .inr (howing.write (h.copying.agrees _ hwriter') hbegun hmay hdoes)
        · rw [Tasks.moved_of_ne _ _ (Ne.symm h1), hwriter'] at hwriter
          cases hwriter
          rw [h.copying.note_of_ne hmay h1]
          rcases howes with howes | howing
          · left
            rw [hafter, after_needsFull (fun full heq => ?_) (fun heq => ?_)]
            · exact howes
            · obtain ⟨_, _, _, hrole⟩ := Role.storesNeedsFull (heq ▸ hmay)
              exact h0 (hposted.readers i _ hrole)
            · exact hposted.not_writer hmay h1 (heq ▸ trivial)
          · exact .inr (howing.other hmay (hposted.not_writer hmay h1) hnot hdoes)

theorem owed_start (continuous : Bool) (calls : List Call) (width height : UInt16)
    (name : String) : Owed (sessionRoles continuous calls) [] (.new width height name) :=
  ⟨copying_start continuous calls, opened_start continuous calls width height name, nofun,
    fun before _ _ _ _ _ _ _ h => by cases before <;> cases h⟩

/-- **A fresh or resized screen always gets a full request**: in every
interleaving of the reader, the writer and any number of refreshes and other
calls, whatever the server sends, the first request on the wire is for the
whole screen; and whenever the session has come to rest after a DesktopSize
rect, a full request of the size now in force was written after the last one
was handled. -/
theorem screen_requested {z : Decompress} {width height : UInt16} {name : String}
    {continuous : Bool} {n m : Nat} {d : Decoders z} {calls : List Call}
    {t : List (Tasks.Entry SessionSig)} {c : Tasks SessionSig Stop Returned Inner Own}
    (hrun : Tasks.Runs sessionDoes Tasks.Anyhow
      (session width height name continuous n m d calls) t c) :
    FirstFull (written t).sent ∧
      (AtRest c → ∀ before j w h answer after,
        t = before ++ ⟨j, .desktopSize w h, answer⟩ :: after → (∀ e ∈ after, e.op.resizes = false) →
          fullRequest c.shared.size ∈ (written t).sent.drop (written before).begun) := by
  obtain ⟨γ, hroles, howed⟩ := hrun.joint (D := protocol continuous)
    (J := fun γ t c => Owed γ t c.shared) (session_roles width height name n m d calls)
    (owed_start continuous calls width height name)
    (fun t c γ i m o k l r s' l' _ _ hj _ hmay hdoes =>
      ⟨sessionDoes_answered hdoes, owed_step hj hmay hdoes⟩)
  refine ⟨howed.opened.first, fun hrest before j w h answer after ht hlast => ?_⟩
  obtain ⟨hconnected, hcommands, ⟨k, own, hwriter⟩, p, own', hreader, hbetween⟩ := hrest
  obtain ⟨reader, hr⟩ := howed.copying.posted.reader
  obtain ⟨writer, hw⟩ := howed.copying.posted.writer
  have hawaits : reader.Awaits := Reading.awaits_of_between (hr ▸ hroles 0 _ _ hreader) hbetween
  have hready : writer = .ready := Writing.ready_of_pop (hw ▸ hroles 1 _ _ hwriter)
  subst hready
  rcases howed.owes before j w h answer after reader .ready ht hlast hr hw with howes | howing
  · cases reader <;> first | exact hawaits.elim | exact howes.elim
  · cases howing with
    | closed h => exact absurd (h.symm.trans hconnected) nofun
    | stopped h => exact h.elim
    | queued incremental _ h =>
        rw [hcommands] at h
        cases h
    | asked incremental _ h => cases h
    | sized incremental h => cases h
    | writing command rest _ h => cases h
    | written h => exact h

/-! ## One run -/

/-- A run that has a resize has a last one. -/
theorem last_resize {t : List (Tasks.Entry SessionSig)} (h : t.any (fun e => e.op.resizes) = true) :
    ∃ before j width height answer after,
      t = before ++ ⟨j, .desktopSize width height, answer⟩ :: after ∧
        ∀ e ∈ after, e.op.resizes = false := by
  induction t using List.reverseRecOn with
  | nil => cases h
  | append_singleton rest last ih =>
      cases hlast : last.op.resizes with
      | true =>
          obtain ⟨j, o, answer⟩ := last
          cases o with
          | desktopSize width height => exact ⟨rest, j, width, height, answer, [], rfl, nofun⟩
          | _ => cases hlast
      | false =>
          rw [List.any_append, List.any_cons, hlast, List.any_nil, Bool.or_false, Bool.or_false] at h
          obtain ⟨before, j, width, height, answer, after, rfl, hafter⟩ := ih h
          refine ⟨before, j, width, height, answer, after ++ [last], by simp, fun e he => ?_⟩
          rcases List.mem_append.mp he with he | he
          · exact hafter e he
          · rw [List.mem_singleton.mp he]
            exact hlast

/-- A session of 1x1 that nobody calls. -/
def oneIdle : Tasks SessionSig Stop Returned Inner Own :=
  session 1 1 "desktop" false 2 2 (Decoders.new stored) []

/-- The reader asks again after an update that painted nothing. -/
def asksAgain : List (Nat × Choice) := moves 0 [[], [], [], []]

/-- The writer writes a full request of 2x1. -/
def writesFull : List (Nat × Choice) := moves 1 [[], [], [], fullRequest (2, 1)]

/-- A check of `AtRest`. -/
def atRest? (c : Tasks SessionSig Stop Returned Inner Own) : Bool :=
  c.shared.connected && c.shared.commands.isEmpty &&
    (c.tasks[1]?).any (fun task => match task.1.next? with
      | some .pop => true
      | _ => false) &&
    (c.tasks[0]?).any (fun task => match task.1.next? with
      | some .disarm => true
      | _ => false)

theorem atRest_of_check {c : Tasks SessionSig Stop Returned Inner Own} (h : atRest? c = true) :
    AtRest c := by
  simp only [atRest?, Bool.and_eq_true, List.isEmpty_iff, Option.any_eq_true] at h
  obtain ⟨⟨⟨hconnected, hcommands⟩, ⟨p₁, own₁⟩, hwriter, hpop⟩, ⟨p₀, own₀⟩, hreader, hdisarm⟩ := h
  split at hpop
  · next hnext =>
      obtain ⟨k, rfl⟩ := next?_eq_some hnext
      split at hdisarm
      · next hnext' =>
          obtain ⟨k', rfl⟩ := next?_eq_some hnext'
          exact ⟨hconnected, hcommands, ⟨k, own₁, hwriter⟩, _, own₀, hreader, .disarms k'⟩
      · cases hdisarm
  · cases hpop

/-- A screen that is resized, and the request that follows. -/
theorem screen_requested_resized :
    ∃ t c before j w h answer after, Tasks.Runs sessionDoes Tasks.Anyhow oneIdle t c ∧ AtRest c ∧
      t = before ++ ⟨j, .desktopSize w h, answer⟩ :: after ∧ FirstFull (written t).sent ∧
      fullRequest c.shared.size ∈ (written t).sent.drop (written before).begun := by
  have hend : (oneIdle.record (fun _ _ _ _ => true) sessionDoes
      (resizes ++ asksAgain ++ writesFull) []).map
        (fun e => (atRest? e.2, e.1.any (fun e => e.op.resizes))) = some (true, true) := by
    decide +kernel
  obtain ⟨⟨t, c⟩, hrecord, heq⟩ := Option.map_eq_some_iff.mp hend
  obtain ⟨hrest, hresizes⟩ := Prod.mk.inj heq
  have hrun : Tasks.Runs sessionDoes Tasks.Anyhow oneIdle t c :=
    Tasks.runs_record (fun _ _ _ _ _ => trivial) hrecord .start
  obtain ⟨before, j, w, h, answer, after, ht, hlast⟩ := last_resize hresizes
  obtain ⟨hfirst, hfull⟩ := screen_requested hrun
  exact ⟨t, c, before, j, w, h, answer, after, hrun, atRest_of_check hrest, ht, hfirst,
    hfull (atRest_of_check hrest) before j w h answer after ht hlast⟩

end Bolide.Rfb
