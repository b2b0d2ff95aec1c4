/-
Bolide.Rfb.ContinuousTheorems — continuous mode neither stalls nor spins.

The reader rests between the update it has asked again for and the next one
(`Reading.Rested`). While it rests, and the session is connected and open,
somebody owes something: a request is on its way to the server or an update
on its way back (`Link.Owed`). Requests and updates are not one for one, but
the requests the session enqueues by itself are: one for `connect_stream`
and one for every update whose last rect is read.
-/
import Bolide.Rfb.Continuous
import Bolide.Rfb.DeathTheorems

namespace Bolide.Rfb

open Lib Prog

/-! ## The reader -/

namespace Reading

/-- The reader has asked again for every update it has begun. -/
def Rested : Reading → Prop
  | idle => True
  | listening => True
  | heard update => update = false
  | plain => True
  | announce _ => True
  | numbered _ _ => True
  | stored _ => True
  | shown _ => True
  | _ => False

/-- The session is about to end. -/
def Ends : Reading → Prop
  | failed => True
  | dying _ => True
  | _ => False

/-- How many requests the reader still has to enqueue for what it has read. -/
def asks : Reading → Nat
  | asking (.sent _) _ _ => 0
  | asking _ _ _ => 1
  | _ => 0

/-- How many updates it is in the rects of. -/
def reads : Reading → Nat
  | begun _ _ _ => 1
  | resizing _ _ => 1
  | flagged _ _ => 1
  | _ => 0

/-- The reader reads what follows the first byte of a message. -/
def Inside : Reading → Prop
  | owed => True
  | plain => True
  | begun _ _ _ => True
  | resizing _ _ => True
  | flagged _ _ => True
  | _ => False

theorem asked_cases (update : Nat) (painted : Bool) :
    asked update painted = announce update ∨ asked update painted = idle := by
  cases painted with
  | true => exact .inl rfl
  | false => exact .inr rfl

/-- What one operation of the reader does to its requests: while the session
is connected none is refused. -/
structure Turn (role : Reading) (o : Op) (r : o.Resp) : Prop where
  rested : (role.next true o r).Rested → role.Rested ∨ o.queues r = [.request true]
  counts : (o.queues r).countP Command.isRequest + (role.next true o r).asks
    = o.finishes.toNat + role.asks

theorem turn {role : Reading} {i i' : Inner} {own own' : Own} {o : Op} {m : Choice} {r : o.Resp}
    (hmay : role.may o) (hopen : i.commandsOpen = false → i.connected = false)
    (hconnected : i.connected = true) (hdoes : sessionDoes o m i own = some (r, i', own')) :
    role.Turn o r := by
  cases role with
  | idle =>
      cases (hmay : o = .disarm)
      exact ⟨fun _ => .inl trivial, rfl⟩
  | listening =>
      cases (hmay : o = .fill 1)
      exact ⟨fun _ => .inl trivial, by cases r <;> rfl⟩
  | heard update =>
      cases (hmay : o = .arm)
      cases update with
      | true => exact ⟨fun h => h.elim, rfl⟩
      | false => exact ⟨fun _ => .inl rfl, rfl⟩
  | owed =>
      cases (hmay : o = .beginUpdate)
      exact ⟨fun h => h.elim, rfl⟩
  | plain =>
      refine ⟨fun _ => .inl trivial, ?_⟩
      cases o with
      | fill n => cases r <;> rfl
      | setCutText text => rfl
      | disarm => rfl
      | swapConnected => rfl
      | emit event => rfl
      | _ => exact hmay.elim
  | begun update painted resized =>
      cases o with
      | fill n => cases r <;> exact ⟨fun h => h.elim, rfl⟩
      | draw f => cases r <;> exact ⟨fun h => h.elim, rfl⟩
      | desktopSize w h => exact ⟨fun h => h.elim, rfl⟩
      | swapConnected => exact ⟨fun h => h.elim, rfl⟩
      | storeOutstanding n =>
          have hnext : next true (begun update painted resized) (.storeOutstanding n) r
              = asking .check update painted := by
            simp only [next, Bool.or_true, drained, if_true]
          constructor
          · rw [hnext]
            exact fun h => h.elim
          · rw [hnext]
            rfl
      | _ => exact hmay.elim
  | resizing update painted =>
      cases (hmay : o = .storeNeedsFull true)
      exact ⟨fun h => h.elim, rfl⟩
  | flagged update painted =>
      obtain ⟨w, h, rfl⟩ := hmay
      exact ⟨fun h => h.elim, rfl⟩
  | asking s update painted =>
      cases s with
      | check =>
          cases (hmay : o = .loadConnected)
          cases hdoes
          have hnext : next true (asking .check update painted) .loadConnected i.connected
              = asking .count update painted := by
            rw [hconnected]
            rfl
          constructor
          · rw [show (execInner Op.loadConnected i).1 = i.connected from rfl, hnext]
            exact fun h => h.elim
          · rw [show (execInner Op.loadConnected i).1 = i.connected from rfl, hnext]
            rfl
      | count =>
          cases (hmay : o = .addOutstanding)
          exact ⟨fun h => h.elim, rfl⟩
      | push =>
          cases (hmay : o = .push (.request true))
          have hanswer := push_answer hdoes
          have haccepted : r = true := by
            by_contra hrefused
            rw [Bool.not_eq_true] at hrefused
            rw [hopen (hanswer.symm.trans hrefused)] at hconnected
            cases hconnected
          subst haccepted
          refine ⟨fun _ => .inr rfl, ?_⟩
          show 1 + (asked update painted).asks = 0 + 1
          rcases asked_cases update painted with h | h <;> rw [h] <;> rfl
      | sent accepted => exact hmay.elim
  | announce update =>
      cases (hmay : o = .nextGeneration)
      exact ⟨fun _ => .inl trivial, rfl⟩
  | numbered update generation =>
      cases (hmay : o = .storeLastPainted update)
      exact ⟨fun _ => .inl trivial, rfl⟩
  | stored generation =>
      cases (hmay : o = .setPainted)
      exact ⟨fun _ => .inl trivial, rfl⟩
  | shown generation =>
      cases (hmay : o = .emit (.painted generation))
      exact ⟨fun _ => .inl trivial, rfl⟩
  | failed =>
      cases (hmay : o = .swapConnected)
      exact ⟨fun h => h.elim, rfl⟩
  | dying d =>
      refine ⟨fun h => h.elim, ?_⟩
      rcases Dying.may_cases hmay with rfl | ⟨_, rfl⟩ | rfl <;> rfl

/-- What one operation of the reader does to the updates it has begun, and
to how it reads. -/
structure Goes (role : Reading) (o : Op) (r : o.Resp) : Prop where
  reads : ¬ (role.next true o r).Ends → ¬ role.Ends ∧
    o.begins.toNat + role.reads = (role.next true o r).reads + o.finishes.toNat
  inside : (role.next true o r).Inside → o = .arm ∨ (role.Inside ∧ o ≠ .disarm)

theorem goes {role : Reading} {o : Op} (hmay : role.may o) (r : o.Resp) : role.Goes o r := by
  cases role with
  | idle =>
      cases (hmay : o = .disarm)
      exact ⟨fun _ => ⟨id, rfl⟩, fun h => h.elim⟩
  | listening =>
      cases (hmay : o = .fill 1)
      cases r with
      | ok bytes => exact ⟨fun _ => ⟨id, rfl⟩, fun h => h.elim⟩
      | error e => exact ⟨fun h => (h trivial).elim, fun h => h.elim⟩
  | heard update =>
      cases (hmay : o = .arm)
      cases update <;> exact ⟨fun _ => ⟨id, rfl⟩, fun _ => .inl rfl⟩
  | owed =>
      cases (hmay : o = .beginUpdate)
      exact ⟨fun _ => ⟨id, rfl⟩, fun _ => .inr ⟨trivial, by simp⟩⟩
  | plain =>
      cases o with
      | fill n =>
          cases r with
          | ok bytes => exact ⟨fun _ => ⟨id, rfl⟩, fun _ => .inr ⟨trivial, by simp⟩⟩
          | error e => exact ⟨fun h => (h trivial).elim, fun h => h.elim⟩
      | setCutText text => exact ⟨fun _ => ⟨id, rfl⟩, fun _ => .inr ⟨trivial, by simp⟩⟩
      | disarm => exact ⟨fun _ => ⟨id, rfl⟩, fun h => h.elim⟩
      | swapConnected => exact ⟨fun h => (h trivial).elim, fun h => h.elim⟩
      | emit event => exact ⟨fun _ => ⟨id, rfl⟩, fun _ => .inr ⟨trivial, by simp⟩⟩
      | _ => exact hmay.elim
  | begun update painted resized =>
      cases o with
      | fill n =>
          cases r with
          | ok bytes => exact ⟨fun _ => ⟨id, rfl⟩, fun _ => .inr ⟨trivial, by simp⟩⟩
          | error e => exact ⟨fun h => (h trivial).elim, fun h => h.elim⟩
      | draw f =>
          cases r with
          | ok _ => exact ⟨fun _ => ⟨id, rfl⟩, fun _ => .inr ⟨trivial, by simp⟩⟩
          | error e => exact ⟨fun h => (h trivial).elim, fun h => h.elim⟩
      | desktopSize w h => exact ⟨fun _ => ⟨id, rfl⟩, fun _ => .inr ⟨trivial, by simp⟩⟩
      | swapConnected => exact ⟨fun h => (h trivial).elim, fun h => h.elim⟩
      | storeOutstanding n =>
          have hnext : next true (begun update painted resized) (.storeOutstanding n) r
              = asking .check update painted := by
            simp only [next, Bool.or_true, drained, if_true]
          constructor
          · rw [hnext]
            exact fun _ => ⟨id, rfl⟩
          · rw [hnext]
            exact fun h => h.elim
      | _ => exact hmay.elim
  | resizing update painted =>
      cases (hmay : o = .storeNeedsFull true)
      exact ⟨fun _ => ⟨id, rfl⟩, fun _ => .inr ⟨trivial, by simp⟩⟩
  | flagged update painted =>
      obtain ⟨w, h, rfl⟩ := hmay
      exact ⟨fun _ => ⟨id, rfl⟩, fun _ => .inr ⟨trivial, by simp⟩⟩
  | asking s update painted =>
      have hsent : ∀ s' : Sending, (sending update painted s').reads = 0 ∧
          ¬ (sending update painted s').Inside := by
        intro s'
        cases s' with
        | sent accepted =>
            show (asked update painted).reads = 0 ∧ ¬ (asked update painted).Inside
            rcases asked_cases update painted with h | h <;> rw [h] <;> exact ⟨rfl, id⟩
        | _ => exact ⟨rfl, id⟩
      have hops : o.begins = false ∧ o.finishes = false := by
        cases s with
        | sent accepted => exact hmay.elim
        | _ =>
            cases hmay
            exact ⟨rfl, rfl⟩
      refine ⟨fun _ => ⟨id, ?_⟩, fun h => ((hsent _).2 h).elim⟩
      show o.begins.toNat + 0 =
        (sending update painted (s.next (.request true) o r)).reads + o.finishes.toNat
      rw [hops.1, hops.2, (hsent _).1]
      rfl
  | announce update =>
      cases (hmay : o = .nextGeneration)
      exact ⟨fun _ => ⟨id, rfl⟩, fun h => h.elim⟩
  | numbered update generation =>
      cases (hmay : o = .storeLastPainted update)
      exact ⟨fun _ => ⟨id, rfl⟩, fun h => h.elim⟩
  | stored generation =>
      cases (hmay : o = .setPainted)
      exact ⟨fun _ => ⟨id, rfl⟩, fun h => h.elim⟩
  | shown generation =>
      cases (hmay : o = .emit (.painted generation))
      exact ⟨fun _ => ⟨id, rfl⟩, fun h => h.elim⟩
  | failed =>
      cases (hmay : o = .swapConnected)
      exact ⟨fun h => (h trivial).elim, fun h => h.elim⟩
  | dying d => exact ⟨fun h => (h trivial).elim, fun h => h.elim⟩

end Reading

/-! ## The connection -/

namespace Link

variable {l l' : Link}

/-- The server's moves leave the session alone, and what is owed is owed. -/
theorem peer_kept {move : PeerMove} (h : l.peer move = some l') :
    l'.inner = l.inner ∧ l'.armed = l.armed ∧ l'.writing = l.writing ∧ (l.Owed → l'.Owed) := by
  have howed : 0 < l'.inFlight ∨ 0 < l'.pending ∨ 0 < l'.arriving → l'.Owed :=
    fun h => .inr (.inr h)
  cases move with
  | receive =>
      simp only [peer] at h
      split at h
      · cases h
        exact ⟨rfl, rfl, rfl, fun _ => howed (.inr (.inl (Nat.succ_pos _)))⟩
      · cases h
  | answer =>
      simp only [peer] at h
      split at h
      · cases h
        exact ⟨rfl, rfl, rfl, fun _ => howed (.inr (.inr (Nat.succ_pos _)))⟩
      · cases h
  | offer =>
      simp only [peer] at h
      cases h
      exact ⟨rfl, rfl, rfl, fun _ => howed (.inr (.inr (Nat.succ_pos _)))⟩

theorem peers_kept {moves : List PeerMove} (h : moves.foldlM peer l = some l') :
    l'.inner = l.inner ∧ l'.armed = l.armed ∧ l'.writing = l.writing ∧ (l.Owed → l'.Owed) := by
  induction moves generalizing l with
  | nil =>
      cases h
      exact ⟨rfl, rfl, rfl, id⟩
  | cons move rest ih =>
      obtain ⟨mid, hmid, hrest⟩ := Option.bind_eq_some_iff.mp h
      obtain ⟨hinner, harmed, hwriting, howed⟩ := peer_kept hmid
      obtain ⟨hinner', harmed', hwriting', howed'⟩ := ih hrest
      exact ⟨hinner'.trans hinner, harmed'.trans harmed, hwriting'.trans hwriting,
        fun h => howed' (howed h)⟩

/-- An operation on the connection leaves the session to the session. -/
theorem note_inner {o : Op} {r : o.Resp} (h : l.note o r = some l') : l'.inner = l.inner := by
  unfold note at h
  split at h
  · cases h
    rfl
  · cases h
    rfl
  · split at h
    · split at h
      · cases h
        rfl
      · cases h
    · cases h
      rfl
  · cases h
    rfl
  · cases h
    split
    · unfold written
      split <;> rfl
    · rfl
  · cases h
    rfl

/-- What is owed is owed in a queue that has only grown. -/
theorem Owed.inner {l : Link} (h : l.Owed) {inner : Inner}
    (hcommands : ∀ command ∈ l.inner.commands, command ∈ inner.commands) :
    ({ l with inner } : Link).Owed := by
  obtain ⟨incremental, hmem⟩ | h := h
  · exact .inl ⟨incremental, hcommands _ hmem⟩
  · exact .inr h

end Link

/-- The type byte of an update. -/
def Op.hearsUpdate : (o : Op) → o.Resp → Bool
  | .fill _, .ok bytes => bytes = [ServerMsg.framebufferUpdate]
  | _, _ => false

namespace Link

variable {l l' : Link}

/-- Only the type byte of an update uses up what is owed. -/
theorem note_owed {o : Op} {r : o.Resp} (h : l.note o r = some l') (hwriter : ¬ o.OfWriter)
    (hheard : l.armed = false → o.hearsUpdate r = false) (howed : l.Owed) : l'.Owed := by
  cases o with
  | disarm =>
      cases h
      exact howed
  | arm =>
      cases h
      exact howed
  | fill n =>
      cases r with
      | error e =>
          cases h
          exact howed
      | ok bytes =>
          simp only [note] at h
          split at h
          · next hupdate =>
              have hbytes := of_decide_eq_false (hheard hupdate.1)
              exact absurd hupdate.2 hbytes
          · cases h
            exact howed
  | pop => exact absurd trivial hwriter
  | pollWrite rest => exact absurd trivial hwriter
  | _ =>
      cases h
      exact howed

theorem note_armed {o : Op} {r : o.Resp} (h : l.note o r = some l') (hdisarm : o ≠ .disarm)
    (harmed : o = .arm ∨ l.armed = true) : l'.armed = true := by
  cases o with
  | disarm => exact absurd rfl hdisarm
  | arm =>
      cases h
      rfl
  | fill n =>
      rcases harmed with harm | harmed
      · cases harm
      · cases r with
        | error e =>
            cases h
            exact harmed
        | ok bytes =>
            simp only [note] at h
            split at h
            · next hupdate =>
                rw [hupdate.1] at harmed
                cases harmed
            · cases h
              exact harmed
  | pop =>
      rcases harmed with harm | harmed
      · cases harm
      · cases r <;> cases h <;> exact harmed
  | pollWrite rest =>
      rcases harmed with harm | harmed
      · cases harm
      · cases r with
        | error e =>
            cases h
            exact harmed
        | ok n =>
            cases h
            split
            · unfold written
              split <;> exact harmed
            · exact harmed
  | _ =>
      rcases harmed with harm | harmed
      · cases harm
      · cases h
        exact harmed

/-- Other tasks write nothing. -/
theorem note_writing {o : Op} {r : o.Resp} (h : l.note o r = some l') (hwriter : ¬ o.OfWriter) :
    l'.writing = l.writing := by
  cases o with
  | disarm =>
      cases h
      rfl
  | arm =>
      cases h
      rfl
  | fill n =>
      cases r with
      | error e =>
          cases h
          rfl
      | ok bytes =>
          simp only [note] at h
          split at h
          · split at h
            · cases h
              rfl
            · cases h
          · cases h
            rfl
  | pop => exact absurd trivial hwriter
  | pollWrite rest => exact absurd trivial hwriter
  | _ =>
      cases h
      rfl

end Link

/-! ## The writer -/

/-- What the writer's role says of the command that is being written. -/
def Writing.Holds (command : Option Command) : Writing → Prop
  | ready => ∀ incremental, command ≠ some (.request incremental)
  | asked incremental => command = some (.request incremental)
  | sized incremental _ => command = some (.request incremental)
  | writing command' _ rest => command = some command' ∧ rest ≠ []
  | _ => True

/-- A request that is taken is being written, and once written it is in
flight. -/
theorem Writing.holds_next {role : Writing} {l l' : Link} {inner : Inner} {own own' : Own} {o : Op}
    {m : Choice} {r : o.Resp} (h : role.Holds l.writing) (hmay : role.may o)
    (hdoes : sessionDoes o m l.inner own = some (r, inner, own'))
    (hnote : Link.note { l with inner } o r = some l') :
    (role.next o r).Holds l'.writing ∧ (l.Owed → l'.Owed) := by
  have hinner : ∀ {i' : Inner}, i'.commands = l.inner.commands → l.Owed →
      ({ l with inner := i' } : Link).Owed :=
    fun heq howed => howed.inner (fun command hmem => heq ▸ hmem)
  have hafter := sessionDoes_after hdoes
  cases role with
  | ready =>
      cases (hmay : o = .pop)
      rcases pop_cases hdoes with ⟨command, rest, hcommands, rfl, rfl⟩ | ⟨_, rfl, rfl⟩
      · cases hnote
        constructor
        · cases command with
          | request incremental => rfl
          | write bytes =>
              show (left (.write bytes) bytes bytes).Holds (some (.write bytes))
              unfold left
              split
              · exact fun incremental => by simp
              · next hbytes => exact ⟨rfl, hbytes⟩
        · rintro (⟨incremental, hmem⟩ | ⟨incremental, hwriting⟩ | howed)
          · rw [hcommands] at hmem
            rcases List.mem_cons.mp hmem with rfl | hmem
            · exact .inr (.inl ⟨incremental, rfl⟩)
            · exact .inl ⟨incremental, hmem⟩
          · exact absurd hwriting (h incremental)
          · exact .inr (.inr howed)
      · cases hnote
        exact ⟨trivial, id⟩
  | asked incremental =>
      cases (hmay : o = .swapNeedsFull)
      cases hdoes
      cases hnote
      exact ⟨h, hinner rfl⟩
  | sized incremental first =>
      cases (hmay : o = .size)
      cases hdoes
      cases hnote
      refine ⟨?_, hinner rfl⟩
      show (left (.request incremental) (framebufferUpdateRequest _ _ _ _ _) _).Holds l.writing
      rw [left_of_ne (framebufferUpdateRequest_ne_nil _ _ _ _ _)]
      exact ⟨h, framebufferUpdateRequest_ne_nil _ _ _ _ _⟩
  | writing command message rest =>
      cases (hmay : o = .pollWrite rest)
      obtain ⟨hwriting, hrest⟩ := h
      rw [hafter] at hnote
      cases r with
      | error e =>
          cases hnote
          exact ⟨trivial, hinner rfl⟩
      | ok n =>
          cases hnote
          by_cases hlen : rest.length ≤ n
          · rw [if_pos hlen]
            cases n with
            | zero => exact absurd (List.length_eq_zero_iff.mp (Nat.le_zero.mp hlen)) hrest
            | succ n =>
                have hnext : (writing command message rest).next (.pollWrite rest) (.ok (n + 1))
                    = ready := by
                  show left command message (rest.drop (n + 1)) = ready
                  rw [left, if_pos (by rw [List.drop_eq_nil_iff]; exact hlen)]
                rw [hnext]
                cases command with
                | request incremental =>
                    simp only [Link.written, hwriting]
                    exact ⟨fun _ => by simp, fun _ => .inr (.inr (.inl (Nat.succ_pos _)))⟩
                | write bytes =>
                    simp only [Link.written, hwriting]
                    refine ⟨fun _ => by simp, ?_⟩
                    rintro (howed | ⟨incremental, hother⟩ | howed)
                    · exact .inl howed
                    · rw [hwriting] at hother
                      cases hother
                    · exact .inr (.inr howed)
          · rw [if_neg hlen]
            refine ⟨?_, hinner rfl⟩
            cases n with
            | zero => trivial
            | succ n =>
                show (left command message (rest.drop (n + 1))).Holds l.writing
                have hdrop : rest.drop (n + 1) ≠ [] := by
                  rw [Ne, List.drop_eq_nil_iff]
                  exact hlen
                rw [left_of_ne hdrop]
                exact ⟨hwriting, hdrop⟩
  | failed =>
      cases (hmay : o = .swapConnected)
      cases hdoes
      cases hnote
      refine ⟨?_, hinner rfl⟩
      show (buried (.swapped l.inner.connected)).Holds l.writing
      cases l.inner.connected <;> trivial
  | dying d =>
      have hnot := Dying.not_writer hmay
      constructor
      · show (buried (d.next o r)).Holds _
        cases d.next o r <;> trivial
      · intro howed
        refine Link.note_owed hnote hnot (fun _ => ?_) (hinner ?_ howed)
        · rcases Dying.may_cases hmay with rfl | ⟨_, rfl⟩ | rfl <;> rfl
        · rw [hafter]
          rcases Dying.may_cases hmay with rfl | ⟨_, rfl⟩ | rfl <;> rfl
  | closing =>
      cases (hmay : o = .closeCommands)
      cases hdoes
      cases hnote
      exact ⟨trivial, hinner rfl⟩
  | gone => exact hmay.elim

/-! ## The first request -/

/-- Whether `connect_stream` has sent its request. -/
def Sending.opened : Sending → Nat
  | sent _ => 1
  | _ => 0

/-- While the session is connected the first request is not refused. -/
theorem Sending.opened_next {s : Sending} {i i' : Inner} {own own' : Own} {o : Op} {m : Choice}
    {r : o.Resp} (hmay : s.may (.request true) o)
    (hopen : i.commandsOpen = false → i.connected = false) (hconnected : i.connected = true)
    (hdoes : sessionDoes o m i own = some (r, i', own')) :
    (∀ accepted, s.next (.request true) o r = .sent accepted → o.queues r = [.request true]) ∧
      (o.queues r).countP Command.isRequest + s.opened = (s.next (.request true) o r).opened := by
  cases s with
  | check =>
      cases (hmay : o = .loadConnected)
      cases hdoes
      have hnext : next (.request true) check .loadConnected i.connected = count := by
        rw [hconnected]
        rfl
      constructor
      · intro accepted h
        cases hnext.symm.trans h
      · exact (congrArg opened hnext).symm
  | count =>
      cases (hmay : o = .addOutstanding)
      exact ⟨fun accepted h => (by cases h), rfl⟩
  | push =>
      cases (hmay : o = .push (.request true))
      have hanswer := push_answer hdoes
      have haccepted : r = true := by
        by_contra hrefused
        rw [Bool.not_eq_true] at hrefused
        rw [hopen (hanswer.symm.trans hrefused)] at hconnected
        cases hconnected
      subst haccepted
      exact ⟨fun _ _ => rfl, rfl⟩
  | sent accepted => exact hmay.elim

/-! ## The invariant -/

/-- The invariant: while the session is connected, what the reader has asked
for answers to what it has read, and while it rests something is owed. -/
structure Turns (γ : Nat → Role) (t : List (Tasks.Entry SessionSig)) (l : Link) : Prop where
  posted : Posted γ
  shut : Shut γ l.inner
  opener : ∃ s, γ 2 = .sender (.request true) s
  inside : ∀ r, γ 0 = .reader r → r.Inside → l.armed = true
  holds : ∀ w, γ 1 = .writer w → w.Holds l.writing
  owed : ∀ r accepted, γ 0 = .reader r → γ 2 = .sender (.request true) (.sent accepted) →
    r.Rested → l.inner.connected = true → l.Owed
  counts : ∀ r s, γ 0 = .reader r → γ 2 = .sender (.request true) s → l.inner.connected = true →
    ownRequests t + r.asks = processed t + s.opened
  begun : ∀ r, γ 0 = .reader r → ¬ r.Ends → l.inner.updatesBegun = processed t + r.reads

theorem processed_snoc (t : List (Tasks.Entry SessionSig)) (i : Nat) (o : Op) (r : o.Resp) :
    processed (t ++ [⟨i, o, r⟩]) = processed t + o.finishes.toNat := by
  rw [processed, List.countP_append, List.countP_singleton, processed]
  cases o.finishes <;> rfl

theorem ownRequests_snoc (t : List (Tasks.Entry SessionSig)) (i : Nat) (o : Op) (r : o.Resp) :
    ownRequests (t ++ [⟨i, o, r⟩]) = ownRequests t +
      if i = 0 ∨ i = 2 then (o.queues r).countP Command.isRequest else 0 := by
  rw [ownRequests, accepted_snoc, List.countP_append, List.countP_map, ownRequests]
  congr 1
  split
  · next hi =>
      refine List.countP_congr (fun command _ => ?_)
      rcases hi with rfl | rfl <;> simp
  · next hi =>
      rw [not_or] at hi
      refine List.countP_eq_zero.mpr (fun command _ => ?_)
      simp [hi.1, hi.2]

theorem begun_after (o : Op) (r : o.Resp) (i : Inner) :
    (o.after r i).updatesBegun = i.updatesBegun + o.begins.toNat := by
  by_cases hbegin : o = .beginUpdate
  · subst hbegin
    rfl
  · rw [after_updatesBegun hbegin]
    cases o with
    | beginUpdate => exact absurd rfl hbegin
    | _ => rfl

/-- What a step of the system is. -/
theorem linkDoes_eq_some {o : Op} {m : LinkChoice} {l l' : Link} {own own' : Own} {r : o.Resp}
    (h : linkDoes o m l own = some (r, l', own')) :
    ∃ inner mid, sessionDoes o m.choice l.inner own = some (r, inner, own') ∧
      Link.note { l with inner } o r = some mid ∧ m.moves.foldlM Link.peer mid = some l' := by
  simp only [linkDoes, Option.bind_eq_bind, Option.bind_eq_some_iff, Prod.exists] at h
  obtain ⟨r', inner, own₁, hdoes, mid, hnote, l₁, hmoves, heq⟩ := h
  cases heq
  exact ⟨inner, mid, hdoes, hnote, hmoves⟩

/-- An update is heard of between two messages, and is then being read. -/
theorem Reading.hears_next {role : Reading} {o : Op} {r : o.Resp} (hmay : role.may o)
    (hhears : o.hearsUpdate r = true) : role.Inside ∨ ¬ (role.next true o r).Rested := by
  cases o with
  | fill n =>
      cases r with
      | error e => cases hhears
      | ok bytes =>
          cases of_decide_eq_true hhears
          cases role with
          | listening => exact .inr nofun
          | plain => exact .inl trivial
          | begun update painted resized => exact .inl trivial
          | flagged update painted => exact .inl trivial
          | asking s update painted => exact (Sending.not_reader hmay trivial).elim
          | dying d => exact .inr id
          | _ => cases hmay
  | _ => cases hhears

theorem turns_step {γ : Nat → Role} {t : List (Tasks.Entry SessionSig)} {i : Nat} {o : Op}
    {m : LinkChoice} {r : o.Resp} {l l' : Link} {own own' : Own} (h : Turns γ t l)
    (hmay : (γ i).may o) (hdoes : linkDoes o m l own = some (r, l', own')) :
    Turns (Tasks.moved (protocol true) γ i o r) (t ++ [⟨i, o, r⟩]) l' := by
  obtain ⟨inner, mid, hsession, hnote, hmoves⟩ := linkDoes_eq_some hdoes
  obtain ⟨hinner', harmed', hwriting', howed'⟩ := Link.peers_kept hmoves
  have hinner : l'.inner = inner := hinner'.trans (Link.note_inner hnote)
  have hafter := sessionDoes_after hsession
  obtain ⟨reader, hreader⟩ := h.posted.reader
  obtain ⟨writer, hwriter⟩ := h.posted.writer
  obtain ⟨sending, hsending⟩ := h.opener
  -- a session that is connected was so before
  have hbefore : l'.inner.connected = true → l.inner.connected = true := by
    intro hconnected
    by_contra hdead
    rw [Bool.not_eq_true] at hdead
    rw [hinner, hafter, connected_after hdead r] at hconnected
    cases hconnected
  have hbegun : l'.inner.updatesBegun = l.inner.updatesBegun + o.begins.toNat := by
    rw [hinner, hafter, begun_after]
  have hcommands : o ≠ .pop → ∀ command ∈ l.inner.commands, command ∈ inner.commands := by
    intro hpop command hmem
    rw [sessionDoes_commands hsession hpop]
    exact List.mem_append_left _ hmem
  have hposted : Posted (Tasks.moved (protocol true) γ i o r) :=
    posted_moved h.posted i o r
  have hshut : Shut (Tasks.moved (protocol true) γ i o r) l'.inner := by
    rw [hinner]
    exact shut_step h.shut hmay hsession
  have hgrown : o ≠ .pop → l.Owed → ({ l with inner } : Link).Owed := fun hpop howed =>
    howed.inner (hcommands hpop)
  have hqueued : o.queues r = [.request true] → ({ l with inner } : Link).Owed := by
    intro hqueues
    have hpop : o ≠ .pop := by
      intro heq
      subst heq
      cases hqueues
    refine .inl ⟨true, ?_⟩
    show _ ∈ inner.commands
    rw [sessionDoes_commands hsession hpop, hqueues]
    exact List.mem_append_right _ (List.mem_singleton_self _)
  -- what only the reader does
  have hquiet : i ≠ 0 → ¬ o.OfReader := by
    intro hi hop
    obtain ⟨role, hrole⟩ := Role.reader_of_ops hmay hop
    exact hi (h.posted.readers i role hrole)
  have hstill : i ≠ 0 → o.finishes = false ∧ o.begins = false ∧ o.hearsUpdate r = false ∧
      o ≠ .disarm := by
    intro hi
    have hnot := hquiet hi
    cases o <;> first | exact absurd trivial hnot | exact ⟨rfl, rfl, rfl, nofun⟩
  refine ⟨hposted, hshut, ?_, fun role hrole hinside => ?_, fun role hrole => ?_,
    fun role accepted hrole hopened hrested hconnected => ?_,
    fun role s hrole hs hconnected => ?_, fun role hrole hends => ?_⟩
  · by_cases h2 : 2 = i
    · subst h2
      rw [Tasks.moved_self, hsending]
      exact ⟨_, rfl⟩
    · rw [Tasks.moved_of_ne _ _ h2]
      exact h.opener
  · rw [harmed']
    by_cases h0 : 0 = i
    · subst h0
      rw [Tasks.moved_self, hreader] at hrole
      cases hrole
      rw [hreader] at hmay
      rcases (Reading.goes hmay r).inside hinside with rfl | ⟨hwas, hdisarm⟩
      · exact Link.note_armed hnote nofun (.inl rfl)
      · exact Link.note_armed hnote hdisarm (.inr (h.inside reader hreader hwas))
    · rw [Tasks.moved_of_ne _ _ h0] at hrole
      exact Link.note_armed hnote (hstill (Ne.symm h0)).2.2.2 (.inr (h.inside role hrole hinside))
  · rw [hwriting']
    by_cases h1 : 1 = i
    · subst h1
      rw [Tasks.moved_self, hwriter] at hrole
      cases hrole
      rw [hwriter] at hmay
      exact (Writing.holds_next (h.holds writer hwriter) hmay hsession hnote).1
    · rw [Tasks.moved_of_ne _ _ h1] at hrole
      rw [Link.note_writing hnote (h.posted.not_writer hmay (Ne.symm h1))]
      exact h.holds role hrole
  · refine howed' ?_
    have hconnected₀ := hbefore hconnected
    by_cases h1 : i = 1
    · subst h1
      rw [Tasks.moved_of_ne _ _ (by decide)] at hrole hopened
      rw [hwriter] at hmay
      exact (Writing.holds_next (h.holds writer hwriter) hmay hsession hnote).2
        (h.owed role accepted hrole hopened hrested hconnected₀)
    · have hnot := h.posted.not_writer hmay h1
      have hpop : o ≠ .pop := fun heq => hnot (heq ▸ trivial)
      by_cases h0 : i = 0
      · subst h0
        rw [Tasks.moved_of_ne _ _ (by decide)] at hopened
        rw [Tasks.moved_self, hreader] at hrole
        cases hrole
        rw [hreader] at hmay
        have hhears : l.armed = false → o.hearsUpdate r = false := by
          intro harmed
          by_contra hhears
          rw [Bool.not_eq_false] at hhears
          rcases Reading.hears_next hmay hhears with hinside | hnot
          · rw [h.inside reader hreader hinside] at harmed
            cases harmed
          · exact hnot hrested
        rcases (Reading.turn hmay h.shut.closed hconnected₀ hsession).rested hrested with hwas | hqueues
        · exact Link.note_owed hnote hnot hhears
            (hgrown hpop (h.owed reader accepted hreader hopened hwas hconnected₀))
        · exact Link.note_owed hnote hnot hhears (hqueued hqueues)
      · rw [Tasks.moved_of_ne _ _ (Ne.symm h0)] at hrole
        refine Link.note_owed hnote hnot (fun _ => (hstill h0).2.2.1) ?_
        by_cases h2 : i = 2
        · subst h2
          rw [Tasks.moved_self, hsending] at hopened
          rw [hsending] at hmay
          exact hqueued ((Sending.opened_next hmay h.shut.closed hconnected₀ hsession).1 accepted
            (by injection hopened))
        · rw [Tasks.moved_of_ne _ _ (Ne.symm h2)] at hopened
          exact hgrown hpop (h.owed role accepted hrole hopened hrested hconnected₀)
  · have hconnected₀ := hbefore hconnected
    rw [ownRequests_snoc, processed_snoc]
    by_cases h0 : i = 0
    · subst h0
      rw [Tasks.moved_of_ne _ _ (by decide)] at hs
      rw [Tasks.moved_self, hreader] at hrole
      cases hrole
      rw [hreader] at hmay
      have hcounts := (Reading.turn hmay h.shut.closed hconnected₀ hsession).counts
      have hwas := h.counts reader s hreader hs hconnected₀
      rw [if_pos (.inl rfl)]
      omega
    · rw [Tasks.moved_of_ne _ _ (Ne.symm h0)] at hrole
      rw [(hstill h0).1, Bool.toNat_false, Nat.add_zero]
      by_cases h2 : i = 2
      · subst h2
        rw [Tasks.moved_self, hsending] at hs
        rw [hsending] at hmay
        have hopened := (Sending.opened_next hmay h.shut.closed hconnected₀ hsession).2
        have hwas := h.counts role sending hrole hsending hconnected₀
        cases hs
        rw [if_pos (.inr rfl)]
        omega
      · rw [Tasks.moved_of_ne _ _ (Ne.symm h2)] at hs
        rw [if_neg (by omega), Nat.add_zero]
        exact h.counts role s hrole hs hconnected₀
  · rw [hbegun, processed_snoc]
    by_cases h0 : i = 0
    · subst h0
      rw [Tasks.moved_self, hreader] at hrole
      cases hrole
      rw [hreader] at hmay
      obtain ⟨hends₀, hreads⟩ := (Reading.goes hmay r).reads hends
      have hwas := h.begun reader hreader hends₀
      omega
    · rw [Tasks.moved_of_ne _ _ (Ne.symm h0)] at hrole
      rw [(hstill h0).1, (hstill h0).2.1, Bool.toNat_false, Nat.add_zero, Nat.add_zero]
      exact h.begun role hrole hends

theorem turns_start (calls : List Call) (width height : UInt16) (name : String) (arriving : Nat) :
    Turns (sessionRoles true calls) [] (.new (.new width height name) arriving) := by
  refine ⟨posted_start true calls, shut_start true calls width height name, ⟨.check, rfl⟩,
    fun _ _ _ => rfl, fun w hw => ?_, fun r accepted _ hopened _ _ => ?_,
    fun r s hr hs _ => ?_, fun r hr _ => ?_⟩
  · cases hw
    exact fun _ => nofun
  · cases hopened
  · cases hr
    cases hs
    rfl
  · cases hr
    rfl

/-- **Continuous mode neither stalls nor spins**: in every interleaving of a
session in continuous mode, any number of refreshes and other calls, and a
server that answers any number of pending requests with one update or sends
updates unasked, once `connect_stream` has returned: whenever the session is
connected and the reader is between two messages, a request is queued, being
written, in flight or pending, or an update is in flight; and the session
has enqueued exactly one request more than it has processed updates, which
are all that have begun. -/
theorem continuous_turns {z : Decompress} {width height : UInt16} {name : String} {n m : Nat}
    {d : Decoders z} {calls : List Call} {arriving : Nat} {t : List (Tasks.Entry SessionSig)}
    {c : Tasks SessionSig Stop Returned Link Own} {p : Task Returned} {own opener : Own}
    {returned : Returned}
    (hrun : Tasks.Runs linkDoes Tasks.Anyhow (linked width height name n m d calls arriving) t c)
    (hopened : c.tasks[2]? = some (.ret returned, opener))
    (hconnected : c.shared.inner.connected = true) (hreader : c.tasks[0]? = some (p, own))
    (hbetween : BetweenMessages p) :
    c.shared.Owed ∧ ownRequests t = 1 + processed t ∧
      c.shared.inner.updatesBegun = processed t := by
  obtain ⟨γ, hroles, hturns⟩ := hrun.joint (D := protocol true)
    (J := fun γ t c => Turns γ t c.shared) (session_roles width height name n m d calls)
    (turns_start calls width height name arriving)
    (fun t c γ i m o k l r s' l' _ _ hj _ hmay hdoes =>
      ⟨sessionDoes_answered (linkDoes_eq_some hdoes).choose_spec.choose_spec.1,
        turns_step hj hmay hdoes⟩)
  obtain ⟨reader, hr⟩ := hturns.posted.reader
  obtain ⟨s, hs⟩ := hturns.opener
  have hawaits : reader.Awaits := Reading.awaits_of_between (hr ▸ hroles 0 _ _ hreader) hbetween
  have hended : (Role.sender (.request true) s).Ended returned := hs ▸ hroles 2 _ _ hopened
  obtain ⟨_, accepted, rfl⟩ := hended
  have hrests : reader.Rested ∧ reader.asks = 0 ∧ reader.reads = 0 ∧ ¬ reader.Ends := by
    cases reader <;> first | exact hawaits.elim | exact ⟨trivial, rfl, rfl, id⟩
  have hcounts := hturns.counts reader (.sent accepted) hr hs hconnected
  have hbegun := hturns.begun reader hr hrests.2.2.2
  rw [hrests.2.1] at hcounts
  rw [hrests.2.2.1] at hbegun
  refine ⟨hturns.owed reader accepted hr hs hrests.1 hconnected, ?_, hbegun⟩
  have hone : (Sending.sent accepted).opened = 1 := rfl
  omega

/-! ## One run -/

/-- A 1x1 session in continuous mode, and one refresh. -/
def turning : Tasks SessionSig Stop Returned Link Own :=
  linked 1 1 "desktop" 2 3 (Decoders.new stored) [.refresh 1 true 5000000000] 0

/-- Moves of a task between which the server does nothing. -/
def alone (choices : List (Nat × Choice)) : List (Nat × LinkChoice) :=
  choices.map (fun move => (move.1, ⟨move.2, []⟩))

/-- The writer writes a request for the 1x1 screen, and then the server moves. -/
def writesOne (incremental : Bool) (moves : List PeerMove) : List (Nat × LinkChoice) :=
  alone (Bolide.Rfb.moves 1 [[], [], []]) ++
    [(1, ⟨⟨.ok (framebufferUpdateRequest incremental 0 0 1 1), false⟩, moves⟩)]

/-- `connect_stream` and a refresh ask, the server reads both requests and
answers them with one update, and the reader asks again. -/
def folds : List (Nat × LinkChoice) :=
  alone (moves 2 [[], [], []]) ++ alone (moves 3 [[], [], [], [], []]) ++
    writesOne false [.receive] ++ writesOne true [.receive, .answer] ++
    alone (paints ++ moves 0 [[], [], []] ++ announces)

/-- Whether a task is about to note that no message is being read. -/
def disarming {α : Type} : Task α → Bool
  | .step .disarm _ => true
  | _ => false

/-- One update answers two requests, and is answered by one. -/
theorem continuous_turns_folded :
    ∃ t c, Tasks.Runs linkDoes Tasks.Anyhow turning t c ∧ c.shared.Owed ∧
      ownRequests t = 1 + processed t ∧ c.shared.inner.updatesBegun = processed t := by
  have hend : (turning.record (fun _ _ _ _ => true) linkDoes folds []).map
      (fun e => (e.2.shared.inner.connected, (e.2.tasks[2]?).map (fun task => task.1.value?),
        (e.2.tasks[0]?).any (fun task => disarming task.1))) = some (true, some (some none), true) := by
    decide +kernel
  obtain ⟨⟨t, c⟩, hrecord, heq⟩ := Option.map_eq_some_iff.mp hend
  obtain ⟨hconnected, heq⟩ := Prod.mk.inj heq
  obtain ⟨hreturned, hdisarm⟩ := Prod.mk.inj heq
  obtain ⟨⟨opener, own₂⟩, hopener, hvalue⟩ := Option.map_eq_some_iff.mp hreturned
  cases value?_eq_some hvalue
  obtain ⟨⟨p, own₀⟩, hreader, hnext⟩ := (Option.any_eq_true _ _).mp hdisarm
  have hbetween : BetweenMessages p := by
    simp only [disarming] at hnext
    split at hnext
    · exact .disarms _
    · cases hnext
  have hrun : Tasks.Runs linkDoes Tasks.Anyhow turning t c :=
    Tasks.runs_record (fun _ _ _ _ _ => trivial) hrecord .start
  exact ⟨t, c, hrun, continuous_turns hrun hopener hconnected hreader hbetween⟩

end Bolide.Rfb
