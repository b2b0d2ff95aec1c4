/-
Bolide.Rfb.StaleTheorems — the frame a refresh returns is not stale.

A refresh loads its floor, asks, waits and copies, in separate steps, while
the reader numbers updates, applies their rects and announces them. The
event that wakes a refresh may belong to an older update than the one it is
let go for; what counts is `last_painted_update`, which the reader stores
when every rect of that update is applied.

`updates` reads the updates off what has happened in a run. `Fresh` says of
a refresh that between the load of its floor and its copy an update began,
drew, and was applied; `refresh_fresh` says it of every refresh that
returns, in every interleaving.
-/
import Bolide.Rfb.RolesTheorems
import Bolide.Rfb.InflateTheorems

namespace Bolide.Rfb

open Lib Prog

/-! ## The updates of a run -/

/-- A FramebufferUpdate as far as it has been read: whether a rect of it has
been drawn, and whether all of them have been applied. -/
structure Update where
  drawn : Bool
  applied : Bool
  deriving DecidableEq, Repr

/-- What an operation does to the updates: the reader begins one, draws a
rect of it, or is past its last rect. -/
def Update.note (us : List Update) : (o : Op) → o.Resp → List Update
  | .beginUpdate, _ => us ++ [⟨false, false⟩]
  | .draw _, .ok _ =>
      us.modify (us.length - 1) (fun u => if u.applied = true then u else { u with drawn := true })
  | .storeOutstanding _, _ => us.modify (us.length - 1) (fun u => { u with applied := true })
  | _, _ => us

/-- The updates that have begun, the oldest first. -/
def updates (t : List (Tasks.Entry SessionSig)) : List Update :=
  t.foldl (fun us e => Update.note us e.op e.answer) []

theorem updates_snoc (t : List (Tasks.Entry SessionSig)) (i : Nat) (o : Op) (r : o.Resp) :
    updates (t ++ [⟨i, o, r⟩]) = Update.note (updates t) o r := by
  rw [updates, List.foldl_append]
  rfl

/-- An update whose rects are applied stays as it is. -/
theorem getElem?_note_of_applied {us : List Update} {k : Nat} {drawn : Bool}
    (h : us[k]? = some ⟨drawn, true⟩) (o : Op) (r : o.Resp) :
    (Update.note us o r)[k]? = some ⟨drawn, true⟩ := by
  unfold Update.note
  split
  · rw [List.getElem?_append_left (List.getElem?_eq_some_iff.mp h).1]
    exact h
  · rw [List.getElem?_modify, h]
    split <;> rfl
  · rw [List.getElem?_modify, h]
    split <;> rfl
  · exact h

/-- The operations of an update. -/
def Op.OfUpdate : Op → Prop
  | .beginUpdate => True
  | .draw _ => True
  | .storeOutstanding _ => True
  | _ => False

theorem note_of_not_update {o : Op} (h : ¬ o.OfUpdate) (us : List Update) (r : o.Resp) :
    Update.note us o r = us := by
  cases o with
  | beginUpdate => exact absurd trivial h
  | draw f => exact absurd trivial h
  | storeOutstanding n => exact absurd trivial h
  | _ => rfl

/-! ## A refresh that is not stale -/

/-- Between the load of its floor and its copy of `frame`, an update began,
drew at least one rect, and had all its rects applied. -/
def Fresh (t : List (Tasks.Entry SessionSig)) (j : Nat) (frame : Framebuffer) : Prop :=
  ∃ before between after floor, t = before ++ ⟨j, .loadUpdatesBegun, floor⟩ :: between ++
      ⟨j, .framebuffer, frame⟩ :: after ∧
    ∃ k, (updates before).length ≤ k ∧
      (updates (before ++ ⟨j, .loadUpdatesBegun, floor⟩ :: between))[k]? = some ⟨true, true⟩

/-- The floor is the number of updates that had begun when it was loaded. -/
def Floored (t : List (Tasks.Entry SessionSig)) (j floor : Nat) : Prop :=
  ∃ before between, t = before ++ ⟨j, .loadUpdatesBegun, floor⟩ :: between ∧
    (updates before).length = floor

theorem Floored.snoc {t : List (Tasks.Entry SessionSig)} {j floor : Nat} (h : Floored t j floor)
    (e : Tasks.Entry SessionSig) : Floored (t ++ [e]) j floor := by
  obtain ⟨before, between, rfl, hfloor⟩ := h
  exact ⟨before, between ++ [e], by simp, hfloor⟩

theorem Fresh.snoc {t : List (Tasks.Entry SessionSig)} {j : Nat} {frame : Framebuffer}
    (h : Fresh t j frame) (e : Tasks.Entry SessionSig) : Fresh (t ++ [e]) j frame := by
  obtain ⟨before, between, after, floor, rfl, hupdate⟩ := h
  exact ⟨before, between, after ++ [e], floor, by simp, hupdate⟩

/-! ## The invariant -/

/-- What the role of the reader says of the update it is at. -/
def Reading.Counts (us : List Update) : Reading → Prop
  | begun u painted _ => ∃ k, u = k + 1 ∧ us.length = k + 1 ∧ us[k]? = some ⟨painted, false⟩
  | resizing u painted => ∃ k, u = k + 1 ∧ us.length = k + 1 ∧ us[k]? = some ⟨painted, false⟩
  | flagged u painted => ∃ k, u = k + 1 ∧ us.length = k + 1 ∧ us[k]? = some ⟨painted, false⟩
  | asking _ u painted => ∃ k, u = k + 1 ∧ us[k]? = some ⟨painted, true⟩
  | announce u => ∃ k, u = k + 1 ∧ us[k]? = some ⟨true, true⟩
  | numbered u _ => ∃ k, u = k + 1 ∧ us[k]? = some ⟨true, true⟩
  | _ => True

/-- What the role of a refresh says of what has happened. -/
def Refreshing.Counts (t : List (Tasks.Entry SessionSig)) (j : Nat) : Refreshing → Prop
  | asking _ floor => Floored t j floor
  | waiting floor => Floored t j floor
  | told floor => Floored t j floor
  | ready floor => Floored t j floor ∧ ∃ k, floor ≤ k ∧ (updates t)[k]? = some ⟨true, true⟩
  | copied _ frame => Fresh t j frame
  | _ => True

/-- The invariant. Task 0 is the reader. -/
structure Counted (γ : Nat → Role) (t : List (Tasks.Entry SessionSig))
    (c : Tasks SessionSig Stop Returned Inner Own) : Prop where
  begun : c.shared.updatesBegun = (updates t).length
  last : c.shared.lastPaintedUpdate = 0 ∨
    ∃ k, c.shared.lastPaintedUpdate = k + 1 ∧ (updates t)[k]? = some ⟨true, true⟩
  reads : ∀ r, γ 0 = .reader r → r.Counts (updates t)
  alone : ∀ j r, γ j = .reader r → j = 0
  asks : ∀ j incremental r, γ j = .refresh incremental r → r.Counts t j

/-! ## The reader's operations -/

theorem Reading.counts_asked {us : List Update} {update k : Nat} {painted : Bool}
    (hupdate : update = k + 1) (hget : us[k]? = some ⟨painted, true⟩) :
    (Reading.asked update painted).Counts us := by
  cases painted with
  | false => trivial
  | true => exact ⟨k, hupdate, hget⟩

theorem Reading.counts_sending {us : List Update} {update k : Nat} {painted : Bool}
    (hupdate : update = k + 1) (hget : us[k]? = some ⟨painted, true⟩) (s : Sending) :
    (Reading.sending update painted s).Counts us := by
  cases s with
  | sent accepted => exact Reading.counts_asked hupdate hget
  | _ => exact ⟨k, hupdate, hget⟩

theorem Reading.counts_drained {us : List Update} {update k : Nat} {painted : Bool}
    (hupdate : update = k + 1) (hget : us[k]? = some ⟨painted, true⟩) (wanted : Bool) :
    (Reading.drained wanted update painted).Counts us := by
  cases wanted with
  | false => exact Reading.counts_asked hupdate hget
  | true => exact ⟨k, hupdate, hget⟩

/-- Sending touches no update. -/
theorem Sending.not_update {s : Sending} {command : Command} {o : Op} (hmay : s.may command o) :
    ¬ o.OfUpdate := by
  intro h
  cases s with
  | sent accepted => exact hmay
  | _ =>
      cases hmay
      exact h

theorem Dying.not_update {d : Dying} {o : Op} (hmay : d.may o) : ¬ o.OfUpdate := by
  intro h
  cases d with
  | announce =>
      obtain ⟨reason, rfl⟩ := hmay
      exact h
  | done => exact hmay
  | _ =>
      cases hmay
      exact h

/-- The reader keeps count of the update it is at. -/
theorem Reading.counts_next {continuous : Bool} {role : Reading} {us : List Update} {o : Op}
    {m : Choice} {i i' : Inner} {own own' : Own} {r : o.Resp}
    (hbegun : i.updatesBegun = us.length) (h : role.Counts us) (hmay : role.may o)
    (hdoes : sessionDoes o m i own = some (r, i', own')) :
    (role.next continuous o r).Counts (Update.note us o r) := by
  cases role with
  | idle =>
      cases (hmay : o = .disarm)
      trivial
  | listening =>
      cases (hmay : o = .fill 1)
      cases r <;> trivial
  | heard update =>
      cases (hmay : o = .arm)
      cases update <;> trivial
  | owed =>
      cases (hmay : o = .beginUpdate)
      cases hdoes
      refine ⟨us.length, congrArg (· + 1) hbegun, by simp [Update.note], ?_⟩
      simp only [Update.note, List.getElem?_concat_length]
  | plain =>
      cases o with
      | fill n => cases r <;> trivial
      | setCutText text => trivial
      | disarm => trivial
      | swapConnected => trivial
      | emit event => trivial
      | _ => exact hmay.elim
  | begun update painted resized =>
      obtain ⟨k, hupdate, hlen, hget⟩ := h
      have hlast : us.length - 1 = k := by omega
      cases o with
      | fill n =>
          cases r with
          | ok bytes => exact ⟨k, hupdate, hlen, hget⟩
          | error e => trivial
      | draw f =>
          cases r with
          | ok _ =>
              refine ⟨k, hupdate, by simp only [Update.note, List.length_modify]; exact hlen, ?_⟩
              simp [Update.note, hlast, hget]
          | error e => trivial
      | desktopSize w h => exact ⟨k, hupdate, hlen, hget⟩
      | swapConnected => trivial
      | storeOutstanding n =>
          refine Reading.counts_drained hupdate ?_ _
          simp [Update.note, hlast, hget]
      | _ => exact hmay.elim
  | resizing update painted =>
      cases (hmay : o = .storeNeedsFull true)
      exact h
  | flagged update painted =>
      obtain ⟨w, height, rfl⟩ := hmay
      exact h
  | asking s update painted =>
      obtain ⟨k, hupdate, hget⟩ := h
      rw [note_of_not_update (Sending.not_update hmay)]
      exact Reading.counts_sending hupdate hget _
  | announce update =>
      cases (hmay : o = .nextGeneration)
      exact h
  | numbered update generation =>
      cases (hmay : o = .storeLastPainted update)
      trivial
  | stored generation =>
      cases (hmay : o = .setPainted)
      trivial
  | shown generation =>
      cases (hmay : o = .emit (.painted generation))
      trivial
  | failed =>
      cases (hmay : o = .swapConnected)
      trivial
  | dying d => trivial

/-- What the reader stores is the number of an update that drew. -/
theorem Reading.stores {role : Reading} {us : List Update} {n : Nat} (h : role.Counts us)
    (hmay : role.may (.storeLastPainted n)) : ∃ k, n = k + 1 ∧ us[k]? = some ⟨true, true⟩ := by
  cases role with
  | numbered update generation =>
      cases hmay
      exact h
  | asking s update painted =>
      cases s with
      | sent accepted => exact hmay.elim
      | _ => cases hmay
  | dying d =>
      cases d with
      | announce =>
          obtain ⟨reason, hmay⟩ := hmay
          cases hmay
      | done => exact hmay.elim
      | _ => cases hmay
  | plain => exact hmay.elim
  | begun update painted resized => exact hmay.elim
  | flagged update painted =>
      obtain ⟨w, h, hmay⟩ := hmay
      cases hmay
  | _ => cases hmay

/-! ## The operations of the other tasks -/

/-- Only the reader handles updates, or stores which was the last. -/
theorem Role.quiet {role : Role} {o : Op} (hmay : role.may o) (hreader : ∀ r, role ≠ .reader r) :
    ¬ o.OfUpdate ∧ ∀ n, o ≠ .storeLastPainted n := by
  have hsend : ∀ {s : Sending} {command}, s.may command o →
      ¬ o.OfUpdate ∧ ∀ n, o ≠ .storeLastPainted n := by
    intro s command h
    refine ⟨Sending.not_update h, fun n heq => ?_⟩
    subst heq
    cases s with
    | sent accepted => exact h
    | _ => cases h
  have hdie : ∀ {d : Dying}, d.may o → ¬ o.OfUpdate ∧ ∀ n, o ≠ .storeLastPainted n := by
    intro d h
    refine ⟨Dying.not_update h, fun n heq => ?_⟩
    subst heq
    cases d with
    | announce =>
        obtain ⟨reason, h⟩ := h
        cases h
    | done => exact h
    | _ => cases h
  cases role with
  | reader r => exact absurd rfl (hreader r)
  | writer w =>
      cases w with
      | dying d => exact hdie hmay
      | gone => exact hmay.elim
      | _ =>
          cases hmay
          exact ⟨fun h => h, fun n h => by cases h⟩
  | refresh incremental r =>
      cases r with
      | asking s floor => exact hsend hmay
      | copied floor frame => exact hmay.elim
      | failed => exact hmay.elim
      | _ =>
          cases hmay
          exact ⟨fun h => h, fun n h => by cases h⟩
  | sender command s => exact hsend hmay
  | closer d => exact hdie hmay

/-- A task's role says the same once another has performed an operation. -/
theorem Refreshing.counts_snoc {role : Refreshing} {t : List (Tasks.Entry SessionSig)} {j : Nat}
    (h : role.Counts t j) (i : Nat) (o : Op) (r : o.Resp) : role.Counts (t ++ [⟨i, o, r⟩]) j := by
  cases role with
  | asking s floor => exact Floored.snoc h _
  | waiting floor => exact Floored.snoc h _
  | told floor => exact Floored.snoc h _
  | ready floor =>
      obtain ⟨hfloor, k, hle, hget⟩ := h
      refine ⟨hfloor.snoc _, k, hle, ?_⟩
      rw [updates_snoc]
      exact getElem?_note_of_applied hget o r
  | copied floor frame => exact Fresh.snoc h _
  | _ => trivial

/-! ## The refresh's operations -/

/-- A refresh is let go only by an update that drew and was applied. -/
theorem Refreshing.counts_next {role : Refreshing} {incremental : Bool}
    {t : List (Tasks.Entry SessionSig)} {j : Nat} {o : Op} {m : Choice} {i i' : Inner}
    {own own' : Own} {r : o.Resp} (hbegun : i.updatesBegun = (updates t).length)
    (hlast : i.lastPaintedUpdate = 0 ∨
      ∃ k, i.lastPaintedUpdate = k + 1 ∧ (updates t)[k]? = some ⟨true, true⟩)
    (h : role.Counts t j) (hmay : role.may incremental o)
    (hdoes : sessionDoes o m i own = some (r, i', own')) :
    (role.next incremental o r).Counts (t ++ [⟨j, o, r⟩]) j := by
  cases role with
  | start =>
      cases (hmay : o = .subscribe)
      trivial
  | subscribed =>
      cases (hmay : o = .loadUpdatesBegun)
      cases hdoes
      exact ⟨t, [], rfl, hbegun.symm⟩
  | asking s floor =>
      show (sending floor (s.next (.request incremental) o r)).Counts _ _
      cases s.next (.request incremental) o r with
      | sent accepted =>
          cases accepted with
          | false => trivial
          | true => exact Floored.snoc h _
      | _ => exact Floored.snoc h _
  | waiting floor =>
      cases (hmay : o = .recv)
      match r with
      | .elapsed => trivial
      | .closed => trivial
      | .received (.lagged _) => exact Floored.snoc h _
      | .received (.event (.disconnected _)) => trivial
      | .received (.event (.resized _ _)) => exact Floored.snoc h _
      | .received (.event (.cutText _)) => exact Floored.snoc h _
      | .received (.event .bell) => exact Floored.snoc h _
      | .received (.event (.painted _)) => exact Floored.snoc h _
  | told floor =>
      cases (hmay : o = .loadLastPainted)
      cases hdoes
      show (judged floor i.lastPaintedUpdate).Counts _ _
      unfold judged
      split
      · next hlt =>
          obtain hzero | ⟨k, hk, hget⟩ := hlast
          · omega
          · refine ⟨Floored.snoc h _, k, by omega, ?_⟩
            rw [updates_snoc]
            exact getElem?_note_of_applied hget _ _
      · exact Floored.snoc h _
  | ready floor =>
      cases (hmay : o = .framebuffer)
      obtain ⟨⟨before, between, rfl, hfloor⟩, k, hle, hget⟩ := h
      exact ⟨before, between, [], floor, by simp, k, by omega, hget⟩
  | copied floor frame => exact hmay.elim
  | failed => exact hmay.elim

/-! ## Every run -/

/-- What one operation keeps. -/
theorem counted_step {continuous : Bool} {γ : Nat → Role} {t : List (Tasks.Entry SessionSig)}
    {c : Tasks SessionSig Stop Returned Inner Own} {i : Nat} {m : Choice} {o : Op}
    {k : o.Resp → Task Returned} {own own' : Own} {r : o.Resp} {s' : Inner}
    (h : Counted γ t c) (hmay : (γ i).may o)
    (hdoes : sessionDoes o m c.shared own = some (r, s', own')) :
    Counted (Tasks.moved (protocol continuous) γ i o r) (t ++ [⟨i, o, r⟩])
      ⟨s', c.tasks.set i (k r, own')⟩ := by
  have hafter := sessionDoes_after hdoes
  have hself : Tasks.moved (protocol continuous) γ i o r i = (γ i).next continuous o r :=
    Tasks.moved_self _ _ _ _ _
  have hother : ∀ {j}, j ≠ i → Tasks.moved (protocol continuous) γ i o r j = γ j :=
    fun hji => Tasks.moved_of_ne _ _ hji _ _
  constructor
  · rw [hafter, updates_snoc]
    by_cases hb : o = .beginUpdate
    · subst hb
      show c.shared.updatesBegun + 1 = (updates t ++ [_]).length
      rw [List.length_append, h.begun, List.length_singleton]
    · rw [after_updatesBegun hb, h.begun]
      cases o with
      | beginUpdate => exact absurd rfl hb
      | draw f => cases r <;> simp [Update.note]
      | storeOutstanding n => simp [Update.note]
      | _ => rfl
  · rw [hafter, updates_snoc]
    by_cases hs : ∃ n, o = .storeLastPainted n
    · obtain ⟨n, rfl⟩ := hs
      cases hi : γ i with
      | reader role =>
          rw [hi] at hmay
          have h0 := h.alone i role hi
          subst h0
          exact .inr (Reading.stores (h.reads role hi) hmay)
      | _ => exact absurd rfl ((Role.quiet hmay (fun r hr => by rw [hi] at hr; cases hr)).2 n)
    · rw [after_lastPainted (fun n hn => hs ⟨n, hn⟩)]
      exact h.last.imp_right (fun ⟨k, hk, hget⟩ => ⟨k, hk, getElem?_note_of_applied hget o r⟩)
  · intro role hrole
    rw [updates_snoc]
    by_cases h0 : 0 = i
    · subst h0
      rw [hself] at hrole
      cases hi : γ 0 with
      | reader role' =>
          rw [hi] at hrole hmay
          cases hrole
          exact Reading.counts_next h.begun (h.reads role' hi) hmay hdoes
      | _ =>
          rw [hi] at hrole
          cases hrole
    · rw [hother h0] at hrole
      have hquiet := Role.quiet hmay (fun r' hr => h0 (h.alone i r' hr).symm)
      rw [note_of_not_update hquiet.1]
      exact h.reads role hrole
  · intro j role hrole
    by_cases hji : j = i
    · subst hji
      rw [hself] at hrole
      cases hi : γ j with
      | reader role' => exact h.alone j role' hi
      | _ =>
          rw [hi] at hrole
          cases hrole
    · rw [hother hji] at hrole
      exact h.alone j role hrole
  · intro j incremental role hrole
    by_cases hji : j = i
    · subst hji
      rw [hself] at hrole
      cases hi : γ j with
      | refresh incremental' role' =>
          rw [hi] at hrole hmay
          cases hrole
          exact Refreshing.counts_next h.begun h.last (h.asks j _ _ hi) hmay hdoes
      | _ =>
          rw [hi] at hrole
          cases hrole
    · rw [hother hji] at hrole
      exact Refreshing.counts_snoc (h.asks j _ _ hrole) i o r

theorem counted_start {z : Decompress} (width height : UInt16) (name : String) (continuous : Bool)
    (n m : Nat) (d : Decoders z) (calls : List Call) :
    Counted (sessionRoles continuous calls) []
      (session width height name continuous n m d calls) := by
  have hcall : ∀ {j : Nat} {role : Role}, sessionRoles continuous calls (j + 3) = role →
      role = .closer .done ∨ ∃ call : Call, role = call.role := by
    intro j role hrole
    rw [← hrole, sessionRoles]
    cases calls[j]? with
    | none => exact .inl rfl
    | some call => exact .inr ⟨call, rfl⟩
  refine ⟨rfl, .inl rfl, ?_, ?_, ?_⟩
  · intro role hrole
    cases hrole
    trivial
  · intro j role hrole
    rcases j with _ | _ | _ | j
    · rfl
    · cases hrole
    · cases hrole
    · rcases hcall hrole with h | ⟨call, h⟩
      · cases h
      · cases call <;> cases h
  · intro j incremental role hrole
    rcases j with _ | _ | _ | j
    · cases hrole
    · cases hrole
    · cases hrole
    · rcases hcall hrole with h | ⟨call, h⟩
      · cases h
      · cases call <;> cases h
        trivial

/-- **A refresh never returns a stale frame**: in every interleaving of the
reader, the writer, and any number of refreshes and other calls, whatever
the server sends, between a refresh's load of its floor and its copy of the
frame it returns an update began, painted a rect, and had all its rects
applied. -/
theorem refresh_fresh {z : Decompress} {width height : UInt16} {name : String} {continuous : Bool}
    {n m : Nat} {d : Decoders z} {calls : List Call} {t : List (Tasks.Entry SessionSig)}
    {c : Tasks SessionSig Stop Returned Inner Own} {j : Nat} {frame : Framebuffer} {own : Own}
    (hrun : Tasks.Runs sessionDoes Tasks.Anyhow
      (session width height name continuous n m d calls) t c)
    (hreturn : c.tasks[j]? = some (.ret (some frame), own)) : Fresh t j frame := by
  obtain ⟨γ, hroles, hcounted⟩ := hrun.joint (D := protocol continuous)
    (session_roles width height name n m d calls)
    (counted_start width height name continuous n m d calls)
    (fun t c γ i m o k l r s' l' _ _ hj _ hmay hdoes =>
      ⟨sessionDoes_answered hdoes, counted_step hj hmay hdoes⟩)
  have hended : (γ j).Ended (some frame) := hroles j _ _ hreturn
  cases hrole : γ j with
  | refresh incremental role =>
      rw [hrole] at hended
      have hasks := hcounted.asks j incremental role hrole
      cases role with
      | copied floor frame' =>
          cases (hended : some frame = some frame')
          exact hasks
      | _ => exact hended.elim
  | _ =>
      rw [hrole] at hended
      cases hended.1

/-- A session with one call, a refresh. -/
def oneRefresh : Tasks SessionSig Stop Returned Inner Own :=
  session 1 1 "desktop" false 1 0 (Decoders.new stored) [.refresh 1 true 5000000000]

/-- A refresh that waits for the one update there is. -/
theorem refresh_fresh_one :
    ∃ t c own, Tasks.Runs sessionDoes Tasks.Anyhow oneRefresh t c ∧
      c.tasks[3]? = some (.ret (some ⟨1, 1, [9, 8, 7, 255]⟩), own) ∧
      Fresh t 3 ⟨1, 1, [9, 8, 7, 255]⟩ := by
  have hend : ((oneRefresh.record (fun _ _ _ _ => true) sessionDoes
      (moves 3 [[], [], [], [], []] ++ paints ++ announces ++ moves 3 [[], [], []]) []).bind
        (fun e => e.2.tasks[3]?)).map (fun e => e.1.value?)
          = some (some (some ⟨1, 1, [9, 8, 7, 255]⟩)) := by
    decide +kernel
  have hdone : ∃ t c own, Tasks.Runs sessionDoes Tasks.Anyhow oneRefresh t c ∧
      c.tasks[3]? = some (.ret (some ⟨1, 1, [9, 8, 7, 255]⟩), own) :=
    Tasks.returned_of_record (fun _ _ _ _ _ => trivial) hend
  obtain ⟨t, c, own, hrun, hreturn⟩ := hdone
  exact ⟨t, c, own, hrun, hreturn, refresh_fresh hrun hreturn⟩

end Bolide.Rfb
