/-
Bolide.Testkit.WaitForTheorems — no event is missed.

The invariant of one task is `Post.Hears`: a test that waits and has not been
told of a lag has still to be handed every announcement that matches. What is
in the log and not announced is in the hands of a read loop (`Awaited`).
-/
import Bolide.Testkit.WaitFor

namespace Bolide.Testkit

open Lib Prog

/-! ## Every task keeps to its post -/

theorem readTask_follows (events : List ClientEvent) :
    Follows posts .reading (readTask events) Post.Returns := by
  induction events with
  | nil => rfl
  | cons event rest ih =>
      refine ⟨⟨event, rfl⟩, fun _ _ => ⟨rfl, fun _ _ => ⟨rfl, fun sent _ => ?_⟩⟩⟩
      cases (sent : Bool) with
      | true => exact ih
      | false => rfl

theorem scan_follows {pred : ClientEvent → Bool} {post : Post} {next : SharedTask (Option ClientEvent)}
    (hpost : post = .subscribed pred ∨ post = .lagged pred)
    (hnext : Follows posts (.waiting pred) next Post.Returns) :
    Follows posts post (scan pred next) Post.Returns := by
  rcases hpost with rfl | rfl
  all_goals
    refine ⟨rfl, fun events _ => ?_⟩
    show Follows posts (Post.scanned pred events) _ _
    cases hfind : List.find? pred events with
    | some found =>
        simp only [Post.scanned, hfind, Prog.bind]
        exact ⟨rfl, rfl⟩
    | none =>
        simp only [Post.scanned, hfind, Prog.bind]
        exact hnext

theorem waitLoop_follows (pred : ClientEvent → Bool) (n : Nat) :
    Follows posts (.waiting pred) (waitLoop pred n) Post.Returns := by
  induction n with
  | zero => trivial
  | succ n ih =>
      refine ⟨rfl, fun woken _ => ?_⟩
      match woken with
      | .elapsed => trivial
      | .closed => trivial
      | .received (.lagged missed) => exact scan_follows (.inr rfl) ih
      | .received (.event event) =>
          show Follows posts (if pred event = true then _ else _)
            (if pred event = true then _ else _) Post.Returns
          split
          · exact ⟨rfl, rfl⟩
          · exact ih

theorem waitFor_follows (pred : ClientEvent → Bool) (n : Nat) :
    Follows posts (.fresh pred) (waitFor pred n) Post.Returns :=
  ⟨rfl, fun _ _ => scan_follows (.inl rfl) (waitLoop_follows pred n)⟩

/-- Where each task stands at the start. -/
def fakePosts (waits : List (ClientEvent → Bool)) (j : Nat) : Post :=
  (waits[j]?.map Post.fresh).getD .reading

theorem fake_posts (n : Nat) (waits : List (ClientEvent → Bool)) (loops : List (List ClientEvent)) :
    Tasks.Roles posts Post.Returns (fakePosts waits) (fake n waits loops) := by
  intro j p rx hget
  by_cases hj : j < waits.length
  · have hwait : waits[j]? = some waits[j] := List.getElem?_eq_getElem hj
    rw [fake, List.getElem?_append_left (by simpa using hj), List.getElem?_map, hwait] at hget
    cases hget
    rw [fakePosts, hwait]
    exact waitFor_follows _ n
  · have hwait : waits[j]? = none := List.getElem?_eq_none (by omega)
    rw [fake, List.getElem?_append_right (by simpa using hj), List.getElem?_map,
      Option.map_eq_some_iff] at hget
    obtain ⟨events, -, heq⟩ := hget
    cases heq
    rw [fakePosts, hwait]
    exact readTask_follows events

/-! ## What a task has to hear -/

/-- What is true of a task's post, its receiver and what is shared. -/
def Post.Hears (s : Shared) (rx : Receiver) : Post → Prop
  | pushed event => event ∈ s.events
  | subscribed _ => ∃ next, rx = some next ∧ next ≤ s.announced.length
  | lagged _ => ∃ next, rx = some next ∧ next ≤ s.announced.length
  | waiting pred => ∃ next, rx = some next ∧ next ≤ s.announced.length ∧
      (next + announceCapacity < s.announced.length ∨ ∀ event ∈ s.announced, pred event = true →
        event ∈ Broadcast.unread announceCapacity s.announced next)
  | ended pred (some event) => pred event = true ∧ event ∈ s.events
  | _ => True

section Hears

variable {s : Shared} {rx : Receiver} {post : Post} {event : ClientEvent}

/-- An event is logged. -/
theorem Post.Hears.push (h : post.Hears s rx) (event : ClientEvent) :
    post.Hears { s with events := s.events ++ [event] } rx := by
  cases post with
  | pushed e => exact List.mem_append_left _ h
  | ended pred found =>
      cases found with
      | none => trivial
      | some e => exact ⟨h.1, List.mem_append_left _ h.2⟩
  | _ => exact h

/-- An announcement reaches every test that waits, or makes it lag. -/
theorem Post.Hears.announce (h : post.Hears s rx) (event : ClientEvent) :
    post.Hears { s with announced := s.announced ++ [event] } rx := by
  have hle {next : Nat} (hnext : next ≤ s.announced.length) :
      next ≤ (s.announced ++ [event]).length := by
    rw [List.length_append]
    omega
  cases post with
  | subscribed pred =>
      obtain ⟨next, hrx, hnext⟩ := h
      exact ⟨next, hrx, hle hnext⟩
  | lagged pred =>
      obtain ⟨next, hrx, hnext⟩ := h
      exact ⟨next, hrx, hle hnext⟩
  | waiting pred =>
      obtain ⟨next, hrx, hnext, hheard⟩ := h
      refine ⟨next, hrx, hle hnext, ?_⟩
      by_cases hlag : next + announceCapacity < (s.announced ++ [event]).length
      · exact .inl hlag
      · rw [List.length_append, List.length_singleton] at hlag
        refine .inr (fun e he hpred => ?_)
        have hheard := hheard.resolve_left (by omega)
        -- nothing is pushed out of a channel that has room
        have hunread : Broadcast.unread announceCapacity (s.announced ++ [event]) next =
            Broadcast.unread announceCapacity s.announced next ++ [event] := by
          rw [Broadcast.unread_send (by decide) hnext, if_neg]
          rw [Broadcast.unread, List.length_drop]
          omega
        rw [hunread, List.mem_append]
        rcases List.mem_append.mp he with he | he
        · exact .inl (hheard e he hpred)
        · exact .inr he
  | ended pred found =>
      cases found with
      | none => trivial
      | some e => exact h
  | _ => exact h

/-- A scan of the log that finds nothing leaves nothing to be heard. -/
theorem Post.hears_scanned (pred : ClientEvent → Bool)
    (hlogged : ∀ e ∈ s.announced, e ∈ s.events)
    (hrx : ∃ next, rx = some next ∧ next ≤ s.announced.length) :
    (Post.scanned pred s.events).Hears s rx := by
  unfold Post.scanned
  cases hfind : s.events.find? pred with
  | some e => exact ⟨List.find?_some hfind, List.mem_of_find?_eq_some hfind⟩
  | none =>
      obtain ⟨next, hrx, hnext⟩ := hrx
      refine ⟨next, hrx, hnext, .inr (fun e he hpred => ?_)⟩
      exact absurd hpred (List.find?_eq_none.mp hfind e (hlogged e he))

/-- A test that waits is woken. -/
theorem Post.Hears.received {pred : ClientEvent → Bool} {next next' : Nat}
    {got : Broadcast.Received ClientEvent} (h : (Post.waiting pred).Hears s (some next))
    (hlogged : ∀ e ∈ s.announced, e ∈ s.events)
    (hrecv : Broadcast.recv announceCapacity s.announced next = some (got, next')) :
    (Post.woken pred (.received got)).Hears s (some next') := by
  have hle := Broadcast.recv_le hrecv
  obtain ⟨_, hrx, -, hheard⟩ := h
  cases hrx
  cases got with
  | lagged missed => exact ⟨next', rfl, hle⟩
  | event e =>
      have hunread := Broadcast.unread_of_event hrecv
      have hmem : e ∈ s.announced := by
        refine List.mem_of_mem_drop (i := max next (s.announced.length - announceCapacity)) ?_
        show e ∈ Broadcast.unread announceCapacity s.announced next
        rw [hunread]
        exact List.mem_cons_self
      show (if pred e = true then Post.ended pred (some e) else .waiting pred).Hears s (some next')
      split
      · next hpred => exact ⟨hpred, hlogged e hmem⟩
      · next hpred =>
          have hroom : ¬ next + announceCapacity < s.announced.length := by
            intro hlag
            rw [Broadcast.recv, if_pos hlag] at hrecv
            cases hrecv
          refine ⟨next', rfl, hle, .inr (fun e' he' hpred' => ?_)⟩
          have hbefore := hheard.resolve_left hroom e' he' hpred'
          rw [hunread] at hbefore
          rcases List.mem_cons.mp hbefore with rfl | hafter
          · exact absurd hpred' hpred
          · exact hafter

/-- Nothing that was announced matches when a wait runs out of time. -/
theorem Post.Hears.elapsed {pred : ClientEvent → Bool} {next : Nat}
    (h : (Post.waiting pred).Hears s (some next))
    (hrecv : Broadcast.recv announceCapacity s.announced next = none) :
    ∀ e ∈ s.announced, pred e = false := by
  intro e he
  obtain ⟨_, hrx, -, hheard⟩ := h
  cases hrx
  have hroom : ¬ next + announceCapacity < s.announced.length := by
    intro hlag
    rw [Broadcast.recv, if_pos hlag] at hrecv
    cases hrecv
  cases hpred : pred e with
  | false => rfl
  | true =>
      have hunread := hheard.resolve_left hroom e he hpred
      rw [(Broadcast.recv_eq_none (by decide)).mp hrecv] at hunread
      cases hunread

end Hears

/-! ## One operation -/

section Step

variable {s s' : Shared} {rx rx' other : Receiver} {post : Post} {o : SharedOp} {r : o.Resp} {m : Bool}

/-- A receive is answered with what is there, or with the deadline. -/
theorem recv_cases {woken : Woken} (hdoes : sharedDoes .recv m s rx = some (woken, s', rx')) :
    s' = s ∧ ∃ next, rx = some next ∧
      ((∃ got next', Broadcast.recv announceCapacity s.announced next = some (got, next') ∧
          woken = .received got ∧ rx' = some next') ∨
        (Broadcast.recv announceCapacity s.announced next = none ∧ woken = .elapsed ∧ rx' = some next)) := by
  obtain ⟨next, rfl, hgot⟩ := Option.bind_eq_some_iff.mp hdoes
  cases hrecv : Broadcast.recv announceCapacity s.announced next with
  | some got =>
      rw [hrecv] at hgot
      cases hgot
      exact ⟨rfl, next, rfl, .inl ⟨got.1, got.2, hrecv, rfl, rfl⟩⟩
  | none =>
      rw [hrecv] at hgot
      dsimp only at hgot
      split at hgot
      · cases hgot
        exact ⟨rfl, next, rfl, .inr ⟨hrecv, rfl, rfl⟩⟩
      · cases hgot

/-- What another task does is heard. -/
theorem Post.Hears.kept (h : post.Hears s other) (hdoes : sharedDoes o m s rx = some (r, s', rx')) :
    post.Hears s' other := by
  cases o with
  | push event =>
      cases hdoes
      exact h.push event
  | announce event =>
      cases hdoes
      exact h.announce event
  | recv => exact (recv_cases hdoes).1 ▸ h
  | _ =>
      cases hdoes
      exact h

/-- So is what the task does itself. -/
theorem Post.Hears.next (h : post.Hears s rx) (hmay : post.may o)
    (hlogged : ∀ e ∈ s.announced, e ∈ s.events) (hdoes : sharedDoes o m s rx = some (r, s', rx')) :
    (post.next o r).Hears s' rx' := by
  cases post with
  | reading =>
      obtain ⟨event, rfl⟩ := hmay
      cases hdoes
      exact List.mem_append_right _ (List.mem_singleton.mpr rfl)
  | pushed event =>
      cases hmay
      cases hdoes
      trivial
  | announced event =>
      cases hmay
      cases hdoes
      trivial
  | fresh pred =>
      cases hmay
      cases hdoes
      exact ⟨_, rfl, Nat.le_refl _⟩
  | subscribed pred =>
      cases hmay
      cases hdoes
      exact Post.hears_scanned pred hlogged h
  | lagged pred =>
      cases hmay
      cases hdoes
      exact Post.hears_scanned pred hlogged h
  | waiting pred =>
      cases hmay
      obtain ⟨rfl, next, rfl, ⟨got, next', hrecv, rfl, rfl⟩ | ⟨-, rfl, rfl⟩⟩ := recv_cases hdoes
      · exact h.received hlogged hrecv
      · trivial
  | ended pred found => exact hmay.elim

/-- A task's condition is its own for good. -/
theorem Post.pred_next (hmay : post.may o) (r : o.Resp) : (post.next o r).pred? = post.pred? := by
  have hscanned (pred : ClientEvent → Bool) (events : List ClientEvent) :
      (Post.scanned pred events).pred? = some pred := by
    unfold Post.scanned
    split <;> rfl
  cases post with
  | reading =>
      obtain ⟨event, rfl⟩ := hmay
      rfl
  | subscribed pred =>
      cases hmay
      exact hscanned pred r
  | lagged pred =>
      cases hmay
      exact hscanned pred r
  | waiting pred =>
      cases hmay
      show (Post.woken pred r).pred? = some pred
      unfold Post.woken
      split
      · split <;> rfl
      · rfl
      · rfl
  | ended pred found => exact hmay.elim
  | _ =>
      cases hmay
      rfl

end Step

/-! ## Every run -/

/-- The log runs ahead of the announcements by what the read loops have in
hand, and every task hears what it has to. -/
structure Awaited (γ₀ γ : Nat → Post) (t : List (Tasks.Entry SharedSig))
    (c : Tasks SharedSig Missed (Option ClientEvent) Shared Receiver) : Prop where
  same : ∀ j, (γ j).pred? = (γ₀ j).pred?
  announced : c.shared.announced = announcedIn t
  logged : ∀ e ∈ c.shared.announced, e ∈ c.shared.events
  behind : ∀ e ∈ c.shared.events, e ∈ c.shared.announced ∨
    ∃ j, γ j = .pushed e ∧ (c.tasks[j]?).isSome = true
  hears : ∀ j p rx, c.tasks[j]? = some (p, rx) → (γ j).Hears c.shared rx
  late : ∀ before after j, t = before ++ ⟨j, .recv, Woken.elapsed⟩ :: after →
    ∀ pred, (γ₀ j).pred? = some pred → ∀ e ∈ announcedIn before, pred e = false

section Runs

variable {γ₀ γ : Nat → Post} {t : List (Tasks.Entry SharedSig)}
  {c : Tasks SharedSig Missed (Option ClientEvent) Shared Receiver}

/-- What an operation leaves in the log and among the announcements. -/
theorem shared_after {o : SharedOp} {m : Bool} {s s' : Shared} {rx rx' : Receiver} {r : o.Resp}
    (hdoes : sharedDoes o m s rx = some (r, s', rx')) :
    s' = ⟨s.events ++ o.logs, s.announced ++ o.announces⟩ := by
  have hsame : (⟨s.events ++ [], s.announced ++ []⟩ : Shared) = s := by simp only [List.append_nil]
  cases o with
  | recv => exact (recv_cases hdoes).1.trans hsame.symm
  | push event =>
      cases hdoes
      exact congrArg (Shared.mk _) (List.append_nil _).symm
  | announce event =>
      cases hdoes
      exact congrArg (Shared.mk · _) (List.append_nil _).symm
  | _ =>
      cases hdoes
      exact hsame.symm

theorem announcedIn_snoc (t : List (Tasks.Entry SharedSig)) (i : Nat) (o : SharedOp) (r : o.Resp) :
    announcedIn (t ++ [⟨i, o, r⟩]) = announcedIn t ++ o.announces := by
  rw [announcedIn, List.flatMap_append, List.flatMap_singleton]
  rfl

/-- Only a read loop that has just logged an event announces one. -/
theorem Post.announces {post : Post} {event : ClientEvent} (hmay : post.may (.announce event)) :
    post = .pushed event := by
  cases post with
  | pushed event' =>
      cases hmay
      rfl
  | reading =>
      obtain ⟨_, heq⟩ := hmay
      cases heq
  | ended pred found => exact hmay.elim
  | _ => cases hmay

/-- Only a read loop logs. -/
theorem Post.logs {post : Post} {event : ClientEvent} (hmay : post.may (.push event)) :
    post = .reading := by
  cases post with
  | reading => rfl
  | ended pred found => exact hmay.elim
  | _ => cases hmay

/-- Only a test that waits receives. -/
theorem Post.waits {post : Post} (hmay : post.may .recv) : ∃ pred, post = .waiting pred := by
  cases post with
  | waiting pred => exact ⟨pred, rfl⟩
  | reading =>
      obtain ⟨_, heq⟩ := hmay
      cases heq
  | ended pred found => exact hmay.elim
  | _ => cases hmay

theorem awaited_step (h : Awaited γ₀ γ t c) {i : Nat} {m : Bool} {o : SharedOp}
    {k : o.Resp → SharedTask (Option ClientEvent)} {rx rx' : Receiver} {r : o.Resp} {s' : Shared}
    (htask : c.tasks[i]? = some (.step o k, rx)) (hmay : (γ i).may o)
    (hdoes : sharedDoes o m c.shared rx = some (r, s', rx')) :
    Awaited γ₀ (Tasks.moved posts γ i o r) (t ++ [⟨i, o, r⟩]) ⟨s', c.tasks.set i (k r, rx')⟩ := by
  have hafter := shared_after hdoes
  have hears := h.hears i _ _ htask
  have hreal (j : Nat) : ((c.tasks.set i (k r, rx'))[j]?).isSome = (c.tasks[j]?).isSome := by
    rw [Bool.eq_iff_iff, isSome_getElem?, isSome_getElem?, List.length_set]
  refine ⟨fun j => ?_, ?_, fun e he => ?_, fun e he => ?_, fun j p rxj hget => ?_,
    fun before after j ht pred hpred => ?_⟩
  · by_cases hji : j = i
    · subst hji
      rw [Tasks.moved_self, ← h.same j]
      exact Post.pred_next hmay r
    · rw [Tasks.moved_of_ne _ _ hji]
      exact h.same j
  · rw [announcedIn_snoc, ← h.announced, hafter]
  · rw [hafter] at he ⊢
    rcases List.mem_append.mp he with he | he
    · exact List.mem_append_left _ (h.logged e he)
    · cases o with
      | announce event =>
          cases List.mem_singleton.mp he
          rw [Post.announces hmay] at hears
          exact List.mem_append_left _ hears
      | _ => cases he
  · rw [hafter] at he ⊢
    rcases List.mem_append.mp he with he | he
    · rcases h.behind e he with hsent | ⟨j, hj, hsome⟩
      · exact .inl (List.mem_append_left _ hsent)
      · by_cases hji : j = i
        · subst hji
          rw [hj] at hmay
          cases hmay
          exact .inl (List.mem_append_right _ (List.mem_singleton.mpr rfl))
        · exact .inr ⟨j, by rw [Tasks.moved_of_ne _ _ hji, hj], by rwa [hreal]⟩
    · cases o with
      | push event =>
          cases List.mem_singleton.mp he
          refine .inr ⟨i, ?_, by rw [hreal, htask]; rfl⟩
          rw [Tasks.moved_self, Post.logs hmay]
          rfl
      | _ => cases he
  · by_cases hji : j = i
    · subst hji
      rw [List.getElem?_set_self (List.getElem?_eq_some_iff.mp htask).1] at hget
      cases hget
      rw [Tasks.moved_self]
      exact hears.next hmay h.logged hdoes
    · rw [List.getElem?_set_ne (Ne.symm hji)] at hget
      rw [Tasks.moved_of_ne _ _ hji]
      exact (h.hears j p rxj hget).kept hdoes
  · rcases Tasks.snoc_split ht with ⟨-, rfl, heq⟩ | ⟨rest, -, ht⟩
    · cases heq
      obtain ⟨pred', hpost⟩ := Post.waits hmay
      rw [← h.same i, hpost] at hpred
      cases hpred
      rw [hpost] at hears
      obtain ⟨-, next, rfl, ⟨_, _, _, heq, _⟩ | ⟨hrecv, -, -⟩⟩ := recv_cases hdoes
      · cases heq
      · rw [← h.announced]
        exact hears.elapsed hrecv
    · exact h.late before rest j ht pred hpred

theorem awaited_start (n : Nat) (waits : List (ClientEvent → Bool)) (loops : List (List ClientEvent)) :
    Awaited (fakePosts waits) (fakePosts waits) [] (fake n waits loops) := by
  refine ⟨fun _ => rfl, rfl, nofun, nofun, fun j p rx _ => ?_, fun before after j ht => by simp at ht⟩
  unfold fakePosts
  cases waits[j]? <;> trivial

/-- **A test misses no event**: in every interleaving of any number of waits
and of read loops, what a wait returns matches and is in the log. It returns
for its deadline only when nothing that was announced matches; and while one
waits with nothing to receive, an event in the log that matches is in the
hands of the read loop that has yet to announce it. -/
theorem wait_for_misses_nothing {n : Nat} {waits : List (ClientEvent → Bool)}
    {loops : List (List ClientEvent)}
    (h : Tasks.Runs sharedDoes Tasks.Anyhow (fake n waits loops) t c) {i : Nat}
    {pred : ClientEvent → Bool} (hi : waits[i]? = some pred) :
    (∀ found rx, c.tasks[i]? = some (.ret found, rx) →
        ∃ event ∈ c.shared.events, found = some event ∧ pred event = true) ∧
      (∀ before after, t = before ++ ⟨i, .recv, Woken.elapsed⟩ :: after →
        ∀ event ∈ announcedIn before, pred event = false) ∧
      ∀ k rx, c.tasks[i]? = some (.step .recv k, rx) → sharedDoes .recv false c.shared rx = none →
        ∀ event ∈ c.shared.events, pred event = true → event ∉ c.shared.announced ∧
          ∃ j : Nat, ∃ k rx, c.tasks[j]? = some (.step (.announce event) k, rx) := by
  obtain ⟨γ, hroles, hawaited⟩ := h.joint (D := posts) (fake_posts n waits loops)
    (J := Awaited (fakePosts waits)) (awaited_start n waits loops)
    (fun t c γ i m o k l r s' l' _ _ hj htask hmay hdoes =>
      ⟨trivial, awaited_step hj htask hmay hdoes⟩)
  have hpred : (γ i).pred? = some pred := by
    rw [hawaited.same i, fakePosts, hi]
    rfl
  refine ⟨fun found rx hget => ?_, fun before after ht => ?_, fun k rx hget hwaits event hmem hmatch => ?_⟩
  · have hreturns : (γ i).Returns found := hroles i _ _ hget
    have hears := hawaited.hears i _ _ hget
    cases hpost : γ i with
    | ended pred' found' =>
        rw [hpost] at hreturns hears hpred
        cases hpred
        obtain ⟨rfl, hsome⟩ := hreturns
        obtain ⟨event, rfl⟩ := Option.isSome_iff_exists.mp hsome
        exact ⟨event, hears.2, rfl, hears.1⟩
    | reading =>
        rw [hpost] at hpred
        cases hpred
    | _ =>
        rw [hpost] at hreturns
        exact hreturns.elim
  · exact hawaited.late before after i ht pred (hawaited.same i ▸ hpred)
  · have hears := hawaited.hears i _ _ hget
    obtain ⟨pred', hpost⟩ := Post.waits (hroles i _ _ hget).1
    rw [hpost] at hears hpred
    cases hpred
    have hunannounced : event ∉ c.shared.announced := by
      intro hannounced
      have hlistens := hears
      obtain ⟨next, rfl, -⟩ := hlistens
      have hrecv : Broadcast.recv announceCapacity c.shared.announced next = none := by
        cases hrecv : Broadcast.recv announceCapacity c.shared.announced next with
        | none => rfl
        | some got =>
            have hgot : sharedDoes .recv false c.shared (some next) =
                some (.received got.1, c.shared, some got.2) := by
              simp only [sharedDoes, Option.bind_eq_bind, Option.bind_some, hrecv]
            rw [hgot] at hwaits
            cases hwaits
      rw [Post.Hears.elapsed hears hrecv event hannounced] at hmatch
      cases hmatch
    refine ⟨hunannounced, ?_⟩
    obtain ⟨j, hj, hsome⟩ := (hawaited.behind event hmem).resolve_left hunannounced
    obtain ⟨⟨p, rxj⟩, hgetj⟩ := Option.isSome_iff_exists.mp hsome
    have hfollows := hroles j p rxj hgetj
    rw [hj] at hfollows
    cases p with
    | ret found => exact (show False from hfollows).elim
    | fail e => exact (show False from hfollows).elim
    | step o k =>
        cases (show o = .announce event from hfollows.1)
        exact ⟨j, k, rxj, hgetj⟩

end Runs

/-- A KeyEvent. -/
def isKey : ClientEvent → Bool
  | .key _ _ => true
  | _ => false

/-- A wait that scans too early, between a click's two events and a key's. -/
def keyed : List (Nat × Bool) :=
  [(0, false), (1, false), (0, false), (1, false), (1, true), (1, false), (1, false), (0, false),
    (0, false)]

theorem wait_for_misses_nothing_key :
    ∃ t c, Tasks.Runs sharedDoes Tasks.Anyhow
        (fake 3 [isKey] [[.pointer 3 4 1, .key 97 true]]) t c ∧
      (∃ rx, c.tasks[0]? = some (.ret (some (.key 97 true)), rx)) ∧
      ∃ event ∈ c.shared.events, some (ClientEvent.key 97 true) = some event ∧ isKey event = true := by
  have hend : (((fake 3 [isKey] [[.pointer 3 4 1, .key 97 true]]).record (fun _ _ _ _ => true)
      sharedDoes keyed []).bind (fun e => e.2.tasks[0]?)).map (fun e => e.1.value?) =
        some (some (some (.key 97 true))) := rfl
  have hcheck : ∀ (t : List (Tasks.Entry SharedSig))
      (c : Tasks SharedSig Missed (Option ClientEvent) Shared Receiver) (i : Nat) (m : Bool),
      true = true → Tasks.Anyhow t c i m := fun _ _ _ _ _ => trivial
  obtain ⟨t, c, rx, hrun, hget⟩ := Tasks.returned_of_record hcheck hend
  exact ⟨t, c, hrun, ⟨rx, hget⟩, (wait_for_misses_nothing hrun rfl).1 _ rx hget⟩

end Bolide.Testkit
