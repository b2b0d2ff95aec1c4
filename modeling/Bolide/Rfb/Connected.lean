/-
Bolide.Rfb.Connected — the client's handshake against a server that is a
program.

`wire` runs the client by itself, against what a server would have sent by
then. Here the server is a program of its own, at the other end of a
connection, and the two take their steps in any order. `connected_run` says
that this makes no difference to the client: when it ends, it ends as it does
on the `wire` of `Peer.program`.

Translation notes. Both ends use a connection as a task does (`connActs`):
`read_exact` and `write_all`. No timeout elapses, and a connection takes what
is written to it.
-/
import Bolide.Lib.Duplex
import Bolide.Rfb.WireTheorems

namespace Bolide.Rfb

open Lib Prog

/-! ## Both ends -/

/-- What a task's operations do at its end of a connection. What the system
RNG draws depends on how often it was asked. -/
def connActs (draws : Nat → Except String (Nat → UInt8)) : Acts SessionSig UInt8 Nat
  | .fill n, drawn => .read n (fun got =>
      ((got.map Except.ok).getD (.error (.err (.io "early eof"))), drawn))
  | .write bytes, drawn => .write bytes (.ok ()) drawn
  | .random n, drawn => .own ((draws drawn).map (fun f => (List.range n).map f)) (drawn + 1)
  | o, drawn => .own (execInner o (.new 0 0 "")).1 drawn

section Program

variable {τ : Sig} {ε α L : Type}

/-- A client and a server that have just connected. -/
def connection (p : Task β) (server : End τ ε α L) :
    Duplex SessionSig Stop β Nat τ ε α L UInt8 where
  left := ⟨p, 0⟩
  right := server
  toLeft := []
  toRight := []

/-- A server program, as the far end the client reads from. -/
def Peer.program (acts : Acts τ UInt8 L) (server : End τ ε α L) (ending : Ending)
    (draws : Nat → Except String (Nat → UInt8)) : Peer where
  sends := output acts server.prog server.own
  ending := ending
  takes := none
  draws := draws

end Program

/-! ## The client by itself -/

/-- The operations that neither read nor write nor draw. -/
theorem connActs_cases (draws : Nat → Except String (Nat → UInt8)) (peer : Peer) (timeout : Duration)
    (o : Op) :
    (∃ n, o = .fill n) ∨ (∃ bytes, o = .write bytes) ∨ (∃ n, o = .random n) ∨
      ∃ r, (∀ drawn, connActs draws o drawn = .own r drawn) ∧
        ∀ w, wire peer timeout o w = (r, w) := by
  cases o with
  | fill n => exact .inl ⟨n, rfl⟩
  | write bytes => exact .inr (.inl ⟨bytes, rfl⟩)
  | random n => exact .inr (.inr (.inl ⟨n, rfl⟩))
  | _ => exact .inr (.inr (.inr ⟨_, fun _ => rfl, fun _ => rfl⟩))

/-- A read that the end of the stream cuts short. -/
theorem wire_fill_closed {peer : Peer} {w : Wire} {rest : List UInt8} (timeout : Duration) {n : Nat}
    (h : Serves peer w rest) (hclosed : peer.ending = .closed) (hn : rest.length < n) :
    wire peer timeout (.fill n) w = (.error (.err (.io "early eof")), w) := by
  have hfill : fillFrom peer.ending timeout true n rest = (.error (.err (.io "early eof")), []) := by
    rw [hclosed, fillFrom, if_neg (by omega)]
  simp only [wire]
  rw [h, List.drop_left, hfill]

section Facing

variable {τ : Sig} {ε α β L : Type} {acts : Acts τ UInt8 L} {server : End τ ε α L}
  {ending : Ending} {draws : Nat → Except String (Nat → UInt8)} {timeout : Duration} {p : Task β}
  {c c' : Duplex SessionSig Stop β Nat τ ε α L UInt8} {w : Wire}

/-- The client is where it is on the wire, and until it is over, what the
server has sent is what the client has read, what is in flight, and what the
server makes of what is in flight to it. -/
structure Facing (acts : Acts τ UInt8 L) (server : End τ ε α L) (ending : Ending)
    (draws : Nat → Except String (Nat → UInt8)) (timeout : Duration) (p : Task β)
    (c : Duplex SessionSig Stop β Nat τ ε α L UInt8) (w : Wire) : Prop where
  run : p.run (wire (.program acts server ending draws) timeout) .new =
    c.left.prog.run (wire (.program acts server ending draws) timeout) w
  drawn : w.drawn = c.left.own
  sent : c.toRight <:+ w.sent
  served : c.left.prog.over = false → ∀ more,
    output acts server.prog server.own (w.sent ++ more) =
      w.got ++ c.toLeft ++ output acts c.right.prog c.right.own (c.toRight ++ more)

theorem Facing.serves (h : Facing acts server ending draws timeout p c w)
    (hover : c.left.prog.over = false) :
    Serves (.program acts server ending draws) w
      (c.toLeft ++ output acts c.right.prog c.right.own c.toRight) := by
  have hserved := h.served hover []
  rw [List.append_nil, List.append_nil, List.append_assoc] at hserved
  exact hserved

/-- A step of the client is its operation on the wire. -/
theorem Facing.left (h : Facing acts server ending draws timeout p c w) {left : End SessionSig Stop β Nat}
    {rest written : List UInt8}
    (hending : ending = .closed ∨ c.right.prog.over = false)
    (hstep : advance (connActs draws) c.right.prog.over c.left c.toLeft = some (left, rest, written)) :
    ∃ w', Facing acts server ending draws timeout p
      { c with left, toLeft := rest, toRight := c.toRight ++ written } w' := by
  have hover := Duplex.not_over_of_advance hstep
  have hserves := h.serves hover
  have hserved := h.served hover
  have hrun := h.run
  have hdrawn := h.drawn
  rcases c with ⟨⟨prog, drawn⟩, right, toLeft, toRight⟩
  cases prog with
  | step o k =>
      simp only at hstep hserves hserved hrun hdrawn ⊢
      rw [run_step] at hrun
      simp only [advance] at hstep
      rcases connActs_cases draws (.program acts server ending draws) timeout o with
        ⟨n, rfl⟩ | ⟨bytes, rfl⟩ | ⟨n, rfl⟩ | ⟨r, hacts, hwire⟩
      · simp only [connActs] at hstep
        split at hstep
        · next hn =>
            cases hstep
            rw [← List.take_append_drop n toLeft, List.append_assoc] at hserves
            have hfill := wire_fill timeout hserves
            rw [List.length_take_of_le hn] at hfill
            rw [hfill] at hrun
            refine ⟨w.read (toLeft.take n), hrun, hdrawn, ?_, fun _ more => ?_⟩
            · simpa using h.sent
            · have hmore := hserved more
              rw [← List.take_append_drop n toLeft] at hmore
              simpa using hmore
        · next hn =>
            split at hstep
            · next hclosed =>
                cases hstep
                rw [output_over hclosed, List.append_nil] at hserves
                have hend := hending.resolve_right (by simp [hclosed])
                rw [wire_fill_closed timeout hserves hend (by omega)] at hrun
                refine ⟨w, hrun, hdrawn, by simpa using h.sent, fun _ more => ?_⟩
                simpa using hserved more
            · cases hstep
      · cases hstep
        have hwrite : wire (.program acts server ending draws) timeout (.write written) w =
            (.ok (), w.wrote written) := by
          have htakes : (Peer.program acts server ending draws).takesOf (w.sent ++ written) = w.sent ++ written := rfl
          simp only [wire, htakes, if_true]
          rfl
        rw [hwrite] at hrun
        refine ⟨w.wrote written, hrun, hdrawn, ?_, fun _ more => ?_⟩
        · obtain ⟨before, hbefore⟩ := h.sent
          exact ⟨before, by simp [← hbefore]⟩
        · simpa using hserved (written ++ more)
      · cases hstep
        subst hdrawn
        refine ⟨{ w with drawn := w.drawn + 1 }, hrun, rfl, by simpa using h.sent, fun _ more => ?_⟩
        simpa using hserved more
      · rw [hacts] at hstep
        cases hstep
        rw [hwire] at hrun
        refine ⟨w, hrun, hdrawn, by simpa using h.sent, fun _ more => ?_⟩
        simpa using hserved more
  | _ => cases hover

/-- A step of the server changes nothing of what it sends in all. -/
theorem Facing.right (h : Facing acts server ending draws timeout p c w) {right : End τ ε α L}
    {rest written : List UInt8}
    (hstep : advance acts c.left.prog.over c.right c.toRight = some (right, rest, written)) :
    Facing acts server ending draws timeout p
      { c with right, toRight := rest, toLeft := c.toLeft ++ written } w := by
  refine ⟨h.run, h.drawn, ?_, fun hover more => ?_⟩
  · exact (suffix_of_advance hstep).trans h.sent
  · rw [hover] at hstep
    rw [h.served hover more, output_advance hstep]
    simp

/-- The client is where it is on the wire, as long as it has not been told that
the server is over. -/
theorem facing_runs (hruns : Duplex.Runs (connActs draws) acts (connection p server) c)
    (hending : ending = .closed ∨ c.right.prog.over = false) :
    ∃ w, Facing acts server ending draws timeout p c w := by
  induction hruns with
  | refl =>
      refine ⟨.new, rfl, rfl, List.nil_suffix, fun _ more => ?_⟩
      simp [connection, Wire.new]
  | tail _ hstep ih =>
      have hbefore := hending.imp_right hstep.right_over
      obtain ⟨w, hw⟩ := ih hbefore
      cases hstep with
      | left hstep => exact hw.left hbefore hstep
      | right hstep => exact ⟨w, hw.right hstep⟩

end Facing

/-! ## A task that gives up -/

/-- A read that fails ends the task. -/
def GivesUp {β : Type} : Task β → Prop
  | .step (.fill _) k => (∀ e, k (.error e) = .fail e) ∧ ∀ bytes, GivesUp (k (.ok bytes))
  | .step _ k => ∀ r, GivesUp (k r)
  | _ => True

section GivesUp

variable {β γ : Type}

theorem GivesUp.bind {p : Task β} {f : β → Task γ} (hp : GivesUp p) (hf : ∀ b, GivesUp (f b)) :
    GivesUp (p >>= f) := by
  induction p with
  | ret b => exact hf b
  | fail e => trivial
  | step o k ih =>
      cases o with
      | fill n =>
          refine ⟨fun e => ?_, fun bytes => ih _ (hp.2 bytes)⟩
          change k (.error e) >>= f = _
          rw [hp.1 e, fail_bind]
      | _ => exact fun r => ih r (hp r)

theorem givesUp_fill (n : Nat) : GivesUp (fill n) := ⟨fun _ => rfl, fun _ => trivial⟩

theorem givesUp_ofExcept (out : Outcome β) : GivesUp (ofExcept out : Task β) := by
  cases out <;> trivial

theorem givesUp_write (bytes : List UInt8) : GivesUp (Conn.write bytes) :=
  fun done => givesUp_ofExcept done

theorem givesUp_u8 : GivesUp Conn.u8 := (givesUp_fill 1).bind (fun _ => givesUp_ofExcept _)

theorem givesUp_u16 : GivesUp Conn.u16 := (givesUp_fill 2).bind (fun _ => trivial)

theorem givesUp_u32 : GivesUp Conn.u32 := (givesUp_fill 4).bind (fun _ => trivial)

theorem givesUp_string (cap : Nat) : GivesUp (Conn.string cap) := by
  refine givesUp_u32.bind (fun len => ?_)
  split
  · exact givesUp_ofExcept _
  · exact (givesUp_fill _).bind (fun _ => trivial)

theorem givesUp_fillRandom (n : Nat) : GivesUp (fillRandom n) := by
  intro drawn
  cases drawn with
  | ok bytes => trivial
  | error e => exact trivial

/-- What is left of such a task is one. -/
theorem GivesUp.advance {draws : Nat → Except String (Nat → UInt8)} {closed : Bool}
    {e e' : End SessionSig Stop β Nat} {arrived rest written : List UInt8} (h : GivesUp e.prog)
    (hstep : Lib.advance (connActs draws) closed e arrived = some (e', rest, written)) :
    GivesUp e'.prog := by
  rcases e with ⟨prog, drawn⟩
  cases prog with
  | step o k =>
      have hk : ∀ r, GivesUp (k r) := by
        intro r
        cases o with
        | fill n =>
            cases r with
            | ok bytes => exact h.2 bytes
            | error e => exact h.1 e ▸ trivial
        | _ => exact h r
      have hsub := Duplex.sub_of_advance hstep
      generalize e'.prog = prog' at hsub ⊢
      cases hsub with
      | child _ _ r => exact hk r
  | _ => cases hstep

end GivesUp

section Handshake

variable (crypto : Crypto) (config : Config)

theorem givesUp_readVersion : GivesUp readVersion := by
  refine (givesUp_fill 12).bind (fun banner => ?_)
  split
  · trivial
  · split
    · trivial
    · exact (givesUp_write _).bind (fun _ => trivial)

theorem givesUp_readSecurity (minor : Nat) : GivesUp (readSecurity config minor) := by
  rw [readSecurity]
  split
  · refine givesUp_u8.bind (fun count => ?_)
    split
    · exact (givesUp_string _).bind (fun _ => trivial)
    · refine (givesUp_fill _).bind (fun offered => (givesUp_ofExcept _).bind (fun chosen => ?_))
      exact (givesUp_write _).bind (fun _ => trivial)
  · refine givesUp_u32.bind (fun type => ?_)
    split
    · exact (givesUp_string _).bind (fun _ => trivial)
    · dsimp only
      split <;> trivial

theorem givesUp_ardAuthenticate : GivesUp (ardAuthenticate crypto config) := by
  rw [ardAuthenticate]
  split
  · trivial
  · trivial
  · refine givesUp_u16.bind (fun generator => givesUp_u16.bind (fun keyLen => ?_))
    split
    · exact givesUp_ofExcept _
    · refine (givesUp_fill _).bind (fun prime => (givesUp_fill _).bind (fun serverPublic => ?_))
      refine (givesUp_fillRandom _).bind (fun private' => (givesUp_fillRandom _).bind (fun filler => ?_))
      refine (givesUp_ofExcept _).bind (fun response => ?_)
      cases response with
      | error e => exact givesUp_ofExcept _
      | ok payload => exact givesUp_write _

theorem givesUp_authenticate (minor : Nat) (chosen : UInt8) :
    GivesUp (authenticate crypto config minor chosen) := by
  rw [authenticate]
  split
  · exact (givesUp_ardAuthenticate crypto config).bind (fun _ => trivial)
  · split
    · rw [vncAuthenticate]
      cases config.password with
      | none => trivial
      | some password =>
          refine GivesUp.bind ?_ (fun _ => trivial)
          exact (givesUp_fill 16).bind (fun challenge => givesUp_write _)
    · trivial

theorem givesUp_readSecurityResult (minor : Nat) : GivesUp (readSecurityResult minor) := by
  refine givesUp_u32.bind (fun result => ?_)
  split
  · split
    · exact (givesUp_string _).bind (fun _ => trivial)
    · trivial
  · trivial

theorem givesUp_initialise : GivesUp (initialise config) := by
  refine (givesUp_write _).bind (fun _ => givesUp_u16.bind (fun width => ?_))
  refine givesUp_u16.bind (fun height => (givesUp_fill 16).bind (fun _ => ?_))
  refine (givesUp_string _).bind (fun name => (givesUp_write _).bind (fun _ => ?_))
  exact (givesUp_write _).bind (fun _ => trivial)

/-- The handshake never goes on after a read that failed. -/
theorem givesUp_handshake : GivesUp (handshake crypto config) := by
  refine givesUp_readVersion.bind (fun minor => ?_)
  refine (givesUp_readSecurity config minor).bind (fun chosen => ?_)
  refine (givesUp_authenticate crypto config minor chosen).bind (fun expected => ?_)
  split
  · exact (givesUp_readSecurityResult minor).bind (fun _ => givesUp_initialise config)
  · exact givesUp_initialise config

end Handshake

section Connected

variable {τ : Sig} {ε α β L : Type} {acts : Acts τ UInt8 L} {server : End τ ε α L}
  {draws : Nat → Except String (Nat → UInt8)} {p : Task β}
  {c : Duplex SessionSig Stop β Nat τ ε α L UInt8}

theorem givesUp_runs (hp : GivesUp p)
    (hruns : Duplex.Runs (connActs draws) acts (connection p server) c) : GivesUp c.left.prog := by
  induction hruns with
  | refl => exact hp
  | tail _ hstep ih =>
      cases hstep with
      | left hstep => exact ih.advance hstep
      | right hstep => exact ih

/-- A client that is over has ended as on the wire. -/
theorem ended_as_wire (timeout : Duration)
    (hruns : Duplex.Runs (connActs draws) acts (connection p server) c) {out : Outcome β}
    (hover : c.left.prog = ofExcept out) :
    (p.run (wire (.program acts server .closed draws) timeout) .new).1 = out := by
  obtain ⟨w, hw⟩ : ∃ w, Facing acts server .closed draws timeout p c w := facing_runs hruns (.inl rfl)
  rw [hw.run, hover]
  cases out <;> rfl

/-- A client that waits for ever for a server that waits too runs into the
timeout on the wire. -/
theorem waits_as_wire (timeout : Duration) (hp : GivesUp p)
    (hends : Duplex.Ends (connActs draws) acts (connection p server) c)
    (hover : c.left.prog.over = false) :
    c.right.prog.over = false ∧
      (p.run (wire (.program acts server .silent draws) timeout) .new).1 =
        .error (.err (.timeout timeout)) := by
  obtain ⟨hright, o, k, n, got, hprog, hacts, hn⟩ := Duplex.waits_of_advance hends.still.left hover
  refine ⟨hright, ?_⟩
  obtain ⟨w, hw⟩ : ∃ w, Facing acts server .silent draws timeout p c w :=
    facing_runs hends.runs (.inr hright)
  have hgives := givesUp_runs hp hends.runs
  -- the server does not go on either, so nothing more is to come
  have hserves := hw.serves hover
  obtain ⟨-, o', k', n', got', hprog', hacts', hn'⟩ :=
    Duplex.waits_of_advance hends.still.right hright
  have hnothing : output acts c.right.prog c.right.own c.toRight = [] := by
    rw [hprog', output, hacts']
    simp only
    rw [if_neg (by omega)]
  rw [hnothing, List.append_nil] at hserves
  rw [hw.run, hprog, run_step]
  rw [hprog] at hgives
  cases o with
  | fill m =>
      cases hacts
      have hfill : wire (.program acts server .silent draws) timeout (.fill n) w =
          (.error (.err (.timeout timeout)), w) := by
        simp only [wire]
        rw [hserves, List.drop_left, Peer.program, fillFrom, if_neg (by omega)]
      rw [hfill, hgives.1]
      rfl
  | _ => cases hacts

end Connected

/-- **The wire of the handshake is a connection**: whatever program the server
is, its operations and those of the client's handshake come to the same end in
whatever order they are taken. There the client has ended as `runHandshake`
says of what that server sends; or both ends wait for each other, and what
`runHandshake` says is that the time ran out. -/
theorem handshake_connected {τ : Sig} {ε α L : Type} (acts : Acts τ UInt8 L) (server : End τ ε α L)
    (crypto : Crypto) (config : Config) (draws : Nat → Except String (Nat → UInt8)) :
    ∃ e, (∀ c, Duplex.Runs (connActs draws) acts (connection (handshake crypto config) server) c →
        Duplex.Ends (connActs draws) acts c e) ∧
      ((∃ out, e.left.prog = ofExcept out ∧
          (runHandshake crypto config (.program acts server .closed draws)).1 = out) ∨
        (e.left.prog.over = false ∧ e.right.prog.over = false ∧
          (runHandshake crypto config (.program acts server .silent draws)).1 =
            .error (.err (.timeout config.timeout)))) := by
  obtain ⟨e, hends⟩ := Duplex.exists_ends (connActs draws) acts
    (connection (handshake crypto config) server)
  refine ⟨e, fun c hruns => hends.of_runs hruns, ?_⟩
  cases hprog : e.left.prog with
  | ret init => exact .inl ⟨.ok init, rfl, ended_as_wire config.timeout hends.runs hprog⟩
  | fail stop => exact .inl ⟨.error stop, rfl, ended_as_wire config.timeout hends.runs hprog⟩
  | step o k =>
      obtain ⟨hright, hrun⟩ := waits_as_wire config.timeout (givesUp_handshake crypto config) hends
        (by rw [hprog]; rfl)
      exact .inr ⟨rfl, hright, hrun⟩

end Bolide.Rfb
