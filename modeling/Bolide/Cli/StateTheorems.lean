/-
Bolide.Cli.StateTheorems — whom the state file names.

`session.json` is removed by its path, not by what was read there: a process
that has found an old file, or an old daemon at its end, can remove the file
of a daemon that has put its own in place since. `Ledger` is what has been
seen so far of a run. As long as every removal meets a file that its process
knows, or none, or that of a daemon that runs no more, the file names every
daemon that serves, but for the two ways a user gives it up.
-/
import Bolide.Cli.State

namespace Bolide.Cli

open Lib Prog Tasks

/-! ## What has been seen -/

/-- What is in the file's place, and the process that put it there, unless it
was there before all of them. -/
structure Placed where
  contents : Contents
  writer : Option Nat
  deriving DecidableEq, Repr

/-- What has been seen of a run so far. -/
structure Ledger where
  -- the file, and what each process found when it last read it
  file : Option Placed
  reads : Nat → Option Placed
  started : Nat → Bool
  ended : Nat → Bool
  -- has put its file in place, and not begun its final `clear_in`
  serving : Nat → Bool
  -- found no live session file, at a moment of its `load_in`
  cleared : Nat → Bool
  -- lost its file to a `disconnect` that had read it, or to a daemon that
  -- started while there was no live session file
  excused : Nat → Bool

namespace Ledger

def running (l : Ledger) (i : Nat) : Bool := l.started i && !l.ended i

/-- There is no state file of a running daemon. -/
def noSession (l : Ledger) : Bool :=
  match l.file with
  | some ⟨_, some j⟩ => !l.running j
  | _ => true

/-- The process that wrote the file is excused when `gives`. -/
def excuse (l : Ledger) (gives : Bool) (j : Nat) : Bool :=
  l.excused j || (gives && l.file.any (fun f => f.writer = some j))

/-- The ledger of no operations. -/
def new (first : Option Contents) : Ledger where
  file := first.map (fun contents => ⟨contents, none⟩)
  reads _ := none
  started _ := false
  ended _ := false
  serving _ := false
  cleared _ := false
  excused _ := false

/-- A moment of the `load_in` of `i`. -/
def looks (l : Ledger) (i j : Nat) : Bool := l.cleared j || (l.noSession && decide (j = i))

/-- A removal that `i` goes to make. -/
def removes (l : Ledger) (i : Nat) : Ledger :=
  { l with serving := Function.update l.serving i false, cleared := l.looks i }

variable (processes : List Process)

/-- One operation of process `i`. -/
def next (l : Ledger) (i : Nat) : (o : StateOp) → o.Resp → Ledger
  | .start, _ => { l with started := Function.update l.started i true }
  | .exit, _ => { l with ended := Function.update l.ended i true }
  | .crash victim, _ => { l with ended := Function.update l.ended victim true }
  | .read, _ => { l with reads := Function.update l.reads i l.file, cleared := l.looks i }
  | .remove, .removed =>
      { l.removes i with
        file := none
        excused := l.excuse
          (processes[i]?.any (fun p => p.job = .disconnect) && decide (l.reads i = l.file)) }
  | .remove, _ => l.removes i
  | .save own, .ok () =>
      { l with
        file := some ⟨.session own, some i⟩
        serving := Function.update l.serving i true
        excused := l.excuse (l.cleared i) }
  | _, _ => l

end Ledger

/-- What has been seen after a run. -/
def ledger (processes : List Process) (first : Option Contents) (t : List (Entry StateSig)) :
    Ledger :=
  t.foldl (fun l e => l.next processes e.task e.op e.answer) (.new first)

/-- Whether a process goes to remove the file. -/
def toRemove : StateTask Unit → Bool
  | .step .remove _ => true
  | _ => false

/-- A process that goes to remove the file meets its own, or what it read last,
or no file of a running daemon. -/
def Entitled (processes : List Process) (first : Option Contents) (t : List (Entry StateSig))
    (c : Tasks StateSig CliError Unit Host (Nat × Process)) (i : Nat) (_ : Luck) : Prop :=
  (c.tasks[i]?).any (fun task => toRemove task.1) = true →
    let l := ledger processes first t
    (∃ f ∈ l.file, f.writer = some i ∨ l.reads i = some f) ∨ l.noSession = true

instance (processes : List Process) (first : Option Contents) (t : List (Entry StateSig))
    (c : Tasks StateSig CliError Unit Host (Nat × Process)) (i : Nat) (luck : Luck) :
    Decidable (Entitled processes first t c i luck) :=
  inferInstanceAs (Decidable (_ → _))

/-- The file names every daemon that serves and runs, but for those excused. -/
def NamesDaemons (processes : List Process) (first : Option Contents)
    (t : List (Entry StateSig)) (c : Tasks StateSig CliError Unit Host (Nat × Process)) : Prop :=
  let l := ledger processes first t
  ∀ i process, processes[i]? = some process → l.serving i = true → l.running i = true →
    l.excused i = true ∨
      ∃ own, own.pid = process.pid ∧ l.file = some ⟨.session own, some i⟩ ∧
        c.shared.file = some (.session own)

/-! ## The roles of a process -/

/-- Where a process is. -/
inductive Point where
  | fresh
  | idle
  | judging (found : SessionState)
  | dropping
  | passed
  | holding
  | serving
  | done
  deriving DecidableEq, Repr

/-- A process, and where it is. -/
structure Role where
  process : Process
  point : Point

namespace Role

/-- Something that neither touches the file nor ends a process. -/
def Neutral : StateOp → Prop
  | .nap => True
  | .alive _ => True
  | .terminate _ => True
  | .spawn => True
  | .poll => True
  | .requireFfmpeg => True
  | .open => True
  | .waitForTheEnd => True
  | .finish => True
  | _ => False

/-- What a process may do where it is. -/
def may (role : Role) (o : StateOp) : Prop :=
  match role.point with
  | .fresh => o = .start ∨ ∃ victim, o = .crash victim
  | .idle => o = .read ∨ o = .exit
  | .judging found => o = .alive found.pid
  | .dropping => o = .remove
  | .passed => Neutral o ∨ o = .read ∨ o = .exit ∨
      ∃ own : SessionState, o = .save own ∧ own.pid = role.process.pid
  | .holding => Neutral o ∨ o = .read ∨ o = .exit ∨
      (o = .remove ∧ role.process.job = .disconnect)
  | .serving => Neutral o ∨ o = .remove ∨ o = .exit
  | .done => o = .exit

/-- Where a read leads. -/
def found : Option Contents → Point
  | none => .passed
  | some .unparsable => .dropping
  | some (.session found) => .judging found

/-- Where an operation leads. -/
def goes : Point → (o : StateOp) → o.Resp → Point
  | .fresh, .start, _ => .idle
  | _, .read, got => found got
  | .judging _, .alive _, alive => if alive = false then .dropping else .holding
  | .dropping, .remove, _ => .passed
  | _, .remove, _ => .done
  | _, .save _, .ok () => .serving
  | point, _, _ => point

/-- A process may exit, but for the two points within a `load_in`. -/
def MayExit (role : Role) : Prop := role.may .exit

def discipline : Discipline StateSig CliError Role where
  may := may
  answers _ _ _ := True
  next role o r := { role with point := goes role.point o r }
  fails role _ := role.MayExit

end Role

/-! ## Every process keeps its role -/

section Follows

variable {process : Process}

/-- An operation that leads from one point to another, and what follows it. -/
theorem follows_state {α : Type} {role : Role} {o : StateOp} {f : o.Resp → StateTask α}
    {Q : α → Role → Prop} (hmay : role.may o)
    (hf : ∀ r, Follows Role.discipline ⟨role.process, Role.goes role.point o r⟩ (f r) Q) :
    Follows Role.discipline role (state o >>= f) Q :=
  ⟨hmay, fun r _ => hf r⟩

/-- Where a process may look for a session. -/
def Point.Looks (point : Point) : Prop := point = .idle ∨ point = .passed ∨ point = .holding

theorem Point.Looks.may_read {point : Point} (h : point.Looks) : Role.may ⟨process, point⟩ .read := by
  rcases h with rfl | rfl | rfl
  · exact .inl rfl
  · exact .inr (.inl rfl)
  · exact .inr (.inl rfl)

/-- What `load_in` found. -/
def Point.loaded : Option SessionState → Point
  | none => .passed
  | some _ => .holding

theorem loadIn_follows {point : Point} (h : point.Looks) :
    Follows Role.discipline ⟨process, point⟩ loadIn
      (fun loaded role => role = ⟨process, Point.loaded loaded⟩) := by
  refine follows_state h.may_read fun raw => ?_
  have hread : Role.goes point .read raw = Role.found raw := by
    rcases h with rfl | rfl | rfl <;> rfl
  rw [hread]
  match raw with
  | none => exact rfl
  | some .unparsable => exact follows_state rfl fun _ => rfl
  | some (.session found) =>
      refine follows_state rfl fun alive => ?_
      cases alive with
      | false => exact follows_state rfl fun _ => rfl
      | true => exact rfl

/-- Something neutral, at a point where that may be done. -/
def Point.Works (point : Point) : Prop := point = .passed ∨ point = .holding ∨ point = .serving

theorem follows_neutral {α : Type} {point : Point} {o : StateOp} {f : o.Resp → StateTask α}
    {Q : α → Role → Prop} (hpoint : point.Works) (ho : Role.Neutral o)
    (hf : ∀ r, Follows Role.discipline ⟨process, point⟩ (f r) Q) :
    Follows Role.discipline ⟨process, point⟩ (state o >>= f) Q := by
  have hmay : Role.may ⟨process, point⟩ o := by
    rcases hpoint with rfl | rfl | rfl
    · exact .inl ho
    · exact .inl ho
    · exact .inl ho
  refine follows_state hmay fun r => ?_
  have hstays : Role.goes point o r = point := by
    rcases hpoint with rfl | rfl | rfl <;> cases o <;> first | rfl | exact ho.elim
  rw [hstays]
  exact hf r

theorem mayExit_passed : Role.MayExit ⟨process, .passed⟩ := .inr (.inr (.inl rfl))

theorem mayExit_holding : Role.MayExit ⟨process, .holding⟩ := .inr (.inr (.inl rfl))

theorem mayExit_of_loaded {role : Role}
    (h : role = ⟨process, .passed⟩ ∨ role = ⟨process, .holding⟩) : role.MayExit := by
  rcases h with rfl | rfl
  · exact mayExit_passed
  · exact mayExit_holding

theorem awaitDeath_follows (pid : UInt32) : ∀ n,
    Follows Role.discipline ⟨process, .holding⟩ (awaitDeath pid n)
      (fun _ role => role = ⟨process, .holding⟩)
  | 0 => rfl
  | n + 1 => by
      refine follows_neutral (.inr (.inl rfl)) trivial fun alive => ?_
      split
      · exact rfl
      · exact follows_neutral (.inr (.inl rfl)) trivial fun _ => awaitDeath_follows pid n

/-- The end of `disconnect`. -/
theorem disconnect_clears (hjob : process.job = .disconnect) (pid : UInt32) :
    Follows Role.discipline ⟨process, .holding⟩ (do
      awaitDeath pid 200
      let cleared ← clearIn
      match cleared with
      | .error e => Prog.fail (.failure s!"could not clear the state file: {e}")
      | .ok () => pure () : StateTask Unit) (fun _ role => role.MayExit) := by
  refine follows_bind (awaitDeath_follows _ _) fun _ role hrole => ?_
  subst hrole
  refine follows_state (.inr (.inr (.inr ⟨rfl, hjob⟩))) fun removal => ?_
  cases removal with
  | removed => exact rfl
  | notFound => exact rfl
  | failed e => exact rfl

theorem disconnect_follows (hjob : process.job = .disconnect) :
    Follows Role.discipline ⟨process, .idle⟩ disconnect (fun _ role => role.MayExit) := by
  refine follows_bind (loadIn_follows (.inl rfl)) fun loaded role hrole => ?_
  subst hrole
  cases loaded with
  | none => exact mayExit_passed
  | some found =>
      refine follows_neutral (.inr (.inl rfl)) trivial fun killed => ?_
      cases killed with
      | failed e => exact mayExit_holding
      | sent => exact disconnect_clears hjob found.pid
      | noSuchProcess => exact disconnect_clears hjob found.pid

theorem serveForegroundAt_follows {own : SessionState} (hpid : own.pid = process.pid) :
    Follows Role.discipline ⟨process, .passed⟩ (serveForegroundAt own)
      (fun _ role => role.MayExit) := by
  refine follows_neutral (.inl rfl) trivial fun opened => ?_
  cases opened with
  | error e => exact mayExit_passed
  | ok _ =>
      refine follows_state (.inr (.inr (.inr ⟨own, rfl, hpid⟩))) fun saved => ?_
      cases saved with
      | error e => exact mayExit_passed
      | ok _ =>
          refine follows_neutral (.inr (.inr rfl)) trivial fun _ =>
            follows_neutral (.inr (.inr rfl)) trivial fun _ => ?_
          refine follows_state (.inr (.inl rfl)) fun removal => ?_
          cases removal with
          | removed => exact rfl
          | notFound => exact rfl
          | failed e => exact rfl

theorem ours_follows {point : Point} (h : point.Looks) (childPid : UInt32) :
    Follows Role.discipline ⟨process, point⟩ (ours childPid)
      (fun _ role => role = ⟨process, .passed⟩ ∨ role = ⟨process, .holding⟩) := by
  refine follows_bind (loadIn_follows h) fun loaded role hrole => ?_
  subst hrole
  cases loaded with
  | none => exact .inl rfl
  | some found => exact .inr rfl

theorem awaitStartup_follows (childPid : UInt32) : ∀ (n : Nat) {point : Point},
    point = .passed ∨ point = .holding →
    Follows Role.discipline ⟨process, point⟩ (awaitStartup childPid n)
      (fun _ role => role.MayExit)
  | 0, point, hpoint => by
      show Role.MayExit ⟨process, point⟩
      rcases hpoint with rfl | rfl
      · exact mayExit_passed
      · exact mayExit_holding
  | n + 1, point, hpoint => by
      have hlooks : point.Looks := .inr hpoint
      refine follows_bind (ours_follows hlooks childPid) fun mine role hrole => ?_
      cases mine with
      | some found => exact mayExit_of_loaded hrole
      | none =>
          obtain ⟨point', rfl, hpoint'⟩ :
              ∃ point', role = ⟨process, point'⟩ ∧ (point' = .passed ∨ point' = .holding) := by
            rcases hrole with rfl | rfl
            · exact ⟨_, rfl, .inl rfl⟩
            · exact ⟨_, rfl, .inr rfl⟩
          have hexit : Role.MayExit ⟨process, point'⟩ := mayExit_of_loaded hrole
          have hworks : point'.Works := hpoint'.imp id .inl
          refine follows_neutral hworks trivial fun status => ?_
          match status with
          | .error e => exact hexit
          | .ok (.exited code) =>
              refine follows_bind (ours_follows (.inr hpoint') childPid) fun mine role hrole => ?_
              cases mine with
              | some found => exact mayExit_of_loaded hrole
              | none => exact mayExit_of_loaded hrole
          | .ok .running =>
              exact follows_neutral hworks trivial fun _ => awaitStartup_follows childPid n hpoint'

theorem connect_follows {own : SessionState} (hpid : own.pid = process.pid) (foreground : Bool) :
    Follows Role.discipline ⟨process, .idle⟩ (connect own foreground)
      (fun _ role => role.MayExit) := by
  refine follows_bind (loadIn_follows (.inl rfl)) fun loaded role hrole => ?_
  subst hrole
  cases loaded with
  | some found => exact mayExit_holding
  | none =>
      refine follows_neutral (.inl rfl) trivial fun encoder => ?_
      cases encoder with
      | error e => exact mayExit_passed
      | ok _ =>
          cases foreground with
          | true => exact serveForegroundAt_follows hpid
          | false =>
              refine follows_neutral (.inl rfl) trivial fun spawned => ?_
              cases spawned with
              | error e => exact mayExit_passed
              | ok childPid =>
                  exact follows_bind (awaitStartup_follows childPid 600 (.inl rfl))
                    fun _ _ hrole => hrole

theorem command_follows :
    Follows Role.discipline ⟨process, .idle⟩ command (fun _ role => role.MayExit) := by
  refine follows_bind (loadIn_follows (.inl rfl)) fun loaded role hrole => ?_
  subst hrole
  cases loaded with
  | none => exact mayExit_passed
  | some found => exact mayExit_holding

/-- A whole process, from its start to its exit. -/
theorem lifetime_follows {body : StateTask Unit}
    (hbody : Follows Role.discipline ⟨process, .idle⟩ body (fun _ role => role.MayExit)) :
    Follows Role.discipline ⟨process, .fresh⟩ (lifetime body) (fun _ _ => True) := by
  refine follows_state (.inl rfl) fun _ => ?_
  show Follows Role.discipline ⟨process, .idle⟩ _ _
  refine follows_bind (follows_attempt hbody (R := fun _ role => role.MayExit)
    (Q := fun _ role => role.MayExit) (fun _ _ h => h) (fun _ _ h => h)) fun _ role hexit => ?_
  exact ⟨hexit, fun _ _ => trivial⟩

theorem task_follows (process : Process) :
    Follows Role.discipline ⟨process, .fresh⟩ process.task (fun _ _ => True) := by
  unfold Process.task
  split
  · exact lifetime_follows command_follows
  · next hjob => exact lifetime_follows (disconnect_follows hjob)
  · exact lifetime_follows (connect_follows rfl _)
  · exact ⟨.inr ⟨_, rfl⟩, fun _ _ => trivial⟩

end Follows

/-! ## The invariant -/

/-- What a process has read is the file of no process that may still run. -/
def Ledger.Stale (l : Ledger) (i : Nat) : Prop :=
  ∀ f j, l.reads i = some f → f.writer = some j → l.ended j = true

/-- What the ledger says of a process at a point. -/
def Ledger.At (l : Ledger) (i : Nat) : Point → Prop
  | .judging found => ∃ f, l.reads i = some f ∧ f.contents = .session found
  | .dropping => l.Stale i
  | .passed => l.cleared i = true ∧ l.Stale i
  | .serving => l.Stale i
  | _ => True

/-- A process that has put its file in place. -/
def Point.Saved (point : Point) : Prop := point = .serving ∨ point = .done

/-- What is known of a file that is in place, or was read. -/
structure Ledger.Known (processes : List Process) (γ : Nat → Role) (l : Ledger) (f : Placed)
    (j : Nat) : Prop where
  started : l.started j = true
  saved : (γ j).point.Saved
  named : ∃ own process, f.contents = .session own ∧ own.pid = process.pid ∧
    processes[j]? = some process

/-- What the ledger and the roles of the processes say of each other. -/
structure Ledger.Sane (processes : List Process) (γ : Nat → Role) (l : Ledger) : Prop where
  begun : ∀ i, l.started i = true → (γ i).point ≠ .fresh
  ends : ∀ i, l.ended i = true → l.started i = true
  placed : ∀ f j, l.file = some f → f.writer = some j → l.Known processes γ f j
  seen : ∀ i f j, l.reads i = some f → f.writer = some j → l.Known processes γ f j
  at_ : ∀ i, l.At i (γ i).point
  serving : ∀ i, l.serving i = true → (γ i).point = .serving
  names : ∀ i, l.serving i = true → l.running i = true →
    l.excused i = true ∨ ∃ f, l.file = some f ∧ f.writer = some i

section Steps

variable {processes : List Process} {γ : Nat → Role} {l : Ledger} {i : Nat}

theorem Ledger.running_eq : l.running i = true ↔ l.started i = true ∧ l.ended i = false := by
  simp [Ledger.running]

/-- Only one role moves. -/
theorem point_moved (o : StateOp) (r : o.Resp) (j : Nat) :
    (moved Role.discipline γ i o r j).point =
      if j = i then Role.goes (γ i).point o r else (γ j).point := by
  by_cases hj : j = i
  · subst hj
    rw [moved_self, if_pos rfl]
    rfl
  · rw [moved_of_ne _ _ hj, if_neg hj]

/-- A process that has put its file in place stays one that has. -/
theorem Point.Saved.goes {process : Process} {point : Point} (h : point.Saved) {o : StateOp}
    (hmay : Role.may ⟨process, point⟩ o) (r : o.Resp) : (Role.goes point o r).Saved := by
  rcases h with rfl | rfl
  · rcases hmay with hneutral | rfl | rfl
    · cases o <;> first | exact .inl rfl | exact hneutral.elim
    · exact .inr rfl
    · exact .inl rfl
  · cases hmay
    exact .inr rfl

/-- What was put in place stays known, whatever a process does. -/
theorem Ledger.Known.moved {l' : Ledger} {f : Placed} {j : Nat} (h : l.Known processes γ f j)
    {o : StateOp} (hmay : (γ i).may o) (r : o.Resp)
    (hstarted : ∀ j, l.started j = true → l'.started j = true) :
    l'.Known processes (Tasks.moved Role.discipline γ i o r) f j := by
  refine ⟨hstarted j h.started, ?_, h.named⟩
  rw [point_moved]
  split
  · next hj =>
      subst hj
      exact h.saved.goes hmay r
  · exact h.saved

/-- What holds of a process stays, when others have done something. -/
theorem Ledger.At.mono {l' : Ledger} {j : Nat} {point : Point} (h : l.At j point)
    (hreads : l'.reads j = l.reads j) (hcleared : l.cleared j = true → l'.cleared j = true)
    (hended : ∀ k, l.ended k = true → l'.ended k = true) : l'.At j point := by
  have hstale : l.Stale j → l'.Stale j := by
    intro hstale f k hf hk
    rw [hreads] at hf
    exact hended k (hstale f k hf hk)
  cases point with
  | judging found =>
      obtain ⟨f, hf, hfound⟩ := h
      exact ⟨f, hreads ▸ hf, hfound⟩
  | dropping => exact hstale h
  | passed => exact ⟨hcleared h.1, hstale h.2⟩
  | serving => exact hstale h
  | _ => trivial

/-- One operation of process `i`, by what it changes. -/
theorem Ledger.Sane.step (h : l.Sane processes γ) {o : StateOp} (hmay : (γ i).may o) (r : o.Resp)
    {l' : Ledger}
    (hstarted : ∀ j, l.started j = true → l'.started j = true)
    (hstarted' : ∀ j, j ≠ i → l'.started j = true → l.started j = true)
    (hended : ∀ j, l.ended j = true → l'.ended j = true)
    (hends : ∀ j, l'.ended j = true → l'.started j = true)
    (hreads : ∀ j, j ≠ i → l'.reads j = l.reads j)
    (hcleared : ∀ j, l.cleared j = true → l'.cleared j = true)
    (hserving : ∀ j, j ≠ i → l'.serving j = true → l.serving j = true)
    (hplaced : ∀ f j, l'.file = some f → f.writer = some j →
      l.file = some f ∨ l'.Known processes (moved Role.discipline γ i o r) f j)
    (hseen : ∀ f, l'.reads i = some f → l.reads i = some f ∨ l.file = some f)
    (hbegun : l'.started i = true → Role.goes (γ i).point o r ≠ .fresh)
    (hat : l'.At i (Role.goes (γ i).point o r))
    (hserves : l'.serving i = true → Role.goes (γ i).point o r = .serving)
    (hnames : ∀ j, l'.serving j = true → l'.running j = true →
      l'.excused j = true ∨ ∃ f, l'.file = some f ∧ f.writer = some j) :
    l'.Sane processes (moved Role.discipline γ i o r) := by
  refine ⟨fun j hj => ?_, hends, fun f j hf hj => ?_, fun k f j hf hj => ?_, fun j => ?_,
    fun j hj => ?_, hnames⟩
  · rw [point_moved]
    split
    · next heq => exact hbegun (heq ▸ hj)
    · next hne => exact h.begun j (hstarted' j hne hj)
  · rcases hplaced f j hf hj with hold | hnew
    · exact (h.placed f j hold hj).moved hmay r hstarted
    · exact hnew
  · by_cases hk : k = i
    · subst hk
      rcases hseen f hf with hold | hfile
      · exact (h.seen k f j hold hj).moved hmay r hstarted
      · exact (h.placed f j hfile hj).moved hmay r hstarted
    · rw [hreads k hk] at hf
      exact (h.seen k f j hf hj).moved hmay r hstarted
  · rw [point_moved]
    split
    · next heq => exact heq ▸ hat
    · next hne => exact (h.at_ j).mono (hreads j hne) (hcleared j) hended
  · rw [point_moved]
    split
    · next heq => exact hserves (heq ▸ hj)
    · next hne => exact h.serving j (hserving j hne hj)

/-- An operation that changes nothing of the ledger. -/
theorem Ledger.Sane.same (h : l.Sane processes γ) {o : StateOp} (hmay : (γ i).may o) (r : o.Resp)
    (hbegun : l.started i = true → Role.goes (γ i).point o r ≠ .fresh)
    (hat : l.At i (Role.goes (γ i).point o r))
    (hserves : l.serving i = true → Role.goes (γ i).point o r = .serving) :
    l.Sane processes (moved Role.discipline γ i o r) :=
  h.step hmay r (fun _ => id) (fun _ _ => id) (fun _ => id) h.ends (fun _ _ => rfl) (fun _ => id)
    (fun _ _ => id) (fun _ _ hf _ => .inl hf) (fun _ => .inl) hbegun hat hserves h.names

/-- No file, or one of a process that does not run. -/
theorem Ledger.noSession_iff : l.noSession = true ↔
    ∀ f j, l.file = some f → f.writer = some j → l.running j = false := by
  unfold Ledger.noSession
  split
  · next contents j hfile =>
      rw [Bool.not_eq_true']
      constructor
      · intro hrunning f j' hf hj'
        rw [hfile] at hf
        cases hf
        cases hj'
        exact hrunning
      · intro hall
        exact hall _ j hfile rfl
  · next hnone =>
      simp only [true_iff]
      intro f j hf hj
      obtain ⟨contents, writer⟩ := f
      exact absurd (hj ▸ hf) (hnone contents j)

theorem Ledger.excuse_mono (gives : Bool) {j : Nat} (h : l.excused j = true) :
    l.excuse gives j = true := by
  rw [Ledger.excuse, h, Bool.true_or]

theorem Ledger.excuse_writer {f : Placed} {j : Nat} (hf : l.file = some f)
    (hj : f.writer = some j) : l.excuse true j = true := by
  simp [Ledger.excuse, hf, hj]

theorem Ledger.looks_mono (i : Nat) {j : Nat} (h : l.cleared j = true) : l.looks i j = true := by
  rw [Ledger.looks, h, Bool.true_or]

theorem Ledger.looks_self (h : l.noSession = true) : l.looks i i = true := by
  simp [Ledger.looks, h]

/-! ## One operation -/

/-- A process that starts. -/
theorem Ledger.Sane.start (h : l.Sane processes γ) (hmay : (γ i).may .start) :
    (l.next processes i .start ()).Sane processes (moved Role.discipline γ i .start ()) := by
  have hfresh : (γ i).point = .fresh := by
    unfold Role.may at hmay
    cases hpoint : (γ i).point <;> rw [hpoint] at hmay <;> simp [Role.Neutral] at hmay ⊢
  have hgoes : Role.goes (γ i).point .start () = .idle := by rw [hfresh]; rfl
  have hother : ∀ j, j ≠ i → Function.update l.started i true j = l.started j :=
    fun j hj => Function.update_of_ne hj _ _
  have hstarted : ∀ j, l.started j = true → Function.update l.started i true j = true := by
    intro j hj
    by_cases hji : j = i
    · rw [hji, Function.update_self]
    · rw [hother j hji]
      exact hj
  refine h.step hmay () hstarted (fun j hj hs => hother j hj ▸ hs) (fun _ => id)
    (fun j hj => hstarted j (h.ends j hj)) (fun _ _ => rfl) (fun _ => id) (fun _ _ => id)
    (fun _ _ hf _ => .inl hf) (fun _ => .inl) (fun _ => ?_) ?_ (fun hs => ?_) (fun j hs hr => ?_)
  · rw [hgoes]
    exact nofun
  · rw [hgoes]
    trivial
  · exact absurd (h.serving i hs) (by rw [hfresh]; exact nofun)
  · by_cases hji : j = i
    · exact absurd (h.serving i (hji ▸ hs)) (by rw [hfresh]; exact nofun)
    · refine h.names j hs ?_
      rw [Ledger.running_eq] at hr ⊢
      exact ⟨hother j hji ▸ hr.1, hr.2⟩

/-- A process that ends, by its own exit or by a crash. -/
theorem Ledger.Sane.ending (h : l.Sane processes γ) {o : StateOp} (hmay : (γ i).may o)
    (r : o.Resp) (hgoes : Role.goes (γ i).point o r = (γ i).point) {victim : Nat}
    (hvictim : l.running victim = true) :
    ({ l with ended := Function.update l.ended victim true } : Ledger).Sane processes
      (moved Role.discipline γ i o r) := by
  have hended : ∀ j, l.ended j = true → Function.update l.ended victim true j = true := by
    intro j hj
    by_cases hjv : j = victim
    · rw [hjv, Function.update_self]
    · rw [Function.update_of_ne hjv]
      exact hj
  refine h.step hmay r (fun _ => id) (fun _ _ => id) hended (fun j hj => ?_) (fun _ _ => rfl)
    (fun _ => id) (fun _ _ => id) (fun _ _ hf _ => .inl hf) (fun _ => .inl) (fun hs => ?_) ?_
    (fun hs => ?_) (fun j hs hr => ?_)
  · by_cases hjv : j = victim
    · rw [hjv]
      exact (Ledger.running_eq.mp hvictim).1
    · refine h.ends j ?_
      rw [← hj]
      exact (Function.update_of_ne hjv _ _).symm
  · rw [hgoes]
    exact h.begun i hs
  · rw [hgoes]
    exact (h.at_ i).mono rfl id hended
  · rw [hgoes]
    exact h.serving i hs
  · refine h.names j hs ?_
    rw [Ledger.running_eq] at hr ⊢
    have hnot : Function.update l.ended victim true j = false := hr.2
    refine ⟨hr.1, ?_⟩
    by_contra hne
    rw [Bool.not_eq_false] at hne
    rw [hended j hne] at hnot
    cases hnot

/-- What a process knows of the file it has just read. -/
theorem Ledger.Sane.found (h : l.Sane processes γ) {l' : Ledger} (hreads : l'.reads i = l.file)
    (hcleared : l.noSession = true → l'.cleared i = true) :
    l'.At i (Role.found (l.file.map Placed.contents)) := by
  cases hfile : l.file with
  | none =>
      rw [hfile] at hreads
      have hnone : l.noSession = true := by
        rw [Ledger.noSession_iff, hfile]
        exact nofun
      refine ⟨hcleared hnone, fun f j hf => ?_⟩
      rw [hreads] at hf
      cases hf
  | some f =>
      rw [hfile] at hreads
      obtain ⟨contents, writer⟩ := f
      cases contents with
      | unparsable =>
          intro f j hf hj
          rw [hreads] at hf
          cases hf
          obtain ⟨own, process, hown, -⟩ := (h.placed _ j hfile hj).named
          cases hown
      | session found => exact ⟨_, hreads, rfl⟩

/-- A process that reads the file. -/
theorem Ledger.Sane.read (h : l.Sane processes γ) (hmay : (γ i).may .read) :
    (l.next processes i .read (l.file.map Placed.contents)).Sane processes
      (moved Role.discipline γ i .read (l.file.map Placed.contents)) := by
  have hlooks : (γ i).point.Looks := by
    unfold Role.may at hmay
    cases hpoint : (γ i).point <;> rw [hpoint] at hmay <;>
      simp [Role.Neutral, Point.Looks] at hmay ⊢
  have hgoes : Role.goes (γ i).point .read (l.file.map Placed.contents) =
      Role.found (l.file.map Placed.contents) := by
    rcases hlooks with hp | hp | hp <;> rw [hp] <;> rfl
  have hreads : (l.next processes i .read (l.file.map Placed.contents)).reads i = l.file :=
    Function.update_self _ _ _
  refine h.step hmay _ (fun _ => id) (fun _ _ => id) (fun _ => id) h.ends
    (fun j hj => Function.update_of_ne hj _ _) (fun j hj => Ledger.looks_mono i hj) (fun _ _ => id)
    (fun _ _ hf _ => .inl hf) (fun f hf => .inr (hreads ▸ hf)) (fun _ => ?_) ?_ (fun hs => ?_)
    (fun j => h.names j)
  · rw [hgoes]
    match l.file with
    | none => exact nofun
    | some ⟨.unparsable, _⟩ => exact nofun
    | some ⟨.session _, _⟩ => exact nofun
  · rw [hgoes]
    exact h.found hreads Ledger.looks_self
  · have hp := h.serving i hs
    rcases hlooks with hp' | hp' | hp' <;> rw [hp] at hp' <;> cases hp'

/-- A process that asks whether the daemon of a file it has read is there. -/
theorem Ledger.Sane.judge (h : l.Sane processes γ) {found : SessionState}
    (hpoint : (γ i).point = .judging found) (alive : Bool)
    (hgone : alive = false → ∀ j process, processes[j]? = some process →
      process.pid = found.pid → l.running j = false) :
    l.Sane processes (moved Role.discipline γ i (.alive found.pid) alive) := by
  have hmay : (γ i).may (.alive found.pid) := by
    unfold Role.may
    rw [hpoint]
  have hgoes : Role.goes (γ i).point (.alive found.pid) alive =
      if alive = false then .dropping else .holding := by rw [hpoint]; rfl
  refine h.same hmay alive (fun _ => ?_) ?_ (fun hs => ?_)
  · rw [hgoes]
    split <;> exact nofun
  · rw [hgoes]
    split
    · next hdead =>
        obtain ⟨f, hf, hfound⟩ : ∃ f, l.reads i = some f ∧ f.contents = .session found := by
          have hat := h.at_ i
          rwa [hpoint] at hat
        intro f' j hf' hj
        rw [hf] at hf'
        cases hf'
        obtain ⟨hstarted, -, own, process, hown, hpid, hprocess⟩ := h.seen i f j hf hj
        rw [hfound] at hown
        cases hown
        have hrunning := hgone hdead j process hprocess hpid.symm
        by_contra hended
        rw [Bool.not_eq_true] at hended
        rw [Ledger.running_eq.mpr ⟨hstarted, hended⟩] at hrunning
        cases hrunning
    · trivial
  · have hp := h.serving i hs
    rw [hpoint] at hp
    cases hp

/-- What a process that goes to remove the file may take from whom: a process
that runs loses its file only to itself, or to a `disconnect` that read it. -/
theorem Ledger.Sane.takes (h : l.Sane processes γ) (hmay : (γ i).may .remove)
    (hentitled : (∃ f, l.file = some f ∧ (f.writer = some i ∨ l.reads i = some f)) ∨
      l.noSession = true) {f : Placed} {j : Nat} (hf : l.file = some f) (hj : f.writer = some j)
    (hrunning : l.running j = true) (hne : j ≠ i) :
    (γ i).process.job = .disconnect ∧ l.reads i = l.file := by
  obtain ⟨-, hended⟩ := Ledger.running_eq.mp hrunning
  have hstale : l.Stale i → l.reads i ≠ some f := by
    intro hstale hread
    rw [hstale f j hread hj] at hended
    cases hended
  rcases hentitled with ⟨f', hf', hown | hread⟩ | hnone
  · rw [hf] at hf'
    cases hf'
    rw [hj] at hown
    cases hown
    exact absurd rfl hne
  · rw [hf] at hf'
    cases hf'
    have hat := h.at_ i
    unfold Role.may at hmay
    cases hpoint : (γ i).point with
    | dropping =>
        rw [hpoint] at hat
        exact absurd hread (hstale hat)
    | serving =>
        rw [hpoint] at hat
        exact absurd hread (hstale hat)
    | holding =>
        rw [hpoint] at hmay
        obtain hneutral | hcase | hcase | ⟨-, hjob⟩ := hmay
        · exact hneutral.elim
        · cases hcase
        · cases hcase
        · exact ⟨hjob, hread.trans hf.symm⟩
    | _ => rw [hpoint] at hmay; simp [Role.Neutral] at hmay
  · rw [Ledger.noSession_iff.mp hnone f j hf hj] at hrunning
    cases hrunning

/-- A process in its `load_in` that goes to remove the file finds no live session. -/
theorem Ledger.Sane.drops (h : l.Sane processes γ) (hpoint : (γ i).point = .dropping)
    (hentitled : (∃ f, l.file = some f ∧ (f.writer = some i ∨ l.reads i = some f)) ∨
      l.noSession = true) : l.noSession = true := by
  rcases hentitled with ⟨f, hf, hcase⟩ | hnone
  · rw [Ledger.noSession_iff]
    intro f' j hf' hj
    rw [hf] at hf'
    cases hf'
    rcases hcase with hown | hread
    · rw [hj] at hown
      cases hown
      have hsaved := (h.placed f _ hf hj).saved
      rw [hpoint] at hsaved
      rcases hsaved with hp | hp <;> cases hp
    · have hat := h.at_ i
      rw [hpoint] at hat
      by_contra hrunning
      rw [Bool.not_eq_false] at hrunning
      have hended := hat f j hread hj
      rw [(Ledger.running_eq.mp hrunning).2] at hended
      cases hended
  · exact hnone

/-- A process that goes to remove the file. -/
theorem Ledger.Sane.remove (h : l.Sane processes γ) (hmay : (γ i).may .remove) (r : Removal)
    (hprocess : processes[i]? = some (γ i).process)
    (hentitled : (∃ f, l.file = some f ∧ (f.writer = some i ∨ l.reads i = some f)) ∨
      l.noSession = true) :
    (l.next processes i .remove r).Sane processes (moved Role.discipline γ i .remove r) := by
  have hother : ∀ j, j ≠ i → Function.update l.serving i false j = l.serving j :=
    fun j hj => Function.update_of_ne hj _ _
  have hself : Function.update l.serving i false i = false := Function.update_self _ _ _
  have hgoes : Role.goes (γ i).point .remove r = .passed ∧ (γ i).point = .dropping ∨
      Role.goes (γ i).point .remove r = .done := by
    cases hpoint : (γ i).point with
    | dropping => exact .inl ⟨rfl, rfl⟩
    | _ => exact .inr rfl
  -- what does not depend on whether the file was removed
  have hstep : ∀ l' : Ledger, l'.started = l.started → l'.ended = l.ended → l'.reads = l.reads →
      l'.serving = Function.update l.serving i false → l'.cleared = l.looks i →
      (∀ f, l'.file = some f → l.file = some f) →
      (∀ j, l'.serving j = true → l'.running j = true →
        l'.excused j = true ∨ ∃ f, l'.file = some f ∧ f.writer = some j) →
      l'.Sane processes (moved Role.discipline γ i .remove r) := by
    intro l' hstarted hended hreads hserving hcleared hfile hnames
    refine h.step hmay r (fun j => by rw [hstarted]; exact id) (fun j _ => by rw [hstarted]; exact id)
      (fun j => by rw [hended]; exact id)
      (fun j hj => by rw [hended] at hj; rw [hstarted]; exact h.ends j hj)
      (fun j _ => by rw [hreads]) (fun j hj => by rw [hcleared]; exact Ledger.looks_mono i hj)
      (fun j hj hs => by rw [hserving, hother j hj] at hs; exact hs) (fun f _ hf _ => .inl (hfile f hf))
      (fun f hf => by rw [hreads] at hf; exact .inl hf) (fun _ => ?_) ?_ (fun hs => ?_) hnames
    · rcases hgoes with ⟨hgoes, -⟩ | hgoes <;> rw [hgoes] <;> exact nofun
    · rcases hgoes with ⟨hgoes, hpoint⟩ | hgoes
      · rw [hgoes]
        have hat := h.at_ i
        rw [hpoint] at hat
        refine ⟨by rw [hcleared]; exact Ledger.looks_self (h.drops hpoint hentitled), ?_⟩
        intro f j hf hj
        rw [hreads] at hf
        rw [hended]
        exact hat f j hf hj
      · rw [hgoes]
        trivial
    · rw [hserving, hself] at hs
      cases hs
  have hserves : ∀ j, Function.update l.serving i false j = true → j ≠ i ∧ l.serving j = true := by
    intro j hs
    by_cases hj : j = i
    · rw [hj, hself] at hs
      cases hs
    · exact ⟨hj, hother j hj ▸ hs⟩
  have hkeeps : (l.removes i).Sane processes (moved Role.discipline γ i .remove r) :=
    hstep _ rfl rfl rfl rfl rfl (fun _ => id) fun j hs hr => h.names j (hserves j hs).2 hr
  cases r with
  | notFound => exact hkeeps
  | failed e => exact hkeeps
  | removed =>
      refine hstep _ rfl rfl rfl rfl rfl (fun _ hf => by cases hf) fun j hs hr => .inl ?_
      obtain ⟨hj, hs⟩ := hserves j hs
      rcases h.names j hs hr with hexcused | ⟨f, hf, hwriter⟩
      · exact Ledger.excuse_mono _ hexcused
      · obtain ⟨hjob, hread⟩ := h.takes hmay hentitled hf hwriter hr hj
        have hgives : (processes[i]?.any (fun p => p.job = .disconnect) &&
            decide (l.reads i = l.file)) = true := by
          rw [hprocess]
          simp [hjob, hread]
        show l.excuse (processes[i]?.any (fun p => p.job = .disconnect) &&
            decide (l.reads i = l.file)) j = true
        rw [hgives]
        exact Ledger.excuse_writer hf hwriter

/-- A daemon that puts its file in place. -/
theorem Ledger.Sane.save (h : l.Sane processes γ) {own : SessionState} (hmay : (γ i).may (.save own))
    (r : Except String Unit) (hprocess : processes[i]? = some (γ i).process)
    (hrunning : l.running i = true) :
    (l.next processes i (.save own) r).Sane processes (moved Role.discipline γ i (.save own) r) := by
  obtain ⟨hpoint, hpid⟩ : (γ i).point = .passed ∧ own.pid = (γ i).process.pid := by
    unfold Role.may at hmay
    cases hpoint : (γ i).point with
    | passed =>
        rw [hpoint] at hmay
        obtain hneutral | hcase | hcase | ⟨own', hown, hpid⟩ := hmay
        · exact hneutral.elim
        · cases hcase
        · cases hcase
        · cases hown
          exact ⟨rfl, hpid⟩
    | _ => rw [hpoint] at hmay; simp [Role.Neutral] at hmay
  obtain ⟨hcleared, hstale⟩ : l.cleared i = true ∧ l.Stale i := by
    have hat := h.at_ i
    rwa [hpoint] at hat
  cases r with
  | error e =>
      have hgoes : Role.goes (γ i).point (.save own) (.error e) = .passed := by rw [hpoint]; rfl
      refine h.same hmay _ (fun _ => ?_) ?_ (fun hs => ?_)
      · rw [hgoes]
        exact nofun
      · rw [hgoes]
        exact ⟨hcleared, hstale⟩
      · have hp := h.serving i hs
        rw [hpoint] at hp
        cases hp
  | ok _ =>
      have hgoes : Role.goes (γ i).point (.save own) (.ok ()) = .serving := by rw [hpoint]; rfl
      have hother : ∀ j, j ≠ i → Function.update l.serving i true j = l.serving j :=
        fun j hj => Function.update_of_ne hj _ _
      refine h.step hmay _ (fun _ => id) (fun _ _ => id) (fun _ => id) h.ends (fun _ _ => rfl)
        (fun _ => id) (fun j hj hs => hother j hj ▸ hs) (fun f j hf hj => .inr ?_) (fun _ => .inl)
        (fun _ => ?_) ?_ (fun _ => hgoes) (fun j hs hr => ?_)
      · cases hf
        cases hj
        refine ⟨(Ledger.running_eq.mp hrunning).1, ?_, own, (γ i).process, rfl, hpid, hprocess⟩
        rw [point_moved, if_pos rfl]
        exact .inl hgoes
      · rw [hgoes]
        exact nofun
      · rw [hgoes]
        exact hstale
      · by_cases hj : j = i
        · exact .inr ⟨_, rfl, congrArg some hj.symm⟩
        · -- the daemon whose file was there is excused
          left
          show l.excuse (l.cleared i) j = true
          rw [hcleared]
          rcases h.names j (hother j hj ▸ hs) hr with hexcused | ⟨f, hf, hwriter⟩
          · exact Ledger.excuse_mono _ hexcused
          · exact Ledger.excuse_writer hf hwriter

end Steps

/-! ## Every run -/

/-- The ledger, the roles and the host of a run agree. -/
structure Agree (processes : List Process) (first : Option Contents) (γ : Nat → Role)
    (t : List (Entry StateSig)) (c : Tasks StateSig CliError Unit Host (Nat × Process)) : Prop where
  sane : (ledger processes first t).Sane processes γ
  own : ∀ i p who, c.tasks[i]? = some (p, who) →
    who = (i, (γ i).process) ∧ processes[i]? = some (γ i).process
  file : c.shared.file = (ledger processes first t).file.map Placed.contents
  live : ∀ j process, (j, process) ∈ c.shared.live ↔
    (ledger processes first t).running j = true ∧ processes[j]? = some process
  pids : ∀ p ∈ c.shared.live, p.2.pid ≠ 0

theorem ledger_append (processes : List Process) (first : Option Contents)
    (t : List (Entry StateSig)) (e : Entry StateSig) :
    ledger processes first (t ++ [e]) =
      (ledger processes first t).next processes e.task e.op e.answer := by
  rw [ledger, List.foldl_append]
  rfl

section Operations

variable {processes : List Process} {first : Option Contents} {γ : Nat → Role}
  {t : List (Entry StateSig)} {c : Tasks StateSig CliError Unit Host (Nat × Process)} {i : Nat}
  {o : StateOp} {k : o.Resp → StateTask Unit} {who who' : Nat × Process} {luck : Luck}

/-- An operation moves no process to another. -/
theorem process_moved (o : StateOp) (r : o.Resp) (j : Nat) :
    (moved Role.discipline γ i o r j).process = (γ j).process := by
  by_cases hj : j = i
  · rw [hj, moved_self]
    rfl
  · rw [moved_of_ne _ _ hj]

/-- One operation of process `i`, by what it does to the ledger and the host. -/
theorem Agree.act (h : Agree processes first γ t c) (htask : c.tasks[i]? = some (.step o k, who))
    {r : o.Resp} {host : Host}
    (hsane : ((ledger processes first t).next processes i o r).Sane processes
      (moved Role.discipline γ i o r))
    (hfile : host.file = ((ledger processes first t).next processes i o r).file.map Placed.contents)
    (hlive : ∀ j process, (j, process) ∈ host.live ↔
      ((ledger processes first t).next processes i o r).running j = true ∧
        processes[j]? = some process)
    (hpids : ∀ p ∈ host.live, p.2.pid ≠ 0) :
    Agree processes first (moved Role.discipline γ i o r) (t ++ [⟨i, o, r⟩])
      ⟨host, c.tasks.set i (k r, who)⟩ := by
  refine ⟨?_, fun j p who₂ hget => ?_, ?_, ?_, hpids⟩
  · rw [ledger_append]
    exact hsane
  · rw [process_moved]
    by_cases hj : j = i
    · subst hj
      rw [List.getElem?_set_self (List.getElem?_eq_some_iff.mp htask).1] at hget
      cases hget
      exact h.own j _ _ htask
    · rw [List.getElem?_set_ne (Ne.symm hj)] at hget
      exact h.own j _ _ hget
  · rw [ledger_append]
    exact hfile
  · rw [ledger_append]
    exact hlive

/-- Who runs after a start. -/
theorem Ledger.running_start {l : Ledger} (hended : l.ended i = false) (j : Nat) :
    ({ l with started := Function.update l.started i true } : Ledger).running j = true ↔
      j = i ∨ l.running j = true := by
  rw [Ledger.running_eq, Ledger.running_eq]
  by_cases hj : j = i
  · subst hj
    simp [hended]
  · simp [hj]

/-- Who runs after an end. -/
theorem Ledger.running_end (l : Ledger) (victim j : Nat) :
    ({ l with ended := Function.update l.ended victim true } : Ledger).running j = true ↔
      j ≠ victim ∧ l.running j = true := by
  rw [Ledger.running_eq, Ledger.running_eq]
  by_cases hj : j = victim
  · subst hj
    simp
  · simp [hj]

/-- A process starts. -/
theorem Agree.start (h : Agree processes first γ t c) {k : Unit → StateTask Unit}
    (htask : c.tasks[i]? = some (.step .start k, who)) (hmay : (γ i).may .start)
    (hpid : who.2.pid ≠ 0) :
    Agree processes first (moved Role.discipline γ i .start ()) (t ++ [⟨i, .start, ()⟩])
      ⟨{ c.shared with live := who :: c.shared.live }, c.tasks.set i (k (), who)⟩ := by
  obtain ⟨rfl, hprocess⟩ := h.own i _ _ htask
  have hfresh : (γ i).point = .fresh := by
    unfold Role.may at hmay
    cases hpoint : (γ i).point <;> rw [hpoint] at hmay <;> simp [Role.Neutral] at hmay ⊢
  have hstarted : (ledger processes first t).started i ≠ true :=
    fun hs => h.sane.begun i hs hfresh
  have hended : (ledger processes first t).ended i = false := by
    rw [← Bool.not_eq_true]
    exact fun hended => hstarted (h.sane.ends i hended)
  refine h.act htask (h.sane.start hmay) h.file (fun j process => ?_)
    (List.forall_mem_cons.mpr ⟨hpid, h.pids⟩)
  rw [List.mem_cons, h.live, Ledger.next, Ledger.running_start hended, Prod.mk.injEq]
  constructor
  · rintro (⟨rfl, rfl⟩ | ⟨hrunning, hj⟩)
    · exact ⟨.inl rfl, hprocess⟩
    · exact ⟨.inr hrunning, hj⟩
  · rintro ⟨rfl | hrunning, hj⟩
    · rw [hprocess] at hj
      exact .inl ⟨rfl, (Option.some.inj hj).symm⟩
    · exact .inr ⟨hrunning, hj⟩

/-- A process that runs ends, by its own exit or by a crash. -/
theorem Agree.ending (h : Agree processes first γ t c)
    (htask : c.tasks[i]? = some (.step o k, who)) (hmay : (γ i).may o) {r : o.Resp}
    (hgoes : Role.goes (γ i).point o r = (γ i).point) {victim : Nat}
    (hnext : (ledger processes first t).next processes i o r =
      { ledger processes first t with
        ended := Function.update (ledger processes first t).ended victim true })
    (hvictim : (ledger processes first t).running victim = true) :
    Agree processes first (moved Role.discipline γ i o r) (t ++ [⟨i, o, r⟩])
      ⟨{ c.shared with live := c.shared.live.filter (fun p => p.1 ≠ victim) },
        c.tasks.set i (k r, who)⟩ := by
  refine h.act htask ?_ ?_ (fun j process => ?_) fun p hp => h.pids p (List.mem_of_mem_filter hp)
  · rw [hnext]
    exact h.sane.ending hmay r hgoes hvictim
  · rw [hnext]
    exact h.file
  · rw [hnext, Ledger.running_end, List.mem_filter, h.live, decide_eq_true_iff]
    tauto

/-- An operation that the ledger does not note, at a point where it leads nowhere. -/
theorem Agree.neutral (h : Agree processes first γ t c)
    (htask : c.tasks[i]? = some (.step o k, who)) (hmay : (γ i).may o) (ho : Role.Neutral o)
    (hworks : (γ i).point.Works) (r : o.Resp) :
    Agree processes first (moved Role.discipline γ i o r) (t ++ [⟨i, o, r⟩])
      ⟨c.shared, c.tasks.set i (k r, who)⟩ := by
  have hgoes : Role.goes (γ i).point o r = (γ i).point := by
    rcases hworks with hpoint | hpoint | hpoint <;> rw [hpoint] <;> cases o <;>
      first | rfl | exact ho.elim
  have hnext : (ledger processes first t).next processes i o r = ledger processes first t := by
    cases o <;> first | rfl | exact ho.elim
  refine h.act htask ?_ ?_ (fun j process => ?_) h.pids
  · rw [hnext]
    refine h.sane.same hmay r (fun hs => ?_) ?_ (fun hs => ?_)
    · rw [hgoes]
      exact h.sane.begun i hs
    · rw [hgoes]
      exact h.sane.at_ i
    · rw [hgoes]
      exact h.sane.serving i hs
  · rw [hnext]
    exact h.file
  · rw [hnext]
    exact h.live j process

/-- A process asks whether a pid is alive. -/
theorem Agree.alive (h : Agree processes first γ t c) {pid : UInt32}
    {k : Bool → StateTask Unit} (htask : c.tasks[i]? = some (.step (.alive pid) k, who))
    (hmay : (γ i).may (.alive pid)) (taken : Bool) :
    Agree processes first (moved Role.discipline γ i (.alive pid) (c.shared.alive pid taken))
      (t ++ [⟨i, .alive pid, c.shared.alive pid taken⟩])
      ⟨c.shared, c.tasks.set i (k (c.shared.alive pid taken), who)⟩ := by
  by_cases hworks : (γ i).point.Works
  · exact h.neutral htask hmay trivial hworks _
  obtain ⟨found, hpoint, rfl⟩ : ∃ found, (γ i).point = .judging found ∧ pid = found.pid := by
    unfold Role.may at hmay
    cases hpoint : (γ i).point with
    | judging found =>
        rw [hpoint] at hmay
        cases hmay
        exact ⟨found, rfl, rfl⟩
    | _ =>
        rw [hpoint] at hmay hworks
        simp [Point.Works] at hmay hworks
  refine h.act htask (h.sane.judge hpoint _ fun hdead j process hprocess hpid => ?_) h.file h.live
    h.pids
  by_contra hrunning
  rw [Bool.not_eq_false] at hrunning
  have hlive : (j, process) ∈ c.shared.live := (h.live j process).mpr ⟨hrunning, hprocess⟩
  have hpid₀ : found.pid ≠ 0 := hpid ▸ h.pids _ hlive
  rw [Host.alive, if_neg hpid₀, Bool.or_eq_false_iff] at hdead
  have hnone := List.any_eq_false.mp hdead.1 _ hlive
  exact hnone (decide_eq_true hpid)

/-- A process reads the state file. -/
theorem Agree.read (h : Agree processes first γ t c) {k : Option Contents → StateTask Unit}
    (htask : c.tasks[i]? = some (.step .read k, who)) (hmay : (γ i).may .read) :
    Agree processes first (moved Role.discipline γ i .read c.shared.file)
      (t ++ [⟨i, .read, c.shared.file⟩]) ⟨c.shared, c.tasks.set i (k c.shared.file, who)⟩ := by
  refine h.act htask ?_ h.file h.live h.pids
  rw [h.file]
  exact h.sane.read hmay

/-- A process goes to remove the state file. -/
theorem Agree.remove (h : Agree processes first γ t c) {k : Removal → StateTask Unit}
    (htask : c.tasks[i]? = some (.step .remove k, who)) (hmay : (γ i).may .remove)
    (hentitled : Entitled processes first t c i luck) {r : Removal} {host : Host}
    (hdoes : runningDoes who luck c.shared .remove = (r, host)) :
    Agree processes first (moved Role.discipline γ i .remove r) (t ++ [⟨i, .remove, r⟩])
      ⟨host, c.tasks.set i (k r, who)⟩ := by
  have hsane := h.sane.remove hmay r (h.own i _ _ htask).2 (hentitled (by rw [htask]; rfl))
  simp only [runningDoes] at hdoes
  split at hdoes
  · cases hdoes
    exact h.act htask hsane h.file h.live h.pids
  · cases hdoes
    exact h.act htask hsane h.file h.live h.pids
  · cases hdoes
    exact h.act htask hsane rfl h.live h.pids

/-- A daemon puts its file in place. -/
theorem Agree.save (h : Agree processes first γ t c) {own : SessionState}
    {k : Except String Unit → StateTask Unit}
    (htask : c.tasks[i]? = some (.step (.save own) k, who)) (hmay : (γ i).may (.save own))
    (hrunning : (ledger processes first t).running i = true) {r : Except String Unit} {host : Host}
    (hdoes : runningDoes who luck c.shared (.save own) = (r, host)) :
    Agree processes first (moved Role.discipline γ i (.save own) r) (t ++ [⟨i, .save own, r⟩])
      ⟨host, c.tasks.set i (k r, who)⟩ := by
  have hsane := h.sane.save hmay r (h.own i _ _ htask).2 hrunning
  simp only [runningDoes] at hdoes
  split at hdoes
  · cases hdoes
    exact h.act htask hsane h.file h.live h.pids
  · cases hdoes
    exact h.act htask hsane rfl h.live h.pids

/-- A process that does more than start, or be a crash, is past its start. -/
theorem works_of_neutral (hmay : (γ i).may o) (ho : Role.Neutral o)
    (halive : ∀ pid, o ≠ .alive pid) : (γ i).point.Works := by
  unfold Role.may at hmay
  cases hpoint : (γ i).point with
  | passed => exact .inl rfl
  | holding => exact .inr (.inl rfl)
  | serving => exact .inr (.inr rfl)
  | judging found =>
      rw [hpoint] at hmay
      exact absurd hmay (halive found.pid)
  | _ =>
      rw [hpoint] at hmay
      cases o <;> simp [Role.Neutral] at hmay ho

/-- One operation of one process. -/
theorem Agree.does (h : Agree processes first γ t c) (hentitled : Entitled processes first t c i luck)
    (htask : c.tasks[i]? = some (.step o k, who)) (hmay : (γ i).may o) {r : o.Resp} {host : Host}
    (hdoes : stateDoes o luck c.shared who = some (r, host, who')) :
    Agree processes first (moved Role.discipline γ i o r) (t ++ [⟨i, o, r⟩])
      ⟨host, c.tasks.set i (k r, who')⟩ := by
  have hrunning : who ∈ c.shared.live → (ledger processes first t).running i = true := by
    obtain ⟨rfl, -⟩ := h.own i _ _ htask
    exact fun hlive => ((h.live i _).mp hlive).1
  cases o with
  | start =>
      simp only [stateDoes, Option.ite_none_right_eq_some] at hdoes
      obtain ⟨⟨hpid, -⟩, hdoes⟩ := hdoes
      cases hdoes
      exact h.start htask hmay hpid
  | crash victim =>
      simp only [stateDoes, Option.ite_none_right_eq_some] at hdoes
      obtain ⟨hvictim, hdoes⟩ := hdoes
      cases hdoes
      obtain ⟨⟨j, process⟩, hlive, hj⟩ := List.any_eq_true.mp hvictim
      obtain rfl : j = victim := of_decide_eq_true hj
      have hgoes : Role.goes (γ i).point (.crash j) () = (γ i).point := by
        cases (γ i).point <;> rfl
      exact h.ending htask hmay hgoes rfl ((h.live j process).mp hlive).1
  | exit =>
      simp only [stateDoes, runningDoes, Option.ite_none_right_eq_some] at hdoes
      obtain ⟨hlive, hdoes⟩ := hdoes
      cases hdoes
      obtain ⟨rfl, -⟩ := h.own i _ _ htask
      have hgoes : Role.goes (γ i).point .exit () = (γ i).point := by
        cases (γ i).point <;> rfl
      exact h.ending htask hmay hgoes rfl (hrunning hlive)
  | read =>
      simp only [stateDoes, runningDoes, Option.ite_none_right_eq_some] at hdoes
      obtain ⟨hlive, hdoes⟩ := hdoes
      cases hdoes
      exact h.read htask hmay
  | remove =>
      simp only [stateDoes, Option.ite_none_right_eq_some] at hdoes
      obtain ⟨hlive, hdoes⟩ := hdoes
      cases hdoes
      exact h.remove htask hmay hentitled rfl
  | save own =>
      simp only [stateDoes, Option.ite_none_right_eq_some] at hdoes
      obtain ⟨hlive, hdoes⟩ := hdoes
      cases hdoes
      exact h.save htask hmay (hrunning hlive) rfl
  | alive pid =>
      simp only [stateDoes, runningDoes, Option.ite_none_right_eq_some] at hdoes
      obtain ⟨hlive, hdoes⟩ := hdoes
      cases hdoes
      exact h.alive htask hmay _
  | _ =>
      simp only [stateDoes, runningDoes, Option.ite_none_right_eq_some] at hdoes
      obtain ⟨hlive, hdoes⟩ := hdoes
      cases hdoes
      exact h.neutral htask hmay trivial (works_of_neutral hmay trivial nofun) _

end Operations

/-- Before anything has happened. -/
theorem agree_hosted (processes : List Process) (first : Option Contents) :
    ∃ γ, Roles Role.discipline (fun _ _ => True) γ (hosted first processes) ∧
      Agree processes first γ [] (hosted first processes) := by
  have htasks : ∀ (i : Nat) p who, (hosted first processes).tasks[i]? = some (p, who) →
      ∃ process : Process, processes[i]? = some process ∧ p = process.task ∧
        who = (i, process) := by
    intro i p who hget
    simp only [hosted, List.getElem?_map, List.getElem?_zipIdx, Option.map_map,
      Option.map_eq_some_iff] at hget
    obtain ⟨process, hprocess, hwho⟩ := hget
    simp only [Function.comp_apply, Nat.zero_add, Prod.mk.injEq] at hwho
    exact ⟨process, hprocess, hwho.1.symm, hwho.2.symm⟩
  let γ : Nat → Role := fun i => ⟨processes[i]?.getD ⟨.command, 0⟩, .fresh⟩
  have hγ : ∀ {i process}, processes[i]? = some process → γ i = ⟨process, .fresh⟩ := by
    intro i process hprocess
    simp only [γ, hprocess, Option.getD_some]
  have hwriter : ∀ f j, (Ledger.new first).file = some f → f.writer ≠ some j := by
    intro f j hf
    obtain ⟨contents, -, rfl⟩ := Option.map_eq_some_iff.mp hf
    exact nofun
  refine ⟨γ, fun i p who hget => ?_, ⟨⟨nofun, nofun, fun f j hf hj => absurd hj (hwriter f j hf),
    nofun, fun _ => trivial, nofun, nofun⟩, fun i p who hget => ?_, ?_, ?_, nofun⟩⟩
  · obtain ⟨process, hprocess, rfl, -⟩ := htasks i p who hget
    rw [hγ hprocess]
    exact task_follows process
  · obtain ⟨process, hprocess, -, rfl⟩ := htasks i p who hget
    rw [hγ hprocess]
    exact ⟨rfl, hprocess⟩
  · cases first with
    | none => rfl
    | some contents => rfl
  · intro j process
    exact ⟨nofun, fun h => absurd h.1 Bool.false_ne_true⟩

/-- As long as every removal meets a file that its process knows, or none, or
that of a daemon that runs no more, the file names every daemon that serves. -/
theorem names_daemons (processes : List Process) (first : Option Contents)
    {t : List (Entry StateSig)} {c : Tasks StateSig CliError Unit Host (Nat × Process)}
    (h : Runs stateDoes (Entitled processes first) (hosted first processes) t c) :
    NamesDaemons processes first t c := by
  obtain ⟨γ₀, hroles, hagree⟩ := agree_hosted processes first
  obtain ⟨γ, -, hagree⟩ := h.joint (J := Agree processes first) hroles hagree
    fun t c γ i luck o k who r host who' hentitled _ hagree htask hmay hdoes =>
      ⟨trivial, hagree.does hentitled htask hmay hdoes⟩
  intro i process hprocess hserving hrunning
  rcases hagree.sane.names i hserving hrunning with hexcused | ⟨f, hf, hwriter⟩
  · exact .inl hexcused
  · obtain ⟨own, process', hown, hpid, hprocess'⟩ := (hagree.sane.placed f i hf hwriter).named
    rw [hprocess] at hprocess'
    cases hprocess'
    have hfile : f = ⟨.session own, some i⟩ := by
      cases f
      simp only [Placed.mk.injEq]
      exact ⟨hown, hwriter⟩
    refine .inr ⟨own, hpid, hfile ▸ hf, ?_⟩
    rw [hagree.file, hf, hfile]
    rfl

/-! ## A new daemon after an old one -/

/-- Everything goes well. -/
def fair : Luck := ⟨none, false, .ok (), .sent, .ok 0, .ok .running, .ok ()⟩

/-- The processes that take the steps, in this order. -/
def inOrder (steps : List Nat) : List (Nat × Luck) := steps.map (fun i => (i, fair))

/-- The daemon of a desktop. -/
def desk (endpoint : String) (pid : UInt32) : SessionState :=
  ⟨endpoint, pid, "desk:5900", none, none, "2024-01-01T00:00:00Z"⟩

/-- A daemon that crashes, and one that is started after it. -/
def restarted : List Process :=
  [⟨.connect (desk "http://127.0.0.1:50001" 0) true, 7⟩, ⟨.crash 0, 1⟩,
    ⟨.connect (desk "http://127.0.0.1:50002" 0) true, 9⟩]

/-- The second daemon finds the file of the first, removes it, and puts its own
in place. -/
theorem names_daemons_restarted : ∃ t c,
    Runs stateDoes (Entitled restarted none) (hosted none restarted) t c ∧
      NamesDaemons restarted none t c ∧ (ledger restarted none t).serving 2 = true ∧
      c.shared.file = some (.session (desk "http://127.0.0.1:50002" 9)) := by
  have hend : ((hosted none restarted).record
      (fun t c i m => decide (Entitled restarted none t c i m)) stateDoes
      (inOrder [0, 0, 0, 0, 0, 1, 2, 2, 2, 2, 2, 2, 2]) []).map
      (fun e => ((ledger restarted none e.1).serving 2, e.2.shared.file)) =
        some (true, some (.session (desk "http://127.0.0.1:50002" 9))) := by
    decide +kernel
  obtain ⟨⟨t, c⟩, hrecord, heq⟩ := Option.map_eq_some_iff.mp hend
  obtain ⟨hserving, hfile⟩ := Prod.mk.inj heq
  have hrun : Runs stateDoes (Entitled restarted none) (hosted none restarted) t c :=
    runs_record (fun _ _ _ _ h => of_decide_eq_true h) hrecord .start
  exact ⟨t, c, hrun, names_daemons restarted none hrun, hserving, hfile⟩

/-- A file that an old daemon left. -/
def leftover : Option Contents := some (.session (desk "http://127.0.0.1:50001" 7))

/-- A command, and a daemon that is started at the same time. -/
def overtaken : List Process :=
  [⟨.command, 8⟩, ⟨.connect (desk "http://127.0.0.1:50002" 0) true, 9⟩]

/-- A command that has read the old file removes that of the new daemon. -/
theorem not_names_daemons_overtaken :
    ¬ ∀ t c, Runs stateDoes Anyhow (hosted leftover overtaken) t c →
      NamesDaemons overtaken leftover t c := by
  intro hall
  have hend : ((hosted leftover overtaken).record (fun _ _ _ _ => true) stateDoes
      (inOrder [0, 0, 0, 1, 1, 1, 1, 1, 1, 1, 0]) []).map
      (fun e => ((ledger overtaken leftover e.1).serving 1,
        (ledger overtaken leftover e.1).running 1, (ledger overtaken leftover e.1).excused 1,
        e.2.shared.file)) = some (true, true, false, none) := by
    decide +kernel
  obtain ⟨⟨t, c⟩, hrecord, heq⟩ := Option.map_eq_some_iff.mp hend
  simp only [Prod.mk.injEq] at heq
  obtain ⟨hserving, hrunning, hexcused, hfile⟩ := heq
  have hrun : Runs stateDoes Anyhow (hosted leftover overtaken) t c :=
    runs_record (fun _ _ _ _ _ => trivial) hrecord .start
  rcases hall t c hrun 1 _ rfl hserving hrunning with h | ⟨own, -, -, h⟩
  · rw [hexcused] at h
    cases h
  · rw [hfile] at h
    cases h

end Bolide.Cli
