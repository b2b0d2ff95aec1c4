/-
Bolide.Cli.CommandLine — the command line of `connect`, and the one its
daemon is given (`cli.rs`, `daemon.rs`, `run.rs` and `record.rs` of
`bolide-cli`).

`childArgs` and `childEnv` write what was parsed as a command line again, and
`resolve` is what `serve_foreground` makes of one.

Translation notes. Paths and values are UTF-8, so each is its text. `clap` is
a parameter: `Clap` has what it makes of a command line, and which values
look like flags to it, and `Clap.Lawful` is what its documentation says. The
files and the working directory are parameters too, and an environment says
of each variable whether it is set, and whether it is UTF-8. A NUL, which an
escape may decode to and no process can be given, is a character here.
-/
import Bolide.Cli.Record
import Bolide.Cli.Target
import Bolide.Lib.Path
import Bolide.Lib.SocketAddr
import Bolide.Rfb.Handshake
import Bolide.Server.Actions

namespace Bolide.Cli.CommandLine

open Lib Release Bolide.Rfb Bolide.Server

/-! ## `ConnectArgs` -/

/-- A usage error — exit 2. -/
def usage (message : String) : CliError := ⟨2, message, .err⟩

/-- Which RFB authentication to use. -/
inductive Auth where
  | auto
  | ard
  | vnc
  deriving DecidableEq, Repr

/-- `Auth::as_str`. -/
def Auth.asStr : Auth → Text
  | .auto => "auto".toList
  | .ard => "ard".toList
  | .vnc => "vnc".toList

/-- The auth mode that `--auth` names. -/
def Auth.fromName (name : Text) : Option Auth :=
  [Auth.auto, Auth.ard, Auth.vnc].find? (fun auth => auth.asStr = name)

/-- `AuthMode::from`. -/
def Auth.mode : Auth → AuthMode
  | .auto => .auto
  | .ard => .ard
  | .vnc => .vnc

/-- `bolide connect`'s options. -/
structure ConnectArgs where
  target : Text
  username : Option Text
  password : Option Text
  passwordFile : Option Text
  auth : Auth
  listen : SocketAddr
  token : Option Text
  dragSteps : Option UInt16
  dragStepMs : Option UInt64
  dragDwellMs : Option UInt64
  settleMs : Option UInt64
  record : Option Text
  foreground : Bool
  deriving DecidableEq

/-- `DragPacing::DEFAULT`. -/
def defaultPacing : DragPacing := ⟨20, 20, 150⟩

/-- `ConnectArgs::drag_pacing`. -/
def ConnectArgs.dragPacing (args : ConnectArgs) : DragPacing where
  steps := args.dragSteps.getD defaultPacing.steps
  stepMs := args.dragStepMs.getD defaultPacing.stepMs
  dwellMs := args.dragDwellMs.getD defaultPacing.dwellMs

/-- `ConnectArgs::input_settle`, in milliseconds. -/
def ConnectArgs.inputSettle (args : ConnectArgs) : UInt64 := args.settleMs.getD 500

/-- A container a recording can be written to. -/
inductive Container where
  | mp4
  | webm
  deriving DecidableEq, Repr

/-- `Container::for_path`. -/
def Container.forPath (path : Text) : Except String Container :=
  let extension := (Path.extension path).map (fun e => e.map Char.toLower)
  if extension = some "mp4".toList then .ok .mp4
  else if extension = some "webm".toList then .ok .webm
  else .error s!"a recording is a .mp4 or a .webm file, and {String.ofList path} is neither"

/-- `parse_record_path`. -/
def parseRecordPath (value : Text) : Except String Text :=
  (Container.forPath value).map (fun _ => value)

/-! ## `clap` -/

/-- An option that takes a value. -/
inductive Opt where
  | username
  | password
  | passwordFile
  | auth
  | listen
  | token
  | dragSteps
  | dragStepMs
  | dragDwellMs
  | settleMs
  | record
  deriving DecidableEq, Repr

def Opt.long : Opt → Text
  | .username => "--username".toList
  | .password => "--password".toList
  | .passwordFile => "--password-file".toList
  | .auth => "--auth".toList
  | .listen => "--listen".toList
  | .token => "--token".toList
  | .dragSteps => "--drag-steps".toList
  | .dragStepMs => "--drag-step-ms".toList
  | .dragDwellMs => "--drag-dwell-ms".toList
  | .settleMs => "--settle-ms".toList
  | .record => "--record".toList

def Opt.allowHyphenValues : Opt → Bool
  | .password => true
  | _ => false

/-- A part of a command line. -/
inductive Item where
  | target (value : Text)
  -- `--option=value`, or `--option value`
  | value (o : Opt) (attached : Bool) (value : Text)
  | foreground

def Item.words : Item → List Text
  | .target v => [v]
  | .value o true v => [o.long ++ '=' :: v]
  | .value o false v => [o.long, v]
  | .foreground => ["--foreground".toList]

/-- What may be given once. -/
inductive Slot where
  | target
  | opt (o : Opt)
  | foreground
  deriving DecidableEq, Repr

def Item.slot : Item → Slot
  | .target _ => .target
  | .value o _ _ => .opt o
  | .foreground => .foreground

def parseU16 (v : Text) : Option UInt16 := (Text.parseUnsigned (2 ^ 16) v).map UInt16.ofNat

def parseU64 (v : Text) : Option UInt64 := (Text.parseUnsigned (2 ^ 64) v).map UInt64.ofNat

/-- The value parsers, and the fields they fill. -/
def Item.apply (args : ConnectArgs) : Item → Option ConnectArgs
  | .target v => some { args with target := v }
  | .foreground => some { args with foreground := true }
  | .value .username _ v => some { args with username := some v }
  | .value .password _ v => some { args with password := some v }
  | .value .passwordFile _ v => if v = [] then none else some { args with passwordFile := some v }
  | .value .auth _ v => (Auth.fromName v).map (fun auth => { args with auth })
  | .value .listen _ v => (SocketAddr.fromStr v).map (fun listen => { args with listen })
  | .value .token _ v => some { args with token := some v }
  | .value .dragSteps _ v => (parseU16 v).map (fun n => { args with dragSteps := some n })
  | .value .dragStepMs _ v => (parseU64 v).map (fun n => { args with dragStepMs := some n })
  | .value .dragDwellMs _ v => (parseU64 v).map (fun n => { args with dragDwellMs := some n })
  | .value .settleMs _ v => (parseU64 v).map (fun n => { args with settleMs := some n })
  | .value .record _ v =>
      (parseRecordPath v).toOption.map (fun path => { args with record := some path })

/-- The defaults. -/
def ConnectArgs.defaults : ConnectArgs where
  target := []
  username := none
  password := none
  passwordFile := none
  auth := .auto
  listen := .v4 ⟨127, 0, 0, 1⟩ 0
  token := none
  dragSteps := none
  dragStepMs := none
  dragDwellMs := none
  settleMs := none
  record := none
  foreground := false

/-- The values of these items, one after another. -/
def applyAll (args : ConnectArgs) (items : List Item) : Option ConnectArgs :=
  items.foldlM (fun args item => item.apply args) args

/-- A value that looks like a flag, and is not said to be one. -/
def Item.mistaken (hyphenated : Text → Bool) : Item → Bool
  | .value o false v => !o.allowHyphenValues && hyphenated v
  | _ => false

/-- What a command line of these items says: one target, nothing twice, and
one password at most. -/
def parsed (hyphenated : Text → Bool) (items : List Item) : Option ConnectArgs :=
  let slots := items.map Item.slot
  if slots.Nodup ∧ .target ∈ slots ∧ ¬ (.opt .password ∈ slots ∧ .opt .passwordFile ∈ slots) ∧
      items.all (fun item => !item.mistaken hyphenated) = true then
    applyAll ConnectArgs.defaults items
  else none

def line (items : List Item) : List Text := "connect".toList :: items.flatMap Item.words

/-- `clap`, as the CLI uses it. -/
structure Clap where
  -- the `connect` of a command line without the program's name
  parse : List Text → Option ConnectArgs
  hyphenated : Text → Bool

/-- What is accepted agrees with the declarations of `ConnectArgs`. -/
structure Accepted (args : ConnectArgs) : Prop where
  conflict : args.password.isSome = true → args.passwordFile = none
  passwordFile : args.passwordFile ≠ some []
  record : ∀ path, args.record = some path → ∃ c, Container.forPath path = .ok c
  listen : args.listen.unlabelled = true

structure Clap.Lawful (clap : Clap) : Prop where
  hyphenated : ∀ value, value ≠ ['-'] → clap.hyphenated value = (value.head? = some '-' : Bool)
  accepts : ∀ items args, (∀ value, .target value ∈ items → clap.hyphenated value = false) →
    parsed clap.hyphenated items = some args → clap.parse (line items) = some args
  refuses : ∀ items, (∀ value, .target value ∈ items → clap.hyphenated value = false) →
    items.any (fun item => item.mistaken clap.hyphenated) = true → clap.parse (line items) = none
  accepted : ∀ argv args, clap.parse argv = some args → Accepted args

/-! ## Credentials -/

/-- The username and password the command line settled on. -/
structure Credentials where
  username : Option Text
  password : Option Text
  deriving DecidableEq

/-- Two usernames that differ. -/
def twoUsernames (url flag : Text) : CliError :=
  usage s!"the target says user {debug url} and --username says {debug flag}; give one"

def settledUsername (target : Target) (args : ConnectArgs) : Except CliError (Option Text) :=
  match target.username, args.username with
  | some url, some flag => if url ≠ flag then .error (twoUsernames url flag) else .ok (some url)
  | url, flag => .ok (url.or flag)

/-- `command_line_credentials`. -/
def commandLineCredentials (target : Target) (args : ConnectArgs) : Except CliError Credentials := do
  let username ← settledUsername target args
  if target.password.isSome = true ∧
      (args.password.isSome = true ∨ args.passwordFile.isSome = true) then
    .error (usage ("the target URL carries a password and so does --password or " ++
      "--password-file; give one"))
  else return ⟨username, target.password.or args.password⟩

/-- `resolve_password`. -/
def resolvePassword (files : Text → Except String Text) (flag file env : Option Text) :
    Except CliError (Option Text) :=
  match flag, file with
  | some password, _ => .ok (some password)
  | none, some path =>
      match files path with
      | .error e => .error (.failure s!"cannot read the password file {String.ofList path}: {e}")
      | .ok raw => .ok (some (Text.trimEnd (fun c => c = '\n' ∨ c = '\r') raw))
  | none, none => .ok (env.filter (fun v => v ≠ []))

/-! ## The environment -/

/-- What the variables are: not set, not UTF-8, or a string. -/
abbrev Environment := String → Option (Option Text)

/-- `std::env::var`. -/
def Environment.var (env : Environment) (name : String) : Option Text := (env name).join

/-- `PASSWORD_ENV`. -/
def passwordEnv : String := "BOLIDE_PASSWORD"

/-! ## What a command line comes to -/

/-- `std::path::absolute`, or the path as typed. -/
def recordPath (cwd : Option Path.Dir) (path : Text) : Text := (Path.absolute cwd path).getD path

/-- What the session is served with. -/
structure Settings where
  host : Text
  port : UInt16
  username : Option Text
  password : Option Text
  auth : AuthMode
  listen : SocketAddr
  token : Option Text
  drag : DragPacing
  inputSettle : UInt64
  recording : Option Text

/-- `connect --foreground`, up to the connection. -/
def resolve (files : Text → Except String Text) (cwd : Option Path.Dir) (env : Environment)
    (args : ConnectArgs) : Except CliError Settings := do
  let target ← (parseTarget args.target).mapError usage
  let creds ← commandLineCredentials target args
  let password ← resolvePassword files creds.password args.passwordFile (env.var passwordEnv)
  return {
    host := target.host
    port := target.port
    username := creds.username
    password := password
    auth := args.auth.mode
    listen := args.listen
    token := args.token
    drag := args.dragPacing
    inputSettle := args.inputSettle
    recording := args.record.map (recordPath cwd) }

/-! ## The daemon's command line -/

/-- An option with its value, if there is one. -/
def pushed (flag : Text) (value : Option Text) : List Text :=
  match value with
  | some value => [flag, value]
  | none => []

end Bolide.Cli.CommandLine
