/-
Bolide.Cli.Update — `bolide update`, and the runs of it that share a binary
(`bolide-cli/src/update.rs`).

`UpdateOp` lists what `update` does beside private computation: the calls of
`Fetch`, the scratch directory, `tar`, and the file operations of `swap_in`,
one write of the copy at a time. `updateDoes` says what each does to the two
names `exe` and `<exe>.new`, which share files by their number.

Translation notes. A run that stops dead is one that is not scheduled again.
What `Fetch` and `tar` answer is left to the scheduler, and so is which
operation fails; `tar` answers with the binary it leaves, if that is a file.
The scratch directory has the run's own pid in its name, so it is nobody
else's. A copy goes on until the whole file is there, with at least one byte
in each write. The number of a removed file is not used again. What `update`
prints is left out.
-/
import Bolide.Cli.Record
import Bolide.Cli.Release
import Bolide.Lib.Pieces
import Bolide.Lib.Tasks

namespace Bolide.Cli.Update

open Lib Release

/-! ## Operations -/

/-- An error of the file system. -/
structure IoError where
  permissionDenied : Bool
  text : String
  deriving DecidableEq, Repr

/-- How `tar` ends. -/
inductive Unpacked where
  | couldNotRun (e : String)
  | exited (code : Int32)
  -- the binary at the root of the archive, if there is one
  | done (archive : Option (List UInt8))
  deriving DecidableEq, Repr

/-- One step of a run. -/
inductive UpdateOp where
  | resolve (url : String)
  | makeWorkDir
  | download (url : String)
  | unpack
  | isFile
  | openStaged
  | copyPiece
  | makeExecutable
  | rename
  | removeStaged
  | dropWorkDir

/-- The type of an operation's answer. -/
abbrev UpdateOp.Resp : UpdateOp → Type
  | .resolve _ => Except String Text
  | .makeWorkDir => Except String Unit
  | .download _ => Except String Unit
  | .unpack => Unpacked
  | .isFile => Bool
  -- the length of what is copied
  | .openStaged => Except IoError Nat
  -- whether that was the last piece
  | .copyPiece => Except IoError Bool
  | .makeExecutable => Except IoError Unit
  | .rename => Except IoError Unit
  | .removeStaged => Unit
  | .dropWorkDir => Unit

abbrev UpdateSig : Sig where
  Op := UpdateOp
  Resp := UpdateOp.Resp

/-- What a run does. -/
abbrev UpdateTask (α : Type) := Prog UpdateSig CliError α

/-- The task that performs one operation. -/
def updating (o : UpdateOp) : UpdateTask o.Resp := .step o .ret

/-! ## `update` -/

/-- `latest_version`. -/
def latestVersion : UpdateTask Text := do
  let resolved ← updating (.resolve latestReleaseUrl)
  match resolved.bind versionFromReleaseUrl with
  | .error detail => Prog.fail (.failure
      (s!"could not ask GitHub for the latest bolide release: {detail}\n" ++
        s!"Check the network and try again, or see {releasesPage}"))
  | .ok version => return version

/-- `unpack`. -/
def unpack : UpdateTask Unit := do
  let unpacked ← updating .unpack
  match unpacked with
  | .couldNotRun e => Prog.fail (.failure s!"could not run tar to unpack the release: {e}")
  | .exited code => Prog.fail (.failure
      s!"could not unpack the release archive (tar exited {code}); nothing was changed")
  | .done _ => return ()

/-- The writes of a copy, for as many as `n`. -/
def copyPieces : Nat → UpdateTask (Except IoError Unit)
  | 0 => return .ok ()
  | n + 1 => do
      let copied ← updating .copyPiece
      match copied with
      | .error e => return .error e
      | .ok true => return .ok ()
      | .ok false => copyPieces n

/-- `std::fs::copy` of the unpacked binary to `<exe>.new`. -/
def copy : UpdateTask (Except IoError Unit) := do
  let opened ← updating .openStaged
  match opened with
  | .error e => return .error e
  | .ok length => copyPieces length

/-- `cannot`: remove `<exe>.new`, and fail. -/
def cannot (exe : String) (e : IoError) : UpdateTask Unit := do
  updating .removeStaged
  let hint := if e.permissionDenied then
      "\nRe-run with the permissions that installed it (e.g. sudo bolide update), or reinstall:\n  "
        ++ installOneliner
    else ""
  Prog.fail (.failure s!"could not replace {exe}: {e.text}; nothing was changed{hint}")

/-- Go on after a step of `swap_in`, or clean up and fail. -/
def orCannot (exe : String) (outcome : Except IoError Unit) (next : UpdateTask Unit) :
    UpdateTask Unit :=
  match outcome with
  | .error e => cannot exe e
  | .ok () => next

/-- `swap_in`. -/
def swapIn (exe : String) : UpdateTask Unit := do
  let copied ← copy
  orCannot exe copied (do
    let made ← updating .makeExecutable
    orCannot exe made (do
      let renamed ← updating .rename
      orCannot exe renamed (pure ())))

/-- What an update did. -/
inductive Outcome where
  | upToDate (current latest : Text)
  | updated (old new : Text)
  deriving DecidableEq, Repr

/-- What is done in the scratch directory. -/
def inWorkDir (exe : String) (latest : Text) (target : String) : UpdateTask Unit := do
  let url := assetUrl latest target
  let downloaded ← updating (.download url)
  match downloaded with
  | .error detail => Prog.fail (.failure
      s!"could not download {url}: {detail}\nNothing was changed. See {releasesPage}")
  | .ok () => do
      unpack
      let isFile ← updating .isFile
      if isFile = true then swapIn exe
      else Prog.fail (.failure
        (s!"the {String.ofList latest} release archive holds no {binary} binary; " ++
          s!"nothing was changed. See {releasesPage}"))

/-- A path of these names. -/
def display (path : List String) : String := "/" ++ "/".intercalate path

/-- `update`, for an `exe` with these names along its path. -/
def update (exe : List String) (platform : String) (current : Text) (target : Option String) :
    UpdateTask Outcome :=
  match isSourceBuild exe with
  | some checkout => Prog.fail (.failure
      (s!"this bolide is a cargo build in {display checkout}, not an installed binary; " ++
        "the next build would undo an update. Update the checkout with git instead:\n  " ++
        s!"git -C {display checkout} pull"))
  | none => do
      let latest ← latestVersion
      if compareVersions current latest ≠ some .lt then return .upToDate current latest
      else match target with
        | none => Prog.fail (.failure
            (s!"bolide {String.ofList latest} has no prebuilt binary for {platform}; " ++
              s!"build it from source:\n  {cargoInstall}"))
        | some target => do
            let made ← updating .makeWorkDir
            match made with
            | .error e => Prog.fail (.failure s!"could not create a scratch directory at {e}")
            | .ok () => do
                let ended ← (inWorkDir (display exe) latest target).attempt
                updating .dropWorkDir
                Prog.ofExcept ended
                return .updated current latest

/-! ## Files -/

/-- The directory of the binary. -/
structure Disk where
  -- which file each name names
  exe : Nat
  staged : Option Nat
  files : Nat → List UInt8
  fresh : Nat
  -- the run that opened a file last
  opener : Nat → Option Nat

/-- What `exe` holds. -/
def Disk.binary (disk : Disk) : List UInt8 := disk.files disk.exe

/-- A binary, and what an earlier run may have left at `<exe>.new`. -/
def Disk.start (old : List UInt8) (leftover : Option (List UInt8)) : Disk where
  exe := 0
  staged := leftover.map (fun _ => 1)
  files f := if f = 0 then old else leftover.getD []
  fresh := 2
  opener _ := none

/-- What a run has of its own. -/
structure Own where
  run : Nat
  unpacked : Option (List UInt8)
  -- the file it copies to, and how far it is
  file : Option Nat
  offset : Nat
  -- an operation of this run has changed what `exe` holds
  changed : Bool

def Own.new (run : Nat) : Own := ⟨run, none, none, 0, false⟩

/-- Whether a run has written all of its binary. -/
def Own.copied (own : Own) : Bool := own.unpacked.any (fun b => own.offset = b.length)

/-- What the scheduler decides: whether an operation fails, how many bytes a
write takes, and what `Fetch` and `tar` answer. -/
structure Luck where
  failure : Option IoError
  size : Nat
  resolved : Except String Text
  downloaded : Except String Unit
  unpacked : Unpacked

/-- Open `<exe>.new`, or make it; it is empty then. -/
def openStaged (disk : Disk) (own : Own) : Disk × Own :=
  let f := disk.staged.getD disk.fresh
  ({ disk with
      staged := some f
      files := Function.update disk.files f []
      fresh := if disk.staged = none then disk.fresh + 1 else disk.fresh
      opener := Function.update disk.opener f (some own.run) },
    { own with file := some f, offset := 0 })

/-- Write the next piece of the binary. -/
def copyPiece (size : Nat) (disk : Disk) (own : Own) (f : Nat) (whole : List UInt8) : Disk × Own :=
  let piece := (whole.drop own.offset).take (max 1 size)
  ({ disk with
      files := Function.update disk.files f (writeAt 0 (disk.files f) own.offset piece) },
    { own with offset := own.offset + piece.length })

/-- What one operation does. -/
def performs (luck : Luck) (disk : Disk) (own : Own) : (o : UpdateOp) → o.Resp × Disk × Own
  | .resolve _ => (luck.resolved, disk, own)
  | .makeWorkDir => (match luck.failure with | some e => .error e.text | none => .ok (), disk, own)
  | .download _ => (luck.downloaded, disk, own)
  | .unpack =>
      match luck.unpacked with
      | .done archive => (.done archive, disk, { own with unpacked := archive })
      | unpacked => (unpacked, disk, own)
  | .isFile => (own.unpacked.isSome, disk, own)
  | .openStaged =>
      match luck.failure with
      | some e => (.error e, disk, own)
      | none => (.ok (own.unpacked.getD []).length, openStaged disk own)
  | .copyPiece =>
      match luck.failure, own.file, own.unpacked with
      | none, some f, some whole =>
          let (disk, own) := copyPiece luck.size disk own f whole
          (.ok own.copied, disk, own)
      | failure, _, _ => (.error (failure.getD ⟨false, "bad file descriptor"⟩), disk, own)
  | .makeExecutable =>
      match luck.failure, disk.staged with
      | none, some _ => (.ok (), disk, own)
      | failure, _ => (.error (failure.getD ⟨false, "no such file or directory"⟩), disk, own)
  | .rename =>
      match luck.failure, disk.staged with
      | none, some f => (.ok (), { disk with exe := f, staged := none }, own)
      | failure, _ => (.error (failure.getD ⟨false, "no such file or directory"⟩), disk, own)
  | .removeStaged =>
      match luck.failure with
      | some _ => ((), disk, own)
      | none => ((), { disk with staged := none }, own)
  | .dropWorkDir => ((), disk, own)

/-- One operation of one run, and whether it changes what `exe` holds. -/
def updateDoes : Does UpdateSig Disk Own Luck := fun o luck disk own =>
  let (answer, disk', own') := performs luck disk own o
  some (answer, disk', { own' with changed := own.changed || disk'.binary != disk.binary })

/-- One run of `update`. -/
structure Run where
  current : Text
  target : Option String

/-- The runs that share a binary. -/
def updates (exe : List String) (platform : String) (disk : Disk) (runs : List Run) :
    Tasks UpdateSig CliError Outcome Disk Own where
  shared := disk
  tasks := runs.zipIdx.map (fun p => (update exe platform p.1.current p.1.target, Own.new p.2))

end Bolide.Cli.Update
