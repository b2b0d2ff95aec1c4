/-
Bolide.Cli.UpdateTheorems — what `exe` holds while it is updated.

Every run stages its binary under one name, `<exe>.new`. As long as a run
that writes finds the file as the last run that opened it would have it, and
what is renamed over `exe` has been written to its end, `exe` holds the old
binary or a whole new one after every step; and no step of a run that fails
has changed it.
-/
import Bolide.Cli.Update

namespace Bolide.Cli.Update

open Lib Prog Tasks Release

/-- The state of the runs. -/
abbrev Runners : Type := Tasks UpdateSig CliError Outcome Disk Own

/-- What a run has of its own. -/
def ownOf (c : Runners) (j : Nat) : Option Own := (c.tasks[j]?).map (fun task => task.2)

/-- The run that opened a file last. -/
def openedBy (c : Runners) (f : Nat) : Option Own := (c.shared.opener f).bind (ownOf c)

/-- A run writes to a file that no other run has opened since it did, unless
that run copies the same binary; and it renames a file that the run which
opened it last has written to its end. -/
def unmixed (c : Runners) (i : Nat) : Bool :=
  match c.tasks[i]? with
  | some (.step .copyPiece _, own) =>
      own.file.all (fun f => (openedBy c f).all (fun other => other.unpacked = own.unpacked))
  | some (.step .rename _, _) =>
      c.shared.staged.all (fun f => (openedBy c f).any Own.copied)
  | _ => true

/-- A step of a run that meets the condition. -/
def Unmixed (_ : List (Entry UpdateSig)) (c : Runners) (i : Nat) (_ : Luck) : Prop :=
  unmixed c i = true

/-- The binary that an operation has unpacked. -/
def unpackedBinary : Entry UpdateSig → Option (List UInt8)
  | ⟨_, .unpack, .done archive⟩ => archive
  | _ => none

/-- `exe` holds the old binary or one that a run has unpacked, and a run that
failed has not changed it. -/
structure NeverBroken (old : List UInt8) (t : List (Entry UpdateSig)) (c : Runners) : Prop where
  binary : c.shared.binary = old ∨ c.shared.binary ∈ t.filterMap unpackedBinary
  failed : ∀ (i : Nat) e own, c.tasks[i]? = some (.fail e, own) → own.changed = false

/-! ## The stages of a run -/

/-- Where a run is. -/
inductive Stage where
  | early
  | found
  | opened
  | renamed
  deriving DecidableEq, Repr

namespace Stage

/-- What a run may do where it is. -/
def may : Stage → UpdateOp → Prop
  | early, o => o = .unpack ∨ o = .isFile ∨ o = .makeWorkDir ∨ o = .dropWorkDir ∨
      (∃ url, o = .resolve url) ∨ ∃ url, o = .download url
  | found, o => o = .openStaged ∨ o = .removeStaged ∨ o = .dropWorkDir
  | opened, o => o = .copyPiece ∨ o = .makeExecutable ∨ o = .rename ∨ o = .removeStaged ∨
      o = .dropWorkDir
  | renamed, o => o = .dropWorkDir

/-- Where an operation leads. -/
def next : Stage → (o : UpdateOp) → o.Resp → Stage
  | early, .isFile, true => found
  | found, .openStaged, .ok _ => opened
  | opened, .rename, .ok _ => renamed
  | stage, _, _ => stage

def discipline : Discipline UpdateSig CliError Stage where
  may := may
  answers _ _ _ := True
  next := next
  fails stage _ := stage ≠ renamed

end Stage

section Follows

variable {α : Type}

theorem follows_updating {stage : Stage} {o : UpdateOp} {f : o.Resp → UpdateTask α}
    {Q : α → Stage → Prop} (hmay : stage.may o)
    (hf : ∀ r, Follows Stage.discipline (stage.next o r) (f r) Q) :
    Follows Stage.discipline stage (updating o >>= f) Q :=
  ⟨hmay, fun r _ => hf r⟩

theorem copyPieces_follows : ∀ n,
    Follows Stage.discipline .opened (copyPieces n) (fun _ stage => stage = .opened)
  | 0 => rfl
  | n + 1 => by
      refine follows_updating (.inl rfl) fun copied => ?_
      cases copied with
      | error e => exact rfl
      | ok last =>
          cases last with
          | true => exact rfl
          | false => exact copyPieces_follows n

theorem copy_follows : Follows Stage.discipline .found copy
    (fun copied stage => (∃ e, copied = .error e ∧ stage = .found) ∨ stage = .opened) := by
  refine follows_updating (.inl rfl) fun opened => ?_
  cases opened with
  | error e => exact .inl ⟨e, rfl, rfl⟩
  | ok length => exact (copyPieces_follows length).mono fun _ _ h => .inr h

theorem cannot_follows {stage : Stage} (h : stage = .found ∨ stage = .opened) (exe : String)
    (e : IoError) : Follows Stage.discipline stage (cannot exe e) (fun _ _ => True) := by
  rcases h with rfl | rfl
  · exact follows_updating (.inr (.inl rfl)) fun _ => by simp [Stage.discipline, Stage.next]
  · exact follows_updating (.inr (.inr (.inr (.inl rfl)))) fun _ => by
      simp [Stage.discipline, Stage.next]

theorem swapIn_follows (exe : String) :
    Follows Stage.discipline .found (swapIn exe) (fun _ _ => True) := by
  refine follows_bind copy_follows fun copied stage hstage => ?_
  cases copied with
  | error e =>
      refine cannot_follows ?_ exe e
      rcases hstage with ⟨_, _, rfl⟩ | rfl
      · exact .inl rfl
      · exact .inr rfl
  | ok _ =>
      obtain rfl : stage = .opened := by
        rcases hstage with ⟨e, he, -⟩ | hstage
        · cases he
        · exact hstage
      refine follows_updating (.inr (.inl rfl)) fun made => ?_
      cases made with
      | error e => exact cannot_follows (.inr rfl) exe e
      | ok _ =>
          refine follows_updating (.inr (.inr (.inl rfl))) fun renamed => ?_
          cases renamed with
          | error e => exact cannot_follows (.inr rfl) exe e
          | ok _ => exact trivial

theorem inWorkDir_follows (exe : String) (latest : Text) (target : String) :
    Follows Stage.discipline .early (inWorkDir exe latest target) (fun _ _ => True) := by
  have hearly : Stage.early ≠ .renamed := by simp
  refine follows_updating (.inr (.inr (.inr (.inr (.inr ⟨_, rfl⟩))))) fun downloaded => ?_
  cases downloaded with
  | error detail => exact hearly
  | ok _ =>
      refine follows_updating (.inl rfl) fun unpacked => ?_
      cases unpacked with
      | couldNotRun e => exact hearly
      | exited code => exact hearly
      | done archive =>
          refine follows_updating (.inr (.inl rfl)) fun isFile => ?_
          cases isFile with
          | true => exact swapIn_follows exe
          | false => exact hearly

theorem latestVersion_follows : Follows Stage.discipline .early latestVersion
    (fun _ stage => stage = .early) := by
  refine follows_updating (.inr (.inr (.inr (.inr (.inl ⟨_, rfl⟩))))) fun resolved => ?_
  show Follows Stage.discipline .early _ _
  cases resolved.bind versionFromReleaseUrl with
  | error detail => exact fun h => by cases h
  | ok version => exact rfl

theorem Stage.may_dropWorkDir (stage : Stage) : stage.may .dropWorkDir := by
  cases stage <;> simp [Stage.may]

theorem Stage.next_dropWorkDir (stage : Stage) (r : Unit) : stage.next .dropWorkDir r = stage := by
  cases stage <;> rfl

theorem update_follows (exe : List String) (platform : String) (current : Text)
    (target : Option String) :
    Follows Stage.discipline .early (update exe platform current target) (fun _ _ => True) := by
  have hearly : Stage.early ≠ .renamed := by simp
  unfold update
  cases isSourceBuild exe with
  | some checkout => exact hearly
  | none =>
      refine follows_bind (latestVersion_follows) fun latest stage hstage => ?_
      subst hstage
      split
      · exact trivial
      · cases target with
        | none => exact hearly
        | some target =>
            refine follows_updating (.inr (.inr (.inl rfl))) fun made => ?_
            cases made with
            | error e => exact hearly
            | ok _ =>
                refine follows_bind (follows_attempt (inWorkDir_follows _ latest target)
                  (Q := fun ended stage => (∃ e, ended = .error e) → stage ≠ Stage.renamed)
                  (fun _ _ _ h => by simp at h) (fun _ _ h _ => h)) fun ended stage hended => ?_
                refine follows_updating (Stage.may_dropWorkDir stage) fun _ => ?_
                rw [Stage.next_dropWorkDir]
                cases ended with
                | error e => exact hended ⟨e, rfl⟩
                | ok _ => exact trivial

end Follows

/-! ## The invariant -/

/-- What a run has, at a stage. -/
structure Own.Sane (t : List (Entry UpdateSig)) (disk : Disk) (i : Nat) (stage : Stage)
    (own : Own) : Prop where
  run : own.run = i
  unopened : stage = .early ∨ stage = .found → own.file = none
  found : stage = .found → own.unpacked.isSome
  file : ∀ f, own.file = some f → own.unpacked.isSome ∧ (disk.opener f).isSome
  unpacked : ∀ whole, own.unpacked = some whole →
    (⟨i, .unpack, .done (some whole)⟩ : Entry UpdateSig) ∈ t
  changed : own.changed = true → stage = .renamed

/-- What the names name. -/
structure Disk.Sane (disk : Disk) : Prop where
  apart : disk.staged ≠ some disk.exe
  exe : disk.exe < disk.fresh
  staged : ∀ f, disk.staged = some f → f < disk.fresh
  opener : ∀ f j, disk.opener f = some j → f < disk.fresh

/-- A file is as the run that opened it last would have it. -/
def Held (c : Runners) : Prop :=
  ∀ f j, c.shared.opener f = some j → ∃ own whole, ownOf c j = some own ∧ own.file = some f ∧
    own.unpacked = some whole ∧ Copied whole (c.shared.files f) own.offset

/-- `exe` names the old binary, or a file that has been written to its end. -/
def Whole (old : List UInt8) (c : Runners) : Prop :=
  (c.shared.opener c.shared.exe = none ∧ c.shared.binary = old) ∨
    ∃ j own, c.shared.opener c.shared.exe = some j ∧ ownOf c j = some own ∧ own.copied = true

/-- What holds of the runs and the names. -/
structure Swapping (old : List UInt8) (γ : Nat → Stage) (t : List (Entry UpdateSig))
    (c : Runners) : Prop where
  disk : c.shared.Sane
  own : ∀ i own, ownOf c i = some own → own.Sane t c.shared i (γ i)
  held : Held c
  whole : Whole old c

theorem Own.copied_iff {own : Own} :
    own.copied = true ↔ ∃ whole, own.unpacked = some whole ∧ own.offset = whole.length := by
  simp [Own.copied, Option.any_eq_true]

section Steps

variable {old : List UInt8} {γ : Nat → Stage} {t : List (Entry UpdateSig)} {c : Runners}
  {i : Nat} {o : UpdateOp} {k : o.Resp → UpdateTask Outcome} {own own' : Own} {disk : Disk}

/-- A whole file is the binary that the run which opened it last has unpacked. -/
theorem Swapping.binary (h : Swapping old γ t c) : (c.shared.binary = old ∧
    c.shared.opener c.shared.exe = none) ∨ ∃ j own, c.shared.opener c.shared.exe = some j ∧
      ownOf c j = some own ∧ own.copied = true ∧ own.unpacked = some c.shared.binary := by
  rcases h.whole with ⟨hnone, hold⟩ | ⟨j, own, hopener, hown, hcopied⟩
  · exact .inl ⟨hold, hnone⟩
  · obtain ⟨own₂, whole, hown₂, -, hunpacked, hheld⟩ := h.held _ j hopener
    rw [hown] at hown₂
    cases hown₂
    obtain ⟨whole₂, hunpacked₂, hoffset⟩ := Own.copied_iff.mp hcopied
    rw [hunpacked] at hunpacked₂
    cases hunpacked₂
    rw [hoffset] at hheld
    exact .inr ⟨j, own, hopener, hown, hcopied, by rw [hunpacked, ← hheld.eq]; rfl⟩

theorem ownOf_set (htask : c.tasks[i]? = some (.step o k, own)) (r : o.Resp) (j : Nat) :
    ownOf ⟨disk, c.tasks.set i (k r, own')⟩ j = if j = i then some own' else ownOf c j := by
  unfold ownOf
  split
  · next hj =>
      subst hj
      rw [List.getElem?_set_self (List.getElem?_eq_some_iff.mp htask).1]
      rfl
  · next hj => rw [List.getElem?_set_ne (Ne.symm hj)]

theorem ownOf_task (htask : c.tasks[i]? = some (.step o k, own)) : ownOf c i = some own := by
  rw [ownOf, htask]
  rfl

/-- A run that keeps the file it has leaves every run the file it has. -/
theorem keeps_file (htask : c.tasks[i]? = some (.step o k, own)) (r : o.Resp)
    (hsame : ∀ f, own.file = some f →
      own'.file = some f ∧ own'.unpacked = own.unpacked ∧ own'.offset = own.offset)
    {j f : Nat} {other : Own} (hother : ownOf c j = some other) (hf : other.file = some f) :
    ∃ other', ownOf ⟨disk, c.tasks.set i (k r, own')⟩ j = some other' ∧
      other'.file = some f ∧ other'.unpacked = other.unpacked ∧ other'.offset = other.offset := by
  rw [ownOf_set htask]
  split
  · next hj =>
      subst hj
      rw [ownOf_task htask] at hother
      cases hother
      exact ⟨own', rfl, hsame f hf⟩
  · exact ⟨other, hother, hf, rfl, rfl⟩

/-- What a run has stays, when others have done something. -/
theorem Own.Sane.mono {stage : Stage} (h : own.Sane t disk i stage) {disk' : Disk}
    (hopener : ∀ f, (disk.opener f).isSome → (disk'.opener f).isSome) (e : Entry UpdateSig) :
    own.Sane (t ++ [e]) disk' i stage where
  run := h.run
  unopened := h.unopened
  found := h.found
  file f hf := ⟨(h.file f hf).1, hopener f (h.file f hf).2⟩
  unpacked whole hwhole := List.mem_append_left _ (h.unpacked whole hwhole)
  changed := h.changed

/-- One operation of run `i`, by what it does to the names and to its own. -/
theorem Swapping.act (h : Swapping old γ t c) (htask : c.tasks[i]? = some (.step o k, own))
    {r : o.Resp} (hdisk : disk.Sane)
    (hopener : ∀ f, (c.shared.opener f).isSome → (disk.opener f).isSome)
    (hown : own'.Sane (t ++ [⟨i, o, r⟩]) disk i ((γ i).next o r))
    (hheld : Held ⟨disk, c.tasks.set i (k r, own')⟩)
    (hwhole : Whole old ⟨disk, c.tasks.set i (k r, own')⟩) :
    Swapping old (moved Stage.discipline γ i o r) (t ++ [⟨i, o, r⟩])
      ⟨disk, c.tasks.set i (k r, own')⟩ := by
  refine ⟨hdisk, fun j other hother => ?_, hheld, hwhole⟩
  rw [ownOf_set htask] at hother
  by_cases hj : j = i
  · subst hj
    rw [if_pos rfl] at hother
    cases hother
    rw [moved_self]
    exact hown
  · rw [if_neg hj] at hother
    rw [moved_of_ne _ _ hj]
    exact (h.own j other hother).mono hopener _

/-- An operation that touches no file: a name may go, and the run keeps the
file it has. -/
theorem Swapping.quiet (h : Swapping old γ t c) (htask : c.tasks[i]? = some (.step o k, own))
    {r : o.Resp} {staged : Option Nat} (hstaged : staged = c.shared.staged ∨ staged = none)
    (hsame : ∀ f, own.file = some f →
      own'.file = some f ∧ own'.unpacked = own.unpacked ∧ own'.offset = own.offset)
    (hown : own'.Sane (t ++ [⟨i, o, r⟩]) c.shared i ((γ i).next o r)) :
    Swapping old (moved Stage.discipline γ i o r) (t ++ [⟨i, o, r⟩])
      ⟨{ c.shared with staged }, c.tasks.set i (k r, own')⟩ := by
  have hfrom := @keeps_file _ _ _ _ _ _ { c.shared with staged } htask r hsame
  refine h.act htask ⟨?_, h.disk.exe, ?_, h.disk.opener⟩ (fun _ => id) ?_ ?_ ?_
  · rcases hstaged with rfl | rfl
    · exact h.disk.apart
    · simp
  · rcases hstaged with rfl | rfl
    · exact h.disk.staged
    · simp
  · exact ⟨hown.run, hown.unopened, hown.found, hown.file, hown.unpacked, hown.changed⟩
  · intro f j hj
    obtain ⟨other, whole, hother, hf, hunpacked, hcopied⟩ := h.held f j hj
    obtain ⟨other', hother', hf', hunpacked', hoffset'⟩ := hfrom hother hf
    exact ⟨other', whole, hother', hf', hunpacked'.trans hunpacked, hoffset' ▸ hcopied⟩
  · rcases h.whole with hold | ⟨j, other, hj, hother, hcopied⟩
    · exact .inl hold
    · obtain ⟨other₂, whole, hother₂, hf, -, -⟩ := h.held _ j hj
      rw [hother] at hother₂
      cases hother₂
      obtain ⟨other', hother', -, hunpacked', hoffset'⟩ := hfrom hother hf
      refine .inr ⟨j, other', hj, hother', ?_⟩
      rw [Own.copied, hunpacked', hoffset']
      exact hcopied

/-! ## One operation -/

/-- The file that is opened is not the one `exe` names. -/
theorem Disk.Sane.opens_apart (h : disk.Sane) : disk.exe ≠ disk.staged.getD disk.fresh := by
  cases hstaged : disk.staged with
  | none => exact h.exe.ne
  | some f =>
      intro heq
      exact h.apart (by rw [hstaged, heq]; rfl)

theorem Disk.Sane.openStaged (h : disk.Sane) (own : Own) : (openStaged disk own).1.Sane := by
  have hle : disk.fresh ≤ (Update.openStaged disk own).1.fresh := by
    show disk.fresh ≤ if disk.staged = none then disk.fresh + 1 else disk.fresh
    split
    · exact Nat.le_succ _
    · exact le_rfl
  have hf : disk.staged.getD disk.fresh < (Update.openStaged disk own).1.fresh := by
    unfold Update.openStaged
    cases hstaged : disk.staged with
    | none => simp
    | some f => simpa using h.staged f hstaged
  refine ⟨fun heq => ?_, h.exe.trans_le hle, fun f heq => ?_, fun f j hj => ?_⟩
  · exact h.opens_apart (Option.some.inj heq).symm
  · cases heq
    exact hf
  · by_cases heq : f = disk.staged.getD disk.fresh
    · rw [heq]
      exact hf
    · refine (h.opener f j ?_).trans_le hle
      rw [← hj]
      exact (Function.update_of_ne heq _ _).symm

theorem Disk.Sane.binary_openStaged (h : disk.Sane) (own : Own) :
    (Update.openStaged disk own).1.binary = disk.binary :=
  Function.update_of_ne h.opens_apart _ _

/-- A run that has not opened the file is not the one that opened a file last. -/
theorem Swapping.not_opener (h : Swapping old γ t c) (htask : c.tasks[i]? = some (.step o k, own))
    (hfile : own.file = none) {f j : Nat} (hj : c.shared.opener f = some j) : j ≠ i := by
  rintro rfl
  obtain ⟨other, -, hother, hf, -⟩ := h.held f j hj
  rw [ownOf_task htask] at hother
  cases hother
  rw [hfile] at hf
  cases hf

/-- A run opens `<exe>.new`. -/
theorem Swapping.opens (h : Swapping old γ t c) {k : Except IoError Nat → UpdateTask Outcome}
    (htask : c.tasks[i]? = some (.step .openStaged k, own)) (hfound : γ i = .found) (n : Nat) :
    Swapping old (moved Stage.discipline γ i .openStaged (.ok n)) (t ++ [⟨i, .openStaged, .ok n⟩])
      ⟨(openStaged c.shared own).1, c.tasks.set i (k (.ok n), (openStaged c.shared own).2)⟩ := by
  have hsane := h.own i own (ownOf_task htask)
  have hfile := hsane.unopened (.inr hfound)
  have hrun := hsane.run
  have hnot := fun {f j} hj => h.not_opener (f := f) (j := j) htask hfile hj
  have hother : ∀ {f}, f ≠ c.shared.staged.getD c.shared.fresh →
      (openStaged c.shared own).1.opener f = c.shared.opener f :=
    fun hf => Function.update_of_ne hf _ _
  have hself : (openStaged c.shared own).1.opener (c.shared.staged.getD c.shared.fresh) = some i := by
    rw [← hrun]
    exact Function.update_self _ _ _
  refine h.act htask (h.disk.openStaged own) (fun f hf => ?_) ?_ (fun f j hj => ?_) ?_
  · by_cases heq : f = c.shared.staged.getD c.shared.fresh
    · rw [heq, hself]
      rfl
    · rw [hother heq]
      exact hf
  · have hnext : (γ i).next .openStaged (.ok n) = .opened := by rw [hfound]; rfl
    rw [hnext]
    refine ⟨hrun, by simp, by simp, fun f hf => ⟨hsane.found hfound, ?_⟩,
      fun whole hwhole => List.mem_append_left _ (hsane.unpacked whole hwhole), fun hchanged => ?_⟩
    · cases hf
      rw [hself]
      rfl
    · have hrenamed := hsane.changed hchanged
      rw [hfound] at hrenamed
      cases hrenamed
  · rw [ownOf_set htask]
    by_cases heq : f = c.shared.staged.getD c.shared.fresh
    · subst heq
      rw [hself] at hj
      cases hj
      obtain ⟨whole, hwhole⟩ := Option.isSome_iff_exists.mp (hsane.found hfound)
      refine ⟨_, whole, if_pos rfl, rfl, hwhole, ?_⟩
      show Copied whole (Function.update c.shared.files _ [] _) 0
      rw [Function.update_self]
      exact copied_nil whole
    · have hj' : c.shared.opener f = some j := (hother heq).symm.trans hj
      rw [if_neg (hnot hj')]
      obtain ⟨other, whole, hown, hf, hunpacked, hcopied⟩ := h.held f j hj'
      refine ⟨other, whole, hown, hf, hunpacked, ?_⟩
      show Copied whole (Function.update c.shared.files _ [] _) other.offset
      rw [Function.update_of_ne heq]
      exact hcopied
  · rcases h.whole with ⟨hnone, hold⟩ | ⟨j, other, hj, hown, hcopied⟩
    · exact .inl ⟨(hother h.disk.opens_apart).trans hnone,
        (h.disk.binary_openStaged own).trans hold⟩
    · refine .inr ⟨j, other, (hother h.disk.opens_apart).trans hj, ?_, hcopied⟩
      rw [ownOf_set htask, if_neg (hnot hj)]
      exact hown

/-- A run writes the next piece, to a file that is as it would have it. -/
theorem Swapping.writes (h : Swapping old γ t c) {k : Except IoError Bool → UpdateTask Outcome}
    (htask : c.tasks[i]? = some (.step .copyPiece k, own)) (hopened : γ i = .opened)
    (hunmixed : unmixed c i = true) {f : Nat} {whole : List UInt8} (hf : own.file = some f)
    (hwhole : own.unpacked = some whole) (size : Nat) (last : Bool) :
    (copyPiece size c.shared own f whole).1.binary = c.shared.binary ∧
    Swapping old (moved Stage.discipline γ i .copyPiece (.ok last)) (t ++ [⟨i, .copyPiece, .ok last⟩])
      ⟨(copyPiece size c.shared own f whole).1,
        c.tasks.set i (k (.ok last), (copyPiece size c.shared own f whole).2)⟩ := by
  have hsane := h.own i own (ownOf_task htask)
  obtain ⟨j, hj⟩ := Option.isSome_iff_exists.mp (hsane.file f hf).2
  obtain ⟨other, whole', hother, hotherf, hunpacked, hcopied⟩ := h.held f j hj
  -- whoever opened the file last copies the same binary
  obtain rfl : whole' = whole := by
    simp only [unmixed, htask, hf, Option.all_some, openedBy, hj, Option.bind_some, hother,
      decide_eq_true_iff] at hunmixed
    rw [hunpacked, hwhole] at hunmixed
    exact Option.some.inj hunmixed
  have hself : (copyPiece size c.shared own f whole').1.files f =
      writeAt 0 (c.shared.files f) own.offset ((whole'.drop own.offset).take (max 1 size)) :=
    Function.update_self _ _ _
  have helse : ∀ {g}, g ≠ f → (copyPiece size c.shared own f whole').1.files g = c.shared.files g :=
    fun hg => Function.update_of_ne hg _ _
  have hmine : j = i → other = own := by
    rintro rfl
    rw [ownOf_task htask] at hother
    cases hother
    rfl
  -- what `exe` names has been written to its end, so a piece changes nothing
  have hdone : c.shared.exe = f → other.offset = whole'.length := by
    intro hexe
    rcases h.whole with ⟨hnone, -⟩ | ⟨j₂, own₂, hj₂, hown₂, hcopied₂⟩
    · rw [hexe, hj] at hnone
      cases hnone
    · rw [hexe, hj] at hj₂
      cases hj₂
      rw [hother] at hown₂
      cases hown₂
      obtain ⟨whole₂, hunpacked₂, hoffset⟩ := Own.copied_iff.mp hcopied₂
      rw [hunpacked] at hunpacked₂
      cases hunpacked₂
      exact hoffset
  have hbinary : (copyPiece size c.shared own f whole').1.binary = c.shared.binary := by
    show (copyPiece size c.shared own f whole').1.files c.shared.exe = c.shared.files c.shared.exe
    by_cases hexe : c.shared.exe = f
    · rw [hexe, hself]
      rw [hdone hexe] at hcopied
      rw [(hcopied.write 0 own.offset (max 1 size)).eq, hcopied.eq]
    · exact helse hexe
  refine ⟨hbinary, h.act htask ⟨h.disk.apart, h.disk.exe, h.disk.staged, h.disk.opener⟩
    (fun _ => id) ?_ (fun g j' hj' => ?_) ?_⟩
  · have hnext : (γ i).next .copyPiece (.ok last) = .opened := by rw [hopened]; rfl
    rw [hnext]
    exact ⟨hsane.run, by simp, by simp, hsane.file,
      fun whole₂ h₂ => List.mem_append_left _ (hsane.unpacked whole₂ h₂),
      fun hchanged => hopened ▸ hsane.changed hchanged⟩
  · rw [ownOf_set htask]
    by_cases hg : g = f
    · subst hg
      have hjj : j' = j := Option.some.inj (hj'.symm.trans hj)
      subst hjj
      by_cases hji : j' = i
      · rw [if_pos hji]
        refine ⟨_, whole', rfl, hf, hwhole, ?_⟩
        rw [hself]
        rw [hmine hji] at hcopied
        exact hcopied.advance 0 (max 1 size)
      · rw [if_neg hji]
        refine ⟨other, whole', hother, hotherf, hunpacked, ?_⟩
        rw [hself]
        exact hcopied.write 0 own.offset (max 1 size)
    · obtain ⟨other₂, whole₂, hother₂, hf₂, hunpacked₂, hcopied₂⟩ := h.held g j' hj'
      have hji : j' ≠ i := by
        rintro rfl
        rw [ownOf_task htask] at hother₂
        cases hother₂
        rw [hf] at hf₂
        exact hg (Option.some.inj hf₂).symm
      rw [if_neg hji, helse hg]
      exact ⟨other₂, whole₂, hother₂, hf₂, hunpacked₂, hcopied₂⟩
  · rcases h.whole with ⟨hnone, hold⟩ | ⟨j₂, own₂, hj₂, hown₂, hcopied₂⟩
    · exact .inl ⟨hnone, hbinary.trans hold⟩
    · by_cases hji : j₂ = i
      · subst hji
        rw [ownOf_task htask] at hown₂
        cases hown₂
        refine .inr ⟨j₂, _, hj₂, by rw [ownOf_set htask, if_pos rfl], ?_⟩
        obtain ⟨whole₂, hunpacked₂, hoffset⟩ := Own.copied_iff.mp hcopied₂
        rw [hwhole] at hunpacked₂
        cases hunpacked₂
        refine Own.copied_iff.mpr ⟨whole', hwhole, ?_⟩
        show own.offset + ((whole'.drop own.offset).take (max 1 size)).length = whole'.length
        rw [hoffset, List.drop_length, List.take_nil]
        rfl
      · refine .inr ⟨j₂, own₂, hj₂, ?_, hcopied₂⟩
        rw [ownOf_set htask, if_neg hji]
        exact hown₂

/-- A run renames a file over `exe` that has been written to its end. -/
theorem Swapping.renames (h : Swapping old γ t c) {k : Except IoError Unit → UpdateTask Outcome}
    (htask : c.tasks[i]? = some (.step .rename k, own)) (hopened : γ i = .opened)
    (hunmixed : unmixed c i = true) {f : Nat} (hf : c.shared.staged = some f) (changed : Bool) :
    Swapping old (moved Stage.discipline γ i .rename (.ok ())) (t ++ [⟨i, .rename, .ok ()⟩])
      ⟨{ c.shared with exe := f, staged := none },
        c.tasks.set i (k (.ok ()), { own with changed })⟩ := by
  have hsane := h.own i own (ownOf_task htask)
  have hsame : ∀ f, own.file = some f → ({ own with changed } : Own).file = some f ∧
      ({ own with changed } : Own).unpacked = own.unpacked ∧
      ({ own with changed } : Own).offset = own.offset := fun _ hf => ⟨hf, rfl, rfl⟩
  refine h.act htask ⟨by simp, h.disk.staged f hf, by simp, h.disk.opener⟩ (fun _ => id) ?_
    (fun g j hj => ?_) ?_
  · have hnext : (γ i).next .rename (.ok ()) = .renamed := by rw [hopened]; rfl
    rw [hnext]
    exact ⟨hsane.run, by simp, by simp, hsane.file,
      fun whole h₂ => List.mem_append_left _ (hsane.unpacked whole h₂), fun _ => rfl⟩
  · obtain ⟨other, whole, hother, hg, hunpacked, hcopied⟩ := h.held g j hj
    obtain ⟨other', hother', hg', hunpacked', hoffset'⟩ := keeps_file htask (.ok ()) hsame hother hg
    exact ⟨other', whole, hother', hg', hunpacked'.trans hunpacked, hoffset' ▸ hcopied⟩
  · right
    simp only [unmixed, htask, hf, Option.all_some, openedBy] at hunmixed
    obtain ⟨other, hother, hcopied⟩ := (Option.any_eq_true _ _).mp hunmixed
    obtain ⟨j, hj, hother⟩ := Option.bind_eq_some_iff.mp hother
    obtain ⟨other₂, whole, hother₂, hg, -, -⟩ := h.held f j hj
    rw [hother] at hother₂
    cases hother₂
    obtain ⟨other', hother', -, hunpacked', hoffset'⟩ := keeps_file htask (.ok ()) hsame hother hg
    refine ⟨j, other', hj, hother', ?_⟩
    rw [Own.copied, hunpacked', hoffset']
    exact hcopied

/-- An operation that does nothing to the directory, nor to the run's own. -/
theorem Swapping.idle (h : Swapping old γ t c) (htask : c.tasks[i]? = some (.step o k, own))
    {r : o.Resp} (hnext : (γ i).next o r = γ i) :
    Swapping old (moved Stage.discipline γ i o r) (t ++ [⟨i, o, r⟩])
      ⟨c.shared, c.tasks.set i (k r, own)⟩ := by
  refine h.quiet htask (.inl rfl) (fun f hf => ⟨hf, rfl, rfl⟩) ?_
  rw [hnext]
  exact (h.own i own (ownOf_task htask)).mono (fun _ => id) _

/-- The archive is unpacked. -/
theorem Swapping.unpacks (h : Swapping old γ t c) {k : Unpacked → UpdateTask Outcome}
    (htask : c.tasks[i]? = some (.step .unpack k, own)) (hearly : γ i = .early)
    (archive : Option (List UInt8)) :
    Swapping old (moved Stage.discipline γ i .unpack (.done archive))
      (t ++ [⟨i, .unpack, .done archive⟩])
      ⟨c.shared, c.tasks.set i (k (.done archive), { own with unpacked := archive })⟩ := by
  have hsane := h.own i own (ownOf_task htask)
  have hfile := hsane.unopened (.inl hearly)
  refine h.quiet htask (.inl rfl) (fun f hf => by rw [hfile] at hf; cases hf) ?_
  have hnext : (γ i).next .unpack (.done archive) = .early := by rw [hearly]; rfl
  rw [hnext]
  refine ⟨hsane.run, fun _ => hfile, by simp, fun f hf => ?_, fun whole hwhole => ?_,
    fun hchanged => hearly ▸ hsane.changed hchanged⟩
  · have hnone : own.file = some f := hf
    rw [hfile] at hnone
    cases hnone
  · have hwhole : archive = some whole := hwhole
    rw [hwhole]
    exact List.mem_append_right _ (List.mem_singleton.mpr rfl)

/-- A run looks for its binary. -/
theorem Swapping.looks (h : Swapping old γ t c) {k : Bool → UpdateTask Outcome}
    (htask : c.tasks[i]? = some (.step .isFile k, own)) (hearly : γ i = .early) :
    Swapping old (moved Stage.discipline γ i .isFile own.unpacked.isSome)
      (t ++ [⟨i, .isFile, own.unpacked.isSome⟩])
      ⟨c.shared, c.tasks.set i (k own.unpacked.isSome, own)⟩ := by
  have hsane := h.own i own (ownOf_task htask)
  cases hsome : own.unpacked.isSome with
  | false => exact h.idle htask (by rw [hearly]; rfl)
  | true =>
      refine h.quiet htask (.inl rfl) (fun f hf => ⟨hf, rfl, rfl⟩) ?_
      have hnext : (γ i).next .isFile true = .found := by rw [hearly]; rfl
      rw [hnext]
      refine ⟨hsane.run, fun _ => hsane.unopened (.inl hearly), fun _ => hsome, hsane.file,
        fun whole hwhole => List.mem_append_left _ (hsane.unpacked whole hwhole), fun hchanged => ?_⟩
      have hrenamed := hsane.changed hchanged
      rw [hearly] at hrenamed
      cases hrenamed

/-- A run removes `<exe>.new`. -/
theorem Swapping.removes (h : Swapping old γ t c) {k : Unit → UpdateTask Outcome}
    (htask : c.tasks[i]? = some (.step .removeStaged k, own)) :
    Swapping old (moved Stage.discipline γ i .removeStaged ()) (t ++ [⟨i, .removeStaged, ()⟩])
      ⟨{ c.shared with staged := none }, c.tasks.set i (k (), own)⟩ := by
  refine h.quiet htask (.inr rfl) (fun f hf => ⟨hf, rfl, rfl⟩) ?_
  have hnext : (γ i).next .removeStaged () = γ i := by cases γ i <;> rfl
  rw [hnext]
  exact (h.own i own (ownOf_task htask)).mono (fun _ => id) _

/-- What a run is, when its operation has left `exe` alone. -/
theorem unchanged (own own' : Own) {disk' : Disk} (hbinary : disk'.binary = disk.binary)
    (hchanged : own'.changed = own.changed) :
    { own' with changed := own.changed || disk'.binary != disk.binary } = own' := by
  rw [hbinary, bne_self_eq_false, Bool.or_false, ← hchanged]

/-- Every operation of every run. -/
theorem Swapping.does (h : Swapping old γ t c) (hunmixed : unmixed c i = true)
    (htask : c.tasks[i]? = some (.step o k, own)) (hmay : (γ i).may o) {luck : Luck} {r : o.Resp}
    (hdoes : updateDoes o luck c.shared own = some (r, disk, own')) :
    Swapping old (moved Stage.discipline γ i o r) (t ++ [⟨i, o, r⟩])
      ⟨disk, c.tasks.set i (k r, own')⟩ := by
  have hearly : ∀ {o₂}, o = o₂ → (o₂ = .unpack ∨ o₂ = .isFile) → γ i = .early := by
    rintro o₂ rfl (rfl | rfl)
    all_goals
      cases hstage : γ i
      · rfl
      all_goals
        rw [hstage] at hmay
        simp [Stage.may] at hmay
  have hopened : ∀ {o₂}, o = o₂ → (o₂ = .copyPiece ∨ o₂ = .rename) → γ i = .opened := by
    rintro o₂ rfl (rfl | rfl)
    all_goals
      cases hstage : γ i
      case opened => rfl
      all_goals
        rw [hstage] at hmay
        simp [Stage.may] at hmay
  have heq := Option.some.inj hdoes
  obtain ⟨rfl, hrest⟩ := Prod.mk.inj heq
  obtain ⟨rfl, rfl⟩ := Prod.mk.inj hrest
  clear heq hrest hdoes
  cases o with
  | resolve url =>
      rw [unchanged own _ rfl rfl]
      exact h.idle htask (by cases γ i <;> rfl)
  | makeWorkDir =>
      rw [unchanged own _ rfl rfl]
      exact h.idle htask (by cases γ i <;> rfl)
  | download url =>
      rw [unchanged own _ rfl rfl]
      exact h.idle htask (by cases γ i <;> rfl)
  | dropWorkDir =>
      rw [unchanged own _ rfl rfl]
      exact h.idle htask (by cases γ i <;> rfl)
  | unpack =>
      have hearly := hearly rfl (.inl rfl)
      simp only
      cases luck.unpacked with
      | couldNotRun e =>
          rw [unchanged own _ rfl rfl]
          exact h.idle htask (by rw [hearly]; rfl)
      | exited code =>
          rw [unchanged own _ rfl rfl]
          exact h.idle htask (by rw [hearly]; rfl)
      | done archive =>
          rw [unchanged own { own with unpacked := archive } rfl rfl]
          exact h.unpacks htask hearly archive
  | isFile =>
      rw [unchanged own _ rfl rfl]
      exact h.looks htask (hearly rfl (.inr rfl))
  | openStaged =>
      have hfound : γ i = .found := by
        cases hstage : γ i
        case found => rfl
        all_goals
          rw [hstage] at hmay
          simp [Stage.may] at hmay
      simp only
      cases luck.failure with
      | some e =>
          rw [unchanged own _ rfl rfl]
          exact h.idle htask (by rw [hfound]; rfl)
      | none =>
          rw [unchanged own (openStaged c.shared own).2 (h.disk.binary_openStaged own) rfl]
          exact h.opens htask hfound _
  | copyPiece =>
      have hopened := hopened rfl (.inl rfl)
      simp only
      cases luck.failure with
      | some e =>
          rw [unchanged own _ rfl rfl]
          exact h.idle htask (by rw [hopened]; rfl)
      | none =>
          cases hf : own.file with
          | none =>
              rw [unchanged own _ rfl rfl]
              exact h.idle htask (by rw [hopened]; rfl)
          | some f =>
              cases hwhole : own.unpacked with
              | none =>
                  rw [unchanged own _ rfl rfl]
                  exact h.idle htask (by rw [hopened]; rfl)
              | some whole =>
                  obtain ⟨hbinary, hnext⟩ := h.writes htask hopened hunmixed hf hwhole luck.size
                    (copyPiece luck.size c.shared own f whole).2.copied
                  rw [unchanged own (copyPiece luck.size c.shared own f whole).2 hbinary rfl]
                  exact hnext
  | makeExecutable =>
      simp only
      cases luck.failure with
      | some e =>
          rw [unchanged own _ rfl rfl]
          exact h.idle htask (by cases γ i <;> rfl)
      | none =>
          cases hstaged : c.shared.staged with
          | none =>
              rw [unchanged own _ rfl rfl]
              exact h.idle htask (by cases γ i <;> rfl)
          | some f =>
              rw [unchanged own _ rfl rfl]
              exact h.idle htask (by cases γ i <;> rfl)
  | rename =>
      have hopened := hopened rfl (.inr rfl)
      simp only
      cases luck.failure with
      | some e =>
          rw [unchanged own _ rfl rfl]
          exact h.idle htask (by rw [hopened]; rfl)
      | none =>
          cases hstaged : c.shared.staged with
          | none =>
              rw [unchanged own _ rfl rfl]
              exact h.idle htask (by rw [hopened]; rfl)
          | some f => exact h.renames htask hopened hunmixed hstaged _
  | removeStaged =>
      simp only
      cases luck.failure with
      | some e =>
          rw [unchanged own _ rfl rfl]
          exact h.idle htask (by cases γ i <;> rfl)
      | none =>
          have hbinary : ({ c.shared with staged := none } : Disk).binary = c.shared.binary := rfl
          rw [unchanged own own hbinary rfl]
          exact h.removes htask

end Steps

/-! ## Every run -/

section Everything

variable {exe : List String} {platform : String} {old : List UInt8}
  {leftover : Option (List UInt8)} {runs : List Run}

/-- The runs at the start. -/
theorem updates_task {disk : Disk} {i : Nat} {p : UpdateTask Outcome} {own : Own}
    (h : (updates exe platform disk runs).tasks[i]? = some (p, own)) :
    (∃ run, runs[i]? = some run ∧ p = update exe platform run.current run.target) ∧
      own = Own.new i := by
  simp only [updates, List.getElem?_map, List.getElem?_zipIdx, Option.map_map,
    Option.map_eq_some_iff] at h
  obtain ⟨run, hget, hrun⟩ := h
  simp only [Function.comp_apply, Nat.zero_add, Prod.mk.injEq] at hrun
  exact ⟨⟨run, hget, hrun.1.symm⟩, hrun.2.symm⟩

theorem updates_roles (disk : Disk) : Roles Stage.discipline (fun _ _ => True)
    (fun _ => Stage.early) (updates exe platform disk runs) := by
  intro i p own htask
  obtain ⟨⟨run, -, rfl⟩, -⟩ := updates_task htask
  exact update_follows exe platform run.current run.target

theorem start_sane (old : List UInt8) (leftover : Option (List UInt8)) :
    (Disk.start old leftover).Sane where
  apart := by cases leftover <;> simp [Disk.start]
  exe := by simp [Disk.start]
  staged := by cases leftover <;> simp [Disk.start]
  opener := by simp [Disk.start]

theorem swapping_start : Swapping old (fun _ => Stage.early) []
    (updates exe platform (Disk.start old leftover) runs) := by
  refine ⟨start_sane old leftover, fun i own hown => ?_, fun f j hj => ?_, .inl ⟨rfl, rfl⟩⟩
  · obtain ⟨⟨p, own⟩, htask, rfl⟩ := Option.map_eq_some_iff.mp hown
    obtain ⟨-, rfl⟩ := updates_task htask
    constructor <;> simp [Own.new]
  · have hnone : (none : Option Nat) = some j := hj
    cases hnone

/-- What the invariant says of `exe`. -/
theorem Swapping.neverBroken {γ : Nat → Stage} {t : List (Entry UpdateSig)} {c : Runners}
    (h : Swapping old γ t c) (hroles : Roles Stage.discipline (fun _ _ => True) γ c) :
    NeverBroken old t c := by
  refine ⟨?_, fun i e own htask => ?_⟩
  · rcases h.binary with ⟨hold, -⟩ | ⟨j, own, -, hown, -, hunpacked⟩
    · exact .inl hold
    · exact .inr (List.mem_filterMap.mpr ⟨_, (h.own j own hown).unpacked _ hunpacked, rfl⟩)
  · have hstage : γ i ≠ .renamed := hroles i _ _ htask
    have hown : ownOf c i = some own := by rw [ownOf, htask]; rfl
    by_contra hchanged
    exact hstage ((h.own i own hown).changed (Bool.of_not_eq_false hchanged))

/-- As long as nobody writes to a file that another has opened since, and what
is renamed has been written to its end, `exe` is never broken. -/
theorem never_broken (exe : List String) (platform : String) (old : List UInt8)
    (leftover : Option (List UInt8)) (runs : List Run) {t : List (Entry UpdateSig)} {c : Runners}
    (h : Runs updateDoes Unmixed (updates exe platform (Disk.start old leftover) runs) t c) :
    NeverBroken old t c := by
  obtain ⟨γ, hroles, hswapping⟩ := h.joint (J := Swapping old) (updates_roles _) swapping_start
    fun t c γ i luck o k own r disk own' hunmixed _ hswapping htask hmay hdoes =>
      ⟨trivial, hswapping.does hunmixed htask hmay hdoes⟩
  exact hswapping.neverBroken hroles

end Everything

/-! ## Two runs at once -/

/-- Nothing fails, and a write takes two bytes; the archive holds this. -/
def fair (whole : List UInt8) : Luck where
  failure := none
  size := 2
  resolved := .ok "https://github.com/jakequist/bolide/releases/tag/v0.2.0".toList
  downloaded := .ok ()
  unpacked := .done (some whole)

/-- The runs that take the steps, in this order. -/
def inOrder (steps : List Nat) : List (Nat × Luck) := steps.map (fun i => (i, fair [1, 2, 3]))

/-- Runs of an installed binary, whose bytes are these. -/
def installed (runs : Nat) : Runners :=
  updates ["usr", "local", "bin", "bolide"] "linux" (Disk.start [7, 7] none)
    (List.replicate runs ⟨"0.1.0".toList, some "x86_64-unknown-linux-musl"⟩)

/-- Two runs, of which the second ends before the first goes on. -/
theorem never_broken_twice : ∃ t c, Runs updateDoes Unmixed (installed 2) t c ∧
    NeverBroken [7, 7] t c ∧ c.shared.binary = [1, 2, 3] := by
  have hend : ((installed 2).record (fun _ c i _ => unmixed c i) updateDoes
      (inOrder [0, 0, 0, 0, 1, 1, 1, 1, 1, 1, 1, 1, 1, 1, 0, 0, 0, 0, 0, 0]) []).map
      (fun e => e.2.shared.binary) = some [1, 2, 3] := by
    decide +kernel
  obtain ⟨⟨t, c⟩, hrecord, hbinary⟩ := Option.map_eq_some_iff.mp hend
  have hrun : Runs updateDoes Unmixed (installed 2) t c :=
    runs_record (fun _ _ _ _ h => h) hrecord .start
  exact ⟨t, c, hrun, never_broken _ _ [7, 7] none _ hrun, hbinary⟩

/-- The first run renames what the second has only opened. -/
theorem not_never_broken_half : ¬ ∀ t c, Runs updateDoes Anyhow (installed 2) t c →
    NeverBroken [7, 7] t c := by
  intro hall
  have hend : ((installed 2).record (fun _ _ _ _ => true) updateDoes
      (inOrder [0, 0, 0, 0, 0, 0, 0, 0, 1, 1, 1, 1, 1, 1, 1, 0, 0]) []).map
      (fun e => (e.2.shared.binary, e.1.filterMap unpackedBinary)) =
        some ([1, 2], [[1, 2, 3], [1, 2, 3]]) := by
    decide +kernel
  obtain ⟨⟨t, c⟩, hrecord, heq⟩ := Option.map_eq_some_iff.mp hend
  obtain ⟨hbinary, hunpacked⟩ := Prod.mk.inj heq
  have hrun : Runs updateDoes Anyhow (installed 2) t c :=
    runs_record (fun _ _ _ _ _ => trivial) hrecord .start
  have hbroken := (hall t c hrun).binary
  rw [hbinary, hunpacked] at hbroken
  revert hbroken
  decide

end Bolide.Cli.Update
