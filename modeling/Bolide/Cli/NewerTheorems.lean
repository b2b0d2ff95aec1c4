/-
Bolide.Cli.NewerTheorems — `update` changes nothing unless the latest release
is newer.

`Seen` is what a run has learnt: before the latest version is known a run only
asks for it, and after that it does something only if `compare_versions` says
that the version is newer. So every other operation, in every interleaving, is
done by a run that was told of a newer release (`updates_newer`).
-/
import Bolide.Cli.UpdateTheorems
import Bolide.Cli.VersionTheorems

namespace Bolide.Cli.Update

open Lib Prog Tasks Release

/-! ## What a run has learnt -/

/-- The version of a run, and the one it has found. -/
structure Seen where
  current : Text
  latest : Option Text

/-- An operation that is not the question for the latest version. -/
def Acts (o : UpdateOp) : Prop := ∀ url, o ≠ .resolve url

namespace Seen

def may (seen : Seen) (o : UpdateOp) : Prop :=
  match seen.latest with
  | none => o = .resolve latestReleaseUrl
  | some latest => Acts o ∧ compareVersions seen.current latest = some .lt

def next (seen : Seen) : (o : UpdateOp) → o.Resp → Seen
  | .resolve _, resolved =>
      { seen with latest := (resolved.bind versionFromReleaseUrl).toOption }
  | _, _ => seen

def discipline : Discipline UpdateSig CliError Seen where
  may := may
  answers _ _ _ := True
  next := next
  fails _ _ := True

theorem next_of_acts {o : UpdateOp} (h : Acts o) (seen : Seen) (r : o.Resp) :
    seen.next o r = seen := by
  cases o with
  | resolve url => exact absurd rfl (h url)
  | _ => rfl

theorem next_current (seen : Seen) (o : UpdateOp) (r : o.Resp) :
    (seen.next o r).current = seen.current := by
  cases o <;> rfl

end Seen

/-! ## A run asks, and then acts -/

section Only

variable {α : Type} {R : α → Prop}

theorem only_updating {o : UpdateOp} {f : o.Resp → UpdateTask α} (ho : Acts o)
    (hf : ∀ r, (f r).Only Acts R) : (updating o >>= f).Only Acts R := ⟨ho, hf⟩

theorem copyPieces_only : ∀ n, (copyPieces n).Only Acts (fun _ => True)
  | 0 => trivial
  | n + 1 => by
      refine only_updating (by simp [Acts]) fun copied => ?_
      cases copied with
      | error e => trivial
      | ok last =>
          cases last with
          | true => trivial
          | false => exact copyPieces_only n

theorem copy_only : copy.Only Acts (fun _ => True) := by
  refine only_updating (by simp [Acts]) fun opened => ?_
  cases opened with
  | error e => trivial
  | ok length => exact copyPieces_only length

theorem cannot_only (exe : String) (e : IoError) : (cannot exe e).Only Acts (fun _ => True) :=
  only_updating (by simp [Acts]) fun _ => trivial

theorem orCannot_only (exe : String) (outcome : Except IoError Unit) {next : UpdateTask Unit}
    (h : next.Only Acts (fun _ => True)) :
    (orCannot exe outcome next).Only Acts (fun _ => True) := by
  cases outcome with
  | error e => exact cannot_only exe e
  | ok _ => exact h

theorem swapIn_only (exe : String) : (swapIn exe).Only Acts (fun _ => True) :=
  copy_only.bind fun copied _ => orCannot_only exe copied <|
    only_updating (by simp [Acts]) fun made => orCannot_only exe made <|
      only_updating (by simp [Acts]) fun renamed => orCannot_only exe renamed trivial

theorem inWorkDir_only (exe : String) (latest : Text) (target : String) :
    (inWorkDir exe latest target).Only Acts (fun _ => True) := by
  refine only_updating (by simp [Acts]) fun downloaded => ?_
  cases downloaded with
  | error detail => trivial
  | ok _ =>
      refine only_updating (by simp [Acts]) fun unpacked => ?_
      cases unpacked with
      | couldNotRun e => trivial
      | exited code => trivial
      | done archive =>
          refine only_updating (by simp [Acts]) fun isFile => ?_
          cases isFile with
          | true => exact swapIn_only exe
          | false => trivial

end Only

theorem latestVersion_seen (current : Text) :
    Follows Seen.discipline ⟨current, none⟩ latestVersion
      (fun latest seen => seen = ⟨current, some latest⟩) := by
  have hasked : Follows Seen.discipline ⟨current, none⟩ (updating (.resolve latestReleaseUrl))
      (fun resolved seen => seen = ⟨current, (resolved.bind versionFromReleaseUrl).toOption⟩) :=
    ⟨rfl, fun _ _ => rfl⟩
  refine follows_bind hasked fun resolved seen hseen => ?_
  subst hseen
  cases resolved.bind versionFromReleaseUrl with
  | error detail => trivial
  | ok latest => rfl

theorem update_seen (exe : List String) (platform : String) (current : Text)
    (target : Option String) :
    Follows Seen.discipline ⟨current, none⟩ (update exe platform current target)
      (fun _ _ => True) := by
  unfold update
  cases isSourceBuild exe with
  | some checkout => trivial
  | none =>
      refine follows_bind (latestVersion_seen current) fun latest seen hseen => ?_
      subst hseen
      split
      · trivial
      · next hnewer =>
          have hmay : ∀ o, Acts o → Seen.may ⟨current, some latest⟩ o :=
            fun o ho => ⟨ho, not_not.mp hnewer⟩
          cases target with
          | none => trivial
          | some target =>
              have honly : ∀ {p : UpdateTask Outcome}, p.Only Acts (fun _ => True) →
                  Follows Seen.discipline ⟨current, some latest⟩ p (fun _ _ => True) :=
                fun hp => (follows_of_only (D := Seen.discipline) hmay
                  (fun o r ho => Seen.next_of_acts ho _ r) (fun _ => trivial) hp).mono
                  fun _ _ _ => trivial
              refine honly (only_updating (by simp [Acts]) fun made => ?_)
              cases made with
              | error e => trivial
              | ok _ =>
                  refine (inWorkDir_only _ latest target).attempt.bind fun ended _ => ?_
                  refine only_updating (by simp [Acts]) fun _ => ?_
                  cases ended with
                  | error e => trivial
                  | ok _ => trivial

/-! ## Every run -/

/-- What the runs have learnt they were told, and what was done was done by a
run that had found a newer version. -/
structure Newer (runs : List Run) (γ : Nat → Seen) (t : List (Entry UpdateSig))
    (c : Runners) : Prop where
  length : c.tasks.length = runs.length
  current : ∀ i run, runs[i]? = some run → (γ i).current = run.current
  told : ∀ i latest, (γ i).latest = some latest → ∃ location,
    (⟨i, .resolve latestReleaseUrl, .ok location⟩ : Entry UpdateSig) ∈ t ∧
      versionFromReleaseUrl location = .ok latest
  acted : ∀ e ∈ t, Acts e.op → e.task < runs.length ∧ ∃ latest,
    (γ e.task).latest = some latest ∧ compareVersions (γ e.task).current latest = some .lt

section Everything

variable {exe : List String} {platform : String} {runs : List Run} {disk disk' : Disk}
  {t : List (Entry UpdateSig)} {c : Runners} {γ : Nat → Seen} {i : Nat} {own own' : Own}

section Moved

variable {o : UpdateOp}

/-- Once a version is known, what a run has learnt does not change. -/
theorem moved_known (hmay : (γ i).may o) (r : o.Resp) {j : Nat} {latest : Text}
    (h : (γ j).latest = some latest) : moved Seen.discipline γ i o r j = γ j := by
  by_cases hj : j = i
  · subst hj
    rw [Seen.may, h] at hmay
    rw [moved_self]
    exact Seen.next_of_acts hmay.1 _ r
  · exact moved_of_ne Seen.discipline γ hj o r

theorem moved_current (r : o.Resp) (j : Nat) :
    (moved Seen.discipline γ i o r j).current = (γ j).current := by
  by_cases hj : j = i
  · subst hj
    rw [moved_self]
    exact Seen.next_current _ o r
  · rw [moved_of_ne _ _ hj]

/-- A version becomes known by the answer to the question for it. -/
theorem moved_told (hmay : (γ i).may o) (r : o.Resp) {j : Nat} {latest : Text}
    (hbefore : (γ j).latest = none)
    (hlatest : (moved Seen.discipline γ i o r j).latest = some latest) :
    ∃ location, (⟨j, .resolve latestReleaseUrl, .ok location⟩ : Entry UpdateSig) = ⟨i, o, r⟩ ∧
      versionFromReleaseUrl location = .ok latest := by
  by_cases hj : j = i
  · subst hj
    rw [Seen.may, hbefore] at hmay
    subst hmay
    rw [moved_self] at hlatest
    cases r with
    | error detail => cases hlatest
    | ok location =>
        change (versionFromReleaseUrl location).toOption = some latest at hlatest
        cases hversion : versionFromReleaseUrl location with
        | error detail =>
            rw [hversion] at hlatest
            cases hlatest
        | ok found =>
            rw [hversion] at hlatest
            cases hlatest
            exact ⟨location, rfl, hversion⟩
  · rw [moved_of_ne _ _ hj, hbefore] at hlatest
    cases hlatest

end Moved

/-- One operation of one run keeps the invariant. -/
theorem Newer.step (h : Newer runs γ t c) {o : UpdateOp} {k : o.Resp → UpdateTask Outcome}
    (htask : c.tasks[i]? = some (.step o k, own)) (hmay : (γ i).may o) (r : o.Resp) :
    Newer runs (moved Seen.discipline γ i o r) (t ++ [⟨i, o, r⟩])
      ⟨disk', c.tasks.set i (k r, own')⟩ := by
  have hi : i < runs.length := h.length ▸ (List.getElem?_eq_some_iff.mp htask).1
  refine ⟨?_, fun j run hrun => (moved_current r j).trans (h.current j run hrun), ?_, ?_⟩
  · rw [List.length_set]
    exact h.length
  · intro j latest hlatest
    cases hbefore : (γ j).latest with
    | some known =>
        rw [moved_known hmay r hbefore] at hlatest
        obtain ⟨location, hmem, hversion⟩ := h.told j latest hlatest
        exact ⟨location, List.mem_append_left _ hmem, hversion⟩
    | none =>
        obtain ⟨location, hentry, hversion⟩ := moved_told hmay r hbefore hlatest
        exact ⟨location, List.mem_append_right _ (List.mem_singleton.mpr hentry), hversion⟩
  · intro e he hacts
    rcases List.mem_append.mp he with he | he
    · obtain ⟨hlt, latest, hlatest, hnewer⟩ := h.acted e he hacts
      rw [moved_known hmay r hlatest]
      exact ⟨hlt, latest, hlatest, hnewer⟩
    · obtain rfl := List.mem_singleton.mp he
      cases hbefore : (γ i).latest with
      | none =>
          rw [Seen.may, hbefore] at hmay
          exact absurd hmay (hacts _)
      | some latest =>
          have hkept := moved_known hmay r hbefore
          rw [Seen.may, hbefore] at hmay
          rw [hkept]
          exact ⟨hi, latest, hbefore, hmay.2⟩

/-- What the runs have learnt at the start. -/
def unseen (runs : List Run) (i : Nat) : Seen := ⟨((runs[i]?).map Run.current).getD [], none⟩

theorem updates_seen (disk : Disk) : Roles Seen.discipline (fun _ _ => True) (unseen runs)
    (updates exe platform disk runs) := by
  intro i p own htask
  obtain ⟨⟨run, hrun, rfl⟩, -⟩ := updates_task htask
  rw [unseen, hrun]
  exact update_seen exe platform run.current run.target

theorem newer_start (disk : Disk) :
    Newer runs (unseen runs) [] (updates exe platform disk runs) where
  length := by simp [updates]
  current := by
    intro i run hrun
    rw [unseen, hrun]
    rfl
  told := by
    intro i latest hlatest
    cases hlatest
  acted := by
    intro e he
    cases he

/-- Whatever a run does but ask, it has been told of a release that is newer to
`compare_versions`. -/
theorem updates_newer (h : Runs updateDoes Anyhow (updates exe platform disk runs) t c)
    {e : Entry UpdateSig} (he : e ∈ t) (hacts : Acts e.op) :
    ∃ run location latest, runs[e.task]? = some run ∧
      (⟨e.task, .resolve latestReleaseUrl, .ok location⟩ : Entry UpdateSig) ∈ t ∧
      versionFromReleaseUrl location = .ok latest ∧
      compareVersions run.current latest = some .lt := by
  obtain ⟨γ, -, hnewer⟩ := h.joint (J := Newer runs) (updates_seen disk) (newer_start disk)
    fun t c γ i luck o k own r disk own' _ _ hnewer htask hmay _ =>
      ⟨trivial, hnewer.step htask hmay r⟩
  obtain ⟨hlt, latest, hlatest, hless⟩ := hnewer.acted e he hacts
  obtain ⟨location, hmem, hversion⟩ := hnewer.told _ latest hlatest
  have hrun := List.getElem?_eq_getElem hlt
  rw [hnewer.current _ _ hrun] at hless
  exact ⟨_, location, latest, hrun, hmem, hversion, hless⟩

end Everything

/-! ## Versions compare by precedence, exactly when -/

open SemVer

/-- `compare_versions` orders two valid versions as SemVer does exactly if their first different
identifiers are ahead where they have to be. In any case it is a total preorder that ignores build
metadata, and what is installed is newer to it. -/
theorem compareVersions_spec {a b : Version} (ha : Fits a) (hb : Fits b) :
    (compareVersions a.text b.text = some (a.precedence b) ↔ InOrder a b) ∧
    (∃ o, compareVersions a.text b.text = some o ∧
      compareVersions b.text a.text = some o.swap) ∧
    (∀ c o o', Fits c → compareVersions a.text b.text = some o →
      compareVersions b.text c.text = some o' → o.isLE → o'.isLE →
      ∃ o'', compareVersions a.text c.text = some o'' ∧ o''.isLE) ∧
    (∀ build, compareVersions { a with build := build }.text b.text =
      compareVersions a.text b.text) ∧
    ∀ exe platform disk runs t c, Runs updateDoes Anyhow (updates exe platform disk runs) t c →
      ∀ e ∈ t, e.op = .rename → ∃ run location latest, runs[e.task]? = some run ∧
        (⟨e.task, .resolve latestReleaseUrl, .ok location⟩ : Entry UpdateSig) ∈ t ∧
        versionFromReleaseUrl location = .ok latest ∧
        compareVersions run.current latest = some .lt ∧
        (run.current = a.text → latest = b.text → InOrder a b → a.precedence b = .lt) := by
  refine ⟨compareVersions_eq_iff ha hb, compareVersions_swap ha hb, ?_,
    compareVersions_build ha hb, ?_⟩
  · intro c o o' hc hab hbc
    exact compareVersions_trans ha hb hc hab hbc
  · intro exe platform disk runs t c h e he hrename
    obtain ⟨run, location, latest, hrun, hmem, hversion, hless⟩ :=
      updates_newer h he (by simp [Acts, hrename])
    refine ⟨run, location, latest, hrun, hmem, hversion, hless, ?_⟩
    rintro hcurrent rfl hinOrder
    rw [hcurrent, (compareVersions_eq_iff ha hb).mpr hinOrder] at hless
    exact Option.some.inj hless

/-- A version with numbers for a prerelease. -/
def numbered (pre : List Nat) : Version := ⟨1, 0, 0, pre.map .numeric, []⟩

theorem fits_numbered (pre : List Nat) : Fits (numbered pre) := by
  simp [Fits, numbered]

/-- Two prereleases of the same release. -/
theorem compareVersions_spec_ten :
    compareVersions "1.0.0-7.2".toList "1.0.0-7.10".toList = some .lt := by
  have hahead : InOrder (numbered [7, 2]) (numbered [7, 10]) := by
    intro _ _ _
    refine (allAhead_cons_self _ _ _).mpr ((allAhead_cons_cons (by decide) _ _).mpr ?_)
    exact ⟨ahead_of_lt (by decide) _, ahead_of_lt (by decide) _⟩
  exact (compareVersions_spec (fits_numbered [7, 2]) (fits_numbered [7, 10])).1.mpr hahead

/-- A number of 20 digits, and one of 21. -/
theorem not_compareVersions_spec : ¬ ∀ a b : Version, Fits a → Fits b →
    compareVersions a.text b.text = some (a.precedence b) := by
  intro h
  have hlong := h (numbered [99999999999999999999]) (numbered [100000000000000000000])
    (fits_numbered _) (fits_numbered _)
  have hgreater : compareVersions "1.0.0-99999999999999999999".toList
      "1.0.0-100000000000000000000".toList = some .gt := by decide +kernel
  have hless : (numbered [99999999999999999999]).precedence (numbered [100000000000000000000]) =
      .lt := by decide
  rw [hless] at hlong
  exact absurd (hlong.symm.trans hgreater) (by decide)

end Bolide.Cli.Update
