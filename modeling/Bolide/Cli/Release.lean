/-
Bolide.Cli.Release — releases, their versions and what they are called
(`bolide-cli/src/update.rs`, up to `compare_versions`).

Translation notes. A string is the list of its characters. `{:?}` of a string
is Lean's `String.quote`. The order of two strings is that of their bytes in
UTF-8, which is that of their characters.
-/
import Bolide.Lib.Text

namespace Bolide.Cli.Release

open Lib

/-- `RELEASES_PAGE`. -/
def releasesPage : String := "https://github.com/jakequist/bolide/releases"

/-- `LATEST_RELEASE_URL`. -/
def latestReleaseUrl : String := "https://github.com/jakequist/bolide/releases/latest"

/-- `INSTALL_ONELINER`. -/
def installOneliner : String :=
  "curl -fsSL https://raw.githubusercontent.com/jakequist/bolide/main/install.sh | sh"

/-- `CARGO_INSTALL`. -/
def cargoInstall : String :=
  "cargo install --git https://github.com/jakequist/bolide bolide-cli"

/-- The binary's name, inside the tarball and on disk. -/
def binary : String := "bolide"

/-- `asset_name`. -/
def assetName (version : Text) (target : String) : String :=
  s!"{binary}-{String.ofList version}-{target}.tar.gz"

/-- `asset_url`. -/
def assetUrl (version : Text) (target : String) : String :=
  s!"{releasesPage}/download/v{String.ofList version}/{assetName version target}"

/-- `{:?}` of a string. -/
def debug (s : Text) : String := (String.ofList s).quote

/-- `version_from_tag`. -/
def versionFromTag (tag : Text) : Except String Text :=
  let trimmed := tag.trim
  let version := (['v'].isPrefixOf? trimmed).getD trimmed
  if version = [] then .error s!"release tag {debug tag} does not contain a version"
  else .ok version

/-- `version_from_release_url`. -/
def versionFromReleaseUrl (url : Text) : Except String Text :=
  let trimmed := url.trim
  let path := trimmed.takeWhile (fun c => c ≠ '?' ∧ c ≠ '#')
  let path := (['/'].isSuffixOf? path).getD path
  let tag := (Text.rsplitOnce "/releases/tag/".toList path).map (fun parts => parts.2)
  match tag.filter (fun tag => tag ≠ [] ∧ '/' ∉ tag) with
  | none => .error (s!"the latest-release redirect landed on {debug trimmed}, not on a release tag " ++
      "(…/releases/tag/<tag>); is there a release yet?")
  | some tag => versionFromTag tag

/-- `split_version`: the three numbers, and the prerelease. -/
def splitVersion (v : Text) : Option ((Nat × Nat × Nat) × Option Text) :=
  let v := ((Text.splitOnce ['+'] v).map (fun parts => parts.1)).getD v
  let (core, pre) := match Text.splitOnce ['-'] v with
    | some (core, pre) => (core, some pre)
    | none => (v, none)
  match core.splitOn '.' with
  | [major, minor, patch] => do
      let major ← Text.parseUnsigned (2 ^ 64) major
      let minor ← Text.parseUnsigned (2 ^ 64) minor
      let patch ← Text.parseUnsigned (2 ^ 64) patch
      return ((major, minor, patch), pre)
  | _ => none

/-- The order of two prerelease identifiers. -/
def compareIdentifier (x y : Text) : Ordering :=
  match Text.parseUnsigned (2 ^ 64) x, Text.parseUnsigned (2 ^ 64) y with
  | some x, some y => compare x y
  | some _, none => .lt
  | none, some _ => .gt
  | none, none => x.order y

/-- The loop of `compare_prerelease`. -/
def compareIdentifiers : List Text → List Text → Ordering
  | [], [] => .eq
  | [], _ :: _ => .lt
  | _ :: _, [] => .gt
  | x :: xs, y :: ys => (compareIdentifier x y).then (compareIdentifiers xs ys)

/-- `compare_prerelease`. -/
def comparePrerelease (a b : Text) : Ordering :=
  compareIdentifiers (a.splitOn '.') (b.splitOn '.')

/-- `compare_versions`. -/
def compareVersions (a b : Text) : Option Ordering := do
  let (aCore, aPre) ← splitVersion a
  let (bCore, bPre) ← splitVersion b
  let core := (compare aCore.1 bCore.1).then
    ((compare aCore.2.1 bCore.2.1).then (compare aCore.2.2 bCore.2.2))
  return core.then (match aPre, bPre with
    | none, none => .eq
    | none, some _ => .gt
    | some _, none => .lt
    | some a, some b => comparePrerelease a b)

/-- `is_source_build`, of the names along the path. -/
def isSourceBuild (exe : List String) : Option (List String) :=
  let rec up : List String → Option (List String)
    | [] => none
    | name :: above => if name = "target" then some above.reverse else up above
  up exe.dropLast.reverse

end Bolide.Cli.Release
