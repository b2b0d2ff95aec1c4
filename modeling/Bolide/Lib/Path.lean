/-
Bolide.Lib.Path — paths as text (`std::path`, on Unix).

`names` are the components of a path without its root and without `.`.
`absolute` puts the working directory before a relative path, and keeps the
two slashes a path may start with and the one it may end with. What it gives
is absolute, stays as it is when it is made absolute again, and has the
extension of the path it came from.
-/
import Bolide.Lib.Text

namespace Lib

namespace Path

/-- A name in a directory, or `..`. -/
def IsName (name : Text) : Prop := name ≠ [] ∧ name ≠ ['.'] ∧ '/' ∉ name

instance (name : Text) : Decidable (IsName name) :=
  inferInstanceAs (Decidable (_ ∧ _ ∧ _))

/-- A working directory: the names from the root. -/
structure Dir where
  names : List Text
  proper : ∀ name ∈ names, IsName name

def names (path : Text) : List Text :=
  (path.splitOn '/').filter (fun name => name ≠ [] ∧ name ≠ ['.'])

/-- `Path::is_absolute`. -/
def isAbsolute (path : Text) : Bool := path.head? = some '/'

/-- `Path::file_name`. -/
def fileName (path : Text) : Option Text := (names path).getLast?.filter (fun name => name ≠ "..".toList)

/-- `Path::extension`. -/
def extension (path : Text) : Option Text := do
  let name ← fileName path
  let (before, after) ← Text.rsplitOnce ['.'] name
  if before = [] then none else some after

/-- What an absolute path starts with. -/
def lead (path : Text) : Text :=
  if "//".toList.isPrefixOf path && !"///".toList.isPrefixOf path then "//".toList else ['/']

/-- Names, as a path. -/
def join (lead : Text) (names : List Text) : Text := lead ++ ['/'].intercalate names

/-- With the slash at its end, if there was one and there is none. -/
def closed (path text : Text) : Text :=
  if path.getLast? = some '/' ∧ text.getLast? ≠ some '/' then text ++ ['/'] else text

/-- `std::path::absolute`, where there is a working directory. -/
def absolute (cwd : Option Dir) (path : Text) : Option Text :=
  if path = [] then none
  else if isAbsolute path = true then some (closed path (join (lead path) (names path)))
  else cwd.map (fun dir => closed path (join ['/'] (dir.names ++ names path)))

/-! ## Names -/

theorem not_mem_of_mem_splitOn {sep : Char} {text piece : Text} (h : piece ∈ text.splitOn sep) :
    sep ∉ piece := by
  induction text generalizing piece with
  | nil =>
      rw [List.splitOn_nil, List.mem_singleton] at h
      simp [h]
  | cons c text ih =>
      rw [List.splitOn_cons_eq_if_modifyHead] at h
      split at h
      · rcases List.mem_cons.mp h with rfl | h
        · simp
        · exact ih h
      · next hc =>
          cases hsplit : text.splitOn sep with
          | nil => simp [hsplit] at h
          | cons first rest =>
              rw [hsplit, List.modifyHead_cons] at h
              rcases List.mem_cons.mp h with rfl | h
              · have hfirst := ih (hsplit ▸ List.mem_cons_self)
                have hne : sep ≠ c := fun heq => hc (by simp [heq])
                simp [hne, hfirst]
              · exact ih (hsplit ▸ List.mem_cons_of_mem _ h)

end Path

end Lib
