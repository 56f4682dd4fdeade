import PageBlocks.Path
import PageBlocks.Table

/-!
# File trees

Files by their absolute places. A directory exists if a file lies below it, and the top directory
always exists. A path is walked component by component, from the top: whatever comes before the
next component has to be an existing directory, and two dots lead to the directory above.
-/

set_option autoImplicit false

namespace PageBlocks

/-- A place in a file tree: the components on the way to it from the top. -/
abbrev Place := List String

/-- Files with their contents, by place. -/
abbrev FileTree (α : Type) := Table Place α

namespace FileTree

variable {α : Type}

/-- Whether one place lies properly below another. -/
def isBelow (inner outer : Place) : Bool := outer.isPrefixOf inner && inner.length != outer.length

/-- Whether a place is an existing directory. -/
def isDirectory (tree : FileTree α) (place : Place) : Bool :=
  place.isEmpty || tree.any fun file => isBelow file.1 place

/-- Whether a place is an existing file. -/
def isFileAt (tree : FileTree α) (place : Place) : Bool := tree.has place

/-- The place that components lead to from a directory. -/
def walk? (tree : FileTree α) (place : Place) : List String → Option Place
  | [] => some place
  | part :: rest =>
    if tree.isDirectory place then
      walk? tree (if part = ".." then place.dropLast else place ++ [part]) rest
    else none

/-- The place of the file that a path leads to. Relative paths start at the top. -/
def file? (tree : FileTree α) (path : Path) : Option Place :=
  match tree.walk? [] path.parts with
  | some place => if tree.isFileAt place then some place else none
  | none => none

/-- Whether a path leads to a file or a directory. -/
def leadsSomewhere (tree : FileTree α) (path : Path) : Bool :=
  match tree.walk? [] path.parts with
  | some place => tree.isFileAt place || tree.isDirectory place
  | none => false

theorem isFileAt_of_file? {tree : FileTree α} {path : Path} {place : Place}
    (h : tree.file? path = some place) : tree.isFileAt place = true := by
  unfold file? at h
  split at h
  · split at h
    · simp_all
    · simp at h
  · simp at h

end FileTree

end PageBlocks
