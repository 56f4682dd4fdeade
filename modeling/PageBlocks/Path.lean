import PageBlocks.Text.Search

/-!
# Paths

Paths as text: a root and a list of components. Reading a path drops empty components and single
dots; two dots are a component like any other, since what they lead to depends on the directories
they are walked through. A path that starts with exactly two slashes keeps both.
-/

set_option autoImplicit false

namespace PageBlocks

/-- Where a path starts. -/
inductive PathRoot where
  | none
  | single
  | double
  deriving DecidableEq, Repr

/-- A path: where it starts and the components it goes through. -/
structure Path where
  root : PathRoot
  parts : List String
  deriving DecidableEq, Repr

namespace Path

/-- The components of a character sequence. -/
def components (cs : List Char) : List String :=
  ((Text.splitOn '/' cs).filter fun part => part ≠ [] ∧ part ≠ ['.']).map String.ofList

/-- The root that a character sequence starts with. -/
def rootOf : List Char → PathRoot
  | '/' :: '/' :: '/' :: _ => .single
  | '/' :: '/' :: _ => .double
  | '/' :: _ => .single
  | _ => .none

/-- The path that a text spells. -/
def ofText (s : String) : Path := ⟨rootOf s.toList, components s.toList⟩

/-- The text of a root. -/
def rootText : PathRoot → String
  | .none => ""
  | .single => "/"
  | .double => "//"

/-- The text of a path; the empty path is written as a single dot. -/
def print (p : Path) : String :=
  match p.root, p.parts with
  | .none, [] => "."
  | root, parts => rootText root ++ "/".intercalate parts

/-- The absolute path of a list of components. -/
def absolute (parts : List String) : Path := ⟨.single, parts⟩

/-- One path below another. A path with a root of its own stays as it is. -/
def join (p q : Path) : Path :=
  match q.root with
  | .none => ⟨p.root, p.parts ++ q.parts⟩
  | _ => q

/-- The last component, or nothing. -/
def name (p : Path) : String := p.parts.getLastD ""

/-- The path without its last component. -/
def parent (p : Path) : Path := ⟨p.root, p.parts.dropLast⟩

/-- The home directory. -/
def home : Path := absolute ["home", "u"]

/-- The path with a leading `~` replaced by the home directory. Other components that start with
`~` name a user; none is known. -/
def expandUser? (p : Path) : Option Path :=
  match p.root, p.parts with
  | .none, first :: rest =>
    if first = "~" then some ⟨home.root, home.parts ++ rest⟩
    else if first.toList.head? = some '~' then none
    else some p
  | _, _ => some p

end Path

end PageBlocks
