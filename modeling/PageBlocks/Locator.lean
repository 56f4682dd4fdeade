import PageBlocks.Fault
import PageBlocks.FileTree

/-!
# Locators

How a template name becomes a file. The candidates are the name below each search directory, then
below each extra directory, then the name itself; the first that is an existing file counts. A name
of the form `namespace:rest`, for a registered namespace and with no further colon, is looked up as
`rest` below the directories of that namespace instead.
-/

set_option autoImplicit false

namespace PageBlocks

/-- Search directories, and the directories of named groups of templates. -/
structure Locator where
  paths : List Path := []
  namespaces : Table String (List Path) := []

namespace Locator

/-- A path with its home directory filled in. -/
def expand (p : Path) : Except Fault Path :=
  match p.expandUser? with
  | some q => .ok q
  | none => .error (.host .noHome)

/-- The directories that texts name. -/
def expandAll (paths : List String) : Except Fault (List Path) :=
  paths.mapM fun s => expand (Path.ofText s)

/-- Register the directories of a namespace, replacing earlier ones. -/
def addNamespace (l : Locator) (name : String) (paths : List String) : Except Fault Locator := do
  return { l with namespaces := l.namespaces.insert name (← expandAll paths) }

/-- A locator from the texts of its search directories and namespaces. -/
def ofTexts (paths : List String) (namespaces : List (String × List String)) :
    Except Fault Locator := do
  let start : Locator := { paths := ← expandAll paths }
  namespaces.foldlM (fun l binding => l.addNamespace binding.1 binding.2) start

/-- The text before the first colon and the text behind it. -/
def atColon? (name : String) : Option (String × String) :=
  match name.toList.dropWhile (· ≠ ':') with
  | ':' :: rest => some (String.ofList (name.toList.takeWhile (· ≠ ':')), String.ofList rest)
  | _ => none

/-- The name and the directories that a requested name stands for. -/
def scope (l : Locator) (name : String) (extra : List Path) : String × List Path :=
  match atColon? name with
  | some (space, rest) =>
    if rest.toList.contains ':' then (name, l.paths ++ extra)
    else
      match l.namespaces.get? space with
      | some paths => (rest, paths)
      | none => (name, l.paths ++ extra)
  | none => (name, l.paths ++ extra)

/-- The place of the first of some candidates that is an existing file. -/
def firstFile? {α : Type} (tree : FileTree α) (candidates : List Path) : Option Place :=
  candidates.findSome? tree.file?

/-- The place of a template. -/
def locate {α : Type} (l : Locator) (tree : FileTree α) (name : String) (extra : List Path) :
    Except Fault Place := do
  let (name, directories) := l.scope name extra
  let given := Path.ofText name
  match firstFile? tree (directories.map (·.join given)) with
  | some place => return place
  | none =>
    -- a home directory is filled in only where no directory has the name
    match tree.file? (← expand given) with
    | some place => return place
    | none => throw (.templateNotFound (.text name) (directories.map Path.print))

end Locator

end PageBlocks
