/-!
# Searching text

Words at the start of a text, the first place where a word occurs in it, and the parts of a text
between the occurrences of a character, which `joinWith` puts together again (`joinWith_splitOn`).
-/

set_option autoImplicit false

namespace PageBlocks.Text

/-- What follows a word at the start of a text, if the text starts with it. -/
def after? : List Char → List Char → Option (List Char)
  | [], cs => some cs
  | _ :: _, [] => none
  | w :: word, c :: cs => if w = c then after? word cs else none

/-- The texts before and behind the first occurrence of a word. -/
def cut? (word : List Char) : List Char → Option (List Char × List Char)
  | [] => (after? word []).map fun rest => ([], rest)
  | c :: cs =>
    match after? word (c :: cs) with
    | some rest => some ([], rest)
    | none => (cut? word cs).map fun parts => (c :: parts.1, parts.2)

/-- Whether a word occurs in a text. -/
def occurs (word cs : List Char) : Bool := (cut? word cs).isSome

/-- The parts of a text between the occurrences of a character. -/
def splitOn (mark : Char) : List Char → List (List Char)
  | [] => [[]]
  | c :: rest =>
    if c = mark then [] :: splitOn mark rest
    else
      match splitOn mark rest with
      | [] => [[c]]
      | part :: more => (c :: part) :: more

/-- Parts with a character between them. -/
def joinWith (mark : Char) : List (List Char) → List Char
  | [] => []
  | [part] => part
  | part :: more => part ++ mark :: joinWith mark more

theorem eq_append_of_after? {word cs rest : List Char} (h : after? word cs = some rest) :
    cs = word ++ rest := by
  induction word generalizing cs with
  | nil => simpa [after?] using h
  | cons w word ih =>
    cases cs with
    | nil => simp [after?] at h
    | cons c cs =>
      simp only [after?] at h
      split at h
      · rename_i hc
        rw [ih h, hc, List.cons_append]
      · simp at h

theorem after?_append (word rest : List Char) : after? word (word ++ rest) = some rest := by
  induction word with
  | nil => rfl
  | cons w word ih => simp [after?, ih]

theorem eq_append_of_cut? {word cs before behind : List Char}
    (h : cut? word cs = some (before, behind)) : cs = before ++ word ++ behind := by
  induction cs generalizing before with
  | nil =>
    simp only [cut?, Option.map_eq_some_iff, Prod.mk.injEq] at h
    obtain ⟨rest, hrest, rfl, rfl⟩ := h
    exact eq_append_of_after? hrest
  | cons c cs ih =>
    simp only [cut?] at h
    split at h
    · rename_i rest hrest
      simp only [Option.some.injEq, Prod.mk.injEq] at h
      obtain ⟨rfl, rfl⟩ := h
      exact eq_append_of_after? hrest
    · simp only [Option.map_eq_some_iff, Prod.mk.injEq] at h
      obtain ⟨⟨tail, rest⟩, hparts, rfl, rfl⟩ := h
      simp [ih hparts]

theorem length_of_cut? {word cs before behind : List Char}
    (h : cut? word cs = some (before, behind)) :
    cs.length = before.length + word.length + behind.length := by
  rw [eq_append_of_cut? h]
  simp only [List.length_append]

theorem splitOn_ne_nil (mark : Char) (cs : List Char) : splitOn mark cs ≠ [] := by
  cases cs with
  | nil => simp [splitOn]
  | cons c cs =>
    simp only [splitOn]
    split
    · simp
    · split <;> simp

theorem joinWith_splitOn (mark : Char) (cs : List Char) : joinWith mark (splitOn mark cs) = cs := by
  induction cs with
  | nil => rfl
  | cons c cs ih =>
    simp only [splitOn]
    split
    · rename_i hc
      match hparts : splitOn mark cs with
      | [] => exact absurd hparts (splitOn_ne_nil mark cs)
      | part :: more =>
        rw [hparts] at ih
        simp [joinWith, ih, hc]
    · match hparts : splitOn mark cs with
      | [] => exact absurd hparts (splitOn_ne_nil mark cs)
      | [part] =>
        rw [hparts] at ih
        simp only [joinWith] at ih ⊢
        rw [ih]
      | part :: next :: more =>
        rw [hparts] at ih
        simp only [joinWith, List.cons_append] at ih ⊢
        rw [ih]

end PageBlocks.Text
