import PageBlocks.Proofs.Inheritance.Drawing
import PageBlocks.Site.Run

/-!
# Blocks opened again inside themselves

A body calls for steps that write text and that open and close blocks. The mode of an opening and
the mark of a block that was declared again are kept with the block, not with the opening, so an
opening of a name inside a block of that name changes them for the block around it. Each opening of
a balanced body is closed (`exists_closing`). Closing it joins what was captured by the mode of the
last opening of the name inside it, and leaves a token only if the name was opened neither before
nor inside (`closes_of_balanced`). If the name is not opened inside, that is the mode of the opening
itself, and the first declaration leaves its token (`lastMode_of_not_opens`).
-/

set_option autoImplicit false

namespace PageBlocks.Reopening

open PageBlocks.Inheritance PageBlocks.Running

/-! ## Steps -/

/-- A step that a body calls for. -/
inductive Step where
  | write (s : String)
  | opening (mode : ApplyMode) (name : String)
  | close
  deriving DecidableEq

namespace Step

/-- What a step does to a draft. -/
def perform : Step → DraftM Unit
  | write s => Draft.write (.text s)
  | opening mode name => do
    let _ ← Draft.openBlock (.text name) mode
    return ()
  | close => Draft.close

/-- The number of open blocks after a step. Without an open block there is nothing to close. -/
def level? (depth : Nat) : Step → Option Nat
  | write _ => some depth
  | opening _ _ => some (depth + 1)
  | close => if depth = 0 then none else some (depth - 1)

/-- Whether a step opens a block of a name. -/
def opens (name : String) : Step → Bool
  | opening _ other => other == name
  | _ => false

/-- The mode of the block of a name after a step. -/
def modeOf (name : String) (mode : ApplyMode) : Step → ApplyMode
  | opening newer other => if other = name then newer else mode
  | _ => mode

/-- A step opens no block of the root's name. -/
def IsNamed : Step → Prop
  | opening _ name => name ≠ root
  | _ => True

end Step

/-- What steps do to a draft. -/
def perform (steps : List Step) : DraftM Unit := steps.forM Step.perform

/-- The number of open blocks after steps. -/
def level? (depth : Nat) (steps : List Step) : Option Nat := steps.foldlM Step.level? depth

/-- Whether steps close just the blocks that they open. -/
def IsBalanced (steps : List Step) : Prop := level? 0 steps = some 0

/-- Whether one of the steps opens a block of a name. -/
def opens (name : String) (steps : List Step) : Bool := steps.any (Step.opens name)

theorem opens_singleton (name : String) (step : Step) : opens name [step] = step.opens name :=
  Bool.or_false _

/-- The mode of the block of a name after steps. -/
def lastMode (name : String) (mode : ApplyMode) (steps : List Step) : ApplyMode :=
  steps.foldl (Step.modeOf name) mode

theorem run_perform_cons {step : Step} {d d' : Draft} (h : step.perform.run d = (.ok (), d'))
    (steps : List Step) : (perform (step :: steps)).run d = (perform steps).run d' :=
  run_bind_of_ok h fun _ => perform steps

theorem run_perform_append {steps : List Step} {d d' : Draft}
    (h : (perform steps).run d = (.ok (), d')) (more : List Step) :
    (perform (steps ++ more)).run d = (perform more).run d' := by
  have hBoth : perform (steps ++ more) = perform steps >>= fun _ => perform more :=
    List.forM_append
  rw [hBoth]
  exact run_bind_of_ok h fun _ => perform more

theorem level?_cons (depth : Nat) (step : Step) (steps : List Step) :
    level? depth (step :: steps) = (step.level? depth).bind fun depth => level? depth steps := rfl

theorem level?_append (depth : Nat) (steps more : List Step) :
    level? depth (steps ++ more) = (level? depth steps).bind fun depth => level? depth more :=
  List.foldlM_append

/-- What is open around makes no difference to steps that do not close it. -/
theorem level?_add {depth depth' : Nat} {steps : List Step} (h : level? depth steps = some depth')
    (around : Nat) : level? (depth + around) steps = some (depth' + around) := by
  induction steps generalizing depth with
  | nil =>
    cases h
    rfl
  | cons step steps ih =>
    rw [level?_cons, Option.bind_eq_some_iff] at h ⊢
    obtain ⟨middle, hFirst, hRest⟩ := h
    refine ⟨middle + around, ?_, ih hRest⟩
    cases step with
    | write s =>
      cases hFirst
      rfl
    | opening mode name =>
      cases hFirst
      exact congrArg some (by omega)
    | close =>
      cases depth with
      | zero => cases hFirst
      | succ depth =>
        cases hFirst
        show (if depth + 1 + around = 0 then none else some (depth + 1 + around - 1)) = _
        rw [if_neg (by omega)]
        exact congrArg some (by omega)

/-- Without another opening of the name, its mode stays what it is. -/
theorem lastMode_of_not_opens {name : String} {steps : List Step} (mode : ApplyMode)
    (h : opens name steps = false) : lastMode name mode steps = mode := by
  induction steps with
  | nil => rfl
  | cons step steps ih =>
    rw [opens, List.any_cons, Bool.or_eq_false_iff] at h
    have hKept : step.modeOf name mode = mode := by
      cases step with
      | opening newer other => exact if_neg (by simpa [Step.opens] using h.1)
      | write _ | close => rfl
    rw [lastMode, List.foldl_cons, hKept]
    exact ih h.2

/-- Steps that end with no more open blocks than there were before an opening close its block. -/
theorem exists_closing {depth depth' : Nat} {steps : List Step} (inner : Nat)
    (h : level? (depth + inner + 1) steps = some depth') (hLow : depth' ≤ depth) :
    ∃ inside after, steps = inside ++ .close :: after ∧ level? inner inside = some 0 := by
  induction steps generalizing inner with
  | nil =>
    have hSame := Option.some.inj h
    omega
  | cons step steps ih =>
    cases step with
    | write s =>
      obtain ⟨inside, after, rfl, hInside⟩ := ih inner h
      exact ⟨.write s :: inside, after, rfl, hInside⟩
    | opening mode name =>
      obtain ⟨inside, after, rfl, hInside⟩ := ih (inner + 1) h
      exact ⟨.opening mode name :: inside, after, rfl, hInside⟩
    | close =>
      cases inner with
      | zero => exact ⟨[], steps, rfl, rfl⟩
      | succ inner =>
        obtain ⟨inside, after, rfl, hInside⟩ := ih inner h
        exact ⟨.close :: inside, after, rfl, hInside⟩

/-! ## New blocks -/

/-- The outline with a new block of a name open, the last child of another one. -/
def openedNew (o : Outline) (parent : Nat) (name : String) (mode : ApplyMode) (b : Block) :
    Outline :=
  opened (addNamed o parent name b) o.blocks.length mode

section New

variable {o : Outline} {parent : Nat} {name : String} {mode : ApplyMode} {b : Block}

theorem find?_openedNew (other : String) :
    (openedNew o parent name mode b).find? (.text other)
      = if name = other then some o.blocks.length else o.find? (.text other) :=
  find?_addNamed other

theorem length_openedNew :
    (openedNew o parent name mode b).blocks.length = o.blocks.length + 1 :=
  (Outline.length_update _ _ _).trans (Outline.length_addChild _ _)

theorem block?_openedNew_self (hParent : parent < o.blocks.length) :
    (openedNew o parent name mode b).block? o.blocks.length
      = some { b with parent := some parent, mode } := by
  rw [openedNew, opened, Outline.block?_update_self, block?_addNamed_self hParent]
  rfl

theorem block?_openedNew_of_eq_some (hParent : parent < o.blocks.length) {j : Nat} {c : Block}
    (h : o.block? j = some c) :
    (openedNew o parent name mode b).block? j
      = some { c with
          children := if j = parent then c.children ++ [o.blocks.length] else c.children } := by
  rw [openedNew, opened,
    Outline.block?_update_of_ne _ _ (Nat.ne_of_lt (Outline.lt_of_block?_eq_some h))]
  exact block?_addNamed_of_eq_some hParent h

end New

/-! ## Drafts -/

/-- Every name has a block of its own, and the open blocks are there. -/
structure IsSound (d : Draft) : Prop where
  numbers {name : String} {i : Nat} (h : d.outline.find? (.text name) = some i) :
    i < d.outline.blocks.length
  apart {name other : String} {i : Nat} (h : d.outline.find? (.text name) = some i)
    (hOther : d.outline.find? (.text other) = some i) : name = other
  stack : ∀ i ∈ d.stack, i < d.outline.blocks.length

/-- So many blocks are open above others, and text is captured for each of them and for the
innermost one below. -/
def IsAbove (below : List Nat) (around : List Capture) (depth : Nat) (d : Draft) : Prop :=
  ∃ (upper : List Nat) (texts : List String), upper.length = depth ∧ texts.length = depth + 1
    ∧ d.stack = upper ++ below ∧ d.captures = texts.map Capture.text ++ around

/-- The block of a name has a number, a mode, and a mark if it was declared again. -/
def HasFlags (d : Draft) (name : String) (i : Nat) (mode : ApplyMode) (extended : Bool) : Prop :=
  d.outline.find? (.text name) = some i
    ∧ ∃ b, d.outline.block? i = some b ∧ b.mode = mode ∧ b.extended = extended

/-- Whether the block of a name was declared. -/
def knows (d : Draft) (name : String) : Bool := (d.outline.find? (.text name)).isSome

/-- What steps make of the blocks. -/
structure Passes (steps : List Step) (d d' : Draft) : Prop where
  sound : IsSound d'
  flags {name : String} {i : Nat} {mode : ApplyMode} {extended : Bool}
    (h : HasFlags d name i mode extended) :
    HasFlags d' name i (lastMode name mode steps) (extended || opens name steps)
  known (name : String) : knows d' name = (knows d name || opens name steps)

theorem Passes.nil {d : Draft} (h : IsSound d) : Passes [] d d where
  sound := h
  flags {_ _ _ extended} hFlags := (Bool.or_false extended).symm ▸ hFlags
  known _ := (Bool.or_false _).symm

theorem Passes.cons {step : Step} {steps : List Step} {d d' d'' : Draft}
    (h : Passes [step] d d') (hMore : Passes steps d' d'') : Passes (step :: steps) d d'' where
  sound := hMore.sound
  flags hFlags := by
    have hBoth := hMore.flags (h.flags hFlags)
    rw [opens_singleton, Bool.or_assoc] at hBoth
    exact hBoth
  known name := by
    rw [hMore.known, h.known, opens_singleton, Bool.or_assoc]
    rfl

section OneStep

variable {d d' : Draft}

theorem IsSound.exists_block (h : IsSound d) {name : String} {i : Nat}
    (hFind : d.outline.find? (.text name) = some i) : ∃ b, d.outline.block? i = some b :=
  ⟨_, List.getElem?_eq_getElem (h.numbers hFind)⟩

/-- Steps that leave the names and the flags of the blocks alone. -/
theorem passes_of_kept {step : Step} (hSound : IsSound d)
    (hOpens : ∀ name, step.opens name = false)
    (hMode : ∀ name mode, step.modeOf name mode = mode)
    (hFind : ∀ name, d'.outline.find? name = d.outline.find? name)
    (hLength : d'.outline.blocks.length = d.outline.blocks.length)
    (hBlocks : ∀ i b, d.outline.block? i = some b →
      ∃ c, d'.outline.block? i = some c ∧ c.mode = b.mode ∧ c.extended = b.extended)
    (hStack : ∀ i ∈ d'.stack, i ∈ d.stack) : Passes [step] d d' := by
  constructor
  case sound =>
    constructor
    · intro name i h
      rw [hFind] at h
      exact hLength ▸ hSound.numbers h
    · intro name other i h hOther
      rw [hFind] at h hOther
      exact hSound.apart h hOther
    · exact fun i hMem => hLength ▸ hSound.stack i (hStack i hMem)
  case flags =>
    rintro name i mode extended ⟨hFound, b, hBlock, rfl, rfl⟩
    obtain ⟨c, hKept, hSameMode, hSameMark⟩ := hBlocks i b hBlock
    refine ⟨(hFind _).trans hFound, c, hKept, ?_, ?_⟩
    · exact hSameMode.trans (hMode name b.mode).symm
    · rw [opens_singleton, hOpens, Bool.or_false, hSameMark]
  case known =>
    intro name
    rw [knows, knows, hFind, opens_singleton, hOpens, Bool.or_false]

/-- Opening the block of a name: it gets its number if it has none, and nothing else but its flags
changes. -/
theorem passes_opening {name : String} {mode : ApplyMode} {i : Nat} {o : Outline}
    (hSound : IsSound d)
    (hFind : ∀ other, o.find? (.text other)
      = if name = other then some i else d.outline.find? (.text other))
    (hKept : ∀ j, d.outline.find? (.text name) = some j → j = i)
    (hAlone : ∀ other, d.outline.find? (.text other) = some i → name = other)
    (hLength : d.outline.blocks.length ≤ o.blocks.length) (hHere : i < o.blocks.length)
    (hFlags : HasFlags (entered d o i) name i mode (knows d name))
    (hBlocks : ∀ j b, j ≠ i → d.outline.block? j = some b →
      ∃ c, o.block? j = some c ∧ c.mode = b.mode ∧ c.extended = b.extended) :
    Passes [.opening mode name] d (entered d o i) := by
  have hOther {other : String} (hNe : name ≠ other) :
      o.find? (.text other) = d.outline.find? (.text other) := by rw [hFind, if_neg hNe]
  constructor
  case sound =>
    constructor
    · intro other j hFound
      by_cases hSame : name = other
      · rw [entered, hFind, if_pos hSame] at hFound
        exact Option.some.inj hFound ▸ hHere
      · rw [entered, hOther hSame] at hFound
        exact Nat.lt_of_lt_of_le (hSound.numbers hFound) hLength
    · intro other third j hFound hFound'
      rw [entered, hFind] at hFound hFound'
      by_cases hSame : name = other
      · rw [if_pos hSame] at hFound
        cases hFound
        by_cases hThird : name = third
        · exact hSame.symm.trans hThird
        · rw [if_neg hThird] at hFound'
          exact absurd (hAlone third hFound') hThird
      · rw [if_neg hSame] at hFound
        by_cases hThird : name = third
        · rw [if_pos hThird] at hFound'
          cases hFound'
          exact absurd (hAlone other hFound) hSame
        · rw [if_neg hThird] at hFound'
          exact hSound.apart hFound hFound'
    · refine List.forall_mem_cons.mpr ⟨hHere, fun j hMem => ?_⟩
      exact Nat.lt_of_lt_of_le (hSound.stack j hMem) hLength
  case flags =>
    -- the block of the name gets the new mode, and all others keep theirs
    rintro other j oldMode extended ⟨hFound, b, hBlock, rfl, rfl⟩
    by_cases hSame : name = other
    · subst hSame
      cases hKept j hFound
      have hMode : lastMode name b.mode [.opening mode name] = mode := if_pos rfl
      rw [knows, hFound] at hFlags
      rw [opens_singleton, Step.opens, beq_self_eq_true, Bool.or_true, hMode]
      exact hFlags
    · have hNe : j ≠ i := fun hNumber => hSame (hAlone other (hNumber ▸ hFound))
      obtain ⟨c, hBlock', hMode, hMark⟩ := hBlocks j b hNe hBlock
      refine ⟨(hOther hSame).trans hFound, c, hBlock', ?_, ?_⟩
      · exact hMode.trans (if_neg hSame).symm
      · rw [opens_singleton, Step.opens, beq_eq_false_iff_ne.mpr hSame, Bool.or_false, hMark]
  case known =>
    intro other
    have hKnows : knows (entered d o i) other = (o.find? (.text other)).isSome := rfl
    rw [hKnows, opens_singleton, Step.opens]
    by_cases hSame : name = other
    · rw [hFind, if_pos hSame, hSame, beq_self_eq_true, Bool.or_true]
      rfl
    · rw [hOther hSame, beq_eq_false_iff_ne.mpr hSame, Bool.or_false]
      rfl

/-- A block can be opened under any name but the root's. -/
theorem exists_opening {name : String} (mode : ApplyMode) (hSound : IsSound d)
    (hName : name ≠ root) (hStack : d.stack ≠ []) :
    ∃ i o, (Step.opening mode name).perform.run d = (.ok (), entered d o i)
      ∧ Passes [.opening mode name] d (entered d o i)
      ∧ HasFlags (entered d o i) name i mode (knows d name) := by
  cases hFind : d.outline.find? (.text name) with
  | some i =>
    have hLength : (opened (marked d.outline i) i mode).blocks.length = d.outline.blocks.length :=
      (Outline.length_update _ _ _).trans (Outline.length_update _ _ _)
    have hFlags : HasFlags (entered d (opened (marked d.outline i) i mode) i) name i mode
        (knows d name) := by
      obtain ⟨b, hBlock⟩ := hSound.exists_block hFind
      rw [knows, hFind]
      refine ⟨hFind, { b with extended := true, mode }, ?_, rfl, rfl⟩
      show (opened (marked d.outline i) i mode).block? i = _
      rw [opened, Outline.block?_update_self, marked, Outline.block?_update_self, hBlock]
      rfl
    refine ⟨i, _, run_bind_of_ok (run_openBlock_of_found mode (checkName_text hName) hFind) _,
      ?_, hFlags⟩
    refine passes_opening hSound (fun other => ?_) (fun j hFound => ?_)
      (fun other hFound => hSound.apart hFind hFound) (Nat.le_of_eq hLength.symm)
      (hLength ▸ hSound.numbers hFind) hFlags fun j b hNe hBlock => ⟨b, ?_, rfl, rfl⟩
    · by_cases hSame : name = other
      · rw [if_pos hSame, ← hSame]
        exact hFind
      · rw [if_neg hSame]
        rfl
    · exact Option.some.inj (hFound.symm.trans hFind)
    · rw [opened, Outline.block?_update_of_ne _ _ hNe, marked,
        Outline.block?_update_of_ne _ _ hNe, hBlock]
  | none =>
    obtain ⟨parent, below, hParent⟩ := List.exists_cons_of_ne_nil hStack
    have hLt : parent < d.outline.blocks.length :=
      hSound.stack parent (hParent ▸ List.mem_cons_self)
    have hCurrent : d.current = parent := by
      rw [Draft.current, hParent]
      rfl
    have hRun := run_openBlock_of_none mode (checkName_text hName) hFind
    rw [hCurrent] at hRun
    -- the new block is a plain one, which no name had before
    let b := Block.plain (((d.outline.block? parent).map Block.owner).getD "") (.text name)
    have hFlags : HasFlags (entered d (openedNew d.outline parent name mode b)
        d.outline.blocks.length) name d.outline.blocks.length mode (knows d name) := by
      rw [knows, hFind]
      exact ⟨(find?_openedNew name).trans (if_pos rfl), _, block?_openedNew_self hLt, rfl, rfl⟩
    refine ⟨d.outline.blocks.length, openedNew d.outline parent name mode b,
      run_bind_of_ok hRun _, ?_, hFlags⟩
    refine passes_opening hSound find?_openedNew (fun j hFound => ?_) (fun other hFound => ?_)
      ?_ ?_ hFlags fun j c _ hBlock => ⟨_, block?_openedNew_of_eq_some hLt hBlock, rfl, rfl⟩
    · cases hFind.symm.trans hFound
    · exact absurd (hSound.numbers hFound) (Nat.lt_irrefl _)
    · rw [length_openedNew]
      exact Nat.le_succ _
    · rw [length_openedNew]
      exact Nat.lt_succ_self _

/-- A step of steps that never close more than they opened. -/
theorem exists_step {step : Step} {below : List Nat} {around : List Capture} {depth depth' : Nat}
    (hSound : IsSound d) (hName : step.IsNamed) (hLevel : step.level? depth = some depth')
    (hBelow : below ≠ []) (hAbove : IsAbove below around depth d) :
    ∃ d', step.perform.run d = (.ok (), d') ∧ Passes [step] d d'
      ∧ IsAbove below around depth' d' := by
  obtain ⟨upper, texts, rfl, hTexts, hStack, hCaptures⟩ := hAbove
  have hSome : d.stack ≠ [] := by
    rw [hStack]
    exact List.append_ne_nil_of_right_ne_nil _ hBelow
  obtain ⟨text, texts, rfl⟩ : ∃ text more, texts = text :: more :=
    List.exists_cons_of_length_eq_add_one hTexts
  cases step with
  | write s =>
    cases hLevel
    refine ⟨_, run_write s hCaptures, ?_, upper, (text ++ s) :: texts, rfl, hTexts, hStack, rfl⟩
    exact passes_of_kept hSound (fun _ => rfl) (fun _ _ => rfl) (fun _ => rfl) rfl
      (fun i b hBlock => ⟨b, hBlock, rfl, rfl⟩) fun _ hMem => hMem
  | opening mode name =>
    cases hLevel
    obtain ⟨i, o, hRun, hPasses, -⟩ := exists_opening mode hSound hName hSome
    refine ⟨_, hRun, hPasses, i :: upper, "" :: text :: texts, rfl, congrArg (· + 1) hTexts, ?_, ?_⟩
    · exact congrArg (i :: ·) hStack
    · exact congrArg (Capture.empty :: ·) hCaptures
  | close =>
    cases upper with
    | nil => cases hLevel
    | cons i upper =>
      cases hLevel
      obtain ⟨under, texts, rfl⟩ : ∃ under more, texts = under :: more :=
        List.exists_cons_of_length_eq_add_one (Nat.succ.inj hTexts)
      obtain ⟨b, hBlock⟩ : ∃ b, d.outline.block? i = some b :=
        ⟨_, List.getElem?_eq_getElem (hSound.stack i (hStack ▸ List.mem_cons_self))⟩
      have hRun := run_close hStack (List.append_ne_nil_of_right_ne_nil _ hBelow) hCaptures hBlock
      refine ⟨_, hRun, ?_, upper, (if b.extended then under else under ++ b.token) :: texts, rfl,
        Nat.succ.inj hTexts, rfl, rfl⟩
      refine passes_of_kept hSound (fun _ => rfl) (fun _ _ => rfl) (fun _ => rfl)
        (Outline.length_update _ _ _) (fun j c hBlock' => ?_) fun j hMem => ?_
      · -- what is joined to a block leaves its flags as they are
        by_cases hSame : j = i
        · subst hSame
          exact ⟨_, (Outline.block?_update_self _ _ _).trans (congrArg _ hBlock'), rfl, rfl⟩
        · exact ⟨c, (Outline.block?_update_of_ne _ _ hSame).trans hBlock', rfl, rfl⟩
      · rw [hStack]
        exact List.mem_cons_of_mem _ hMem

/-- The same for all of them. -/
theorem exists_perform {steps : List Step} {below : List Nat} {around : List Capture}
    {depth depth' : Nat} (hSound : IsSound d) (hNames : ∀ step ∈ steps, step.IsNamed)
    (hLevel : level? depth steps = some depth') (hBelow : below ≠ [])
    (hAbove : IsAbove below around depth d) :
    ∃ d', (perform steps).run d = (.ok (), d') ∧ Passes steps d d'
      ∧ IsAbove below around depth' d' := by
  induction steps generalizing d depth with
  | nil =>
    cases hLevel
    exact ⟨d, rfl, .nil hSound, hAbove⟩
  | cons step steps ih =>
    rw [level?_cons, Option.bind_eq_some_iff] at hLevel
    obtain ⟨middle, hFirst, hRest⟩ := hLevel
    rw [List.forall_mem_cons] at hNames
    obtain ⟨d', hRun, hPasses, hAbove'⟩ := exists_step hSound hNames.1 hFirst hBelow hAbove
    obtain ⟨d'', hRuns, hMore, hAbove''⟩ := ih hPasses.sound hNames.2 hRest hAbove'
    exact ⟨d'', (run_perform_cons hRun steps).trans hRuns, hPasses.cons hMore, hAbove''⟩

end OneStep

/-! ## Closings -/

/-- Closing the block of a name: the captured text joins its content by a mode, and the text around
it goes on with the token of the block, or stays as it is. -/
inductive Closes (name : String) (mode : ApplyMode) (leaves : Bool) (d d' : Draft) : Prop where
  | intro {i : Nat} {b : Block} {captured above : String} {rest : List Capture}
    (hFound : d.outline.find? (.text name) = some i)
    (hStack : d.stack = i :: d'.stack)
    (hCaptures : d.captures = .text captured :: .text above :: rest)
    (hBlock : d.outline.block? i = some b)
    (hContent : d'.outline.block? i
      = some { b with content := mode.apply b.content captured })
    (hAround : d'.captures = .text (if leaves then above ++ b.token else above) :: rest)

/-- A block is closed by the flags that it has at that time. -/
theorem closes_of_run {d d' : Draft} {name : String} {i : Nat} {mode : ApplyMode}
    {extended : Bool} {below : List Nat} {captured above : String} {rest : List Capture}
    (hFlags : HasFlags d name i mode extended) (hStack : d.stack = i :: below)
    (hBelow : below ≠ []) (hCaptures : d.captures = .text captured :: .text above :: rest)
    (hClose : Draft.close.run d = (.ok (), d')) : Closes name mode (!extended) d d' := by
  obtain ⟨hFound, b, hBlock, rfl, rfl⟩ := hFlags
  obtain ⟨-, rfl⟩ := Prod.mk.inj (hClose.symm.trans (run_close hStack hBelow hCaptures hBlock))
  refine .intro hFound hStack hCaptures hBlock ?_ ?_
  · show (d.outline.update i _).block? i = _
    rw [Outline.block?_update_self, hBlock]
    rfl
  · cases b.extended <;> rfl

theorem find?_start (path owner name : String) :
    (Draft.start path owner).outline.find? (.text name)
      = if root = name then some Outline.root else none := by
  have hTexts : (Value.text root == .text name) = decide (root = name) := by
    rw [Bool.eq_iff_iff, Table.beq_text_iff, decide_eq_true_iff, Value.text.injEq]
  show Table.get? [(Value.text root, Outline.root)] (.text name) = _
  rw [Table.get?_cons, hTexts]
  simp [Table.get?]

theorem isSound_start (path owner : String) : IsSound (Draft.start path owner) := by
  constructor
  · intro name i h
    rw [find?_start] at h
    split at h <;> cases h
    exact Nat.zero_lt_one
  · intro name other i h hOther
    rw [find?_start] at h hOther
    split at h <;> cases h
    split at hOther
    · rename_i hName hOtherName
      exact hName.symm.trans hOtherName
    · cases hOther
  · exact List.forall_mem_singleton.mpr Nat.zero_lt_one

/-- Every opening is closed. Closing joins what was captured for the block by the mode that was
given last, and leaves a token if the name was opened once. So an opening keeps its own meaning if
its name is not opened again inside. -/
theorem closes_of_balanced (path owner : String) {before rest : List Step} {mode : ApplyMode}
    {name : String} (hNames : ∀ step ∈ before ++ .opening mode name :: rest, step.IsNamed)
    (hBalanced : IsBalanced (before ++ .opening mode name :: rest)) :
    ∃ inner after d d' d'', rest = inner ++ .close :: after ∧ IsBalanced inner
      ∧ (perform (before ++ .opening mode name :: inner)).run (Draft.start path owner) = (.ok (), d)
      ∧ Draft.close.run d = (.ok (), d')
      ∧ (perform after).run d' = (.ok (), d'')
      ∧ Closes name (lastMode name mode inner) (!opens name before && !opens name inner) d d'
      ∧ (opens name inner = false → Closes name mode (!opens name before) d d') := by
  rw [IsBalanced, level?_append, Option.bind_eq_some_iff] at hBalanced
  obtain ⟨depth, hBefore, hRest⟩ := hBalanced
  obtain ⟨inner, after, rfl, hInner⟩ := exists_closing 0 hRest (Nat.zero_le depth)
  simp only [List.forall_mem_append, List.forall_mem_cons] at hNames
  obtain ⟨hNamesBefore, hName, hNamesInner, hNamedClose, hNamesAfter⟩ := hNames
  -- up to the opening
  have hRoot : [Outline.root] ≠ [] := List.cons_ne_nil _ _
  have hStart : IsAbove [Outline.root] [] 0 (Draft.start path owner) :=
    ⟨[], [""], rfl, rfl, rfl, rfl⟩
  obtain ⟨d₀, hRunBefore, hPassesBefore, hAboveBefore⟩ :=
    exists_perform (isSound_start path owner) hNamesBefore hBefore hRoot hStart
  obtain ⟨upper, texts, hUpper, hTexts, hStack, hCaptures⟩ := hAboveBefore
  obtain ⟨above, texts, rfl⟩ : ∃ text more, texts = text :: more :=
    List.exists_cons_of_length_eq_add_one hTexts
  have hSome : d₀.stack ≠ [] := hStack ▸ List.append_ne_nil_of_right_ne_nil _ hRoot
  obtain ⟨i, o, hRunOpening, hPassesOpening, hFlags⟩ :=
    exists_opening mode hPassesBefore.sound hName hSome
  -- inside, above all that is open there
  have hOpened : IsAbove (i :: d₀.stack) d₀.captures 0 (entered d₀ o i) :=
    ⟨[], [""], rfl, rfl, rfl, rfl⟩
  obtain ⟨d, hRunInner, hPassesInner, hAboveInner⟩ :=
    exists_perform hPassesOpening.sound hNamesInner hInner (List.cons_ne_nil _ _) hOpened
  obtain ⟨innermost, captures, hNone, hOne, hStackInner, hCapturesInner⟩ := hAboveInner
  obtain ⟨captured, rfl⟩ := List.length_eq_one_iff.mp hOne
  rw [List.eq_nil_of_length_eq_zero hNone] at hStackInner
  rw [hCaptures] at hCapturesInner
  have hFlagsInner := hPassesInner.flags hFlags
  rw [hPassesBefore.known, knows, find?_start, if_neg (Ne.symm hName), Option.isSome_none,
    Bool.false_or] at hFlagsInner
  -- closing, and what follows
  have hAboveClose : IsAbove [Outline.root] [] (depth + 1) d := by
    refine ⟨i :: upper, captured :: above :: texts, congrArg (· + 1) hUpper,
      congrArg (· + 1) hTexts, ?_, hCapturesInner⟩
    rw [hStackInner, hStack]
    rfl
  obtain ⟨d', hClose, hPassesClose, hAboveAfter⟩ :=
    exists_step hPassesInner.sound hNamedClose rfl hRoot hAboveClose
  have hCloses := closes_of_run hFlagsInner hStackInner hSome hCapturesInner hClose
  rw [Bool.not_or] at hCloses
  have hAfter : level? depth after = some 0 := by
    have hInnerAbove := level?_add hInner (depth + 1)
    rw [Nat.zero_add] at hInnerAbove
    have hTail : level? (depth + 1) (inner ++ .close :: after) = some 0 := hRest
    rw [level?_append, hInnerAbove] at hTail
    exact hTail
  obtain ⟨d'', hRunAfter, -, -⟩ :=
    exists_perform hPassesClose.sound hNamesAfter hAfter hRoot hAboveAfter
  refine ⟨inner, after, d, d', d'', rfl, hInner, ?_, hClose, hRunAfter, hCloses, fun hOnce => ?_⟩
  · rw [run_perform_append hRunBefore, run_perform_cons hRunOpening, hRunInner]
  · rw [lastMode_of_not_opens mode hOnce, hOnce, Bool.not_false, Bool.and_true] at hCloses
    exact hCloses

/-- A block that is opened again while it is appended to, and one that is opened again inside its
first declaration. -/
def nested : List Step :=
  [.write "A", .opening .replace "x", .write "0", .close, .write "B",
    .opening .append "x", .write "1", .opening .replace "x", .write "2", .close, .write "3", .close,
    .opening .replace "y", .write "4", .opening .replace "y", .write "5", .close, .write "6",
    .close, .write "C"]

theorem closes_of_nested :
    ∃ inner after d d' d'', nested.drop 6 = inner ++ .close :: after ∧ IsBalanced inner
      ∧ (perform (nested.take 5 ++ .opening .append "x" :: inner)).run (Draft.start "/v/page" "")
        = (.ok (), d)
      ∧ Draft.close.run d = (.ok (), d')
      ∧ (perform after).run d' = (.ok (), d'')
      ∧ Closes "x" (lastMode "x" .append inner)
        (!opens "x" (nested.take 5) && !opens "x" inner) d d'
      ∧ (opens "x" inner = false → Closes "x" .append (!opens "x" (nested.take 5)) d d') :=
  closes_of_balanced "/v/page" "" (by simp [nested, Step.IsNamed, root]) rfl

/-- What a body calls to open a block. -/
def calls (directive name : String) : Body.Item :=
  .emit (.call (.name directive) [.literal (.text name)] [])

/-- What it calls to close one. -/
def closing : Body.Item := .emit (.call (.name "end") [] [])

/-- A page with these steps as its body. -/
def site : World :=
  { files := [(["v", "page"], .items [.text "A", calls "begin" "x", .text "0", closing, .text "B",
      calls "append" "x", .text "1", calls "begin" "x", .text "2", closing, .text "3", closing,
      calls "begin" "y", .text "4", calls "begin" "y", .text "5", closing, .text "6", closing,
      .text "C"])]
    vault := { now := ⟨0⟩ }
    settings := Site.startSettings { paths := [Path.ofText "/v"] } .script (.int 3600) }

/-- The page shows what was appended in the place of what was there, and no block of the second
name. -/
theorem nested_blocks_lost :
    ((Site.render Site.prepare (.text "page") .null [] true).run site).1.toOption
      = some "A13BC" := by
  decide +kernel

end PageBlocks.Reopening
