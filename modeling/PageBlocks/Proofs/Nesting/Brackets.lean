import PageBlocks.Block.Outline

/-!
# Openings and ends

The body of a page is looked at as a list of steps, in which openings and ends are brackets. A part
is balanced if it closes what it opens and nothing else (`Balanced`). An opening is unmatched after
steps if it is not closed by an end behind a balanced part, and the page extended no template since
(`Unmatched`), for that drops all open blocks.

Steps are cut into layers at their unmatched openings (`Layers`): what stands between two of them,
or behind the last one, is balanced. So the unmatched openings are those of the layers, and no
others (`Layers.unmatched_iff`).
-/

set_option autoImplicit false

namespace PageBlocks.Nesting

/-! ## Steps -/

/-- A step that the body of a page takes. -/
inductive Step where
  | write (s : String)
  /-- Open the block of a name. -/
  | opening (name : Value) (mode : ApplyMode)
  /-- Open a ready-made block, or the block of its name. -/
  | adding (b : Block) (mode : ApplyMode)
  /-- Close the innermost open block. -/
  | close
  /-- Extend the page of another template. -/
  | extend (name : Value)

namespace Step

/-- The name under which a step opens a block. -/
def opened? : Step → Option Value
  | opening name _ => some name
  | adding b _ => some b.name
  | _ => none

/-- Whether a step opens a block. -/
def opens (step : Step) : Bool := step.opened?.isSome

/-- Whether a step may fail for a reason of its own. -/
def mayFail : Step → Bool
  | opening _ _ | adding _ _ | extend _ => true
  | write _ | close => false

/-- The number of open blocks after a step that does not close more than there are. -/
def level? : Nat → Step → Option Nat
  | depth, write _ => some depth
  | depth, opening _ _ | depth, adding _ _ => some (depth + 1)
  | 0, close => none
  | depth + 1, close => some depth
  | _, extend _ => none

theorem level?_of_opens {step : Step} (h : step.opens = true) (depth : Nat) :
    step.level? depth = some (depth + 1) := by
  cases step with
  | opening name mode => rfl
  | adding b mode => rfl
  | write _ | close | extend _ => cases h

end Step

/-- The number of open blocks after steps. -/
def level? (depth : Nat) (steps : List Step) : Option Nat := steps.foldlM Step.level? depth

theorem level?_append (depth : Nat) (steps more : List Step) :
    level? depth (steps ++ more) = (level? depth steps).bind fun depth => level? depth more :=
  List.foldlM_append

/-! ## Balanced parts -/

/-- Steps that close the blocks that they open, each at its own end, and no others. -/
inductive Balanced : List Step → Prop
  | nil : Balanced []
  | write (s : String) {rest : List Step} (h : Balanced rest) : Balanced (.write s :: rest)
  | block {o : Step} {inner rest : List Step} (hOpens : o.opens = true) (hInner : Balanced inner)
    (hRest : Balanced rest) : Balanced (o :: (inner ++ .close :: rest))

namespace Balanced

variable {steps more before after : List Step} {o : Step}

theorem append (h : Balanced steps) (hMore : Balanced more) : Balanced (steps ++ more) := by
  induction h with
  | nil => exact hMore
  | write s _ ih => exact .write s ih
  | @block o inner rest hOpens hInner _ _ ih =>
    have hShape : o :: (inner ++ .close :: rest) ++ more
        = o :: (inner ++ .close :: (rest ++ more)) := by
      simp only [List.cons_append, List.append_assoc]
    rw [hShape]
    exact .block hOpens hInner ih

/-- As many blocks are open after balanced steps as before. -/
theorem level?_eq (h : Balanced steps) (depth : Nat) : level? depth steps = some depth := by
  induction h generalizing depth with
  | nil => rfl
  | write s _ ih => exact ih depth
  | @block o inner rest hOpens _ _ ihInner ihRest =>
    have hFirst : level? depth (o :: (inner ++ .close :: rest))
        = level? (depth + 1) (inner ++ .close :: rest) := by
      rw [level?, List.foldlM_cons, Step.level?_of_opens hOpens]
      rfl
    rw [hFirst, level?_append, ihInner]
    exact ihRest depth

/-- An end in balanced steps closes what was opened in them. -/
theorem not_balanced_before (h : Balanced (before ++ .close :: after)) : ¬ Balanced before := by
  intro hBefore
  have hLevel := h.level?_eq 0
  rw [level?_append, hBefore.level?_eq] at hLevel
  cases hLevel

theorem extend_not_mem (h : Balanced steps) (name : Value) : .extend name ∉ steps := by
  induction h with
  | nil => exact List.not_mem_nil
  | write s _ ih => simpa using ih
  | @block o inner rest hOpens _ _ ihInner ihRest =>
    have hNe : Step.extend name ≠ o := by
      rintro rfl
      cases hOpens
    simp only [List.mem_cons, List.mem_append, hNe, ihInner, ihRest, reduceCtorEq, or_self,
      not_false_eq_true]

/-- An opening in balanced steps is closed in them. -/
theorem exists_end (h : Balanced (before ++ o :: after)) (hOpens : o.opens = true) :
    ∃ inner rest, after = inner ++ .close :: rest ∧ Balanced inner := by
  generalize hSteps : before ++ o :: after = steps at h
  induction h generalizing before after with
  | nil => exact absurd hSteps (List.append_ne_nil_of_right_ne_nil _ (List.cons_ne_nil _ _))
  | write s _ ih =>
    cases before with
    | nil =>
      cases hSteps
      cases hOpens
    | cons first before => exact ih (List.cons.inj hSteps).2
  | @block first inner rest _ hInner _ ihInner ihRest =>
    cases before with
    | nil =>
      cases hSteps
      exact ⟨inner, rest, rfl, hInner⟩
    | cons _ before =>
      have hTail : before ++ o :: after = inner ++ .close :: rest := (List.cons.inj hSteps).2
      rcases List.append_eq_append_iff.mp hTail with ⟨middle, rfl, hMiddle⟩ | ⟨middle, rfl, hMiddle⟩
      · -- the opening stands in the inner part, or it is the end
        cases middle with
        | nil =>
          cases hMiddle
          cases hOpens
        | cons _ middle =>
          cases hMiddle
          obtain ⟨inside, behind, rfl, hInside⟩ := ihInner rfl
          exact ⟨inside, behind ++ .close :: rest, by simp, hInside⟩
      · cases middle with
        | nil =>
          cases hMiddle
          cases hOpens
        | cons _ middle =>
          cases hMiddle
          exact ihRest rfl

end Balanced

/-! ## Unmatched openings -/

/-- The opening behind the earlier ones of some steps is unmatched after all of them. -/
def Unmatched (steps earlier : List Step) : Prop :=
  ∃ o later, steps = earlier ++ o :: later ∧ o.opens = true ∧ (∀ name, .extend name ∉ later)
    ∧ ∀ inner rest, later = inner ++ .close :: rest → ¬ Balanced inner

/-- An end behind these steps has no unmatched opening. -/
def IsStray (before : List Step) : Prop := ∀ earlier, ¬ Unmatched before earlier

namespace Unmatched

variable {steps more earlier : List Step} {step : Step}

/-- Balanced steps have no unmatched opening, wherever they stand. -/
theorem of_append (h : Unmatched (steps ++ more) earlier) (hMore : Balanced more) :
    Unmatched steps earlier := by
  obtain ⟨o, later, hSteps, hOpens, hExtends, hEnds⟩ := h
  rcases List.append_eq_append_iff.mp hSteps with ⟨middle, rfl, rfl⟩ | ⟨middle, rfl, hLater⟩
  · obtain ⟨inner, rest, hClosed, hInner⟩ := hMore.exists_end hOpens
    exact absurd hInner (hEnds inner rest hClosed)
  · cases middle with
    | nil =>
      rw [List.nil_append] at hLater
      have hOnly : Balanced ([] ++ o :: later) := hLater ▸ hMore
      obtain ⟨inner, rest, hClosed, hInner⟩ := hOnly.exists_end hOpens
      exact absurd hInner (hEnds inner rest hClosed)
    | cons _ middle =>
      rw [List.cons_append] at hLater
      obtain ⟨rfl, rfl⟩ := List.cons.inj hLater
      refine ⟨_, middle, rfl, hOpens, fun name hMem => ?_, fun inner rest hClosed => ?_⟩
      · exact hExtends name (List.mem_append_left _ hMem)
      · refine hEnds inner (rest ++ more) ?_
        rw [hClosed, List.append_assoc, List.cons_append]

/-- The last step is an unmatched opening, or it leaves an earlier one unmatched. -/
theorem of_concat (h : Unmatched (steps ++ [step]) earlier) :
    earlier = steps ∧ step.opens = true
      ∨ Unmatched steps earlier ∧ ∀ name, step ≠ .extend name := by
  obtain ⟨o, later, hSteps, hOpens, hExtends, hEnds⟩ := h
  rcases List.eq_nil_or_concat later with rfl | ⟨middle, last, rfl⟩
  · obtain ⟨rfl, hLast⟩ := List.append_inj' hSteps rfl
    cases hLast
    exact .inl ⟨rfl, hOpens⟩
  · rw [List.concat_eq_append, ← List.cons_append, ← List.append_assoc] at hSteps
    obtain ⟨rfl, hLast⟩ := List.append_inj' hSteps rfl
    cases hLast
    rw [List.concat_eq_append] at hExtends hEnds
    refine .inr ⟨⟨o, middle, rfl, hOpens, fun name hMem => ?_, fun inner rest hClosed => ?_⟩, ?_⟩
    · exact hExtends name (List.mem_append_left _ hMem)
    · refine hEnds inner (rest ++ [step]) ?_
      rw [hClosed, List.append_assoc, List.cons_append]
    · rintro name rfl
      exact hExtends name (List.mem_append_right _ (List.mem_singleton_self _))

/-- What is open around a balanced part stays unmatched, also while the part is opened. -/
theorem around {o : Step} {inner : List Step} (h : Unmatched steps earlier)
    (hOpens : o.opens = true) (hInner : Balanced inner) :
    Unmatched (steps ++ o :: inner) earlier := by
  obtain ⟨outer, later, rfl, hOuter, hExtends, hEnds⟩ := h
  refine ⟨outer, later ++ o :: inner, ?_, hOuter, fun name hMem => ?_, fun part rest hPart => ?_⟩
  · rw [List.append_assoc, List.cons_append]
  · rcases List.mem_append.mp hMem with hLater | hMem
    · exact hExtends name hLater
    · rcases List.mem_cons.mp hMem with rfl | hMem
      · cases hOpens
      · exact hInner.extend_not_mem name hMem
  · intro hBalanced
    rcases List.append_eq_append_iff.mp hPart with ⟨middle, rfl, hMiddle⟩ | ⟨middle, rfl, hMiddle⟩
    · cases middle with
      | nil =>
        cases hMiddle
        cases hOpens
      | cons _ middle =>
        -- the part would have to close the block and one more than there are inside
        rw [List.cons_append] at hMiddle
        obtain ⟨rfl, rfl⟩ := List.cons.inj hMiddle
        obtain ⟨inside, behind, rfl, hInside⟩ := hBalanced.exists_end hOpens
        rw [List.append_assoc, List.cons_append] at hInner
        exact hInner.not_balanced_before hInside
    · cases middle with
      | nil =>
        cases hMiddle
        cases hOpens
      | cons _ middle =>
        cases hMiddle
        exact hEnds part middle rfl hBalanced

end Unmatched

/-- A block that is open: the steps before its opening, the opening, and the number and the name of
the block. -/
structure Held where
  earlier : List Step
  opening : Step
  number : Nat
  name : Value

/-- Steps cut at the openings of the blocks that are open after them, innermost first. What came
before a template was extended does not count. -/
inductive Layers : List Step → List Held → Prop
  | bottom {past inner : List Step}
    (hPast : past = [] ∨ ∃ before name, past = before ++ [.extend name])
    (hInner : Balanced inner) : Layers (past ++ inner) []
  | layer {h : Held} {inner : List Step} {around : List Held} (hAround : Layers h.earlier around)
    (hOpens : h.opening.opens = true) (hInner : Balanced inner) :
    Layers (h.earlier ++ h.opening :: inner) (h :: around)

namespace Layers

variable {steps more earlier : List Step} {held : List Held}

theorem nil : Layers [] [] := by
  have hWhole : Layers ([] ++ []) [] := .bottom (.inl rfl) .nil
  exact hWhole

/-- Balanced steps change nothing. -/
theorem append (h : Layers steps held) (hMore : Balanced more) : Layers (steps ++ more) held := by
  cases h with
  | bottom hPast hInner =>
    rw [List.append_assoc]
    exact .bottom hPast (hInner.append hMore)
  | @layer top inner around hAround hOpens hInner =>
    have hShape : top.earlier ++ top.opening :: inner ++ more
        = top.earlier ++ top.opening :: (inner ++ more) := by
      simp only [List.append_assoc, List.cons_append]
    rw [hShape]
    exact .layer hAround hOpens (hInner.append hMore)

/-- An end takes the innermost layer away. -/
theorem close {top : Held} (h : Layers steps (top :: held)) : Layers (steps ++ [.close]) held := by
  cases h with
  | @layer _ inner _ hAround hOpens hInner =>
    have hShape : top.earlier ++ top.opening :: inner ++ [.close]
        = top.earlier ++ top.opening :: (inner ++ [.close]) := by
      simp only [List.append_assoc, List.cons_append]
    rw [hShape]
    exact hAround.append (.block hOpens hInner .nil)

/-- Each block was opened after those around it. -/
theorem length_lt (h : Layers steps held) :
    ∀ other ∈ held, other.earlier.length < steps.length := by
  induction h with
  | bottom _ _ => exact fun _ hMem => absurd hMem List.not_mem_nil
  | @layer top inner around _ _ _ ih =>
    have hLength : top.earlier.length < (top.earlier ++ top.opening :: inner).length := by
      rw [List.length_append, List.length_cons]
      omega
    exact List.forall_mem_cons.mpr ⟨hLength, fun other hMem => Nat.lt_trans (ih other hMem) hLength⟩

theorem pairwise (h : Layers steps held) :
    held.Pairwise fun inner outer => outer.earlier.length < inner.earlier.length := by
  induction h with
  | bottom _ _ => exact .nil
  | layer hAround _ _ ih => exact .cons hAround.length_lt ih

/-- The openings of the layers are among the steps. -/
theorem opening_prefix (h : Layers steps held) :
    ∀ top ∈ held, top.earlier ++ [top.opening] <+: steps := by
  induction h with
  | bottom _ _ => exact fun _ hMem => absurd hMem List.not_mem_nil
  | @layer top inner around _ _ _ ih =>
    refine List.forall_mem_cons.mpr ⟨⟨inner, ?_⟩, fun other hMem => ?_⟩
    · rw [List.append_assoc, List.singleton_append]
    · exact (ih other hMem).trans (List.prefix_append _ _)

/-- The innermost layer is the one that was opened last. -/
theorem length_le {top : Held} (h : Layers steps (top :: held)) (hUnmatched : ∃ other ∈ top :: held,
    other.earlier = earlier) : earlier.length ≤ top.earlier.length := by
  obtain ⟨other, hMem, rfl⟩ := hUnmatched
  rcases List.mem_cons.mp hMem with rfl | hMem
  · exact Nat.le_refl _
  · exact Nat.le_of_lt ((List.pairwise_cons.mp h.pairwise).1 other hMem)

/-- The blocks of the layers were opened and not closed since, and no others. -/
theorem unmatched_iff (h : Layers steps held) :
    Unmatched steps earlier ↔ ∃ top ∈ held, top.earlier = earlier := by
  induction h with
  | @bottom past inner hPast hInner =>
    constructor
    · intro hUnmatched
      have hBefore := hUnmatched.of_append hInner
      rcases hPast with rfl | ⟨before, name, rfl⟩
      · obtain ⟨o, later, hNone, -⟩ := hBefore
        exact absurd hNone.symm (List.append_ne_nil_of_right_ne_nil _ (List.cons_ne_nil _ _))
      · rcases hBefore.of_concat with ⟨-, hOpens⟩ | ⟨-, hNot⟩
        · cases hOpens
        · exact absurd rfl (hNot name)
    · rintro ⟨top, hMem, -⟩
      exact absurd hMem List.not_mem_nil
  | @layer top inner around hAround hOpens hInner ih =>
    constructor
    · intro hUnmatched
      rw [List.append_cons] at hUnmatched
      rcases (hUnmatched.of_append hInner).of_concat with ⟨rfl, -⟩ | ⟨hOuter, -⟩
      · exact ⟨top, List.mem_cons_self, rfl⟩
      · obtain ⟨other, hMem, rfl⟩ := ih.mp hOuter
        exact ⟨other, List.mem_cons_of_mem _ hMem, rfl⟩
    · rintro ⟨other, hMem, rfl⟩
      rcases List.mem_cons.mp hMem with rfl | hMem
      · exact ⟨other.opening, inner, rfl, hOpens, hInner.extend_not_mem, fun part rest hPart =>
          Balanced.not_balanced_before (hPart ▸ hInner)⟩
      · exact (ih.mpr ⟨other, hMem, rfl⟩).around hOpens hInner

/-- An end is stray where no block is open. -/
theorem isStray_iff (h : Layers steps held) : IsStray steps ↔ held = [] := by
  constructor
  · intro hStray
    refine List.eq_nil_iff_forall_not_mem.mpr fun top hMem => ?_
    exact hStray top.earlier (h.unmatched_iff.mpr ⟨top, hMem, rfl⟩)
  · rintro rfl earlier hUnmatched
    obtain ⟨top, hMem, -⟩ := h.unmatched_iff.mp hUnmatched
    exact absurd hMem List.not_mem_nil

end Layers

end PageBlocks.Nesting
