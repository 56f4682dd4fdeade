import PageBlocks.Proofs.Coherence.Outlines
import PageBlocks.Proofs.Drafts
import PageBlocks.Proofs.Progress.Steps

/-!
# Drafts in agreement

Every open block of a draft has a capture and stands in the registry under its name, and the
outermost one is the root (`Agrees`). Each step of a draft keeps this up together with the coherence
of the outline, a step that fails included, as long as blocks are named by texts
(`onward_of_moved`). Closing a block then finds the capture that it needs (`close_fault`).
-/

set_option autoImplicit false

namespace PageBlocks.Coherence

open PageBlocks.Progress PageBlocks.Running

/-- Open blocks and captures that agree with each other and with an outline. -/
structure Agrees (o : Outline) (stack : List Nat) (captures : List Capture) : Prop where
  lengths : stack.length = captures.length
  root : stack.getLast? = some Outline.root
  held : ∀ i ∈ stack, ∃ b, o.block? i = some b ∧ o.find? b.name = some i

/-- A draft after a step. The outline has grown, and what was in order stays so if the names are
texts. -/
structure Onward (d d' : Draft) : Prop where
  grows : Grows d.outline d'.outline
  order : Coherent d.outline → Agrees d.outline d.stack d.captures → TextNamed d'.outline →
    Coherent d'.outline ∧ Agrees d'.outline d'.stack d'.captures

/-- An outline whose blocks were filled, and nothing else. -/
structure Refilled (o o' : Outline) : Prop where
  grows : Grows o o'
  coherent : Coherent o → Coherent o'

section Agreement

variable {o o' o'' : Outline} {stack : List Nat} {captures : List Capture}

/-- What agrees with an outline agrees with it later on. -/
theorem Agrees.grow (h : Agrees o stack captures) (hGrows : Grows o o') :
    Agrees o' stack captures := by
  refine ⟨h.lengths, h.root, fun i hMem => ?_⟩
  obtain ⟨b, hBlock, hFind⟩ := h.held i hMem
  obtain ⟨b', hBlock', hKeeps⟩ := hGrows.kept i b hBlock
  refine ⟨b', hBlock', ?_⟩
  rw [hKeeps.name]
  exact hGrows.found _ _ hFind

/-- Which texts were captured does not matter. -/
theorem Agrees.recapture (h : Agrees o stack captures) {captures' : List Capture}
    (hLength : captures'.length = captures.length) : Agrees o stack captures' :=
  ⟨h.lengths.trans hLength.symm, h.root, h.held⟩

theorem Agrees.push (h : Agrees o stack captures) {i : Nat} {b : Block}
    (hBlock : o.block? i = some b) (hFind : o.find? b.name = some i) (capture : Capture) :
    Agrees o (i :: stack) (capture :: captures) := by
  refine ⟨congrArg (· + 1) h.lengths, ?_, ?_⟩
  · cases stack with
    | nil => cases h.root
    | cons j rest =>
      rw [List.getLast?_cons_cons]
      exact h.root
  · intro j hMem
    rcases List.mem_cons.mp hMem with rfl | hMem
    · exact ⟨b, hBlock, hFind⟩
    · exact h.held j hMem

theorem Agrees.pop {i j : Nat} {below : List Nat} {capture : Capture}
    (h : Agrees o (i :: j :: below) (capture :: captures)) : Agrees o (j :: below) captures := by
  refine ⟨Nat.succ.inj h.lengths, ?_, fun k hMem => h.held k (List.mem_cons_of_mem _ hMem)⟩
  have hRoot := h.root
  rwa [List.getLast?_cons_cons] at hRoot

/-- The innermost open block is there. -/
theorem Agrees.current_lt {d : Draft} (h : Agrees d.outline d.stack d.captures) :
    d.current < d.outline.blocks.length := by
  have hMem : d.current ∈ d.stack := by
    unfold Draft.current
    cases hStack : d.stack with
    | nil =>
      have hRoot := h.root
      rw [hStack] at hRoot
      cases hRoot
    | cons i rest => exact List.mem_cons_self
  obtain ⟨b, hBlock, -⟩ := h.held _ hMem
  exact Outline.lt_of_block?_eq_some hBlock

theorem Refilled.refl (o : Outline) : Refilled o o := ⟨Grows.refl o, id⟩

theorem Refilled.trans (h : Refilled o o') (h' : Refilled o' o'') : Refilled o o'' :=
  ⟨h.grows.trans h'.grows, fun hCoherent => h'.coherent (h.coherent hCoherent)⟩

theorem refilled_mode (i : Nat) (mode : ApplyMode) :
    Refilled o (o.update i fun b => { b with mode }) :=
  ⟨grows_update fun _ => ⟨rfl, rfl, rfl, rfl, rfl, rfl, rfl, List.prefix_rfl⟩,
    fun h => h.update fun _ => ⟨rfl, rfl, rfl⟩⟩

theorem refilled_extended (i : Nat) :
    Refilled o (o.update i fun b => { b with extended := true }) :=
  ⟨grows_update fun _ => ⟨rfl, rfl, rfl, rfl, rfl, rfl, rfl, List.prefix_rfl⟩,
    fun h => h.update fun _ => ⟨rfl, rfl, rfl⟩⟩

theorem refilled_merge (i : Nat) (captured : String) :
    Refilled o (o.update i fun b => b.merge captured) :=
  ⟨grows_update fun _ => ⟨rfl, rfl, rfl, rfl, rfl, rfl, rfl, List.prefix_rfl⟩,
    fun h => h.update fun _ => ⟨rfl, rfl, rfl⟩⟩

end Agreement

section Steps

variable {d d' d'' : Draft} {i : Nat}

theorem Onward.refl (d : Draft) : Onward d d := ⟨Grows.refl _, fun h hAgrees _ => ⟨h, hAgrees⟩⟩

theorem Onward.trans (h : Onward d d') (h' : Onward d' d'') : Onward d d'' := by
  refine ⟨h.grows.trans h'.grows, fun hCoherent hAgrees hNamed => ?_⟩
  obtain ⟨hCoherent', hAgrees'⟩ := h.order hCoherent hAgrees (h'.grows.textNamed hNamed)
  exact h'.order hCoherent' hAgrees' hNamed

/-- Blocks were filled, and captures replaced by as many. -/
theorem onward_of_refilled (h : Refilled d.outline d'.outline) (hStack : d'.stack = d.stack)
    (hLength : d'.captures.length = d.captures.length) : Onward d d' := by
  refine ⟨h.grows, fun hCoherent hAgrees _ => ⟨h.coherent hCoherent, ?_⟩⟩
  rw [hStack]
  exact (hAgrees.grow h.grows).recapture hLength

/-- A block was opened that has its place already. -/
theorem onward_reopen {name : Value} (hFind : d.outline.find? name = some i) (mode : ApplyMode) :
    Onward d { d with
      outline := (d.outline.update i fun b => { b with extended := true }).update i
        fun b => { b with mode }
      stack := i :: d.stack
      captures := Capture.empty :: d.captures } := by
  have hRefilled := (refilled_extended (o := d.outline) i).trans (refilled_mode i mode)
  refine ⟨hRefilled.grows, fun hCoherent hAgrees _ => ⟨hRefilled.coherent hCoherent, ?_⟩⟩
  obtain ⟨key, hMem⟩ := Table.exists_mem_of_get?_eq_some hFind
  obtain ⟨b, hBlock, -⟩ := hCoherent.named _ hMem
  exact (hAgrees.push hBlock (hCoherent.registered i b hBlock) _).grow hRefilled.grows

/-- A new block was opened as a child of the innermost one. -/
theorem onward_openNew {b : Block} (hFind : d.outline.find? b.name = none)
    (hChildren : b.children = []) (mode : ApplyMode) :
    Onward d { d with
      outline := ((d.outline.addChild d.current b).2.register b.name d.outline.blocks.length).update
        d.outline.blocks.length fun b => { b with mode }
      stack := d.outline.blocks.length :: d.stack
      captures := Capture.empty :: d.captures } := by
  have hGrows := grows_addNamed d.current hFind
  have hRefilled := refilled_mode
    (o := (d.outline.addChild d.current b).2.register b.name d.outline.blocks.length)
    d.outline.blocks.length mode
  refine ⟨hGrows.trans hRefilled.grows, fun hCoherent hAgrees hNamed => ?_⟩
  have hParent := hAgrees.current_lt
  have hNew : ((d.outline.addChild d.current b).2.register b.name d.outline.blocks.length).block?
      d.outline.blocks.length = some { b with parent := some d.current } := by
    rw [Outline.block?_register, Outline.block?_addChild hParent, if_pos rfl]
  obtain ⟨name, hName⟩ := hRefilled.grows.textNamed hNamed _ _ hNew
  have hAfter := hCoherent.addNamed (b := b) hParent hName hChildren hFind
  refine ⟨hRefilled.coherent hAfter, ?_⟩
  have hPushed := (hAgrees.grow hGrows).push hNew (hAfter.registered _ _ hNew) Capture.empty
  exact hPushed.grow hRefilled.grows

/-- A block was closed, and the text that was captured for it thrown away. -/
theorem onward_pop {j : Nat} {below : List Nat} {capture : Capture} {rest : List Capture}
    (hStack : d.stack = i :: j :: below) (hCaptures : d.captures = capture :: rest) :
    Onward d { d with stack := j :: below, captures := rest } := by
  refine ⟨Grows.refl _, fun hCoherent hAgrees _ => ⟨hCoherent, ?_⟩⟩
  rw [hStack, hCaptures] at hAgrees
  exact hAgrees.pop

/-- Whatever a step makes of a draft, the draft stays in order. -/
theorem onward_of_change
    (h : Draft.Change (fun b => b.children = []) (fun _ => True) d d') : Onward d d' := by
  cases h with
  | stay => exact Onward.refl d
  | mark i => exact onward_of_refilled (refilled_extended i) rfl rfl
  | reopen hFind mode => exact onward_reopen hFind mode
  | declare hChildren hFree mode => exact onward_openNew hFree hChildren mode
  | write _ hCaptures =>
    refine onward_of_refilled (Refilled.refl _) rfl ?_
    rw [hCaptures]
    rfl
  | drop hStack hCaptures =>
    -- there is a capture for each open block
    refine ⟨Grows.refl _, fun _ hAgrees _ => ?_⟩
    have hLengths := hAgrees.lengths
    rw [hStack, hCaptures] at hLengths
    cases hLengths
  | pop hStack hCaptures => exact onward_pop hStack hCaptures
  | merge hStack hCaptures _ =>
    exact (onward_pop hStack hCaptures).trans (onward_of_refilled (refilled_merge _ _) rfl rfl)
  | token hStack hCaptures _ _ _ =>
    exact (onward_pop hStack hCaptures).trans (onward_of_refilled (refilled_merge _ _) rfl rfl)
  | finish _ _ _ => exact onward_of_refilled (refilled_merge _ _) rfl rfl

theorem onward_resetCaptures (hClosed : d.stack = [Outline.root]) :
    Onward d { d with captures := [Capture.empty] } := by
  refine ⟨Grows.refl _, fun hCoherent hAgrees _ => ⟨hCoherent, ?_, hAgrees.root, hAgrees.held⟩⟩
  rw [hClosed]
  rfl

/-- Whatever step a draft takes, it stays in order. -/
theorem onward_of_moved (h : Moved d d') : Onward d d' := by
  cases h with
  | openBlock name mode => exact onward_of_change (Draft.change_openBlock mode rfl)
  | addBlock b mode hNew => exact onward_of_change (Draft.change_addBlock mode hNew)
  | write v => exact onward_of_change (Draft.change_write trivial)
  | close => exact onward_of_change Draft.change_close
  | finish => exact onward_of_change Draft.change_finish
  | markRoot => exact onward_of_refilled (refilled_extended _) rfl rfl
  | resetCaptures hClosed => exact onward_resetCaptures hClosed

/-! ## What cannot fail -/

theorem Agrees.captures_ne_nil (h : Agrees d.outline d.stack d.captures) : d.captures ≠ [] := by
  intro hNone
  have hLengths := h.lengths
  have hRoot := h.root
  rw [hNone, List.length_nil, List.length_eq_zero_iff] at hLengths
  rw [hLengths] at hRoot
  cases hRoot

/-- Something can always be written. -/
theorem write_eq_ok (h : Agrees d.outline d.stack d.captures) (v : Value) :
    ((Draft.write v).run d).1 = .ok () := by
  obtain ⟨capture, rest, hCaptures⟩ := List.exists_cons_of_ne_nil h.captures_ne_nil
  unfold Draft.write
  rw [run_bind_of_ok (run_get d), hCaptures]
  rfl

/-- Closing a block fails only if none is open, or if something else than text was captured for it:
there always is a capture, and one around it that takes the token. -/
theorem close_fault (h : Agrees d.outline d.stack d.captures) {fault : Fault}
    (hFails : (Draft.close.run d).1 = .error fault) :
    (d.stack = [Outline.root] ∧ fault = .blockStack d.path .noOpenBlock)
      ∨ (d.captures.head? = some .spoiled ∧ fault = .host .type) := by
  unfold Draft.close at hFails
  rw [run_bind_of_ok (run_get d)] at hFails
  split at hFails
  · rename_i i j below hStack
    have hLengths := h.lengths
    obtain ⟨capture, around, rest, hCaptures⟩ :
        ∃ capture around rest, d.captures = capture :: around :: rest := by
      rw [hStack] at hLengths
      cases hAll : d.captures with
      | nil =>
        rw [hAll] at hLengths
        cases hLengths
      | cons capture more =>
        cases more with
        | nil =>
          rw [hAll] at hLengths
          cases hLengths
        | cons around rest => exact ⟨capture, around, rest, rfl⟩
    rw [hCaptures, run_bind_of_ok (run_set _ _)] at hFails
    dsimp only at hFails
    rw [run_bind_of_ok (run_set _ _)] at hFails
    cases capture with
    | spoiled =>
      refine .inr ⟨by rw [hCaptures]; rfl, ?_⟩
      cases hFails
      rfl
    | text captured =>
      have hRead : (liftM (Capture.text captured).read : DraftM String).run
          { d with stack := j :: below, captures := around :: rest }
            = (.ok captured, { d with stack := j :: below, captures := around :: rest }) := rfl
      rw [run_bind_of_ok hRead, run_bind_of_ok (run_modify _ _)] at hFails
      split at hFails
      · split at hFails
        · cases hFails
        · cases hFails
      · cases hFails
  · rename_i hNot
    have hClosed : d.stack = [Outline.root] := by
      have hRoot := h.root
      cases hStack : d.stack with
      | nil =>
        rw [hStack] at hRoot
        cases hRoot
      | cons i below =>
        cases below with
        | nil =>
          rw [hStack] at hRoot
          exact congrArg (fun i => [i]) (Option.some.inj hRoot)
        | cons j below => exact absurd hStack (hNot i j below)
    refine .inl ⟨hClosed, ?_⟩
    cases hFails
    rfl

end Steps

end PageBlocks.Coherence
