import PageBlocks.Proofs.Filling.Drafts
import PageBlocks.Proofs.Stock

/-!
# Rendering fills every place

The output of a block has no STX if the contents of its outline have places for children only, and
the texts in the cache have none (`fills_render`): every child has an output, rendered or from the
cache, that goes where its token stands. What is stored on the way has no STX either.
-/

set_option autoImplicit false

namespace PageBlocks.Filling

open PageBlocks.Cache PageBlocks.Deferral PageBlocks.Running PageBlocks.Storage

/-- Whether no text in a cache has an STX. -/
def Stainless (cache : Option Ref) (v : Vault) : Prop :=
  ∀ c, cache = some c → ∀ spot text, Stored c v spot text → Clean text.toList

/-- A computation on the caches that gives a text without STX and stores none with one. -/
def Fills (cache : Option Ref) (x : VaultM String) : Prop :=
  ∀ v, Stainless cache v → Ends x v (fun text v' => Clean text.toList ∧ Stainless cache v')
    (Stainless cache)

section Rendering

variable {cache : Option Ref} {o : Outline}

theorem Stainless.sheds {v v' : Vault} (h : Stainless cache v)
    (hSheds : ∀ c, cache = some c → Sheds c v v') : Stainless cache v' :=
  fun c hCache spot text hStored => h c hCache spot text (hSheds c hCache spot text hStored)

theorem ends_lookup {c : Ref} (hCache : cache = some c) (key : String) {v : Vault}
    (h : Stainless cache v) :
    Ends (c.lookup key) v
      (fun found v' => (∀ text, found = some text → Clean text.toList) ∧ Stainless cache v')
      (Stainless cache) := by
  have hAfter : Stainless cache (afterFetch c key v) := by
    refine h.sheds fun other hOther => ?_
    rw [hCache] at hOther
    cases hOther
    exact sheds_afterFetch c key v
  have hRun := run_lookup c key v
  cases hEntry : entry c key v with
  | ok found =>
    rw [hEntry] at hRun
    refine ends_of_run hRun ⟨fun text hText => ?_, hAfter⟩
    exact h c hCache _ text (stored_of_entry (hText ▸ hEntry))
  | error fault =>
    rw [hEntry] at hRun
    exact ends_of_run_error hRun hAfter

theorem ends_store {c : Ref} (hCache : cache = some c) (key : String) {text : String}
    (lifetime : Option Value) {v : Vault} (hText : Clean text.toList) (h : Stainless cache v) :
    Ends (c.put key text lifetime) v (fun _ => Stainless cache) (Stainless cache) := by
  have hAfter : ∀ v', Gains c key text v v' → Stainless cache v' := by
    intro v' hGains other hOther spot stored hStored
    rw [hCache] at hOther
    cases hOther
    rcases hGains spot stored hStored with hOld | ⟨-, rfl⟩
    · exact h c hCache spot stored hOld
    · exact hText
  exact Ends.mono (ends_put c key text lifetime v) (fun _ v' => hAfter v') hAfter

/-- A text that is taken from the cache or put there. -/
theorem fills_remembered {memo : Memo} (hCache : cache = some memo.cache) (b : Block)
    {render : VaultM String} (hRender : Fills cache render) :
    Fills cache (Outline.remembered memo b render) := by
  intro v h
  unfold Outline.remembered
  refine Ends.bind (ends_lookup hCache b.id h) fun found v₁ hFound => ?_
  obtain ⟨hFound, h₁⟩ := hFound
  cases found with
  | some output => exact ends_pure ⟨hFound output rfl, h₁⟩
  | none =>
    refine Ends.bind (hRender v₁ h₁) fun output v₂ hOutput => ?_
    refine Ends.bind (ends_store hCache b.id _ hOutput.1 hOutput.2) fun _ v₃ h₃ => ?_
    exact ends_pure ⟨hOutput.1, h₃⟩

/-- Every child has an output without STX. -/
theorem ends_children {render : Nat → VaultM String} (hRender : ∀ i, Fills cache (render i))
    (js : List Nat) {v : Vault} (h : Stainless cache v) :
    Ends (js.filterMapM (Outline.childOutput render o)) v
      (fun rendered v' => ((∀ entry ∈ rendered, Clean entry.2.toList)
        ∧ ∀ j ∈ js, ∀ child, o.block? j = some child → ∃ text, (child.id, text) ∈ rendered)
        ∧ Stainless cache v')
      (Stainless cache) := by
  induction js generalizing v with
  | nil =>
    refine ends_pure ⟨⟨?_, ?_⟩, h⟩
    · exact fun _ hMem => absurd hMem List.not_mem_nil
    · exact fun _ hMem => absurd hMem List.not_mem_nil
  | cons j js ih =>
    rw [List.filterMapM_cons, Outline.childOutput]
    cases hBlock : o.block? j with
    | none =>
      refine ends_bind_of_run (run_pure none v) ?_
      refine Ends.mono (ih h) (fun rendered v' hEnd => ⟨⟨hEnd.1.1, ?_⟩, hEnd.2⟩) fun _ => id
      intro k hMem child hChild
      rcases List.mem_cons.mp hMem with rfl | hMem
      · rw [hBlock] at hChild
        cases hChild
      · exact hEnd.1.2 k hMem child hChild
    | some child =>
      have hFirst : Ends (do return some (child.id, ← render j) :
          VaultM (Option (String × String))) v
          (fun found v' => (∃ text : String, found = some (child.id, text) ∧ Clean text.toList)
            ∧ Stainless cache v') (Stainless cache) := by
        refine Ends.bind (hRender j v h) fun text v₁ hText => ?_
        exact ends_pure ⟨⟨text, rfl, hText.1⟩, hText.2⟩
      refine Ends.bind hFirst fun found v₁ hFound => ?_
      obtain ⟨⟨text, rfl, hText⟩, h₁⟩ := hFound
      refine Ends.bind (ih h₁) fun rendered v₂ hEnd => ends_pure ⟨⟨?_, ?_⟩, hEnd.2⟩
      · exact List.forall_mem_cons.mpr ⟨hText, hEnd.1.1⟩
      · intro k hMem other hOther
        rcases List.mem_cons.mp hMem with rfl | hMem
        · rw [hBlock] at hOther
          cases hOther
          exact ⟨text, List.mem_cons_self⟩
        · obtain ⟨shown, hShown⟩ := hEnd.1.2 k hMem other hOther
          exact ⟨shown, List.mem_cons_of_mem _ hShown⟩

theorem fills_compose {render : Nat → VaultM String} (hRender : ∀ i, Fills cache (render i))
    (h : Whole o) {i : Nat} {b : Block} (hBlock : o.block? i = some b) :
    Fills cache (Outline.compose render o b) := by
  intro v hVault
  rw [Outline.compose_eq]
  refine Ends.bind (ends_children hRender b.children hVault) fun rendered v' hEnd => ?_
  obtain ⟨⟨hClean, hAll⟩, hVault'⟩ := hEnd
  refine ends_pure ⟨clean_splice (h.content i b hBlock) ?_ ?_, hVault'⟩
  · intro entry hMem
    rcases Table.mem_or_mem_of_mem_merge hMem with hNone | hMem
    · exact absurd hNone List.not_mem_nil
    · exact hClean entry hMem
  · -- a place is one for a child, and all children were rendered
    rintro id ⟨b', hBlock', j, hMem, child, hChild, rfl⟩
    rw [hBlock] at hBlock'
    cases hBlock'
    rw [String.ofList_toList]
    exact Table.exists_get?_merge (.inr (hAll j hMem child hChild))

theorem fills_renderFrom (h : Whole o) {memo : Option Memo}
    (hMemo : ∀ m, memo = some m → cache = some m.cache) (depth i : Nat) :
    Fills cache (Outline.renderFrom depth memo o i) := by
  induction depth generalizing i with
  | zero => exact fun v hVault => ends_throw hVault
  | succ depth ih =>
    unfold Outline.renderFrom
    cases hBlock : o.block? i with
    | none => exact fun v hVault => ends_pure ⟨clean_nil, hVault⟩
    | some b =>
      have hCompose := fills_compose ih h hBlock
      dsimp only
      split
      · exact fills_remembered (hMemo _ rfl) b hCompose
      · exact hCompose

/-- The output of a block has no STX. -/
theorem fills_render (h : Whole o) {memo : Option Memo}
    (hMemo : ∀ m, memo = some m → cache = some m.cache) (i : Nat) :
    Fills cache (o.render memo i) :=
  fills_renderFrom h hMemo _ i

end Rendering

end PageBlocks.Filling
