import PageBlocks.Proofs.Sorting

/-!
# Sorting by comparisons of every kind

What sorting gives when nothing is known of the comparisons but what each of them tells: if one
succeeds, that its two items belong together, and if one fails, why. A sort that succeeds keeps the
items, and all of them belong together; a sort that fails does so for the reason of a comparison
(`yields_sort`). Items that are compared by a rank which tells them apart are sorted to one list,
in whatever arrangement they come (`sort_eq_of_perm`).
-/

set_option autoImplicit false

namespace PageBlocks.Sorting

/-! ## Results and failures -/

section Yields

variable {ε α β : Type}

/-- What holds of a result, and of a failure. -/
def Yields (x : Except ε α) (P : α → Prop) (Q : ε → Prop) : Prop :=
  match x with
  | .ok a => P a
  | .error cause => Q cause

variable {P : α → Prop} {P' : β → Prop} {Q : ε → Prop}

theorem Yields.bind {x : Except ε α} {f : α → Except ε β} (h : Yields x P Q)
    (hNext : ∀ a, P a → Yields (f a) P' Q) : Yields (x >>= f) P' Q := by
  cases x with
  | ok a => exact hNext a h
  | error cause => exact h

theorem Yields.imp {x : Except ε α} {T : α → Prop} (h : Yields x P Q) (hResult : ∀ a, P a → T a) :
    Yields x T Q := by
  cases x with
  | ok a => exact hResult a h
  | error cause => exact h

theorem Yields.of_ok {x : Except ε α} (h : Yields x P Q) {a : α} (hOk : x = .ok a) : P a := by
  rw [hOk] at h
  exact h

theorem Yields.of_error {x : Except ε α} (h : Yields x P Q) {cause : ε}
    (hError : x = .error cause) : Q cause := by
  rw [hError] at h
  exact h

end Yields

/-! ## Sorting -/

section Related

variable {ε α : Type} {before : α → α → Except ε Bool} {S : α → Prop} {R : α → α → Prop}
  {Q : ε → Prop}

/-- The items that go on with a run belong together with its last one. -/
theorem yields_continued (hR : Equivalence R)
    (hBefore : ∀ a b, S a → S b → Yields (before a b) (fun _ => R a b) Q) (falling : Bool)
    {last : α} {items : List α} (hLast : S last) (hItems : ∀ a ∈ items, S a) :
    Yields (continued before falling last items)
      (fun found => found.1 ++ found.2 = items ∧ ∀ a ∈ found.1, R last a) Q := by
  induction items generalizing last with
  | nil => exact ⟨rfl, List.forall_mem_nil _⟩
  | cons item rest ih =>
    obtain ⟨hItem, hRest⟩ := List.forall_mem_cons.mp hItems
    rw [continued]
    refine (hBefore item last hItem hLast).bind fun found hTogether => ?_
    split
    · refine (ih hItem hRest).bind fun more hMore => ?_
      obtain ⟨rfl, hRun⟩ := hMore
      refine ⟨rfl, List.forall_mem_cons.mpr ⟨hR.symm hTogether, fun a hMem => ?_⟩⟩
      exact hR.trans (hR.symm hTogether) (hRun a hMem)
    · exact ⟨rfl, List.forall_mem_nil _⟩

/-- A starting run holds items that belong together. -/
theorem yields_startingRun (hR : Equivalence R)
    (hBefore : ∀ a b, S a → S b → Yields (before a b) (fun _ => R a b) Q) {items : List α}
    (hItems : ∀ a ∈ items, S a) :
    Yields (startingRun before items)
      (fun found => (found.1 ++ found.2).Perm items ∧ ∀ a ∈ found.1, ∀ b ∈ found.1, R a b)
        Q := by
  match items, hItems with
  | [], _ => exact ⟨.nil, nofun⟩
  | [item], _ =>
    refine ⟨.refl _, ?_⟩
    simp only [List.mem_singleton, forall_eq]
    exact hR.refl item
  | first :: second :: rest, hItems =>
    obtain ⟨hFirst, hOthers⟩ := List.forall_mem_cons.mp hItems
    obtain ⟨hSecond, hRest⟩ := List.forall_mem_cons.mp hOthers
    rw [startingRun]
    refine (hBefore second first hSecond hFirst).bind fun falling hTogether => ?_
    refine (yields_continued hR hBefore falling hSecond hRest).bind fun found hFound => ?_
    obtain ⟨run, behind⟩ := found
    obtain ⟨rfl, hRun⟩ := hFound
    have hOne : ∀ a ∈ first :: second :: run, R second a := by
      simp only [List.forall_mem_cons]
      exact ⟨hTogether, hR.refl second, hRun⟩
    have hAll : ∀ a ∈ first :: second :: run, ∀ b ∈ first :: second :: run, R a b :=
      fun a hA b hB => hR.trans (hR.symm (hOne a hA)) (hOne b hB)
    dsimp only
    cases falling with
    | false => exact ⟨.refl _, hAll⟩
    | true =>
      -- a falling run is turned round
      refine ⟨(List.reverse_perm _).append_right behind, fun a hA b hB => ?_⟩
      exact hAll a (List.mem_reverse.mp hA) b (List.mem_reverse.mp hB)

/-- An item is inserted next to one that it belongs together with, if there are any. -/
theorem yields_insert (hBefore : ∀ a b, S a → S b → Yields (before a b) (fun _ => R a b) Q)
    {item : α} {sorted : List α} (hItem : S item) (hSorted : ∀ a ∈ sorted, S a) :
    Yields (insert before item sorted)
      (fun more => more.Perm (item :: sorted) ∧ (sorted = [] ∨ ∃ a ∈ sorted, R item a)) Q := by
  cases hDrop : sorted.drop (sorted.length / 2) with
  | nil =>
    have hNil : sorted = [] := by
      have hLength := List.drop_eq_nil_iff.mp hDrop
      exact List.eq_nil_of_length_eq_zero (by omega)
    rw [insert_of_drop_eq_nil item hDrop, hNil]
    exact ⟨.refl _, .inl rfl⟩
  | cons middle upper =>
    have hSplit : sorted = sorted.take (sorted.length / 2) ++ middle :: upper := by
      rw [← hDrop, List.take_append_drop]
    obtain ⟨hShort, hShorter⟩ := length_halves_lt hDrop
    rw [insert_of_drop_eq_cons item hDrop]
    generalize sorted.take (sorted.length / 2) = lower at hSplit hShort
    subst hSplit
    have hMiddle : middle ∈ lower ++ middle :: upper :=
      List.mem_append_right _ List.mem_cons_self
    refine (hBefore item middle hItem (hSorted middle hMiddle)).bind fun goesBelow hTogether => ?_
    have hFound : lower ++ middle :: upper = [] ∨ ∃ a ∈ lower ++ middle :: upper, R item a :=
      .inr ⟨middle, hMiddle, hTogether⟩
    split
    · refine (yields_insert hBefore hItem fun a hMem =>
        hSorted a (List.mem_append_left _ hMem)).bind fun more hMore => ?_
      exact ⟨hMore.1.append_right _, hFound⟩
    · refine (yields_insert hBefore hItem fun a hMem =>
        hSorted a (List.mem_append_right _ (List.mem_cons_of_mem _ hMem))).bind fun more hMore => ?_
      refine ⟨?_, hFound⟩
      calc (lower ++ middle :: more).Perm (lower ++ middle :: item :: upper) :=
            (hMore.1.cons middle).append_left lower
        _ |>.Perm (lower ++ item :: middle :: upper) := (List.Perm.swap _ _ _).append_left lower
        _ |>.Perm (item :: (lower ++ middle :: upper)) := List.perm_middle
termination_by sorted.length
decreasing_by
  all_goals assumption

/-- Sorting keeps the items, and it succeeds only on items that all belong together; where it fails,
a comparison of two items did. -/
theorem yields_sort (hR : Equivalence R) {items : List α}
    (hBefore : ∀ a ∈ items, ∀ b ∈ items, Yields (before a b) (fun _ => R a b) Q) :
    Yields (sort before items)
      (fun sorted => sorted.Perm items ∧ ∀ a ∈ items, ∀ b ∈ items, R a b) Q := by
  have hCompare : ∀ a b, a ∈ items → b ∈ items → Yields (before a b) (fun _ => R a b) Q :=
    fun a b hA hB => hBefore a hA b hB
  rw [sort]
  refine (yields_startingRun hR hCompare fun a hMem => hMem).bind fun found hFound => ?_
  obtain ⟨run, behind⟩ := found
  obtain ⟨hPerm, hRun⟩ := hFound
  dsimp only at hPerm hRun ⊢
  -- what is in order so far belongs together, and with what is still to come makes up the items
  induction behind generalizing run with
  | nil =>
    rw [List.append_nil] at hPerm
    refine ⟨hPerm, fun a hA b hB => ?_⟩
    exact hRun a (hPerm.mem_iff.mpr hA) b (hPerm.mem_iff.mpr hB)
  | cons item behind ih =>
    have hMem : ∀ a, a ∈ run ++ item :: behind → a ∈ items := fun a hIn => hPerm.mem_iff.mp hIn
    have hItem : item ∈ items := hMem item (List.mem_append_right _ List.mem_cons_self)
    rw [List.foldlM_cons]
    refine (yields_insert hCompare hItem fun a hIn =>
      hMem a (List.mem_append_left _ hIn)).bind fun more hMore => ?_
    obtain ⟨hAdded, hNext⟩ := hMore
    have hOne : ∀ a ∈ more, R item a := by
      intro a hIn
      rcases List.mem_cons.mp (hAdded.mem_iff.mp hIn) with rfl | hOld
      · exact hR.refl a
      · rcases hNext with rfl | ⟨b, hB, hTogether⟩
        · cases hOld
        · exact hR.trans hTogether (hRun b hB a hOld)
    refine ih more ?_ fun a hA b hB => hR.trans (hR.symm (hOne a hA)) (hOne b hB)
    exact ((hAdded.append_right behind).trans List.perm_middle.symm).trans hPerm

end Related

/-! ## Ranks -/

section Ranks

variable {ε α κ : Type} [LinearOrder κ] {before : α → α → Except ε Bool}

/-- The order of ranks. -/
def lower (rank : α → κ) (a b : α) : Bool := decide (rank a < rank b)

theorem isOrder_lower (rank : α → κ) : IsOrder (lower rank) where
  asymm h := decide_eq_false (lt_asymm (of_decide_eq_true h))
  trans hab hbc :=
    decide_eq_false (not_lt.mpr (le_trans (not_lt.mp (of_decide_eq_false hab))
      (not_lt.mp (of_decide_eq_false hbc))))

/-- Items that are compared by their ranks are put in the order of the ranks. -/
theorem exists_sort_of_rank {rank : α → κ} {items : List α}
    (hBefore : ∀ a ∈ items, ∀ b ∈ items, before a b = .ok (lower rank a b)) :
    ∃ sorted, sort before items = .ok sorted ∧ sorted.Perm items
      ∧ Ascending (lower rank) sorted := by
  -- members are compared by an order on all of their type
  let rankOf : {a // a ∈ items} → κ := fun a => rank a.1
  obtain ⟨sorted, hSort, hPerm, hAscending⟩ :=
    (isOrder_lower rankOf).exists_sort (ε := ε) items.attach
  have hMapped : sort before (items.attach.map Subtype.val)
      = (sort (comparing ε (lower rankOf)) items.attach).map (List.map Subtype.val) :=
    sort_map (fun a b => hBefore a.1 a.2 b.1 b.2) items.attach
  rw [hSort, List.attach_map_subtype_val] at hMapped
  have hItems := hPerm.map Subtype.val
  rw [List.attach_map_subtype_val] at hItems
  exact ⟨sorted.map Subtype.val, hMapped, hItems, List.pairwise_map.mpr hAscending⟩

/-- Items that are told apart by their ranks are sorted alike in every arrangement. -/
theorem sort_eq_of_perm (rank : α → κ) {items others : List α} (hPerm : items.Perm others)
    (hBefore : ∀ a ∈ items, ∀ b ∈ items, before a b = .ok (lower rank a b))
    (hApart : ∀ a ∈ items, ∀ b ∈ items, rank a = rank b → a = b) :
    sort before items = sort before others := by
  obtain ⟨sorted, hSort, hSorted, hAscending⟩ := exists_sort_of_rank hBefore
  obtain ⟨sorted', hSort', hSorted', hAscending'⟩ :=
    exists_sort_of_rank fun a hA b hB =>
      hBefore a (hPerm.mem_iff.mpr hA) b (hPerm.mem_iff.mpr hB)
  have hSame : sorted = sorted' := by
    refine ((hSorted.trans hPerm).trans hSorted'.symm).eq_of_pairwise
      (fun a b hA hB hab hba => ?_) hAscending hAscending'
    refine hApart a (hSorted.mem_iff.mp hA) b
      (hPerm.mem_iff.mpr (hSorted'.mem_iff.mp hB)) ?_
    exact le_antisymm (not_lt.mp (of_decide_eq_false hab)) (not_lt.mp (of_decide_eq_false hba))
  rw [hSort, hSort', hSame]

end Ranks

end PageBlocks.Sorting
