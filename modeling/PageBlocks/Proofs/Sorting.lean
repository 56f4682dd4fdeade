import Mathlib.Data.List.Chain
import Mathlib.Data.List.Nodup
import Mathlib.Data.String.Basic
import PageBlocks.Value

/-!
# What sorting does

Sorting goes along with putting other items in the place of the items (`sort_map`). Where every
comparison succeeds and follows an order, sorting succeeds too, keeps the items and puts them in
that order (`exists_sort`). So it is with entries whose keys are texts (`exists_sortByKey`), and if
the keys are distinct there is only one order (`eq_of_ascending`).
-/

set_option autoImplicit false

namespace PageBlocks.Sorting

/-! ## Halving -/

section Halving

variable {ε α : Type} {before : α → α → Except ε Bool}

/-- Inserting into a list whose second half is empty. -/
theorem insert_of_drop_eq_nil (item : α) {sorted : List α}
    (hDrop : sorted.drop (sorted.length / 2) = []) :
    insert before item sorted = .ok [item] := by
  rw [insert]
  split
  · rfl
  · rename_i hUpper
    rw [hDrop] at hUpper
    cases hUpper

/-- Both halves are shorter than the list. -/
theorem length_halves_lt {sorted upper : List α} {middle : α}
    (hDrop : sorted.drop (sorted.length / 2) = middle :: upper) :
    (sorted.take (sorted.length / 2)).length < sorted.length ∧ upper.length < sorted.length := by
  have hLength := congrArg List.length hDrop
  rw [List.length_drop, List.length_cons] at hLength
  rw [List.length_take]
  omega

/-- Inserting into a list goes on in one of its halves. -/
theorem insert_of_drop_eq_cons (item : α) {sorted upper : List α} {middle : α}
    (hDrop : sorted.drop (sorted.length / 2) = middle :: upper) :
    insert before item sorted = do
      if ← before item middle then
        return (← insert before item (sorted.take (sorted.length / 2))) ++ middle :: upper
      else
        return sorted.take (sorted.length / 2)
          ++ middle :: (← insert before item upper) := by
  rw [insert]
  split
  · rename_i hUpper
    rw [hDrop] at hUpper
    cases hUpper
  · rename_i hUpper
    rw [hDrop] at hUpper
    cases hUpper
    rfl

end Halving

/-! ## Items that stand for others -/

section Mapped

variable {ε α β : Type} {f : α → β} {before : α → α → Except ε Bool}
  {before' : β → β → Except ε Bool}

theorem continued_map (h : ∀ a b, before' (f a) (f b) = before a b) (falling : Bool) (last : α)
    (items : List α) :
    continued before' falling (f last) (items.map f)
      = (continued before falling last items).map fun found =>
          (found.1.map f, found.2.map f) := by
  induction items generalizing last with
  | nil => rfl
  | cons item rest ih =>
    rw [List.map_cons, continued, continued, h, ih]
    cases before item last with
    | error cause => rfl
    | ok first =>
      cases continued before falling item rest with
      | error cause =>
        cases hFalling : first == falling <;> simp [bind, Except.bind, hFalling] <;> rfl
      | ok found => cases hFalling : first == falling <;> simp [bind, Except.bind, hFalling] <;> rfl

theorem startingRun_map (h : ∀ a b, before' (f a) (f b) = before a b) (items : List α) :
    startingRun before' (items.map f)
      = (startingRun before items).map fun found => (found.1.map f, found.2.map f) := by
  match items with
  | [] => rfl
  | [item] => rfl
  | first :: second :: rest =>
    rw [List.map_cons, List.map_cons, startingRun, startingRun, h]
    cases before second first with
    | error cause => rfl
    | ok falling =>
      have hRun := continued_map h falling second rest
      simp only [bind, Except.bind]
      rw [hRun]
      cases continued before falling second rest with
      | error cause => rfl
      | ok found => cases falling <;> simp [Except.map, pure, Except.pure]

theorem insert_map (h : ∀ a b, before' (f a) (f b) = before a b) (item : α) (sorted : List α) :
    insert before' (f item) (sorted.map f)
      = (insert before item sorted).map (List.map f) := by
  have hMapped : (sorted.map f).drop ((sorted.map f).length / 2)
      = (sorted.drop (sorted.length / 2)).map f := by rw [List.length_map, List.map_drop]
  cases hDrop : sorted.drop (sorted.length / 2) with
  | nil =>
    rw [hDrop] at hMapped
    rw [insert_of_drop_eq_nil _ hMapped, insert_of_drop_eq_nil _ hDrop]
    rfl
  | cons middle upper =>
    obtain ⟨hShort, hShorter⟩ := length_halves_lt hDrop
    have hLower := insert_map h item (sorted.take (sorted.length / 2))
    have hUpper := insert_map h item upper
    rw [hDrop, List.map_cons] at hMapped
    rw [insert_of_drop_eq_cons _ hMapped, insert_of_drop_eq_cons _ hDrop, h, List.length_map,
      ← List.map_take, hLower, hUpper]
    cases before item middle with
    | error cause => rfl
    | ok goesBelow =>
      cases goesBelow with
      | true =>
        cases insert before item (sorted.take (sorted.length / 2)) with
        | error cause => rfl
        | ok found => simp [bind, Except.bind, Except.map, pure, Except.pure]
      | false =>
        cases insert before item upper with
        | error cause => rfl
        | ok found => simp [bind, Except.bind, Except.map, pure, Except.pure]
termination_by sorted.length
decreasing_by
  all_goals assumption

theorem sort_map (h : ∀ a b, before' (f a) (f b) = before a b) (items : List α) :
    sort before' (items.map f) = (sort before items).map (List.map f) := by
  rw [sort, sort, startingRun_map h]
  cases startingRun before items with
  | error cause => rfl
  | ok found =>
    obtain ⟨run, behind⟩ := found
    simp only [Except.map, bind, Except.bind]
    induction behind generalizing run with
    | nil => rfl
    | cons item rest ih =>
      rw [List.map_cons, List.foldlM_cons, List.foldlM_cons, insert_map h]
      cases insert before item run with
      | error cause => rfl
      | ok more => exact ih more

end Mapped

/-! ## Comparisons that follow an order -/

section Ordered

variable {ε α : Type} {lt : α → α → Bool}

/-- Comparing by an order. -/
def comparing (ε : Type) (lt : α → α → Bool) (a b : α) : Except ε Bool := .ok (lt a b)

/-- No item comes before one in front of it. -/
def Ascending (lt : α → α → Bool) (items : List α) : Prop :=
  items.Pairwise fun a b => lt b a = false

/-- Of two items at most one comes before the other, and not coming before is transitive. -/
structure IsOrder (lt : α → α → Bool) : Prop where
  asymm {a b : α} (h : lt a b = true) : lt b a = false
  trans {a b c : α} (hab : lt b a = false) (hbc : lt c b = false) : lt c a = false

theorem continued_comparing (falling : Bool) (last item : α) (rest : List α) :
    continued (comparing ε lt) falling last (item :: rest)
      = if lt item last = falling then
          (continued (comparing ε lt) falling item rest).map fun found =>
            (item :: found.1, found.2)
        else .ok ([], item :: rest) := by
  rw [continued, comparing]
  cases lt item last <;> cases falling <;> rfl

theorem insert_comparing (lt : α → α → Bool) (item : α) {sorted upper : List α} {middle : α}
    (hDrop : sorted.drop (sorted.length / 2) = middle :: upper) :
    insert (comparing ε lt) item sorted
      = if lt item middle then
          (insert (comparing ε lt) item (sorted.take (sorted.length / 2))).map
            (· ++ middle :: upper)
        else
          (insert (comparing ε lt) item upper).map
            (sorted.take (sorted.length / 2) ++ middle :: ·) := by
  rw [insert_of_drop_eq_cons item hDrop, comparing]
  cases lt item middle <;> rfl

/-- The items that go on with a run are related each to the one in front of it, and the items
behind the run follow. -/
theorem exists_continued (lt : α → α → Bool) (falling : Bool) (last : α) (items : List α) :
    ∃ run behind, continued (comparing ε lt) falling last items = .ok (run, behind)
      ∧ run ++ behind = items ∧ (last :: run).IsChain fun a b => lt b a = falling := by
  induction items generalizing last with
  | nil => exact ⟨[], [], rfl, rfl, .singleton last⟩
  | cons item rest ih =>
    by_cases hOn : lt item last = falling
    · obtain ⟨run, behind, hRun, rfl, hChain⟩ := ih item
      refine ⟨item :: run, behind, ?_, rfl, .cons_cons hOn hChain⟩
      rw [continued_comparing, if_pos hOn, hRun]
      rfl
    · refine ⟨[], item :: rest, ?_, rfl, .singleton last⟩
      rw [continued_comparing, if_neg hOn]

/-- A row in which no item comes before the one in front of it is in order. -/
theorem IsOrder.ascending_of_isChain (hOrder : IsOrder lt) {items : List α}
    (h : items.IsChain fun a b => lt b a = false) : Ascending lt items := by
  have hTrans : IsTrans α fun a b => lt b a = false := ⟨fun _ _ _ => hOrder.trans⟩
  exact h.pairwise

/-- A falling row turned round is in order. -/
theorem IsOrder.ascending_reverse_of_isChain (hOrder : IsOrder lt) {items : List α}
    (h : items.IsChain fun a b => lt b a = true) : Ascending lt items.reverse := by
  refine hOrder.ascending_of_isChain (List.isChain_reverse.mpr ?_)
  exact h.imp fun _ _ hFalls => hOrder.asymm hFalls

theorem IsOrder.exists_startingRun (hOrder : IsOrder lt) (items : List α) :
    ∃ run behind, startingRun (comparing ε lt) items = .ok (run, behind)
      ∧ (run ++ behind).Perm items ∧ Ascending lt run := by
  match items with
  | [] => exact ⟨[], [], rfl, .nil, .nil⟩
  | [item] => exact ⟨[item], [], rfl, .refl _, List.pairwise_singleton _ _⟩
  | first :: second :: rest =>
    obtain ⟨run, behind, hRun, rfl, hChain⟩ :=
      exists_continued (ε := ε) lt (lt second first) second rest
    have hWhole : (first :: second :: run).IsChain fun a b => lt b a = lt second first :=
      .cons_cons rfl hChain
    have hStart : startingRun (comparing ε lt) (first :: second :: (run ++ behind))
        = .ok (if lt second first then (first :: second :: run).reverse
            else first :: second :: run, behind) := by
      simp only [startingRun, comparing, bind, Except.bind] at hRun ⊢
      rw [hRun]
      rfl
    cases hFalling : lt second first with
    | true =>
      -- a falling run is turned round
      rw [hFalling] at hStart hWhole
      refine ⟨_, behind, hStart, ?_, hOrder.ascending_reverse_of_isChain hWhole⟩
      exact (List.reverse_perm _).append_right behind
    | false =>
      rw [hFalling] at hStart hWhole
      exact ⟨_, behind, hStart, .refl _, hOrder.ascending_of_isChain hWhole⟩

/-- Inserting keeps the items and their order: the item goes to a place with no item in front of it
that it comes before, and none behind it that comes before it. -/
theorem IsOrder.exists_insert (hOrder : IsOrder lt) (item : α) {sorted : List α}
    (h : Ascending lt sorted) :
    ∃ more, insert (comparing ε lt) item sorted = .ok more ∧ more.Perm (item :: sorted)
      ∧ Ascending lt more := by
  cases hDrop : sorted.drop (sorted.length / 2) with
  | nil =>
    have hNil : sorted = [] := by
      have hLength := List.drop_eq_nil_iff.mp hDrop
      exact List.eq_nil_of_length_eq_zero (by omega)
    subst hNil
    exact ⟨[item], insert_of_drop_eq_nil item hDrop, .refl _, List.pairwise_singleton _ _⟩
  | cons middle upper =>
    have hSplit : sorted = sorted.take (sorted.length / 2) ++ middle :: upper := by
      rw [← hDrop, List.take_append_drop]
    obtain ⟨hShort, hShorter⟩ := length_halves_lt hDrop
    have hInsert := insert_comparing (ε := ε) lt item hDrop
    generalize sorted.take (sorted.length / 2) = lower at hSplit hInsert hShort
    subst hSplit
    obtain ⟨hLower, hUpper, hAcross⟩ := List.pairwise_append.mp h
    obtain ⟨hMiddle, hUpper⟩ := List.pairwise_cons.mp hUpper
    cases hBefore : lt item middle with
    | true =>
      -- the item comes before the middle, so before all that follows it
      obtain ⟨more, hMore, hPerm, hAscending⟩ := hOrder.exists_insert item hLower
      refine ⟨more ++ middle :: upper, ?_, hPerm.append_right _, ?_⟩
      · rw [hInsert, if_pos hBefore, hMore]
        rfl
      · refine List.pairwise_append.mpr ⟨hAscending, List.pairwise_cons.mpr ⟨hMiddle, hUpper⟩, ?_⟩
        intro a hMem b hBehind
        rcases List.mem_cons.mp (hPerm.mem_iff.mp hMem) with rfl | hOld
        · have hTop := hOrder.asymm hBefore
          rcases List.mem_cons.mp hBehind with rfl | hAbove
          · exact hTop
          · exact hOrder.trans hTop (hMiddle b hAbove)
        · exact hAcross a hOld b hBehind
    | false =>
      -- it does not come before the middle, so before nothing in front of that
      obtain ⟨more, hMore, hPerm, hAscending⟩ := hOrder.exists_insert item hUpper
      refine ⟨lower ++ middle :: more, ?_, ?_, ?_⟩
      · rw [hInsert, if_neg (Bool.eq_false_iff.mp hBefore), hMore]
        rfl
      · calc (lower ++ middle :: more).Perm (lower ++ middle :: item :: upper) :=
              (hPerm.cons middle).append_left lower
          _ |>.Perm (lower ++ item :: middle :: upper) := (List.Perm.swap _ _ _).append_left lower
          _ |>.Perm (item :: (lower ++ middle :: upper)) := List.perm_middle
      · have hAbove (b : α) (hMem : b ∈ more) : lt b middle = false := by
          rcases List.mem_cons.mp (hPerm.mem_iff.mp hMem) with rfl | hOld
          · exact hBefore
          · exact hMiddle b hOld
        refine List.pairwise_append.mpr ⟨hLower, List.pairwise_cons.mpr ⟨hAbove, hAscending⟩, ?_⟩
        intro a hMem b hBehind
        have hBelow := hAcross a hMem middle List.mem_cons_self
        rcases List.mem_cons.mp hBehind with rfl | hMore
        · exact hBelow
        · exact hOrder.trans hBelow (hAbove b hMore)
termination_by sorted.length
decreasing_by
  all_goals assumption

/-- Sorting by an order succeeds, keeps the items and puts them in order. -/
theorem IsOrder.exists_sort (hOrder : IsOrder lt) (items : List α) :
    ∃ sorted, sort (comparing ε lt) items = .ok sorted ∧ sorted.Perm items
      ∧ Ascending lt sorted := by
  obtain ⟨run, behind, hRun, hPerm, hAscending⟩ := hOrder.exists_startingRun (ε := ε) items
  have hSort : sort (comparing ε lt) items
      = behind.foldlM (fun sorted item => insert (comparing ε lt) item sorted) run := by
    rw [sort, hRun]
    rfl
  rw [hSort]
  clear hSort hRun
  -- the items that are in order so far and those still to come are the items
  induction behind generalizing run with
  | nil => exact ⟨run, rfl, List.append_nil run ▸ hPerm, hAscending⟩
  | cons item behind ih =>
    obtain ⟨more, hMore, hAdded, hStill⟩ := hOrder.exists_insert (ε := ε) item hAscending
    have hItems : (more ++ behind).Perm items :=
      ((hAdded.append_right behind).trans List.perm_middle.symm).trans hPerm
    obtain ⟨sorted, hSorted, hFound⟩ := ih more hItems hStill
    refine ⟨sorted, ?_, hFound⟩
    rw [List.foldlM_cons, hMore]
    exact hSorted

end Ordered

/-! ## Texts as keys -/

section Texts

variable {α β : Type}

/-- Whether the text of an entry is the smaller one. -/
def smaller (a b : String × α) : Bool := decide (a.1 < b.1)

theorem isOrder_smaller : IsOrder (smaller (α := α)) where
  asymm h := decide_eq_false (lt_asymm (of_decide_eq_true h))
  trans hab hbc :=
    decide_eq_false (not_lt.mpr (le_trans (not_lt.mp (of_decide_eq_false hab))
      (not_lt.mp (of_decide_eq_false hbc))))

/-- Entries with texts as keys are sorted by the texts, whatever stands behind the keys. -/
theorem exists_sortByKey (g : α → β) (entries : List (String × α)) :
    ∃ sorted : List (String × α),
      Value.sortByKey (entries.map fun entry => (.text entry.1, g entry.2))
        = .ok (sorted.map fun entry => (.text entry.1, g entry.2))
      ∧ sorted.Perm entries ∧ Ascending smaller sorted := by
  obtain ⟨sorted, hSort, hSorted⟩ := isOrder_smaller.exists_sort (ε := Value.NoOrder) entries
  refine ⟨sorted, ?_, hSorted⟩
  have hMapped : Value.sortByKey (entries.map fun entry => (Value.text entry.1, g entry.2))
      = (sort (comparing Value.NoOrder smaller) entries).map
        (List.map fun entry => (Value.text entry.1, g entry.2)) :=
    sort_map (fun _ _ => rfl) entries
  rw [hSort] at hMapped
  exact hMapped

/-- Entries with distinct keys have one order. -/
theorem eq_of_ascending {entries other : List (String × α)} (hPerm : entries.Perm other)
    (hDistinct : (entries.map Prod.fst).Nodup) (h : Ascending smaller entries)
    (hOther : Ascending smaller other) : entries = other := by
  refine hPerm.eq_of_pairwise (fun a b hMem hMem' hab hba => ?_) h hOther
  have hKey : a.1 = b.1 :=
    le_antisymm (not_lt.mp (of_decide_eq_false hab)) (not_lt.mp (of_decide_eq_false hba))
  exact List.inj_on_of_nodup_map hDistinct hMem (hPerm.mem_iff.mpr hMem') hKey

end Texts

end PageBlocks.Sorting
