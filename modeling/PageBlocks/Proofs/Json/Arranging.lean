import Mathlib.Data.List.Perm.Basic
import PageBlocks.Proofs.Json.Writing
import PageBlocks.Proofs.Sorting

/-!
# Values in another arrangement

The variables of a page become part of its identity with their entries in the order of the keys, at
every level. So values that differ in the order of map entries alone are written alike
(`Rearranged.write_eq`), and what is written for a value is a JSON text for the value in another
arrangement (`exists_arranged`). Reading it back tells all other values apart
(`write_identity_eq_iff`).
-/

set_option autoImplicit false

namespace PageBlocks.Json

/-- Whether two values are equal up to the order of map entries, at any level. -/
inductive Rearranged : Value → Value → Prop where
  | refl (v : Value) : Rearranged v v
  | trans {u v w : Value} (h : Rearranged u v) (hMore : Rearranged v w) : Rearranged u w
  | entries {xs ys : List (Value × Value)} (h : xs.Perm ys) : Rearranged (.map xs) (.map ys)
  | item {v w : Value} (before after : List Value) (h : Rearranged v w) :
      Rearranged (.list (before ++ v :: after)) (.list (before ++ w :: after))
  | value {v w : Value} (before after : List (Value × Value)) (key : Value)
      (h : Rearranged v w) :
      Rearranged (.map (before ++ (key, v) :: after)) (.map (before ++ (key, w) :: after))

namespace Rearranged

theorem symm {v w : Value} (h : Rearranged v w) : Rearranged w v := by
  induction h with
  | refl v => exact .refl v
  | trans _ _ ih ihMore => exact ihMore.trans ih
  | entries h => exact .entries h.symm
  | item before after _ ih => exact .item before after ih
  | value before after key _ ih => exact .value before after key ih

/-- A map stays a map. -/
theorem exists_map {v w : Value} {xs : List (Value × Value)} (h : Rearranged v w)
    (hMap : v = .map xs) : ∃ ys, w = .map ys := by
  induction h generalizing xs with
  | refl _ => exact ⟨xs, hMap⟩
  | trans _ _ ih ihMore =>
    obtain ⟨ys, hFirst⟩ := ih hMap
    exact ihMore hFirst
  | entries _ => exact ⟨_, rfl⟩
  | item _ _ _ _ => cases hMap
  | value _ _ _ _ _ => exact ⟨_, rfl⟩

/-- Lists are rearranged item by item. -/
theorem list {vs ws : List Value} (h : List.Forall₂ Rearranged vs ws) :
    Rearranged (.list vs) (.list ws) := by
  -- the items in front have been rearranged already
  suffices hFrom : ∀ before, Rearranged (.list (before ++ vs)) (.list (before ++ ws)) from hFrom []
  induction h with
  | nil => exact fun before => .refl _
  | @cons v w vs ws hItem _ ih =>
    intro before
    have hRest := ih (before ++ [w])
    rw [List.append_assoc, List.append_assoc] at hRest
    exact (item before vs hItem).trans hRest

/-- Maps are rearranged value by value. -/
theorem map {bs cs : List (String × Value)}
    (h : List.Forall₂ (fun b c => b.1 = c.1 ∧ Rearranged b.2 c.2) bs cs) :
    Rearranged (.map (textKeyed bs)) (.map (textKeyed cs)) := by
  suffices hFrom : ∀ before,
      Rearranged (.map (before ++ textKeyed bs)) (.map (before ++ textKeyed cs)) from hFrom []
  induction h with
  | nil => exact fun before => .refl _
  | @cons b c bs cs hEntry _ ih =>
    intro before
    have hRest := ih (before ++ [(.text c.1, c.2)])
    rw [List.append_assoc, List.append_assoc] at hRest
    have hFirst := value before (textKeyed bs) (.text c.1) hEntry.2
    rw [textKeyed, List.map_cons, hEntry.1]
    exact hFirst.trans hRest

end Rearranged

/-! ## Written forms of rearranged values -/

section Style

variable (style : Style)

theorem writeItems_append (vs ws : List Value) :
    writeItems style (vs ++ ws) = do
      return (← writeItems style vs) ++ (← writeItems style ws) := by
  induction vs with
  | nil =>
    rw [List.nil_append, writeItems]
    cases writeItems style ws <;> rfl
  | cons v vs ih =>
    rw [List.cons_append, writeItems, writeItems, ih]
    cases write style v with
    | error cause => rfl
    | ok text =>
      cases writeItems style vs with
      | error cause => rfl
      | ok texts => cases writeItems style ws <;> rfl

theorem writeValues_eq_map (entries : List (Value × Value)) :
    writeValues style entries = entries.map fun entry => (entry.1, write style entry.2) := by
  induction entries with
  | nil => rfl
  | cons entry rest ih => rw [writeValues, ih, List.map_cons]

theorem writeValues_textKeyed (bindings : List (String × Value)) :
    writeValues style (textKeyed bindings)
      = bindings.map fun binding => (.text binding.1, write style binding.2) := by
  rw [writeValues_eq_map, textKeyed, List.map_map]
  rfl

end Style

/-- Another arrangement of entries with texts as keys has texts as keys. -/
theorem exists_textKeyed_of_perm {bindings : List (String × Value)} {ys : List (Value × Value)}
    (h : (textKeyed bindings).Perm ys) :
    ∃ others, ys = textKeyed others ∧ bindings.Perm others := by
  -- the permutation is taken back over the keys, item by item
  have hKeyed : List.Forall₂ (fun b y => (.text b.1, b.2) = y) bindings (textKeyed bindings) := by
    rw [textKeyed, List.forall₂_map_right_iff]
    exact List.forall₂_same.mpr fun _ _ => rfl
  have hBoth : Relation.Comp (List.Forall₂ fun b y => (.text b.1, b.2) = y) List.Perm bindings ys :=
    ⟨_, hKeyed, h⟩
  rw [List.forall₂_comp_perm_eq_perm_comp_forall₂] at hBoth
  obtain ⟨others, hPerm, hOthers⟩ := hBoth
  refine ⟨others, ?_, hPerm⟩
  rw [← List.forall₂_map_left_iff, List.forall₂_eq_eq_eq] at hOthers
  exact hOthers.symm

theorem Faithful.items {items : List Value} (h : Faithful (.list items)) :
    ∀ item ∈ items, Faithful item := by
  cases h with
  | list hItems => exact hItems

theorem Faithful.exists_bindings {entries : List (Value × Value)} (h : Faithful (.map entries)) :
    ∃ bindings, entries = textKeyed bindings ∧ (bindings.map Prod.fst).Nodup
      ∧ ∀ binding ∈ bindings, Faithful binding.2 := by
  cases h with
  | map hDistinct hValues => exact ⟨_, rfl, hDistinct, hValues⟩

theorem Rearranged.faithful {v w : Value} (h : Rearranged v w) (hFaithful : Faithful v) :
    Faithful w := by
  induction h with
  | refl _ => exact hFaithful
  | trans _ _ ih ihMore => exact ihMore (ih hFaithful)
  | entries h =>
    obtain ⟨bindings, rfl, hDistinct, hValues⟩ := hFaithful.exists_bindings
    obtain ⟨others, rfl, hPerm⟩ := exists_textKeyed_of_perm h
    refine .map ((hPerm.map _).nodup_iff.mp hDistinct) fun b hMem => ?_
    exact hValues b (hPerm.mem_iff.mpr hMem)
  | @item v w before after _ ih =>
    have hItems := hFaithful.items
    refine .list fun u hMem => ?_
    simp only [List.mem_append, List.mem_cons] at hItems hMem
    rcases hMem with hFront | rfl | hBehind
    · exact hItems u (.inl hFront)
    · exact ih (hItems v (.inr (.inl rfl)))
    · exact hItems u (.inr (.inr hBehind))
  | @value v w before after key _ ih =>
    obtain ⟨bindings, hEntries, hDistinct, hValues⟩ := hFaithful.exists_bindings
    obtain ⟨bs, rest, rfl, rfl, hRest⟩ := List.map_eq_append_iff.mp hEntries.symm
    obtain ⟨⟨name, _⟩, cs, rfl, hEntry, rfl⟩ := List.map_eq_cons_iff.mp hRest
    obtain ⟨rfl, rfl⟩ := Prod.mk.inj hEntry
    have hMap : List.map (fun b : String × Value => (Value.text b.1, b.2)) bs
        ++ (.text name, w) :: cs.map (fun b => (.text b.1, b.2))
          = textKeyed (bs ++ (name, w) :: cs) := by
      rw [textKeyed, List.map_append, List.map_cons]
    rw [hMap]
    refine .map ?_ fun b hMem => ?_
    · rw [List.map_append, List.map_cons] at hDistinct ⊢
      exact hDistinct
    · simp only [List.mem_append, List.mem_cons] at hValues hMem
      rcases hMem with hFront | rfl | hBehind
      · exact hValues b (.inl hFront)
      · exact ih (hValues (name, _) (.inr (.inl rfl)))
      · exact hValues b (.inr (.inr hBehind))

/-- The entries of a map are written in the order of their keys. -/
theorem exists_order_identity (bindings : List (String × Value)) :
    ∃ sorted : List (String × Value),
      Style.identity.order (writeValues Style.identity (textKeyed bindings))
        = .ok (writeValues Style.identity (textKeyed sorted))
      ∧ sorted.Perm bindings ∧ Sorting.Ascending Sorting.smaller sorted := by
  obtain ⟨sorted, hSort, hSorted⟩ := Sorting.exists_sortByKey (write Style.identity) bindings
  refine ⟨sorted, ?_, hSorted⟩
  rw [writeValues_textKeyed, writeValues_textKeyed, Style.order, hSort]
  rfl

/-- The order of entries with distinct texts as keys does not depend on how they are arranged. -/
theorem order_identity_eq_of_perm {bindings others : List (String × Value)}
    (h : bindings.Perm others) (hDistinct : (bindings.map Prod.fst).Nodup) :
    Style.identity.order (writeValues Style.identity (textKeyed bindings))
      = Style.identity.order (writeValues Style.identity (textKeyed others)) := by
  obtain ⟨sorted, hOrder, hPerm, hAscending⟩ := exists_order_identity bindings
  obtain ⟨sorted', hOrder', hPerm', hAscending'⟩ := exists_order_identity others
  have hSame : sorted = sorted' :=
    Sorting.eq_of_ascending ((hPerm.trans h).trans hPerm'.symm)
      ((hPerm.map _).nodup_iff.mpr hDistinct) hAscending hAscending'
  rw [hOrder, hOrder', hSame]

/-- Values that differ in the order of entries alone are written alike. -/
theorem Rearranged.write_eq {v w : Value} (h : Rearranged v w) (hFaithful : Faithful v) :
    write Style.identity v = write Style.identity w := by
  induction h with
  | refl _ => rfl
  | trans hFirst _ ih ihMore => exact (ih hFaithful).trans (ihMore (hFirst.faithful hFaithful))
  | entries h =>
    obtain ⟨bindings, rfl, hDistinct, -⟩ := hFaithful.exists_bindings
    obtain ⟨others, rfl, hPerm⟩ := exists_textKeyed_of_perm h
    rw [write, write, order_identity_eq_of_perm hPerm hDistinct]
  | @item v w before after _ ih =>
    have hSame := ih (hFaithful.items v (List.mem_append_right _ List.mem_cons_self))
    rw [write, write, writeItems_append, writeItems_append, writeItems, writeItems, hSame]
  | @value v w before after key _ ih =>
    obtain ⟨bindings, hEntries, -, hValues⟩ := hFaithful.exists_bindings
    have hMem : (key, v) ∈ textKeyed bindings :=
      hEntries ▸ List.mem_append_right _ List.mem_cons_self
    obtain ⟨b, hBinding, hKeyed⟩ := List.mem_map.mp hMem
    have hSame := ih ((Prod.mk.inj hKeyed).2 ▸ hValues b hBinding)
    rw [write, write, writeValues_eq_map, writeValues_eq_map, List.map_append, List.map_append,
      List.map_cons, List.map_cons, hSame]

/-! ## Reading back -/

theorem hasGap_identity : Style.identity.HasGap [' '] :=
  ⟨fun _ hMem => List.mem_singleton.mp hMem ▸ rfl, rfl, rfl⟩

/-- What is written for a faithful value is a text of the grammar for the value in another
arrangement. -/
theorem exists_arranged {v : Value} (h : Faithful v) :
    ∃ w, Rearranged v w ∧ IsWritten Style.identity v w := by
  induction h with
  | null => exact ⟨_, .refl _, _, rfl, .word (by simp [words])⟩
  | bool b => exact ⟨_, .refl _, by cases b <;> exact ⟨_, rfl, .word (by simp [words])⟩⟩
  | int hShort => exact ⟨_, .refl _, _, rfl, .number (spells_ofInt hShort)⟩
  | text s => exact ⟨_, .refl _, isWritten_text _ s⟩
  | @list items h ih =>
    choose! f hRearranged hWritten using ih
    refine ⟨.list (items.map f), .list ?_, isWritten_list hasGap_identity ?_⟩
    · exact List.forall₂_map_right_iff.mpr (List.forall₂_same.mpr hRearranged)
    · exact List.forall₂_map_right_iff.mpr (List.forall₂_same.mpr hWritten)
  | @map bindings hDistinct h ih =>
    choose! f hRearranged hWritten using ih
    obtain ⟨sorted, hOrder, hPerm, -⟩ := exists_order_identity bindings
    have hMem (b : String × Value) (hSorted : b ∈ sorted) : b ∈ bindings := hPerm.mem_iff.mp hSorted
    have hKeys : (sorted.map fun b => (b.1, f b)).map Prod.fst = sorted.map Prod.fst :=
      List.map_map
    -- the entries are put in order first, then their values are rearranged
    have hSorted : Rearranged (.map (textKeyed bindings)) (.map (textKeyed sorted)) :=
      .entries (hPerm.symm.map _)
    refine ⟨.map (textKeyed (sorted.map fun b => (b.1, f b))), hSorted.trans (.map ?_),
      isWritten_map hasGap_identity hOrder ?_ ?_⟩
    · exact List.forall₂_map_right_iff.mpr (List.forall₂_same.mpr fun b hIn =>
        ⟨rfl, hRearranged b (hMem b hIn)⟩)
    · exact List.forall₂_map_right_iff.mpr (List.forall₂_same.mpr fun b hIn =>
        ⟨rfl, hWritten b (hMem b hIn)⟩)
    · rw [hKeys]
      exact (hPerm.map _).nodup_iff.mpr hDistinct

/-- Faithful values are written alike exactly if they differ in the order of entries alone. -/
theorem write_identity_eq_iff {v w : Value} (hv : Faithful v) (hw : Faithful w) :
    write Style.identity v = write Style.identity w ↔ Rearranged v w := by
  constructor
  · intro hSame
    obtain ⟨v', hArranged, hWritten⟩ := exists_arranged hv
    obtain ⟨w', hArranged', hWritten'⟩ := exists_arranged hw
    obtain ⟨written, hWrite, hText⟩ := hWritten.isText
    obtain ⟨written', hWrite', hText'⟩ := hWritten'.isText
    -- one text is read as both arrangements, so they are the same
    have hTexts : written = written' :=
      Except.ok.inj (hWrite.symm.trans (hSame.trans hWrite'))
    rw [hTexts] at hText
    have hRead := (read?_eq_some_iff.mpr hText).symm.trans (read?_eq_some_iff.mpr hText')
    rw [← Option.some.inj hRead] at hArranged'
    exact hArranged.trans hArranged'.symm
  · exact fun hArranged => hArranged.write_eq hv

end PageBlocks.Json
