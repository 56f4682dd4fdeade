import PageBlocks.Proofs.Comparing
import PageBlocks.Proofs.Deferral.Values
import PageBlocks.Proofs.Json.Arranging
import PageBlocks.Proofs.Rounding
import PageBlocks.Proofs.Running

/-!
# Values of every kind in another order

`Reordered` relates values that differ in the order of map entries, at any level, whatever their
keys are. Sorting the entries of a map succeeds only if all of its keys are of one kind, and keys
with a written form are then texts, numbers or one null. As long as the keys of each map can be told
apart and none is a NaN (`WellKeyed`), they have one order; so a value that has a written form with
sorted keys has the same one in every order of its entries (`Reordered.write_eq`).
-/

set_option autoImplicit false

namespace PageBlocks.Reordering

open PageBlocks.Json PageBlocks.Number PageBlocks.Running PageBlocks.Sorting

/-! ## Reordered values -/

/-- Whether two values are equal up to the order of map entries, at any level of maps, lists and
tuples. -/
inductive Reordered : Value → Value → Prop where
  | refl (v : Value) : Reordered v v
  | trans {u v w : Value} (h : Reordered u v) (hMore : Reordered v w) : Reordered u w
  | entries {xs ys : List (Value × Value)} (h : xs.Perm ys) : Reordered (.map xs) (.map ys)
  | item {v w : Value} (before after : List Value) (h : Reordered v w) :
      Reordered (.list (before ++ v :: after)) (.list (before ++ w :: after))
  | component {v w : Value} (before after : List Value) (h : Reordered v w) :
      Reordered (.tuple (before ++ v :: after)) (.tuple (before ++ w :: after))
  | value {v w : Value} (before after : List (Value × Value)) (key : Value) (h : Reordered v w) :
      Reordered (.map (before ++ (key, v) :: after)) (.map (before ++ (key, w) :: after))

/-- Keys that are not taken for one. -/
def AreDistinct (k l : Value) : Prop := (k == l) = false ∧ (l == k) = false

/-- Whether a value stands for something. -/
def isKnown : Value → Bool
  | .missing => false
  | _ => true

/-- A key that has a place in an order: no NaN, and no unbound name in it. -/
structure IsSound (key : Value) : Prop where
  ne_nan : key ≠ .real .nan
  known : key.every isKnown = true

/-- Whether in each map, at any level, the keys are sound and told apart. -/
inductive WellKeyed : Value → Prop where
  | leaf {v : Value} (hList : ∀ items, v ≠ .list items) (hTuple : ∀ items, v ≠ .tuple items)
      (hMap : ∀ entries, v ≠ .map entries) : WellKeyed v
  | list {items : List Value} (h : ∀ item ∈ items, WellKeyed item) : WellKeyed (.list items)
  | tuple {items : List Value} (h : ∀ item ∈ items, WellKeyed item) : WellKeyed (.tuple items)
  | map {entries : List (Value × Value)}
      (hApart : entries.Pairwise fun a b => AreDistinct a.1 b.1)
      (hSound : ∀ entry ∈ entries, IsSound entry.1)
      (hValues : ∀ entry ∈ entries, WellKeyed entry.2) : WellKeyed (.map entries)

theorem Reordered.symm {v w : Value} (h : Reordered v w) : Reordered w v := by
  induction h with
  | refl v => exact .refl v
  | trans _ _ ih ihMore => exact ihMore.trans ih
  | entries h => exact .entries h.symm
  | item before after _ ih => exact .item before after ih
  | component before after _ ih => exact .component before after ih
  | value before after key _ ih => exact .value before after key ih

theorem AreDistinct.symm {k l : Value} (h : AreDistinct k l) : AreDistinct l k := ⟨h.2, h.1⟩

namespace WellKeyed

theorem items {items : List Value} (h : WellKeyed (.list items)) :
    ∀ item ∈ items, WellKeyed item := by
  cases h with
  | leaf hList _ _ => exact absurd rfl (hList items)
  | list h => exact h

theorem components {items : List Value} (h : WellKeyed (.tuple items)) :
    ∀ item ∈ items, WellKeyed item := by
  cases h with
  | leaf _ hTuple _ => exact absurd rfl (hTuple items)
  | tuple h => exact h

theorem entries {entries : List (Value × Value)} (h : WellKeyed (.map entries)) :
    (entries.Pairwise fun a b => AreDistinct a.1 b.1) ∧ (∀ entry ∈ entries, IsSound entry.1)
      ∧ ∀ entry ∈ entries, WellKeyed entry.2 := by
  cases h with
  | leaf _ _ hMap => exact absurd rfl (hMap entries)
  | map hApart hSound hValues => exact ⟨hApart, hSound, hValues⟩

/-- What holds of the members of a row holds if one of them is replaced. -/
theorem forall_mem_replace {α : Type} {P : α → Prop} {before after : List α} {a b : α}
    (h : ∀ c ∈ before ++ a :: after, P c) (hNew : P a → P b) :
    ∀ c ∈ before ++ b :: after, P c := by
  simp only [List.forall_mem_append, List.forall_mem_cons] at h ⊢
  exact ⟨h.1, hNew h.2.1, h.2.2⟩

end WellKeyed

theorem Reordered.wellKeyed {v w : Value} (h : Reordered v w) (hKeyed : WellKeyed v) :
    WellKeyed w := by
  induction h with
  | refl _ => exact hKeyed
  | trans _ _ ih ihMore => exact ihMore (ih hKeyed)
  | entries hPerm =>
    obtain ⟨hApart, hSound, hValues⟩ := hKeyed.entries
    refine .map ((hPerm.pairwise_iff fun hKeys => hKeys.symm).mp hApart) ?_ ?_
    · exact fun entry hMem => hSound entry (hPerm.mem_iff.mpr hMem)
    · exact fun entry hMem => hValues entry (hPerm.mem_iff.mpr hMem)
  | item before after _ ih => exact .list (WellKeyed.forall_mem_replace hKeyed.items ih)
  | component before after _ ih => exact .tuple (WellKeyed.forall_mem_replace hKeyed.components ih)
  | @value v w before after key _ ih =>
    obtain ⟨hApart, hSound, hValues⟩ := hKeyed.entries
    have hKeys : (before ++ (key, w) :: after).map Prod.fst
        = (before ++ (key, v) :: after).map Prod.fst := by
      rw [List.map_append, List.map_append, List.map_cons, List.map_cons]
    refine .map ?_ (WellKeyed.forall_mem_replace hSound fun hOld => hOld)
      (WellKeyed.forall_mem_replace hValues ih)
    rw [← List.pairwise_map, hKeys, List.pairwise_map]
    exact hApart

/-! ## Comparing keys -/

/-- The kinds of values of which any two can be put in order. -/
inductive Kind where
  | text
  | bytes
  | list
  | tuple
  | number
  | unordered
  deriving DecidableEq

/-- The kind of a value. -/
def kindOf : Value → Kind
  | .text _ => .text
  | .bytes _ => .bytes
  | .list _ => .list
  | .tuple _ => .tuple
  | .bool _ | .int _ | .real _ => .number
  | _ => .unordered

theorem kindOf_of_number? {v : Value} {x : Binary64} (h : v.number? = some x) :
    kindOf v = .number := by
  unfold Value.number? at h
  split at h
  · rfl
  · rfl
  · rfl
  · cases h

theorem ne_missing_of_every {v : Value} (h : v.every isKnown = true) : v ≠ .missing := by
  rintro rfl
  cases h

theorem between_ne_missing {v w : Value} (hv : v ≠ .missing) (hw : w ≠ .missing) :
    Value.NoOrder.between v w ≠ .missing := by
  unfold Value.NoOrder.between
  split
  · exact absurd rfl hv
  · exact absurd rfl hw
  · exact nofun

/-- A number is compared with numbers alone. -/
theorem yields_ofNumber {r : Value.Relation} {x : Binary64} {v w : Value}
    (hNumber : v.number? = some x) (hKnown : w ≠ .missing) :
    Yields (r.ofNumber x v w) (fun _ => kindOf v = kindOf w) (· ≠ .missing) := by
  unfold Value.Relation.ofNumber
  split
  · rename_i y hOther
    exact (kindOf_of_number? hNumber).trans (kindOf_of_number? hOther).symm
  · refine between_ne_missing ?_ hKnown
    rintro rfl
    cases hNumber

/-- Two values of which none holds an unbound name are of one kind, or their kinds have no order. -/
theorem yields_relate (r : Value.Relation) (v w : Value) (hv : v.every isKnown = true)
    (hw : w.every isKnown = true) :
    Yields (Value.relate r v w) (fun _ => kindOf v = kindOf w) (· ≠ .missing) := by
  -- sequences are compared item by item, along the recursion of the comparison
  refine Value.relate.induct
    (fun v w => v.every isKnown = true → w.every isKnown = true →
      Yields (Value.relate r v w) (fun _ => kindOf v = kindOf w) (· ≠ .missing))
    (fun vs ws => Value.everyItem isKnown vs = true → Value.everyItem isKnown ws = true →
      Yields (Value.relateItems r vs ws) (fun _ => True) (· ≠ .missing))
    ?_ ?_ ?_ ?_ ?_ ?_ ?_ ?_ ?_ ?_ ?_ v w hv hw
  case refine_1 => exact fun _ _ _ _ => rfl
  case refine_2 => exact fun _ _ _ _ => rfl
  case refine_3 =>
    intro xs ys ih hxs hys
    exact (ih hxs hys).imp fun _ _ => rfl
  case refine_4 =>
    intro xs ys ih hxs hys
    exact (ih hxs hys).imp fun _ _ => rfl
  case refine_5 => exact fun a w _ hw => yields_ofNumber rfl (ne_missing_of_every hw)
  case refine_6 => exact fun a w _ hw => yields_ofNumber rfl (ne_missing_of_every hw)
  case refine_7 => exact fun a w _ hw => yields_ofNumber rfl (ne_missing_of_every hw)
  case refine_8 =>
    intro v w hText hBytes hList hTuple hBool hInt hReal hv hw
    have hNone : Value.relate r v w = .error (.between v w) := by
      rw [Value.relate] <;> assumption
    rw [hNone]
    exact between_ne_missing (ne_missing_of_every hv) (ne_missing_of_every hw)
  case refine_9 =>
    intro x xs y ys hSame ih hxs hys
    rw [Value.everyItem, Bool.and_eq_true] at hxs hys
    rw [Value.relateItems, if_pos hSame]
    exact ih hxs.2 hys.2
  case refine_10 =>
    intro x xs y ys hSame ih hxs hys
    rw [Value.everyItem, Bool.and_eq_true] at hxs hys
    rw [Value.relateItems, if_neg hSame]
    exact (ih hxs.1 hys.1).imp fun _ _ => trivial
  case refine_11 =>
    intro xs ys hShort _ _
    have hEnds : Value.relateItems r xs ys = .ok (r.holds xs.length ys.length) := by
      rw [Value.relateItems]
      assumption
    rw [hEnds]
    trivial

/-! ## Sorting by keys -/

section Keys

variable {α : Type} {entries others : List (Value × α)}

/-- Entries that can be sorted by their keys have keys of one kind. -/
theorem yields_sortByKey (hKeys : ∀ entry ∈ entries, entry.1.every isKnown = true) :
    Yields (Value.sortByKey entries)
      (fun sorted => sorted.Perm entries ∧ ∀ a ∈ entries, ∀ b ∈ entries, kindOf a.1 = kindOf b.1)
      (· ≠ .missing) := by
  have hKinds : Equivalence fun a b : Value × α => kindOf a.1 = kindOf b.1 :=
    ⟨fun _ => rfl, Eq.symm, Eq.trans⟩
  exact yields_sort hKinds fun a hA b hB =>
    yields_relate .less a.1 b.1 (hKeys a hA) (hKeys b hB)

/-- The keys with a written form are texts, numbers and null. -/
theorem kindOf_of_key? {key : Value} (h : key? key ≠ none) :
    kindOf key = .text ∨ kindOf key = .number ∨ key = .null := by
  cases key <;> first
    | exact .inl rfl
    | exact .inr (.inl rfl)
    | exact .inr (.inr rfl)
    | exact absurd rfl h

/-- The text of a text. -/
def textOf : Value → String
  | .text s => s
  | _ => ""

theorem text_of_kindOf {v : Value} (h : kindOf v = .text) : v = .text (textOf v) := by
  cases v <;> first | rfl | cases h

/-- Where the number of a value is among all numbers. -/
def levelOf (v : Value) : WithBot (WithTop ℚ) := (v.number?.getD .nan).level

theorem exists_number?_of_kindOf {v : Value} (h : kindOf v = .number) :
    ∃ x, v.number? = some x := by
  cases v <;> first | exact ⟨_, rfl⟩ | cases h

theorem number?_of_kindOf {v : Value} (h : kindOf v = .number) (hNan : v ≠ .real .nan) :
    ∃ x, v.number? = some x ∧ x ≠ .nan := by
  obtain ⟨x, hx⟩ := exists_number?_of_kindOf h
  refine ⟨x, hx, ?_⟩
  rintro rfl
  cases v with
  | real y => exact hNan (congrArg Value.real (Option.some.inj hx))
  | bool b => cases hx
  | int n => cases hx
  | _ => cases h

theorem relate_of_number? (r : Value.Relation) {v w : Value} {x y : Binary64}
    (hv : v.number? = some x) (hw : w.number? = some y) :
    Value.relate r v w = .ok (r.ofReals x y) := by
  have hOf : ∀ v', Value.Relation.ofNumber r x v' w = .ok (r.ofReals x y) := by
    intro v'
    rw [Value.Relation.ofNumber, hw]
  cases v with
  | bool b => cases hv; exact (by rw [Value.relate]; exact hOf _)
  | int n => cases hv; exact (by rw [Value.relate]; exact hOf _)
  | real z => cases hv; exact (by rw [Value.relate]; exact hOf _)
  | _ => cases hv

theorem same_of_number? {v w : Value} {x y : Binary64} (hv : v.number? = some x)
    (hw : w.number? = some y) : (v == w) = x.same y := by
  have hOf : Value.sameNumber x w = x.same y := by rw [Value.sameNumber, hw]
  cases v with
  | bool b => cases hv; exact hOf
  | int n => cases hv; exact hOf
  | real z => cases hv; exact hOf
  | _ => cases hv

/-- Entries with distinct keys can be told apart by whatever tells apart their keys. -/
theorem eq_of_not_areDistinct (hApart : entries.Pairwise fun a b => AreDistinct a.1 b.1)
    {a b : Value × α} (hA : a ∈ entries) (hB : b ∈ entries) (h : (a.1 == b.1) = true) : a = b := by
  by_contra hNe
  have hSymm : Std.Symm fun a b : Value × α => AreDistinct a.1 b.1 := ⟨fun _ _ => AreDistinct.symm⟩
  rw [(hApart.forall hA hB hNe).1] at h
  cases h

/-- Keys of one kind with written forms are all texts, all numbers, or one null. -/
theorem keys_cases (hApart : entries.Pairwise fun a b => AreDistinct a.1 b.1)
    (hForm : ∀ entry ∈ entries, key? entry.1 ≠ none)
    (hKinds : ∀ a ∈ entries, ∀ b ∈ entries, kindOf a.1 = kindOf b.1) :
    (∀ entry ∈ entries, kindOf entry.1 = .text) ∨ (∀ entry ∈ entries, kindOf entry.1 = .number)
      ∨ ∃ a, entries = [(.null, a)] := by
  match entries with
  | [] => exact .inl nofun
  | first :: rest =>
    have hFirst : first ∈ first :: rest := List.mem_cons_self
    rcases kindOf_of_key? (hForm first hFirst) with hKind | hKind | hNull
    · exact .inl fun entry hMem => (hKinds entry hMem first hFirst).trans hKind
    · exact .inr (.inl fun entry hMem => (hKinds entry hMem first hFirst).trans hKind)
    · refine .inr (.inr ⟨first.2, ?_⟩)
      cases rest with
      | nil => rw [← hNull]
      | cons second rest =>
        -- another key without an order would be another null
        have hSecond : second ∈ first :: second :: rest := by simp
        have hKind := hKinds second hSecond first hFirst
        rw [hNull] at hKind
        have hAgain : second.1 = .null := by
          rcases kindOf_of_key? (hForm second hSecond) with hOther | hOther | hAgain
          · cases hOther.symm.trans hKind
          · cases hOther.symm.trans hKind
          · exact hAgain
        have hTwo := (List.pairwise_cons.mp hApart).1 second List.mem_cons_self
        rw [hNull, hAgain] at hTwo
        cases hTwo.1

/-- Entries whose keys have a written form are put in one order, however they are arranged. -/
theorem sortByKey_eq_of_perm (hPerm : entries.Perm others)
    (hApart : entries.Pairwise fun a b => AreDistinct a.1 b.1)
    (hNan : ∀ entry ∈ entries, entry.1 ≠ .real .nan)
    (hForm : ∀ entry ∈ entries, key? entry.1 ≠ none)
    (hKinds : ∀ a ∈ entries, ∀ b ∈ entries, kindOf a.1 = kindOf b.1) :
    Value.sortByKey entries = Value.sortByKey others := by
  rcases keys_cases hApart hForm hKinds with hTexts | hNumbers | ⟨a, rfl⟩
  · have hText : ∀ entry ∈ entries, entry.1 = .text (textOf entry.1) :=
      fun entry hMem => text_of_kindOf (hTexts entry hMem)
    refine sort_eq_of_perm (fun entry => textOf entry.1) hPerm
      (fun a hA b hB => ?_) fun a hA b hB hSame => ?_
    · rw [hText a hA, hText b hB]
      rfl
    · refine eq_of_not_areDistinct hApart hA hB ?_
      rw [hText a hA, hText b hB, hSame]
      exact Table.beq_text_iff.mpr rfl
  · refine sort_eq_of_perm (fun entry => levelOf entry.1) hPerm
      (fun a hA b hB => ?_) fun a hA b hB hSame => ?_
    all_goals
      obtain ⟨x, hx, hxNan⟩ := number?_of_kindOf (hNumbers a hA) (hNan a hA)
      obtain ⟨y, hy, hyNan⟩ := number?_of_kindOf (hNumbers b hB) (hNan b hB)
    · rw [relate_of_number? .less hx hy, lower, levelOf, levelOf, hx, hy]
      refine congrArg Except.ok (Bool.eq_iff_iff.mpr ?_)
      rw [decide_eq_true_eq]
      exact Binary64.lt_iff_level.trans ⟨fun h => h.2.2, fun h => ⟨hxNan, hyNan, h⟩⟩
    · refine eq_of_not_areDistinct hApart hA hB ?_
      rw [same_of_number? hx hy]
      rw [levelOf, levelOf, hx, hy] at hSame
      exact Binary64.same_of_level_eq hxNan hyNan hSame
  · rw [List.singleton_perm.mp hPerm]

/-- Entries whose keys are all texts or all numbers can be sorted. -/
theorem exists_sortByKey_of_kind {kind : Kind} (hKind : kind = .text ∨ kind = .number)
    (h : ∀ entry ∈ entries, kindOf entry.1 = kind) :
    ∃ sorted, Value.sortByKey entries = .ok sorted ∧ sorted.Perm entries := by
  have hCompare : ∀ a ∈ entries, ∀ b ∈ entries,
      Yields (Value.relate .less a.1 b.1) (fun _ => True) fun _ => False := by
    intro a hA b hB
    rcases hKind with rfl | rfl
    · rw [text_of_kindOf (h a hA), text_of_kindOf (h b hB)]
      exact trivial
    · obtain ⟨x, hx⟩ := exists_number?_of_kindOf (h a hA)
      obtain ⟨y, hy⟩ := exists_number?_of_kindOf (h b hB)
      rw [relate_of_number? .less hx hy]
      exact trivial
  have hSort := yields_sort (R := fun _ _ : Value × α => True)
    ⟨fun _ => trivial, fun _ => trivial, fun _ _ => trivial⟩ hCompare
  cases hSorted : Value.sortByKey entries with
  | ok sorted => exact ⟨sorted, rfl, (hSort.of_ok hSorted).1⟩
  | error cause => exact (hSort.of_error hSorted).elim

end Keys

/-! ## Written forms -/

theorem forall_ok_of_mapM {ε α β : Type} {f : α → Except ε β} {items : List α} {results : List β}
    (h : items.mapM f = .ok results) : ∀ item ∈ items, ∃ b, f item = .ok b := by
  induction items generalizing results with
  | nil => exact nofun
  | cons item rest ih =>
    rw [List.mapM_cons] at h
    obtain ⟨b, hItem, hRest⟩ := bind_eq_ok h
    obtain ⟨bs, hMore, -⟩ := bind_eq_ok hRest
    exact List.forall_mem_cons.mpr ⟨⟨b, hItem⟩, ih hMore⟩

/-- Writing one entry takes a key with a form and a value with one. -/
theorem exists_of_entry {style : Style} {entry : Value × Except Obstacle (List Char)}
    {text : List Char} (h : style.entry entry = .ok text) :
    key? entry.1 ≠ none ∧ ∃ written, entry.2 = .ok written := by
  unfold Style.entry at h
  split at h
  · rename_i k hKey
    obtain ⟨written, hWritten, -⟩ := bind_eq_ok h
    refine ⟨fun hNone => ?_, written, hWritten⟩
    rw [hNone] at hKey
    cases hKey
  · cases h

theorem writeItems_eq_mapM (style : Style) (items : List Value) :
    writeItems style items = items.mapM (write style) := by
  induction items with
  | nil => rfl
  | cons item rest ih => rw [writeItems, ih, List.mapM_cons]

theorem exists_of_writeItems {style : Style} {items : List Value} {texts : List (List Char)}
    (h : writeItems style items = .ok texts) :
    ∀ item ∈ items, ∃ written, write style item = .ok written := by
  rw [writeItems_eq_mapM] at h
  exact forall_ok_of_mapM h

/-- Variables are written in the order of their keys. -/
theorem order_identity {α : Type} (entries : List (Value × α)) :
    Style.identity.order entries = (Value.sortByKey entries).mapError .noOrder := rfl

/-- A map with a written form: its entries can be sorted, and each has a key and a value with a
form. -/
theorem exists_of_write_map {entries : List (Value × Value)} {written : List Char}
    (hSound : ∀ entry ∈ entries, IsSound entry.1)
    (h : write Style.identity (.map entries) = .ok written) :
    (∀ a ∈ entries, ∀ b ∈ entries, kindOf a.1 = kindOf b.1)
      ∧ ∀ entry ∈ entries, key? entry.1 ≠ none
        ∧ ∃ text, write Style.identity entry.2 = .ok text := by
  rw [write, writeValues_eq_map] at h
  obtain ⟨ordered, hOrder, hRest⟩ := bind_eq_ok h
  obtain ⟨texts, hTexts, -⟩ := bind_eq_ok hRest
  have hSort : Value.sortByKey
      (entries.map fun entry => (entry.1, write Style.identity entry.2)) = .ok ordered := by
    rw [order_identity] at hOrder
    cases hSorted : Value.sortByKey
        (entries.map fun entry => (entry.1, write Style.identity entry.2)) with
    | ok found =>
      rw [hSorted] at hOrder
      exact congrArg Except.ok (Except.ok.inj hOrder)
    | error cause =>
      rw [hSorted] at hOrder
      cases hOrder
  have hKeys : ∀ entry ∈ entries.map fun entry => (entry.1, write Style.identity entry.2),
      entry.1.every isKnown = true :=
    List.forall_mem_map.mpr fun entry hMem => (hSound entry hMem).known
  obtain ⟨hPerm, hKinds⟩ := (yields_sortByKey hKeys).of_ok hSort
  refine ⟨fun a hA b hB => ?_, fun entry hMem => ?_⟩
  · exact hKinds _ (List.mem_map_of_mem hA) _ (List.mem_map_of_mem hB)
  · obtain ⟨text, hText⟩ := forall_ok_of_mapM hTexts _
      (hPerm.mem_iff.mpr (List.mem_map_of_mem hMem))
    exact exists_of_entry hText

/-- A map with a written form has the same one in every arrangement. -/
theorem write_map_eq_of_perm {xs ys : List (Value × Value)} {written : List Char}
    (hPerm : xs.Perm ys) (hKeyed : WellKeyed (.map xs))
    (h : write Style.identity (.map xs) = .ok written) :
    write Style.identity (.map ys) = .ok written := by
  obtain ⟨hApart, hSound, -⟩ := hKeyed.entries
  obtain ⟨hKinds, hForms⟩ := exists_of_write_map hSound h
  have hSort := sortByKey_eq_of_perm (α := Except Obstacle (List Char))
    (hPerm.map fun entry => (entry.1, write Style.identity entry.2))
    (List.pairwise_map.mpr hApart)
    (List.forall_mem_map.mpr fun entry hMem => (hSound entry hMem).ne_nan)
    (List.forall_mem_map.mpr fun entry hMem => (hForms entry hMem).1)
    (List.forall_mem_map.mpr fun a hA => List.forall_mem_map.mpr fun b hB => hKinds a hA b hB)
  rw [write, writeValues_eq_map, order_identity] at h ⊢
  rw [← hSort]
  exact h

/-- Whether a value has a written form with sorted keys: in each map in it, at any level, the keys
are all texts, all numbers, or one null. -/
inductive HasForm : Value → Prop where
  | leaf {v : Value} (hList : ∀ items, v ≠ .list items) (hTuple : ∀ items, v ≠ .tuple items)
      (hMap : ∀ entries, v ≠ .map entries) : HasForm v
  | list {items : List Value} (h : ∀ item ∈ items, HasForm item) : HasForm (.list items)
  | tuple {items : List Value} (h : ∀ item ∈ items, HasForm item) : HasForm (.tuple items)
  | map {entries : List (Value × Value)}
      (hKeys : (∀ entry ∈ entries, kindOf entry.1 = .text)
        ∨ (∀ entry ∈ entries, kindOf entry.1 = .number) ∨ ∃ v, entries = [(.null, v)])
      (hValues : ∀ entry ∈ entries, HasForm entry.2) : HasForm (.map entries)

theorem hasForm_of_write {v : Value} {written : List Char} (hKeyed : WellKeyed v)
    (h : write Style.identity v = .ok written) : HasForm v := by
  induction hKeyed generalizing written with
  | leaf hList hTuple hMap => exact .leaf hList hTuple hMap
  | list _ ih =>
    rw [write] at h
    obtain ⟨texts, hTexts, -⟩ := bind_eq_ok h
    refine .list fun item hMem => ?_
    obtain ⟨text, hText⟩ := exists_of_writeItems hTexts item hMem
    exact ih item hMem hText
  | tuple _ ih =>
    rw [write] at h
    obtain ⟨texts, hTexts, -⟩ := bind_eq_ok h
    refine .tuple fun item hMem => ?_
    obtain ⟨text, hText⟩ := exists_of_writeItems hTexts item hMem
    exact ih item hMem hText
  | map hApart hSound _ ih =>
    obtain ⟨hKinds, hForms⟩ := exists_of_write_map hSound h
    refine .map (keys_cases hApart (fun entry hMem => (hForms entry hMem).1) hKinds)
      fun entry hMem => ?_
    obtain ⟨text, hText⟩ := (hForms entry hMem).2
    exact ih entry hMem hText

theorem exists_mapM {ε α β : Type} {f : α → Except ε β} {items : List α}
    (h : ∀ item ∈ items, ∃ b, f item = .ok b) : ∃ results, items.mapM f = .ok results := by
  induction items with
  | nil => exact ⟨[], rfl⟩
  | cons item rest ih =>
    obtain ⟨⟨b, hItem⟩, hRest⟩ := List.forall_mem_cons.mp h
    obtain ⟨bs, hMore⟩ := ih hRest
    rw [List.mapM_cons, hItem]
    exact ⟨b :: bs, by rw [hMore]; rfl⟩

/-- Entries with such keys can be sorted, and each of the keys has a written form. -/
theorem exists_sortByKey_of_keys {α : Type} {entries : List (Value × α)}
    (h : (∀ entry ∈ entries, kindOf entry.1 = .text)
      ∨ (∀ entry ∈ entries, kindOf entry.1 = .number) ∨ ∃ a, entries = [(.null, a)]) :
    (∃ sorted, Value.sortByKey entries = .ok sorted ∧ sorted.Perm entries)
      ∧ ∀ entry ∈ entries, ∃ text, key? entry.1 = some text := by
  rcases h with hTexts | hNumbers | ⟨a, rfl⟩
  · refine ⟨exists_sortByKey_of_kind (.inl rfl) hTexts, fun entry hMem => ?_⟩
    rw [text_of_kindOf (hTexts entry hMem)]
    exact ⟨_, rfl⟩
  · refine ⟨exists_sortByKey_of_kind (.inr rfl) hNumbers, fun entry hMem => ?_⟩
    have hNumber := hNumbers entry hMem
    cases hKey : entry.1 <;> rw [hKey] at hNumber <;> first
      | exact ⟨_, rfl⟩
      | cases hNumber
  · exact ⟨⟨_, rfl, .refl _⟩, List.forall_mem_singleton.mpr ⟨_, rfl⟩⟩

theorem exists_write {v : Value} (h : HasForm v) :
    ∃ written, write Style.identity v = .ok written := by
  induction h with
  | @leaf v hList hTuple hMap =>
    cases v with
    | list items => exact absurd rfl (hList items)
    | tuple items => exact absurd rfl (hTuple items)
    | map entries => exact absurd rfl (hMap entries)
    | _ => exact ⟨_, rfl⟩
  | list _ ih =>
    obtain ⟨texts, hTexts⟩ := exists_mapM ih
    rw [write, writeItems_eq_mapM, hTexts]
    exact ⟨_, rfl⟩
  | tuple _ ih =>
    obtain ⟨texts, hTexts⟩ := exists_mapM ih
    rw [write, writeItems_eq_mapM, hTexts]
    exact ⟨_, rfl⟩
  | @map entries hKeys _ ih =>
    have hWritten : (∀ entry ∈ entries.map fun entry => (entry.1, write Style.identity entry.2),
          kindOf entry.1 = .text)
        ∨ (∀ entry ∈ entries.map fun entry => (entry.1, write Style.identity entry.2),
          kindOf entry.1 = .number)
        ∨ ∃ a, (entries.map fun entry => (entry.1, write Style.identity entry.2))
          = [(.null, a)] := by
      refine hKeys.imp List.forall_mem_map.mpr (Or.imp List.forall_mem_map.mpr ?_)
      rintro ⟨v, rfl⟩
      exact ⟨_, rfl⟩
    obtain ⟨⟨sorted, hSorted, hPerm⟩, hForms⟩ := exists_sortByKey_of_keys hWritten
    have hEntries : ∀ entry ∈ sorted, ∃ text, Style.identity.entry entry = .ok text := by
      intro entry hMem
      have hIn := hPerm.mem_iff.mp hMem
      obtain ⟨key, hKey⟩ := hForms entry hIn
      obtain ⟨old, hOld, rfl⟩ := List.mem_map.mp hIn
      obtain ⟨text, hText⟩ := ih old hOld
      rw [Style.entry, hKey]
      exact ⟨_, by rw [hText]; rfl⟩
    obtain ⟨texts, hTexts⟩ := exists_mapM hEntries
    rw [write, writeValues_eq_map, order_identity, hSorted]
    exact ⟨_, by simp only [Except.mapError, bind, Except.bind, hTexts]; rfl⟩

/-- The values that can be written with sorted keys. -/
theorem hasForm_iff {v : Value} (hKeyed : WellKeyed v) :
    HasForm v ↔ ∃ written, write Style.identity v = .ok written :=
  ⟨exists_write, fun ⟨_, hWritten⟩ => hasForm_of_write hKeyed hWritten⟩

/-- What is written for a value is written for it in every order of its entries. -/
theorem write_eq_of_reordered {v w : Value} {written : List Char} (h : Reordered v w)
    (hKeyed : WellKeyed v) (hWritten : write Style.identity v = .ok written) :
    write Style.identity w = .ok written := by
  induction h generalizing written with
  | refl _ => exact hWritten
  | trans hFirst _ ih ihMore => exact ihMore (hFirst.wellKeyed hKeyed) (ih hKeyed hWritten)
  | entries hPerm => exact write_map_eq_of_perm hPerm hKeyed hWritten
  | @item v w before after _ ih =>
    have hMem : v ∈ before ++ v :: after := List.mem_append_right _ List.mem_cons_self
    have hItems := hWritten
    rw [write] at hItems
    obtain ⟨texts, hTexts, -⟩ := bind_eq_ok hItems
    obtain ⟨text, hText⟩ := exists_of_writeItems hTexts v hMem
    rw [← hWritten, write, write, writeItems_append, writeItems_append, writeItems, writeItems,
      hText, ih (hKeyed.items v hMem) hText]
  | @component v w before after _ ih =>
    have hMem : v ∈ before ++ v :: after := List.mem_append_right _ List.mem_cons_self
    have hItems := hWritten
    rw [write] at hItems
    obtain ⟨texts, hTexts, -⟩ := bind_eq_ok hItems
    obtain ⟨text, hText⟩ := exists_of_writeItems hTexts v hMem
    rw [← hWritten, write, write, writeItems_append, writeItems_append, writeItems, writeItems,
      hText, ih (hKeyed.components v hMem) hText]
  | @value v w before after key _ ih =>
    have hMem : (key, v) ∈ before ++ (key, v) :: after :=
      List.mem_append_right _ List.mem_cons_self
    obtain ⟨-, hSound, hValues⟩ := hKeyed.entries
    obtain ⟨text, hText⟩ := ((exists_of_write_map hSound hWritten).2 _ hMem).2
    rw [← hWritten, write, write, writeValues_eq_map, writeValues_eq_map, List.map_append,
      List.map_append, List.map_cons, List.map_cons, hText, ih (hValues _ hMem) hText]

theorem yields_mapM {ε α β : Type} {f : α → Except ε β} {Q : ε → Prop} {items : List α}
    (h : ∀ item ∈ items, Yields (f item) (fun _ => True) Q) :
    Yields (items.mapM f) (fun _ => True) Q := by
  induction items with
  | nil => exact trivial
  | cons item rest ih =>
    obtain ⟨hItem, hRest⟩ := List.forall_mem_cons.mp h
    rw [List.mapM_cons]
    exact hItem.bind fun _ _ => (ih hRest).bind fun _ _ => trivial

theorem yields_entry {entry : Value × Except Obstacle (List Char)}
    (h : Yields entry.2 (fun _ => True) (· ≠ .noOrder .missing)) :
    Yields (Style.identity.entry entry) (fun _ => True) (· ≠ .noOrder .missing) := by
  cases hKey : key? entry.1 with
  | some k =>
    rw [Style.entry, hKey]
    exact h.bind fun _ _ => trivial
  | none =>
    rw [Style.entry, hKey]
    exact nofun

/-- An unbound name is not what keeps such a value from having a written form. -/
theorem yields_write {v : Value} (h : WellKeyed v) :
    Yields (write Style.identity v) (fun _ => True) (· ≠ .noOrder .missing) := by
  induction h with
  | @leaf v hList hTuple hMap =>
    cases v with
    | list items => exact absurd rfl (hList items)
    | tuple items => exact absurd rfl (hTuple items)
    | map entries => exact absurd rfl (hMap entries)
    | _ => exact trivial
  | list _ ih =>
    rw [write, writeItems_eq_mapM]
    exact (yields_mapM ih).bind fun _ _ => trivial
  | tuple _ ih =>
    rw [write, writeItems_eq_mapM]
    exact (yields_mapM ih).bind fun _ _ => trivial
  | @map entries _ hSound _ ih =>
    have hKeys : ∀ entry ∈ entries.map fun entry => (entry.1, write Style.identity entry.2),
        entry.1.every isKnown = true :=
      List.forall_mem_map.mpr fun entry hMem => (hSound entry hMem).known
    rw [write, writeValues_eq_map, order_identity]
    refine Yields.bind (P := fun ordered => ordered.Perm
      (entries.map fun entry => (entry.1, write Style.identity entry.2))) ?_ fun ordered hPerm => ?_
    · cases hSort : Value.sortByKey
          (entries.map fun entry => (entry.1, write Style.identity entry.2)) with
      | ok sorted => exact ((yields_sortByKey hKeys).of_ok hSort).1
      | error cause =>
        intro hSame
        exact (yields_sortByKey hKeys).of_error hSort (Obstacle.noOrder.inj hSame)
    · refine (yields_mapM fun entry hMem => yields_entry ?_).bind fun _ _ => trivial
      obtain ⟨old, hOld, rfl⟩ := List.mem_map.mp (hPerm.mem_iff.mp hMem)
      exact ih old hOld

end PageBlocks.Reordering
