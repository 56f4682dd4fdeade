import PageBlocks.Page.Identity
import PageBlocks.Proofs.Json.Reordering

/-!
# The order of entries in the identity of a page

Variables that have a JSON form with sorted keys give a page one identity, in whatever order their
entries were bound at any level. Variables without such a form become part of the identity by
the quoted forms of their values, with the names in order; entries within a value are quoted as they
were bound. Main statement: exactly which reorderings leave the text of a page the same
(`pageText_eq_iff_of_reordered`). Reordering keeps the length of a quoted form, so that quoted lists
of reordered values are the same only value by value.
-/

set_option autoImplicit false

namespace PageBlocks.Reordering

open PageBlocks.Json PageBlocks.Running PageBlocks.Sorting

/-! ## Quoted forms -/

theorem quotedItems_eq_map (items : List Value) :
    Value.quotedItems items = items.map Value.quotedChars := by
  induction items with
  | nil => rfl
  | cons item rest ih => rw [Value.quotedItems, ih, List.map_cons]

/-- The quoted form of an entry. -/
def quotedEntry (entry : Value × Value) : List Char :=
  entry.1.quotedChars ++ ':' :: ' ' :: entry.2.quotedChars

theorem quotedEntries_eq_map (entries : List (Value × Value)) :
    Value.quotedEntries entries = entries.map quotedEntry := by
  induction entries with
  | nil => rfl
  | cons entry rest ih =>
    rw [Value.quotedEntries, ih, List.map_cons]
    rfl

/-- Parts with commas between them and a character at each end. -/
def enclosed (first last : Char) (parts : List (List Char)) : List Char :=
  first :: Value.commaSeparated parts ++ [last]

theorem quotedChars_list (items : List Value) :
    (Value.list items).quotedChars = enclosed '[' ']' (items.map Value.quotedChars) :=
  congrArg (enclosed '[' ']') (quotedItems_eq_map items)

theorem quotedChars_map (entries : List (Value × Value)) :
    (Value.map entries).quotedChars = enclosed '\x7b' '\x7d' (entries.map quotedEntry) :=
  congrArg (enclosed '\x7b' '\x7d') (quotedEntries_eq_map entries)

/-- A tuple of more than one component is quoted without a comma at its end. -/
theorem quotedChars_tuple {items : List Value} (h : 2 ≤ items.length) :
    (Value.tuple items).quotedChars = enclosed '(' ')' (items.map Value.quotedChars) := by
  match items, h with
  | first :: second :: rest, _ =>
    exact congrArg (enclosed '(' ')') (quotedItems_eq_map (first :: second :: rest))

theorem quotedChars_singleton (item : Value) :
    (Value.tuple [item]).quotedChars = '(' :: item.quotedChars ++ [',', ')'] := rfl

theorem commaSeparated_cons_cons (part next : List Char) (rest : List (List Char)) :
    Value.commaSeparated (part :: next :: rest)
      = part ++ ',' :: ' ' :: Value.commaSeparated (next :: rest) := rfl

theorem length_commaSeparated (parts : List (List Char)) :
    (Value.commaSeparated parts).length
      = (parts.map List.length).sum + 2 * (parts.length - 1) := by
  induction parts with
  | nil => rfl
  | cons part rest ih =>
    cases rest with
    | nil => simp [Value.commaSeparated]
    | cons next rest =>
      rw [commaSeparated_cons_cons, List.length_append, List.length_cons, List.length_cons, ih]
      simp only [List.map_cons, List.sum_cons, List.length_cons]
      omega

/-- The length of enclosed parts depends on the lengths of the parts alone. -/
theorem length_enclosed_eq {first last : Char} {parts others : List (List Char)}
    (h : (parts.map List.length).Perm (others.map List.length)) :
    (enclosed first last parts).length = (enclosed first last others).length := by
  have hLength := h.length_eq
  rw [List.length_map, List.length_map] at hLength
  simp only [enclosed, List.cons_append, List.length_cons, List.length_append,
    length_commaSeparated, h.sum_eq, hLength]

/-- Parts of the same lengths with commas between them are the same only part by part. -/
theorem commaSeparated_inj {parts others : List (List Char)}
    (h : List.Forall₂ (fun part other => part.length = other.length) parts others)
    (hSame : Value.commaSeparated parts = Value.commaSeparated others) : parts = others := by
  induction h with
  | nil => rfl
  | cons hLength hRest ih =>
    cases hRest with
    | nil => exact congrArg (fun part => [part]) hSame
    | cons hNext hMore =>
      rw [commaSeparated_cons_cons, commaSeparated_cons_cons] at hSame
      obtain ⟨rfl, hBehind⟩ := List.append_inj hSame hLength
      rw [ih (List.cons.inj (List.cons.inj hBehind).2).2]

theorem enclosed_inj {first last : Char} {parts others : List (List Char)}
    (h : List.Forall₂ (fun part other => part.length = other.length) parts others)
    (hSame : enclosed first last parts = enclosed first last others) : parts = others := by
  refine commaSeparated_inj h ?_
  have hBehind := (List.cons.inj hSame).2
  exact List.append_cancel_right hBehind

/-- Reordering entries keeps the length of the quoted form. -/
theorem length_quotedChars_eq {v w : Value} (h : Reordered v w) :
    v.quotedChars.length = w.quotedChars.length := by
  -- what replaces a part of a row has the same length, so the lengths of the parts stay
  have hLengths : ∀ {α : Type} (f : α → List Char) (before after : List α) {a b : α},
      (f a).length = (f b).length →
        (((before ++ a :: after).map f).map List.length).Perm
          (((before ++ b :: after).map f).map List.length) := by
    intro α f before after a b hSame
    simp only [List.map_append, List.map_cons, hSame]
    exact .refl _
  induction h with
  | refl _ => rfl
  | trans _ _ ih ihMore => exact ih.trans ihMore
  | entries hPerm =>
    rw [quotedChars_map, quotedChars_map, length_enclosed_eq ((hPerm.map _).map _)]
  | item before after _ ih =>
    rw [quotedChars_list, quotedChars_list, length_enclosed_eq (hLengths _ before after ih)]
  | @component v w before after _ ih =>
    by_cases hAlone : before = [] ∧ after = []
    · obtain ⟨rfl, rfl⟩ := hAlone
      rw [List.nil_append, List.nil_append, quotedChars_singleton, quotedChars_singleton]
      simp only [List.cons_append, List.length_cons, List.length_append, ih]
    · have hLong : ∀ u : Value, 2 ≤ (before ++ u :: after).length := by
        intro u
        rw [List.length_append, List.length_cons]
        cases before with
        | cons _ _ => simp only [List.length_cons]; omega
        | nil =>
          cases after with
          | nil => exact absurd ⟨rfl, rfl⟩ hAlone
          | cons _ _ => simp only [List.length_cons]; omega
      rw [quotedChars_tuple (hLong v), quotedChars_tuple (hLong w),
        length_enclosed_eq (hLengths _ before after ih)]
  | @value v w before after key _ ih =>
    have hEntry : (quotedEntry (key, v)).length = (quotedEntry (key, w)).length := by
      simp only [quotedEntry, List.length_append, List.length_cons, ih]
    rw [quotedChars_map, quotedChars_map, length_enclosed_eq (hLengths _ before after hEntry)]

/-! ## Entries side by side -/

theorem Reordered.exists_map {v w : Value} {xs : List (Value × Value)} (h : Reordered v w)
    (hMap : v = .map xs) : ∃ ys, w = .map ys := by
  induction h generalizing xs with
  | refl _ => exact ⟨xs, hMap⟩
  | trans _ _ ih ihMore =>
    obtain ⟨ys, hFirst⟩ := ih hMap
    exact ihMore hFirst
  | entries _ => exact ⟨_, rfl⟩
  | item => cases hMap
  | component => cases hMap
  | value => exact ⟨_, rfl⟩

/-- Whether two entries have one key and reordered values. -/
def SameKey (a b : Value × Value) : Prop := a.1 = b.1 ∧ Reordered a.2 b.2

/-- The entries of a reordered map are those of the map in another arrangement, with their values
reordered. -/
theorem exists_aligned {v w : Value} (h : Reordered v w) {xs ys : List (Value × Value)}
    (hv : v = .map xs) (hw : w = .map ys) : ∃ zs, xs.Perm zs ∧ List.Forall₂ SameKey zs ys := by
  have hRefl : ∀ zs : List (Value × Value), List.Forall₂ SameKey zs zs :=
    fun zs => List.forall₂_same.mpr fun _ _ => ⟨rfl, .refl _⟩
  induction h generalizing xs ys with
  | refl _ =>
    cases hv
    cases hw
    exact ⟨xs, .refl _, hRefl xs⟩
  | trans hFirst _ ih ihMore =>
    obtain ⟨us, rfl⟩ := hFirst.exists_map hv
    obtain ⟨zs, hPerm, hSame⟩ := ih hv rfl
    obtain ⟨zs', hPerm', hSame'⟩ := ihMore rfl hw
    -- the second arrangement can be taken before the first values are reordered
    have hBoth : Relation.Comp (List.Forall₂ SameKey) List.Perm zs zs' := ⟨us, hSame, hPerm'⟩
    rw [List.forall₂_comp_perm_eq_perm_comp_forall₂] at hBoth
    obtain ⟨ts, hArranged, hValues⟩ := hBoth
    refine ⟨ts, hPerm.trans hArranged, ?_⟩
    have hTrans : ∀ {as bs cs : List (Value × Value)}, List.Forall₂ SameKey as bs →
        List.Forall₂ SameKey bs cs → List.Forall₂ SameKey as cs := by
      intro as bs cs hab hbc
      induction hab generalizing cs with
      | nil =>
        cases hbc
        exact .nil
      | cons hHead _ ihTail =>
        cases hbc with
        | cons hHead' hTail' =>
          exact .cons ⟨hHead.1.trans hHead'.1, hHead.2.trans hHead'.2⟩ (ihTail hTail')
    exact hTrans hValues hSame'
  | entries hPerm =>
    cases hv
    cases hw
    exact ⟨_, hPerm, hRefl _⟩
  | item => cases hv
  | component => cases hv
  | value before after key hValue _ =>
    cases hv
    cases hw
    refine ⟨_, .refl _, ?_⟩
    exact List.rel_append (hRefl before) (.cons ⟨rfl, hValue⟩ (hRefl after))

/-- Names with two values each, instead of names with values next to a reordered map. -/
theorem exists_paired {bindings : List (String × Value)} {ys : List (Value × Value)}
    (h : List.Forall₂ SameKey (textKeyed bindings) ys) :
    ∃ pairs : List (String × Value × Value), bindings = pairs.map (fun pair => (pair.1, pair.2.1))
      ∧ ys = textKeyed (pairs.map fun pair => (pair.1, pair.2.2))
      ∧ ∀ pair ∈ pairs, Reordered pair.2.1 pair.2.2 := by
  induction bindings generalizing ys with
  | nil =>
    cases h
    exact ⟨[], rfl, rfl, nofun⟩
  | cons binding rest ih =>
    cases h with
    | @cons _ y _ ys hHead hTail =>
      obtain ⟨pairs, rfl, rfl, hPairs⟩ := ih hTail
      obtain ⟨name, v⟩ := binding
      obtain ⟨key, w⟩ := y
      obtain ⟨rfl, hValue⟩ := hHead
      exact ⟨(name, v, w) :: pairs, rfl, rfl, List.forall_mem_cons.mpr ⟨hValue, hPairs⟩⟩

/-! ## Variables -/

/-- The quoted form of a name with its value. -/
def quotedBinding (name : String) (v : Value) : List Char :=
  (Value.tuple [.text name, v]).quotedChars

theorem quotedBinding_eq (name : String) (v : Value) :
    quotedBinding name v
      = '(' :: (Value.text name).quotedChars ++ ',' :: ' ' :: v.quotedChars ++ [')'] := rfl

theorem quotedBinding_inj {name : String} {v w : Value} :
    quotedBinding name v = quotedBinding name w ↔ v.quotedChars = w.quotedChars := by
  rw [quotedBinding_eq, quotedBinding_eq, List.append_cancel_right_eq,
    List.append_cancel_left_eq, List.cons.injEq, List.cons.injEq]
  simp only [true_and]

/-- Variables are quoted in the order of their names, whatever their values are. -/
theorem quotedVariables_eq {α : Type} (g : α → Value) (pairs : List (String × α)) :
    ∃ sorted : List (String × α), sorted.Perm pairs ∧ Ascending smaller sorted
      ∧ Identity.quotedVariables (textKeyed (pairs.map fun pair => (pair.1, g pair.2)))
        = .ok (enclosed '[' ']' (sorted.map fun pair => quotedBinding pair.1 (g pair.2))) := by
  obtain ⟨sorted, hSort, hPerm, hAscending⟩ := exists_sortByKey g pairs
  refine ⟨sorted, hPerm, hAscending, ?_⟩
  have hKeyed : textKeyed (pairs.map fun pair => (pair.1, g pair.2))
      = pairs.map fun pair => (.text pair.1, g pair.2) := by
    rw [textKeyed, List.map_map]
    rfl
  have hQuoted : (Value.list ((sorted.map fun pair => (Value.text pair.1, g pair.2)).map
      fun entry => .tuple [entry.1, entry.2])).quotedChars
        = enclosed '[' ']' (sorted.map fun pair => quotedBinding pair.1 (g pair.2)) := by
    rw [quotedChars_list, List.map_map, List.map_map]
    rfl
  rw [Identity.quotedVariables, hKeyed, hSort]
  exact congrArg Except.ok hQuoted

/-- The names of well keyed variables are distinct. -/
theorem nodup_names {bindings : List (String × Value)}
    (h : (textKeyed bindings).Pairwise fun a b => AreDistinct a.1 b.1) :
    (bindings.map Prod.fst).Nodup := by
  rw [textKeyed, List.pairwise_map] at h
  refine List.pairwise_map.mpr (h.imp fun hDistinct hSame => ?_)
  have hFalse := hDistinct.1
  rw [hSame, Table.beq_text_iff.mpr rfl] at hFalse
  cases hFalse

/-- Variables with distinct names are quoted alike in every arrangement. -/
theorem quotedVariables_eq_of_perm {bindings : List (String × Value)}
    {vars : List (Value × Value)} (hPerm : (textKeyed bindings).Perm vars)
    (hKeyed : WellKeyed (.map (textKeyed bindings))) :
    Identity.quotedVariables (textKeyed bindings) = Identity.quotedVariables vars := by
  obtain ⟨hApart, hSound, -⟩ := hKeyed.entries
  have hText : ∀ entry ∈ textKeyed bindings, ∃ name, entry.1 = .text name :=
    List.forall_mem_map.mpr fun binding _ => ⟨binding.1, rfl⟩
  have hSort := sortByKey_eq_of_perm hPerm hApart (fun entry hMem => (hSound entry hMem).ne_nan)
    (fun entry hMem => by
      obtain ⟨name, hName⟩ := hText entry hMem
      rw [hName]
      exact nofun)
    (fun a hA b hB => by
      obtain ⟨name, hName⟩ := hText a hA
      obtain ⟨name', hName'⟩ := hText b hB
      rw [hName, hName']
      rfl)
  rw [Identity.quotedVariables, Identity.quotedVariables, hSort]

/-- Variables without a JSON form become part of the identity by their quoted forms. -/
theorem variablesText_of_error {vars : Bindings} (hKeyed : WellKeyed (.map vars))
    (h : ∀ written, write Style.identity (.map vars) ≠ .ok written) :
    Identity.variablesText vars = Identity.quotedVariables vars := by
  have hYields := yields_write hKeyed
  unfold Identity.variablesText
  split
  · rename_i written hWritten
    exact absurd hWritten (h written)
  · rename_i hMissing
    exact absurd rfl (hYields.of_error hMissing)
  · rfl

/-- Variables have a written form if their values have. -/
theorem hasForm_textKeyed_iff {bindings : List (String × Value)} :
    HasForm (.map (textKeyed bindings)) ↔ ∀ binding ∈ bindings, HasForm binding.2 := by
  constructor
  · intro h
    cases h with
    | leaf _ _ hMap => exact absurd rfl (hMap _)
    | map _ hValues => exact fun binding hMem => hValues _ (List.mem_map_of_mem hMem)
  · intro h
    exact .map (.inl (List.forall_mem_map.mpr fun _ _ => rfl)) (List.forall_mem_map.mpr h)

/-- Values side by side are those that two maps bind to one name. -/
theorem forall_mem_pairs_iff {bindings : List (String × Value)}
    {pairs : List (String × Value × Value)} (hDistinct : (pairs.map Prod.fst).Nodup)
    (hPerm : bindings.Perm (pairs.map fun pair => (pair.1, pair.2.1))) {P : Value → Value → Prop} :
    (∀ pair ∈ pairs, P pair.2.1 pair.2.2)
      ↔ ∀ name v w, (name, v) ∈ bindings →
        (.text name, w) ∈ textKeyed (pairs.map fun pair => (pair.1, pair.2.2)) → P v w := by
  constructor
  · intro h name v w hv hw
    obtain ⟨pair, hPair, hFirst⟩ := List.mem_map.mp (hPerm.mem_iff.mp hv)
    obtain ⟨binding, hBinding, hKey⟩ := List.mem_map.mp hw
    obtain ⟨pair', hPair', rfl⟩ := List.mem_map.mp hBinding
    obtain ⟨rfl, rfl⟩ := Prod.mk.inj hFirst
    obtain ⟨hName, rfl⟩ := Prod.mk.inj hKey
    obtain rfl : pair' = pair :=
      List.inj_on_of_nodup_map hDistinct hPair' hPair (Value.text.inj hName)
    exact h pair' hPair
  · intro h pair hPair
    refine h pair.1 _ _ (hPerm.mem_iff.mpr (List.mem_map_of_mem hPair)) ?_
    exact List.mem_map_of_mem
      (f := fun binding : String × Value => (Value.text binding.1, binding.2))
      (List.mem_map_of_mem hPair)

/-- Bindings side by side with reordered values are quoted alike exactly if all values are. -/
theorem enclosed_quotedBindings_iff {pairs : List (String × Value × Value)}
    (h : ∀ pair ∈ pairs, Reordered pair.2.1 pair.2.2) :
    enclosed '[' ']' (pairs.map fun pair => quotedBinding pair.1 pair.2.1)
        = enclosed '[' ']' (pairs.map fun pair => quotedBinding pair.1 pair.2.2)
      ↔ ∀ pair ∈ pairs, pair.2.1.quotedChars = pair.2.2.quotedChars := by
  have hLengths : List.Forall₂ (fun part other : List Char => part.length = other.length)
      (pairs.map fun pair => quotedBinding pair.1 pair.2.1)
      (pairs.map fun pair => quotedBinding pair.1 pair.2.2) := by
    rw [List.forall₂_map_left_iff, List.forall₂_map_right_iff, List.forall₂_same]
    intro pair hPair
    simp only [quotedBinding_eq, List.length_append, List.length_cons,
      length_quotedChars_eq (h pair hPair)]
  constructor
  · intro hSame pair hPair
    exact quotedBinding_inj.mp (List.map_inj_left.mp (enclosed_inj hLengths hSame) pair hPair)
  · intro hValues
    refine congrArg (enclosed '[' ']') (List.map_congr_left fun pair hPair => ?_)
    exact quotedBinding_inj.mpr (hValues pair hPair)

/-- How reordering the entries of variables shows in their text. -/
theorem variablesText_eq_iff {bindings : List (String × Value)} {vars : Bindings}
    (hKeyed : WellKeyed (.map (textKeyed bindings)))
    (hReordered : Reordered (.map (textKeyed bindings)) (.map vars)) :
    ∃ text text',
      Identity.variablesText (textKeyed bindings) = .ok text
      ∧ Identity.variablesText vars = .ok text'
      ∧ (text = text' ↔ (∀ binding ∈ bindings, HasForm binding.2)
          ∨ ∀ name v w, (name, v) ∈ bindings → (.text name, w) ∈ vars →
            v.quotedChars = w.quotedChars) := by
  rw [← hasForm_textKeyed_iff, hasForm_iff hKeyed]
  by_cases hJson : ∃ written, write Style.identity (.map (textKeyed bindings)) = .ok written
  · obtain ⟨written, hWritten⟩ := hJson
    have hWritten' := write_eq_of_reordered hReordered hKeyed hWritten
    refine ⟨written, written, ?_, ?_, iff_of_true rfl (.inl ⟨written, hWritten⟩)⟩
    · rw [Identity.variablesText, hWritten]
    · rw [Identity.variablesText, hWritten']
  · have hKeyed' := hReordered.wellKeyed hKeyed
    have hNone : ∀ written, write Style.identity (.map vars) ≠ .ok written :=
      fun written hWritten =>
        hJson ⟨written, write_eq_of_reordered hReordered.symm hKeyed' hWritten⟩
    -- the values of each name are laid side by side
    obtain ⟨zs, hPerm, hSame⟩ := exists_aligned hReordered rfl rfl
    obtain ⟨arranged, rfl, hArranged⟩ := exists_textKeyed_of_perm hPerm
    obtain ⟨pairs, rfl, rfl, hPairs⟩ := exists_paired hSame
    have hDistinct : (pairs.map Prod.fst).Nodup := by
      have hNames := (hArranged.map Prod.fst).nodup_iff.mp (nodup_names hKeyed.entries.1)
      rw [List.map_map] at hNames
      exact hNames
    obtain ⟨sorted, hSorted, hAscending, hQuoted⟩ := quotedVariables_eq Prod.fst pairs
    obtain ⟨sorted', hSorted', hAscending', hQuoted'⟩ := quotedVariables_eq Prod.snd pairs
    obtain rfl : sorted = sorted' :=
      eq_of_ascending (hSorted.trans hSorted'.symm) ((hSorted.map _).nodup_iff.mpr hDistinct)
        hAscending hAscending'
    have hText := variablesText_of_error hKeyed fun written hWritten => hJson ⟨written, hWritten⟩
    rw [quotedVariables_eq_of_perm hPerm hKeyed, hQuoted] at hText
    have hText' := (variablesText_of_error hKeyed' hNone).trans hQuoted'
    refine ⟨_, _, hText, hText', ?_⟩
    rw [enclosed_quotedBindings_iff fun pair hMem => hPairs pair (hSorted.mem_iff.mp hMem),
      ← forall_mem_pairs_iff hDistinct hArranged]
    simp only [hSorted.mem_iff, hJson, false_or]

/-- Which reorderings of the entries of its variables leave a page its identity: all of them if each
value has a written form, with the keys of every map in it all texts, all numbers or one null; and
otherwise those that leave the quoted form of the value of each name the same. So entries at the top
may stand in any order, and entries inside a value may as long as every value has a written form. -/
theorem pageText_eq_iff_of_reordered (path : String) {bindings : List (String × Value)}
    {vars : Bindings} (hKeyed : WellKeyed (.map (textKeyed bindings)))
    (hReordered : Reordered (.map (textKeyed bindings)) (.map vars)) :
    ∃ text text',
      Identity.pageText path (textKeyed bindings) = .ok text
      ∧ Identity.pageText path vars = .ok text'
      ∧ Identity.page path (textKeyed bindings) = .ok (Identity.digest text)
      ∧ Identity.page path vars = .ok (Identity.digest text')
      ∧ (text = text' ↔ (∀ binding ∈ bindings, HasForm binding.2)
          ∨ ∀ name v w, (name, v) ∈ bindings → (.text name, w) ∈ vars →
            v.quotedChars = w.quotedChars) := by
  obtain ⟨text, text', hText, hText', hIff⟩ := variablesText_eq_iff hKeyed hReordered
  have hPage : ∀ {vars : Bindings} {text : List Char}, Identity.variablesText vars = .ok text →
      Identity.pageText path vars = .ok (path.toList ++ text) := by
    intro vars text hVars
    rw [Identity.pageText, hVars]
    rfl
  refine ⟨_, _, hPage hText, hPage hText', ?_, ?_, ?_⟩
  · rw [Identity.page, hPage hText]
    rfl
  · rw [Identity.page, hPage hText']
    rfl
  · rw [List.append_cancel_left_eq, hIff]

/-! ## Keys without a JSON form -/

/-- A variable that is a map with a tuple and a text as keys, and a number. -/
def priced : List (String × Value) :=
  [("prices", .map [(.tuple [.int 1], .int 1), (.text "x", .int 2)]), ("a", .int 0)]

/-- The same variables with the entries of the map turned round. -/
def pricedTurned : List (String × Value) :=
  [("prices", .map [(.text "x", .int 2), (.tuple [.int 1], .int 1)]), ("a", .int 0)]

theorem wellKeyed_priced : WellKeyed (.map (textKeyed priced)) := by
  have hSound : ∀ key ∈ [Value.tuple [.int 1], .text "x", .text "prices", .text "a"],
      IsSound key := by
    simp only [List.forall_mem_cons]
    exact ⟨⟨nofun, by decide⟩, ⟨nofun, by decide⟩, ⟨nofun, by decide⟩, ⟨nofun, by decide⟩, nofun⟩
  simp only [List.forall_mem_cons] at hSound
  obtain ⟨hTuple, hText, hPrices, hOther, -⟩ := hSound
  have hNumber : ∀ n, WellKeyed (.int n) := fun _ => .leaf nofun nofun nofun
  have hMap : WellKeyed (.map [(.tuple [.int 1], .int 1), (.text "x", .int 2)]) := by
    refine .map (List.pairwise_pair.mpr ⟨by decide, by decide⟩) ?_ ?_
    · simp only [List.forall_mem_cons]
      exact ⟨hTuple, hText, nofun⟩
    · simp only [List.forall_mem_cons]
      exact ⟨hNumber 1, hNumber 2, nofun⟩
  refine .map (List.pairwise_pair.mpr ⟨by decide, by decide⟩) ?_ ?_
  · simp only [priced, textKeyed, List.map_cons, List.map_nil, List.forall_mem_cons]
    exact ⟨hPrices, hOther, nofun⟩
  · simp only [priced, textKeyed, List.map_cons, List.map_nil, List.forall_mem_cons]
    exact ⟨hMap, hNumber 0, nofun⟩

theorem reordered_priced : Reordered (.map (textKeyed priced)) (.map (textKeyed pricedTurned)) :=
  .value [] [(.text "a", .int 0)] (.text "prices") (.entries (.swap _ _ _))

/-- Variables without a JSON form give a page one identity in any order of the names. -/
theorem pageText_of_priced :
    ∃ text, Identity.pageText "/v/page" (textKeyed priced) = .ok text
      ∧ Identity.pageText "/v/page" (textKeyed priced.reverse) = .ok text := by
  have hTop : Reordered (.map (textKeyed priced)) (.map (textKeyed priced.reverse)) :=
    .entries (.swap _ _ _)
  obtain ⟨text, text', hText, hText', -, -, hIff⟩ :=
    pageText_eq_iff_of_reordered "/v/page" wellKeyed_priced hTop
  have hSame : text = text' := by
    refine hIff.mpr (.inr fun name v w hv hw => ?_)
    simp only [priced, textKeyed, List.reverse_cons, List.reverse_nil, List.nil_append,
      List.cons_append, List.map_cons, List.map_nil, List.mem_cons, List.not_mem_nil, or_false,
      Prod.mk.injEq, Value.text.injEq] at hv hw
    -- each name is bound once
    rcases hv with ⟨rfl, rfl⟩ | ⟨rfl, rfl⟩ <;> rcases hw with ⟨hName, rfl⟩ | ⟨hName, rfl⟩ <;> first
      | rfl
      | exact absurd hName (by decide)
  exact ⟨text, hText, hSame ▸ hText'⟩

/-- They give it another one if the entries of the map are bound in another order. -/
theorem page_ne_of_turned :
    WellKeyed (.map (textKeyed priced))
      ∧ Reordered (.map (textKeyed priced)) (.map (textKeyed pricedTurned))
      ∧ Identity.page "/v/page" (textKeyed priced)
        ≠ Identity.page "/v/page" (textKeyed pricedTurned) := by
  refine ⟨wellKeyed_priced, reordered_priced, fun hSame => ?_⟩
  have hIds : (Identity.page "/v/page" (textKeyed priced)).toOption
      ≠ (Identity.page "/v/page" (textKeyed pricedTurned)).toOption := by
    unfold Identity.page
    rw [Identity.digest_eq]
    decide +kernel
  exact hIds (congrArg Except.toOption hSame)

end PageBlocks.Reordering
