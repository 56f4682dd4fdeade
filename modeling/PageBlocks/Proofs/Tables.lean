import PageBlocks.Value

/-!
# Looking up in tables

What looking up gives in tables that were changed, put on top of each other, or filled from a list,
how long tables get, and that no key is bound twice.
-/

set_option autoImplicit false

namespace PageBlocks.Table

universe u v

variable {κ : Type u} {α : Type v} [BEq κ]

/-! ## Single bindings -/

theorem length_insert_of_has {t : Table κ α} {key : κ} (value : α)
    (h : t.has key = true) : (t.insert key value).length = t.length := by
  induction t with
  | nil => cases h
  | cons binding rest ih =>
    obtain ⟨k, v⟩ := binding
    by_cases hKey : (k == key) = true
    · simp [insert, hKey]
    · have hRest : has rest key = true := by
        simpa [has, get?, hKey] using h
      simp [insert, hKey, ih hRest]

/-- A new key goes to the end. -/
theorem insert_eq_append {t : Table κ α} {key : κ} (value : α) (h : t.get? key = none) :
    t.insert key value = t ++ [(key, value)] := by
  induction t with
  | nil => rfl
  | cons binding rest ih =>
    obtain ⟨k, v⟩ := binding
    by_cases hKey : (k == key) = true
    · simp [get?, hKey] at h
    · have hRest : get? rest key = none := by
        simpa [get?, hKey] using h
      simp [insert, hKey, ih hRest]

theorem length_insert_of_get?_eq_none {t : Table κ α} {key : κ} (value : α)
    (h : t.get? key = none) : (t.insert key value).length = t.length + 1 := by
  rw [insert_eq_append value h, List.length_append, List.length_singleton]

/-- What is found in the first part of a table is found. -/
theorem get?_append_of_eq_some {t more : Table κ α} {key : κ} {value : α}
    (h : t.get? key = some value) : get? (t ++ more) key = some value := by
  induction t with
  | nil => cases h
  | cons binding rest ih =>
    rw [get?_cons] at h
    rw [List.cons_append, get?_cons]
    split at h
    · rwa [if_pos ‹_›]
    · rw [if_neg ‹_›]
      exact ih h

theorem get?_erase_of_ne [LawfulBEq κ] (t : Table κ α) {key other : κ}
    (h : other ≠ key) : (t.erase key).get? other = t.get? other := by
  induction t with
  | nil => rfl
  | cons binding rest ih =>
    obtain ⟨k, v⟩ := binding
    by_cases hk : k = key
    · subst hk
      simp [erase, get?, Ne.symm h]
    · simp [erase, get?, hk, ih]

/-! ## Many bindings -/

/-- What is put on top does not count where it binds nothing. -/
theorem get?_merge_of_not_mem [LawfulBEq κ] (t newer : Table κ α) {key : κ}
    (h : ∀ value, (key, value) ∉ newer) : (t.merge newer).get? key = t.get? key := by
  induction newer generalizing t with
  | nil => rfl
  | cons binding rest ih =>
    obtain ⟨k, v⟩ := binding
    have hNe : key ≠ k := by
      intro hSame
      exact h v (hSame ▸ List.mem_cons_self)
    have hRest : ∀ value, (key, value) ∉ rest :=
      fun value hMem => h value (List.mem_cons_of_mem _ hMem)
    exact (ih (t.insert k v) hRest).trans (get?_insert_of_ne t v hNe)

/-- What is put on top counts if all of its bindings of the key agree. -/
theorem get?_merge_of_mem [LawfulBEq κ] (t : Table κ α) {newer : Table κ α} {key : κ} {value : α}
    (hMem : (key, value) ∈ newer) (hAll : ∀ other, (key, other) ∈ newer → other = value) :
    (t.merge newer).get? key = some value := by
  induction newer generalizing t with
  | nil => cases hMem
  | cons binding rest ih =>
    obtain ⟨k, v⟩ := binding
    have hRest : ∀ other, (key, other) ∈ rest → other = value :=
      fun other h => hAll other (List.mem_cons_of_mem _ h)
    by_cases hLater : (key, value) ∈ rest
    · exact ih (t.insert k v) hLater hRest
    · have hHere : (key, value) = (k, v) := by
        rcases List.mem_cons.mp hMem with h | h
        · exact h
        · exact absurd h hLater
      cases hHere
      have hNone : ∀ other, (key, other) ∉ rest := by
        intro other h
        have hSame := hRest other h
        exact hLater (hSame ▸ h)
      exact (get?_merge_of_not_mem (t.insert key value) rest hNone).trans
        (get?_insert_self t key value)

theorem get?_ofBindings_of_mem [LawfulBEq κ] {bindings : List (κ × α)} {key : κ} {value : α}
    (hMem : (key, value) ∈ bindings) (hAll : ∀ other, (key, other) ∈ bindings → other = value) :
    (ofBindings bindings).get? key = some value :=
  get?_merge_of_mem [] hMem hAll

/-- A key that one of two tables binds is bound by the merged table. -/
theorem exists_get?_merge [LawfulBEq κ] {t newer : Table κ α} {key : κ}
    (h : (∃ value, t.get? key = some value) ∨ ∃ value, (key, value) ∈ newer) :
    ∃ value, (merge t newer).get? key = some value := by
  induction newer generalizing t with
  | nil => exact h.resolve_right fun ⟨_, hMem⟩ => List.not_mem_nil hMem
  | cons binding rest ih =>
    refine ih ?_
    by_cases hHere : key = binding.1
    · exact .inl ⟨binding.2, hHere ▸ get?_insert_self t binding.1 binding.2⟩
    · rcases h with ⟨value, hFound⟩ | ⟨value, hMem⟩
      · refine .inl ⟨value, ?_⟩
        rw [get?_insert_of_ne t binding.2 hHere]
        exact hFound
      · refine .inr ⟨value, (List.mem_cons.mp hMem).resolve_left ?_⟩
        rintro rfl
        exact hHere rfl

/-- What is found for a key is bound to a key that equals it. -/
theorem exists_beq_of_get?_eq_some {t : Table κ α} {key : κ} {value : α}
    (h : t.get? key = some value) : ∃ k, (k, value) ∈ t ∧ (k == key) = true := by
  induction t with
  | nil => cases h
  | cons binding rest ih =>
    rw [get?_cons] at h
    split at h
    · cases h
      exact ⟨binding.1, List.mem_cons_self, ‹_›⟩
    · obtain ⟨k, hMem, hSame⟩ := ih h
      exact ⟨k, List.mem_cons_of_mem _ hMem, hSame⟩

/-- What is found for a key is bound to some key. -/
theorem exists_mem_of_get?_eq_some {t : Table κ α} {key : κ} {value : α}
    (h : t.get? key = some value) : ∃ k, (k, value) ∈ t := by
  obtain ⟨k, hMem, -⟩ := exists_beq_of_get?_eq_some h
  exact ⟨k, hMem⟩

/-- A key that is found is bound somewhere. -/
theorem mem_of_get?_eq_some [LawfulBEq κ] {t : Table κ α} {key : κ} {value : α}
    (h : t.get? key = some value) : (key, value) ∈ t := by
  induction t with
  | nil => cases h
  | cons binding rest ih =>
    obtain ⟨k, v⟩ := binding
    by_cases hk : k = key
    · subst hk
      have hValue : v = value := by simpa [get?] using h
      rw [hValue]
      exact List.mem_cons_self
    · have hRest : get? rest key = some value := by simpa [get?, hk] using h
      exact List.mem_cons_of_mem _ (ih hRest)

/-- A key that is bound somewhere is found. -/
theorem exists_get?_of_mem [LawfulBEq κ] {t : Table κ α} {key : κ} {value : α}
    (h : (key, value) ∈ t) : ∃ found, t.get? key = some found := by
  induction t with
  | nil => cases h
  | cons binding rest ih =>
    obtain ⟨k, v⟩ := binding
    by_cases hk : k = key
    · exact ⟨v, by simp [get?, hk]⟩
    · rcases List.mem_cons.mp h with hHere | hRest
      · cases hHere
        exact absurd rfl hk
      · obtain ⟨found, hFound⟩ := ih hRest
        exact ⟨found, by simp [get?, hk, hFound]⟩

/-! ## What is in changed tables -/

/-- A key that is bound again keeps its form and takes the new value. -/
theorem mem_insert {t : Table κ α} {key : κ} {value : α} {entry : κ × α}
    (h : entry ∈ t.insert key value) :
    entry ∈ t ∨ entry.2 = value ∧ (entry.1 = key ∨ ∃ old, (entry.1, old) ∈ t) := by
  induction t with
  | nil =>
    rw [insert, List.mem_singleton] at h
    exact Or.inr ⟨congrArg Prod.snd h, Or.inl (congrArg Prod.fst h)⟩
  | cons binding rest ih =>
    obtain ⟨k, v⟩ := binding
    rw [insert] at h
    split at h
    · rcases List.mem_cons.mp h with rfl | hRest
      · exact Or.inr ⟨rfl, Or.inr ⟨v, List.mem_cons_self⟩⟩
      · exact Or.inl (List.mem_cons_of_mem _ hRest)
    · rcases List.mem_cons.mp h with rfl | hRest
      · exact Or.inl List.mem_cons_self
      · rcases ih hRest with hOld | ⟨hValue, hKey | ⟨old, hOld⟩⟩
        · exact Or.inl (List.mem_cons_of_mem _ hOld)
        · exact Or.inr ⟨hValue, Or.inl hKey⟩
        · exact Or.inr ⟨hValue, Or.inr ⟨old, List.mem_cons_of_mem _ hOld⟩⟩

theorem eq_or_mem_of_mem_insert [LawfulBEq κ] {t : Table κ α} {key : κ} {value : α}
    {entry : κ × α} (h : entry ∈ t.insert key value) : entry = (key, value) ∨ entry ∈ t := by
  induction t with
  | nil => exact Or.inl (List.mem_singleton.mp h)
  | cons binding rest ih =>
    obtain ⟨k, v⟩ := binding
    rw [insert] at h
    split at h
    · rename_i hSame
      rcases List.mem_cons.mp h with rfl | hRest
      · exact Or.inl (by rw [eq_of_beq hSame])
      · exact Or.inr (List.mem_cons_of_mem _ hRest)
    · rcases List.mem_cons.mp h with rfl | hRest
      · exact Or.inr List.mem_cons_self
      · exact (ih hRest).imp_right (List.mem_cons_of_mem _)

theorem mem_of_mem_erase {t : Table κ α} {key : κ} {entry : κ × α} (h : entry ∈ t.erase key) :
    entry ∈ t := by
  induction t with
  | nil => cases h
  | cons binding rest ih =>
    obtain ⟨k, v⟩ := binding
    rw [erase] at h
    split at h
    · exact List.mem_cons_of_mem _ h
    · rcases List.mem_cons.mp h with rfl | hRest
      · exact List.mem_cons_self
      · exact List.mem_cons_of_mem _ (ih hRest)

theorem mem_or_mem_of_mem_merge [LawfulBEq κ] {t newer : Table κ α} {entry : κ × α}
    (h : entry ∈ t.merge newer) : entry ∈ t ∨ entry ∈ newer := by
  induction newer generalizing t with
  | nil => exact Or.inl h
  | cons binding rest ih =>
    rcases ih (t := t.insert binding.1 binding.2) h with hOld | hRest
    · rcases eq_or_mem_of_mem_insert hOld with rfl | hMem
      · exact Or.inr List.mem_cons_self
      · exact Or.inl hMem
    · exact Or.inr (List.mem_cons_of_mem _ hRest)

/-- What holds of the keys and of the values of two tables holds of both together. -/
theorem forall_mem_merge {P : κ → Prop} {Q : α → Prop} {t newer : Table κ α}
    (h : ∀ entry ∈ t, P entry.1 ∧ Q entry.2) (hNewer : ∀ entry ∈ newer, P entry.1 ∧ Q entry.2) :
    ∀ entry ∈ t.merge newer, P entry.1 ∧ Q entry.2 := by
  induction newer generalizing t with
  | nil => exact h
  | cons binding rest ih =>
    refine ih (t := t.insert binding.1 binding.2) (fun entry hMem => ?_)
      (fun entry hMem => hNewer entry (List.mem_cons_of_mem _ hMem))
    obtain ⟨hKey, hValue⟩ := hNewer binding List.mem_cons_self
    rcases mem_insert hMem with hOld | ⟨hSame, hEqual | ⟨old, hOld⟩⟩
    · exact h entry hOld
    · exact ⟨hEqual ▸ hKey, hSame ▸ hValue⟩
    · exact ⟨(h _ hOld).1, hSame ▸ hValue⟩

/-! ## Tables without double keys -/

section Keys

variable {t : Table κ α} {key : κ}

/-- Removing a key that is not there changes nothing. -/
theorem erase_of_get?_eq_none (h : t.get? key = none) : t.erase key = t := by
  induction t with
  | nil => rfl
  | cons binding rest ih =>
    obtain ⟨k, v⟩ := binding
    rw [get?_cons] at h
    rw [erase]
    split at h
    · cases h
    · rename_i hHere
      rw [if_neg hHere, ih h]

theorem nodup_keys_erase (h : t.keys.Nodup) : (t.erase key).keys.Nodup := by
  induction t with
  | nil => exact h
  | cons binding rest ih =>
    obtain ⟨k, v⟩ := binding
    obtain ⟨hNew, hRest⟩ := List.nodup_cons.mp h
    rw [erase]
    split
    · exact hRest
    · refine List.nodup_cons.mpr ⟨fun hMem => hNew ?_, ih hRest⟩
      obtain ⟨entry, hEntry, hKey⟩ := List.mem_map.mp hMem
      exact List.mem_map.mpr ⟨entry, mem_of_mem_erase hEntry, hKey⟩

variable [LawfulBEq κ]

theorem get?_eq_none_iff : t.get? key = none ↔ key ∉ t.keys := by
  induction t with
  | nil => exact ⟨fun _ => List.not_mem_nil, fun _ => rfl⟩
  | cons binding rest ih =>
    obtain ⟨k, v⟩ := binding
    by_cases hHere : k = key
    · simp [get?_cons, keys, hHere]
    · simp [get?_cons, keys, hHere, Ne.symm hHere, ih]

/-- A key that was bound once is gone after it was removed. -/
theorem get?_erase_self (h : t.keys.Nodup) : (t.erase key).get? key = none := by
  induction t with
  | nil => rfl
  | cons binding rest ih =>
    obtain ⟨k, v⟩ := binding
    obtain ⟨hNew, hRest⟩ := List.nodup_cons.mp h
    rw [erase]
    split
    · rename_i hHere
      exact get?_eq_none_iff.mpr (beq_iff_eq.mp hHere ▸ hNew)
    · rename_i hHere
      rw [get?_cons, if_neg hHere]
      exact ih hRest

theorem nodup_keys_insert (h : t.keys.Nodup) (value : α) : (t.insert key value).keys.Nodup := by
  induction t with
  | nil => exact List.nodup_cons.mpr ⟨List.not_mem_nil, List.nodup_nil⟩
  | cons binding rest ih =>
    obtain ⟨k, v⟩ := binding
    obtain ⟨hNew, hRest⟩ := List.nodup_cons.mp h
    rw [insert]
    split
    · exact List.nodup_cons.mpr ⟨hNew, hRest⟩
    · rename_i hHere
      have hOther : k ≠ key := fun hSame => hHere (beq_iff_eq.mpr hSame)
      refine List.nodup_cons.mpr ⟨get?_eq_none_iff.mp ?_, ih hRest⟩
      rw [get?_insert_of_ne rest value hOther]
      exact get?_eq_none_iff.mpr hNew

end Keys

/-! ## Texts as keys -/

/-- A value equals a text only if it is that text. -/
theorem beq_text_iff {v : Value} {s : String} : (v == .text s) = true ↔ v = .text s := by
  have hSame : (v == .text s) = Value.same v (.text s) := rfl
  rw [hSame]
  cases v <;> simp [Value.same, Value.sameNumber, Value.number?]

theorem get?_insert_text {β : Type} (t : Table Value β) (key other : String) (value : β) :
    (t.insert (.text key) value).get? (.text other)
      = if key = other then some value else t.get? (.text other) := by
  have hTexts : ∀ a b : String, ((Value.text a == .text b) = true) ↔ a = b := by
    intro a b
    rw [beq_text_iff, Value.text.injEq]
  induction t with
  | nil =>
    by_cases hKey : key = other <;> simp [insert, get?, hTexts, hKey]
  | cons binding rest ih =>
    obtain ⟨k, v⟩ := binding
    by_cases hHere : (k == .text key) = true
    · have hk : k = .text key := beq_text_iff.mp hHere
      subst hk
      by_cases hKey : key = other <;> simp [insert, get?, hTexts, hKey]
    · by_cases hOther : (k == .text other) = true
      · have hk : k = .text other := beq_text_iff.mp hOther
        subst hk
        have hNe : ¬ key = other := fun h => hHere ((hTexts _ _).mpr h.symm)
        simp [insert, get?, hHere, hOther, hNe]
      · simp [insert, get?, hHere, hOther, ih]

/-- Binding a key leaves other texts alone. -/
theorem get?_insert_of_ne_text {β : Type} (t : Table Value β) {key : Value} {name : String}
    (value : β) (h : key ≠ .text name) :
    (t.insert key value).get? (.text name) = t.get? (.text name) := by
  have hOther : ¬(key == .text name) = true := fun hSame => h (beq_text_iff.mp hSame)
  induction t with
  | nil => exact if_neg hOther
  | cons binding rest ih =>
    obtain ⟨k, v⟩ := binding
    rw [insert]
    split
    · rename_i hHere
      have hOld : ¬(k == .text name) = true := by
        intro hSame
        obtain rfl := beq_text_iff.mp hSame
        -- a text equals nothing but itself, from either side
        cases key with
        | text s =>
          have hTexts : (name == s) = true := hHere
          exact h (congrArg Value.text (beq_iff_eq.mp hTexts).symm)
        | _ => cases hHere
      rw [get?_cons, get?_cons, if_neg hOld, if_neg hOld]
    · rw [get?_cons, get?_cons, ih]

/-- What is put on top counts for a text that it binds. -/
theorem get?_merge_text {β : Type} (t : Table Value β) {newer : Table Value β}
    (hOnce : newer.keys.Nodup) (name : String) :
    (t.merge newer).get? (.text name) = (newer.get? (.text name)).or (t.get? (.text name)) := by
  induction newer generalizing t with
  | nil => rfl
  | cons binding rest ih =>
    obtain ⟨k, v⟩ := binding
    obtain ⟨hNew, hRest⟩ := List.nodup_cons.mp hOnce
    have hMerged : (t.merge ((k, v) :: rest)).get? (.text name)
        = (Table.get? rest (.text name)).or ((t.insert k v).get? (.text name)) :=
      ih (t.insert k v) hRest
    rw [hMerged, get?_cons]
    by_cases hHere : k = .text name
    · subst hHere
      have hGone : Table.get? rest (.text name) = none := by
        cases hFound : Table.get? rest (.text name) with
        | none => rfl
        | some value =>
          obtain ⟨k, hMem, hSame⟩ := exists_beq_of_get?_eq_some hFound
          obtain rfl := beq_text_iff.mp hSame
          exact absurd (List.mem_map_of_mem hMem) hNew
      rw [hGone, get?_insert_text, if_pos rfl, if_pos (beq_text_iff.mpr rfl)]
      rfl
    · rw [get?_insert_of_ne_text t v hHere,
        if_neg fun hSame => hHere (beq_text_iff.mp hSame)]

/-- Bindings of texts that are kept are found as before. -/
theorem get?_filter_text {β : Type} {keep : Value × β → Bool} (t : Table Value β) {name : String}
    (h : ∀ value, keep (.text name, value) = true) :
    Table.get? (t.filter keep) (.text name) = t.get? (.text name) := by
  induction t with
  | nil => rfl
  | cons binding rest ih =>
    obtain ⟨k, v⟩ := binding
    by_cases hHere : k = .text name
    · subst hHere
      rw [List.filter_cons_of_pos (h v), get?_cons, get?_cons, ih]
    · have hOther : ¬(k == .text name) = true := fun hSame => hHere (beq_text_iff.mp hSame)
      rw [get?_cons, if_neg hOther, ← ih, List.filter_cons]
      split
      · rw [get?_cons, if_neg hOther]
      · rfl

end PageBlocks.Table
