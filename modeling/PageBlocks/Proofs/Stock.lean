import PageBlocks.Cache.Request
import PageBlocks.Proofs.Stamps
import PageBlocks.Proofs.Storage
import PageBlocks.Proofs.Utf8

/-!
# What texts a cache holds

The texts in a cache with the spots where they are, live or not (`Stored`). Looking up, deleting and
clearing only take texts away, and storing adds the stored text in the spot of its key
(`ends_put`). A lookup gives one of these texts (`stored_of_entry`).
-/

set_option autoImplicit false

namespace PageBlocks.Storage

open PageBlocks.Cache PageBlocks.Publishing PageBlocks.Running PageBlocks.Text PageBlocks.Time

/-- A text that is in a spot of a cache, in an entry that is live or not. -/
def Stored (cache : Ref) (v : Vault) (spot text : String) : Prop :=
  match cache with
  | .shelf n => ∃ entry : Entry, (spot, entry) ∈ v.shelf n ∧ Utf8.toText? entry.payload = some text
  | .folder name => ∃ data : Bytes, (spot, FolderItem.file data) ∈ v.folder name
    ∧ Utf8.toText? (data.drop Folder.headerWidth) = some text

/-- Whether a cache holds nothing that it did not hold. -/
def Sheds (cache : Ref) (v v' : Vault) : Prop :=
  ∀ spot text, Stored cache v' spot text → Stored cache v spot text

section Stored

variable {cache : Ref} {v v' : Vault} {key spot text : String}

theorem reading_of_entry (h : entry cache key v = .ok (some text)) :
    reading cache key v = .ok text := by
  unfold entry at h
  cases hReading : reading cache key v with
  | ok content =>
    rw [hReading] at h
    cases h
    rfl
  | error fault =>
    rw [hReading] at h
    cases fault <;> cases h

/-- A lookup gives a text that is in the cache. -/
theorem stored_of_entry (h : entry cache key v = .ok (some text)) :
    Stored cache v (slot cache key) text := by
  have hReading := reading_of_entry h
  cases cache with
  | shelf n =>
    simp only [reading, Shelf.get] at hReading
    split at hReading
    · rename_i found hFound
      split at hReading
      · cases hReading
      · refine ⟨found, Table.mem_of_get?_eq_some hFound, ?_⟩
        simp only [Entry.content] at hReading
        split at hReading
        · split at hReading
          · rename_i content hContent
            cases hReading
            exact hContent
          · cases hReading
        · cases hReading
    · cases hReading
  | folder name =>
    simp only [reading, Folder.get] at hReading
    obtain ⟨found, hFile, hReading⟩ := bind_eq_ok hReading
    cases found with
    | none => cases hReading
    | some data =>
      refine ⟨data, ?_, ?_⟩
      · simp only [Folder.file?] at hFile
        split at hFile
        · rename_i found hFound
          cases hFile
          exact Table.mem_of_get?_eq_some hFound
        · cases hFile
        · cases hFile
      · simp only [Folder.content] at hReading
        split at hReading
        · cases hReading
        · split at hReading
          · cases hReading
          · cases hReading
          · split at hReading
            · cases hReading
            · split at hReading
              · split at hReading
                · rename_i content hContent
                  cases hReading
                  exact hContent
                · cases hReading
              · cases hReading

/-! ## Taking texts away -/

theorem stored_setShelf {n : Nat} {shelf : Shelf}
    (h : Stored (.shelf n) (v.setShelf n shelf) spot text) :
    Stored (.shelf n) v spot text
      ∨ ∃ entry : Entry, (spot, entry) ∈ shelf ∧ Utf8.toText? entry.payload = some text := by
  obtain ⟨entry, hMem, hText⟩ := h
  rw [shelf_setShelf] at hMem
  split at hMem
  · exact .inr ⟨entry, hMem, hText⟩
  · exact .inl ⟨entry, hMem, hText⟩

theorem stored_setFolder {name : String} {folder : Folder}
    (h : Stored (.folder name) (v.setFolder name folder) spot text) :
    ∃ data : Bytes, (spot, FolderItem.file data) ∈ folder
      ∧ Utf8.toText? (data.drop Folder.headerWidth) = some text := by
  obtain ⟨data, hMem, hText⟩ := h
  rw [folder_setFolder] at hMem
  exact ⟨data, hMem, hText⟩

theorem sheds_afterFetch (cache : Ref) (key : String) (v : Vault) :
    Sheds cache v (afterFetch cache key v) := by
  intro spot text h
  cases cache with
  | shelf n =>
    rcases stored_setShelf h with hOld | ⟨entry, hMem, hText⟩
    · exact hOld
    · refine ⟨entry, ?_, hText⟩
      unfold Shelf.get at hMem
      split at hMem
      · split at hMem
        · exact Table.mem_of_mem_erase hMem
        · exact hMem
      · exact hMem
  | folder name => exact h

/-- Deleting an entry takes texts away at most. -/
theorem ends_delete (cache : Ref) (key : String) (v : Vault) :
    Ends (cache.delete key) v (fun _ => Sheds cache v) (Sheds cache v) := by
  cases cache with
  | shelf n =>
    unfold Ref.delete
    refine ends_get_bind (ends_set ?_)
    intro spot text h
    rcases stored_setShelf h with hOld | ⟨entry, hMem, hText⟩
    · exact hOld
    · exact ⟨entry, Table.mem_of_mem_erase hMem, hText⟩
  | folder name =>
    have hRun := run_delete_folder name key v
    unfold Folder.delete at hRun
    rw [run_remove] at hRun
    split at hRun
    · refine ends_of_run_error hRun fun spot text h => ?_
      exact stored_setFolder h
    · refine ends_of_run hRun fun spot text h => ?_
      obtain ⟨data, hMem, hText⟩ := stored_setFolder h
      exact ⟨data, Table.mem_of_mem_erase hMem, hText⟩

/-- So does removing all entries. -/
theorem ends_clear (cache : Ref) (v : Vault) :
    Ends cache.clear v (fun _ => Sheds cache v) (Sheds cache v) := by
  unfold Ref.clear
  refine ends_modify fun spot text h => ?_
  cases cache with
  | shelf n =>
    rcases stored_setShelf h with hOld | ⟨entry, hMem, -⟩
    · exact hOld
    · exact absurd hMem List.not_mem_nil
  | folder name =>
    obtain ⟨data, hMem, -⟩ := stored_setFolder h
    have hKept := (List.mem_filter.mp hMem).2
    exact absurd hKept (by simp)

/-! ## Storing -/

theorem drop_fileBytes {expiry : Instant} (content : String) (h : expiry.inCalendar = true) :
    (Folder.fileBytes expiry content).drop Folder.headerWidth = Utf8.ofText content := by
  have hHeader : (Folder.asciiBytes (Stamp.write expiry)
      ++ Folder.asciiBytes (Digest.Crc32.text (Utf8.ofText content))).length
        = Folder.headerWidth := by
    rw [List.length_append, Folder.asciiBytes, Folder.asciiBytes, List.length_map, List.length_map,
      Stamp.length_write h, Digest.Crc32.length_text, Folder.headerWidth]
  unfold Folder.fileBytes
  dsimp only
  rw [← hHeader, List.drop_left]

theorem inCalendar_of_expiryInstant {now expiry : Instant} {lifetime : Value}
    (h : expiryInstant now lifetime = .ok expiry) : expiry.inCalendar = true := by
  unfold expiryInstant at h
  obtain ⟨micros, -, h⟩ := bind_eq_ok h
  dsimp only at h
  split at h
  · rename_i hBounds
    cases h
    exact hBounds.2.2
  · cases h

/-- Whether a cache holds what it held, and at most one text more. -/
def Gains (cache : Ref) (key content : String) (v v' : Vault) : Prop :=
  ∀ spot text, Stored cache v' spot text →
    Stored cache v spot text ∨ spot = slot cache key ∧ text = content

/-- Storing adds the stored text at most, in the spot of its key. -/
theorem ends_put (cache : Ref) (key content : String) (lifetime : Option Value) (v : Vault) :
    Ends (cache.put key content lifetime) v (fun _ => Gains cache key content v)
      (Gains cache key content v) := by
  cases cache with
  | shelf n =>
    unfold Ref.put
    refine ends_bind_of_run (run_note _ v) (ends_get_bind ?_)
    refine ends_lift_bind (fun shelf hShelf => ends_set fun spot text h => ?_)
      fun spot text => .inl
    rcases stored_setShelf h with hOld | ⟨entry, hMem, hText⟩
    · exact .inl hOld
    · unfold Shelf.put at hShelf
      obtain ⟨second, -, hShelf⟩ := bind_eq_ok hShelf
      cases hShelf
      rcases Table.eq_or_mem_of_mem_insert hMem with hNew | hOld
      · cases hNew
        have hSame : some content = some text := (Utf8.toText?_ofText content).symm.trans hText
        exact .inr ⟨rfl, (Option.some.inj hSame).symm⟩
      · exact .inl ⟨entry, hOld, hText⟩
  | folder name =>
    have hRun := run_put_inFolder name key content lifetime v
    rcases run_put_cases true v.now content (lifetime.getD defaultLifetime)
        (get?_hiddenName_unusedDraw (v.folder name) key) with
      ⟨fault, hPut⟩ | ⟨expiry, hExpiry, -, hPut⟩
    · rw [hPut] at hRun
      exact ends_of_run_error hRun fun spot text h => .inl (stored_setFolder h)
    · rw [hPut] at hRun
      refine ends_of_run hRun fun spot text h => ?_
      obtain ⟨data, hMem, hText⟩ := stored_setFolder h
      rcases Table.eq_or_mem_of_mem_insert hMem with hNew | hOld
      · cases hNew
        rw [drop_fileBytes content (inCalendar_of_expiryInstant hExpiry),
          Utf8.toText?_ofText] at hText
        exact .inr ⟨rfl, (Option.some.inj hText).symm⟩
      · exact .inl ⟨data, hOld, hText⟩

end Stored

end PageBlocks.Storage
