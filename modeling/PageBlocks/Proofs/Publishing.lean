import PageBlocks.Cache.Vault
import PageBlocks.Proofs.Running
import PageBlocks.Proofs.Tables

/-!
# Files on their way into a folder

A file is written under a hidden name before it takes the place of an entry. While it is there,
every other name stands for what it stood for (`get?_insert_hidden`). Storing a content ends with
the complete file in the place of its key, or fails with the folder as it was (`run_put_of_expiry`).
-/

set_option autoImplicit false

namespace PageBlocks.Publishing

open PageBlocks.Cache PageBlocks.Running PageBlocks.Text PageBlocks.Time

variable {folder : Folder} {allowed : Bool} {key draw content name : String}

/-! ## Hidden names -/

theorem length_hiddenName (key draw : String) :
    (Folder.hiddenName key draw).length = (Folder.fileName key).length + draw.length + 6 := by
  simp only [Folder.hiddenName, String.length_append]
  show 1 + (Folder.fileName key).length + 1 + draw.length + 4 = _
  omega

theorem length_fileName (key : String) : (Folder.fileName key).length = 40 := by
  rw [Folder.fileName, Digest.Sha1.ofText, String.length_ofList, Digest.Sha1.length_hex]

/-- No entry has a hidden name. -/
theorem fileName_ne_hiddenName (other key draw : String) :
    Folder.fileName other ≠ Folder.hiddenName key draw := by
  intro h
  have hLength := congrArg String.length h
  rw [length_hiddenName, length_fileName, length_fileName] at hLength
  omega

/-- A name in a folder is at most as long as the longest one. -/
theorem length_le_of_mem {item : String × FolderItem} (h : item ∈ folder) :
    item.1.length ≤ folder.foldr (fun item most => max item.1.length most) 0 := by
  induction folder with
  | nil => cases h
  | cons first rest ih =>
    rw [List.foldr_cons]
    rcases List.mem_cons.mp h with rfl | hRest
    · exact Nat.le_max_left _ _
    · exact Nat.le_trans (ih hRest) (Nat.le_max_right _ _)

/-- There is always a hidden name that is not in use. -/
theorem get?_hiddenName_unusedDraw (folder : Folder) (key : String) :
    Table.get? folder (Folder.hiddenName key folder.unusedDraw) = none := by
  cases hFound : Table.get? folder (Folder.hiddenName key folder.unusedDraw) with
  | none => rfl
  | some item =>
    have hBound := length_le_of_mem (Table.mem_of_get?_eq_some hFound)
    rw [length_hiddenName, Folder.unusedDraw, String.length_ofList, List.length_replicate]
      at hBound
    omega

/-! ## The steps of storing -/

/-- A file that is being written leaves what other names stand for. -/
theorem get?_insert_hidden (folder : Folder) (other key draw : String) (item : FolderItem) :
    Table.get? (folder.insert (Folder.hiddenName key draw) item) (Folder.fileName other)
      = Table.get? folder (Folder.fileName other) :=
  Table.get?_insert_of_ne folder item (fileName_ne_hiddenName other key draw)

/-- Removing a name that was new takes a folder back to what it was. -/
theorem erase_insert_of_unused (item : FolderItem) (h : Table.get? folder name = none) :
    Table.erase (folder.insert name item) name = folder := by
  rw [Table.insert_eq_append item h]
  induction folder with
  | nil => simp [Table.erase]
  | cons first rest ih =>
    obtain ⟨other, value⟩ := first
    rw [Table.get?_cons] at h
    split at h
    · cases h
    · rename_i hOther
      rw [List.cons_append, Table.erase, if_neg hOther, ih h]

/-- Removing a name, which a directory refuses. -/
theorem run_remove (name : String) (folder : Folder) :
    (Folder.remove name).run folder
      = if Table.get? folder name = some .directory then (.error (.host .isDirectory), folder)
        else (.ok (), folder.erase name) := by
  unfold Folder.remove
  rw [run_bind_of_ok (run_get folder)]
  cases Table.get? folder name with
  | none => rfl
  | some item => cases item <;> rfl

theorem run_rename (allowed : Bool) {source : String} (target : String) {item : FolderItem}
    (h : Table.get? folder source = some item) :
    (Folder.rename allowed source target).run folder
      = match Folder.refusal allowed folder target with
        | some fault => (.error fault, folder)
        | none => (.ok (), Table.insert (folder.erase source) target item) := by
  unfold Folder.rename
  rw [run_bind_of_ok (run_get folder), h]
  cases Folder.refusal allowed folder target <;> rfl

/-! ## Storing as a whole -/

variable {now expiry : Instant} {lifetime : Value}

theorem run_put_of_expiry_error {fault : Fault} (h : expiryInstant now lifetime = .error fault) :
    (Folder.put allowed draw now key content lifetime).run folder = (.error fault, folder) := by
  unfold Folder.put
  rw [h]
  rfl

/-- Storing puts the complete file in its place, or leaves the folder as it was if the file is
refused its name. -/
theorem run_put_of_expiry (allowed : Bool) (content : String)
    (hExpiry : expiryInstant now lifetime = .ok expiry)
    (hUnused : Table.get? folder (Folder.hiddenName key draw) = none) :
    (Folder.put allowed draw now key content lifetime).run folder
      = match Folder.refusal allowed folder (Folder.fileName key) with
        | some fault => (.error fault, folder)
        | none => (.ok (), Table.insert folder (Folder.fileName key)
            (.file (Folder.fileBytes expiry content))) := by
  have hThere := Table.get?_insert_self folder (Folder.hiddenName key draw)
    (.file (Folder.fileBytes expiry content))
  have hBack := erase_insert_of_unused (.file (Folder.fileBytes expiry content)) hUnused
  have hRefusal : Folder.refusal allowed (folder.insert (Folder.hiddenName key draw)
      (.file (Folder.fileBytes expiry content))) (Folder.fileName key)
        = Folder.refusal allowed folder (Folder.fileName key) := by
    simp only [Folder.refusal, get?_insert_hidden]
  have hRename := run_rename allowed (Folder.fileName key) hThere
  rw [hRefusal, hBack] at hRename
  have hRemove := run_remove (Folder.hiddenName key draw)
    (folder.insert (Folder.hiddenName key draw) (.file (Folder.fileBytes expiry content)))
  rw [hThere, if_neg nofun, hBack] at hRemove
  have hDated : (liftM (expiryInstant now lifetime) : Folder.Change Instant).run folder
      = (.ok expiry, folder) := by
    rw [hExpiry]
    rfl
  unfold Folder.put
  rw [run_bind_of_ok hDated, run_bind_of_ok (run_modify _ folder), run_tryCatch, hRename]
  cases Folder.refusal allowed folder (Folder.fileName key) with
  | none => rfl
  | some fault => exact run_bind_of_ok hRemove _

/-- The ways that storing can go. -/
theorem run_put_cases (allowed : Bool) (now : Instant) (content : String) (lifetime : Value)
    (hUnused : Table.get? folder (Folder.hiddenName key draw) = none) :
    (∃ fault, (Folder.put allowed draw now key content lifetime).run folder
        = (.error fault, folder))
      ∨ ∃ expiry, expiryInstant now lifetime = .ok expiry
        ∧ Folder.refusal allowed folder (Folder.fileName key) = none
        ∧ (Folder.put allowed draw now key content lifetime).run folder
          = (.ok (), Table.insert folder (Folder.fileName key)
              (.file (Folder.fileBytes expiry content))) := by
  cases hExpiry : expiryInstant now lifetime with
  | error fault => exact .inl ⟨fault, run_put_of_expiry_error hExpiry⟩
  | ok expiry =>
    rw [run_put_of_expiry allowed content hExpiry hUnused]
    cases Folder.refusal allowed folder (Folder.fileName key) with
    | some fault => exact .inl ⟨fault, rfl⟩
    | none => exact .inr ⟨expiry, rfl, rfl, rfl⟩

end PageBlocks.Publishing
