import PageBlocks.Proofs.Backends.Following
import PageBlocks.Proofs.Backends.Reading
import PageBlocks.Proofs.Policy.Shelves

/-!
# A register in a folder

A folder keeps the text of a key in a file whose header names the instant at which the lifetime of
the text is over. Its stamp is read back as that instant and its checksum is right, so the content
of the file is the text as long as it is live (`content_fileBytes`). Files are left where they are
when that time has come. Keys share no file if the digest tells them apart.
-/

set_option autoImplicit false

namespace PageBlocks.Backends

open PageBlocks.Cache PageBlocks.Policy PageBlocks.Publishing PageBlocks.Running PageBlocks.Storage
  PageBlocks.Text PageBlocks.Time

/-! ## Files -/

/-- ASCII characters are read back from their bytes. -/
theorem ascii?_asciiBytes {cs : List Char} (h : ∀ c ∈ cs, c.toNat < 128) :
    Folder.ascii? (Folder.asciiBytes cs) = some cs := by
  have hByte (c : Char) (hMem : c ∈ cs) : (UInt8.ofNat c.toNat).toNat = c.toNat := by
    have hSmall := h c hMem
    rw [UInt8.toNat_ofNat']
    exact Nat.mod_eq_of_lt (by omega)
  have hAll : (Folder.asciiBytes cs).all (fun b => b.toNat < 128) = true := by
    rw [List.all_eq_true]
    intro b hMem
    obtain ⟨c, hChar, rfl⟩ := List.mem_map.mp hMem
    rw [hByte c hChar]
    exact decide_eq_true (h c hChar)
  have hBack : (Folder.asciiBytes cs).map (fun b => Char.ofNat b.toNat) = cs := by
    rw [Folder.asciiBytes, List.map_map]
    refine (List.map_congr_left fun c hMem => ?_).trans (List.map_id cs)
    show Char.ofNat (UInt8.ofNat c.toNat).toNat = c
    rw [hByte c hMem, Char.ofNat_toNat]
  rw [Folder.ascii?, if_pos hAll, hBack]

variable {expiry now : Instant} {key content : String}

theorem length_stampBytes (h : expiry.inCalendar = true) :
    (Folder.asciiBytes (Stamp.write expiry)).length = Stamp.width := by
  rw [Folder.asciiBytes, List.length_map, Stamp.length_write h]

theorem take_stamp_fileBytes (h : expiry.inCalendar = true) :
    (Folder.fileBytes expiry content).take Stamp.width
      = Folder.asciiBytes (Stamp.write expiry) := by
  unfold Folder.fileBytes
  dsimp only
  rw [List.append_assoc, List.take_left' (length_stampBytes h)]

/-- The stamp of a file is read back. -/
theorem readStamp_fileBytes (h : expiry.inCalendar = true) :
    Folder.readStamp ((Folder.fileBytes expiry content).take Stamp.width)
      = some (.instant expiry) := by
  rw [take_stamp_fileBytes h, Folder.readStamp,
    ascii?_asciiBytes fun _ => Stamp.toNat_lt_of_mem_write]
  exact Stamp.read?_write h

/-- The checksum of a file is that of its payload. -/
theorem checksum_fileBytes (h : expiry.inCalendar = true) :
    ((Folder.fileBytes expiry content).take Folder.headerWidth).drop Stamp.width
      = Folder.asciiBytes (Digest.Crc32.text (Utf8.ofText content)) := by
  have hHeader : (Folder.asciiBytes (Stamp.write expiry)
      ++ Folder.asciiBytes (Digest.Crc32.text (Utf8.ofText content))).length
        = Folder.headerWidth := by
    rw [List.length_append, length_stampBytes h, Folder.asciiBytes, List.length_map,
      Digest.Crc32.length_text, Folder.headerWidth]
  unfold Folder.fileBytes
  dsimp only
  rw [List.take_left' hHeader, List.drop_left' (length_stampBytes h)]

/-- The content of a file is the text until it expires. -/
theorem content_fileBytes (h : expiry.inCalendar = true) :
    Folder.content now key (Folder.fileBytes expiry content)
      = if expiry.micros ≤ now.micros then .error (.cache (.text key) .expired)
        else .ok content := by
  have hLength : ¬ (Folder.fileBytes expiry content).length < Folder.headerWidth := by
    unfold Folder.fileBytes
    dsimp only
    rw [List.length_append, List.length_append, length_stampBytes h, Folder.asciiBytes,
      List.length_map, Digest.Crc32.length_text, Folder.headerWidth]
    omega
  have hText : Utf8.toText? (Utf8.ofText content) = some content := Utf8.toText?_ofText content
  unfold Folder.content
  rw [if_neg hLength, readStamp_fileBytes h]
  dsimp only
  rw [drop_fileBytes content h, checksum_fileBytes h, if_pos rfl, hText]

/-! ## Expiry -/

/-- When an entry with a lifetime of whole seconds expires, at whatever microsecond it is stored. No
lifetime between two instants of the calendar is too long to be counted in days. -/
theorem expiryInstant_int {now : Instant} {seconds : Int} (hNow : now.inCalendar = true)
    (hExpiry : (now.addMicros (seconds * Instant.perSecond)).inCalendar = true) :
    expiryInstant now (.int seconds) = .ok (now.addMicros (seconds * Instant.perSecond)) := by
  have hDays : -(longestDays : Int) ≤ Int.fdiv (seconds * Instant.perSecond) Instant.perDay
      ∧ Int.fdiv (seconds * Instant.perSecond) Instant.perDay ≤ longestDays := by
    simp only [Instant.inCalendar, Bool.and_eq_true] at hNow hExpiry
    have hFirst := of_decide_eq_true hNow.1
    have hLast := of_decide_eq_true hNow.2
    have hSoonest := of_decide_eq_true hExpiry.1
    have hLatest := of_decide_eq_true hExpiry.2
    simp only [Instant.first, Instant.pastLast, Instant.addMicros, Instant.epochDay,
      Instant.perDay, Instant.perSecond] at hFirst hLast hSoonest hLatest
    rw [Int.fdiv_eq_ediv_of_nonneg _ (by decide)]
    simp only [longestDays, Instant.perSecond, Instant.perDay]
    omega
  show (if _ then _ else _) = _
  rw [if_pos ⟨hDays.1, hDays.2, hExpiry⟩]
  rfl

/-! ## The register -/

/-- The file of a key in a folder. -/
inductive InFolder (r : Register) (key : String) : Option FolderItem → Prop where
  | kept {content : String} {limit : Int} (hText : r.texts key = some (content, limit))
    (hLimit : InYears limit) :
    InFolder r key (some (.file (Folder.fileBytes (Instant.ofSeconds limit) content)))
  | gone (h : r.texts key = none) : InFolder r key none

/-- The digest tells keys of a kind apart. -/
def DigestedApart (IsKey : String → Prop) : Prop :=
  ∀ a b, IsKey a → IsKey b → Folder.fileName a = Folder.fileName b → a = b

/-- A folder holds what a register holds, for the keys of a kind. -/
structure Filed (name : String) (IsKey : String → Prop) (r : Register) (v : Vault) : Prop where
  now : v.now = Instant.ofSeconds r.now
  names : (v.folder name).keys.Nodup
  files : ∀ item ∈ v.folder name, item.2 ≠ .directory
  entry (key : String) (hKey : IsKey key) :
    InFolder r key ((v.folder name).get? (Folder.fileName key))

theorem InFolder.write_of_ne {r : Register} {other : String} {found : Option (String × Int)}
    {item : Option FolderItem} (h : InFolder r key item) (hNe : key ≠ other) :
    InFolder (r.write other found) key item := by
  have hSame := r.texts_write_of_ne other found hNe
  cases h with
  | kept hText hLimit => exact .kept (hSame.trans hText) hLimit
  | gone hNone => exact .gone (hSame.trans hNone)

theorem micros_le_iff {a b : Int} :
    (Instant.ofSeconds a).micros ≤ (Instant.ofSeconds b).micros ↔ a ≤ b := by
  simp only [Instant.ofSeconds, Instant.perSecond]
  omega

namespace Filed

variable {name : String} {IsKey : String → Prop} {r : Register} {v : Vault}

/-- A folder of another content in the place of one that holds what a register holds. -/
theorem setFolder {r' : Register} {folder : Folder} (hNow : v.now = Instant.ofSeconds r'.now)
    (hNames : folder.keys.Nodup) (hFiles : ∀ item ∈ folder, item.2 ≠ .directory)
    (hEntry : ∀ key, IsKey key → InFolder r' key (folder.get? (Folder.fileName key))) :
    Filed name IsKey r' (v.setFolder name folder) := by
  refine ⟨hNow, ?_, ?_, ?_⟩
  · rw [folder_setFolder]
    exact hNames
  · rw [folder_setFolder]
    exact hFiles
  · rw [folder_setFolder]
    exact hEntry

/-- There is no directory under any name. -/
theorem get?_ne_directory (h : Filed name IsKey r v) (spot : String) :
    (v.folder name).get? spot ≠ some .directory :=
  fun hFound => h.files _ (Table.mem_of_get?_eq_some hFound) rfl

/-- Reading a folder gives the live text. -/
theorem get (h : Filed name IsKey r v) (hKey : IsKey key) :
    IsReading key (r.live? key) ((v.folder name).get v.now key) := by
  have hEntry := h.entry key hKey
  cases hFound : (v.folder name).get? (Folder.fileName key) with
  | none =>
    rw [hFound] at hEntry
    cases hEntry with
    | gone hNone =>
      rw [Register.live?_of_texts_eq_none r key hNone, Folder.get, Folder.file?, hFound]
      exact .missed .notFound
  | some item =>
    rw [hFound] at hEntry
    cases hEntry with
    | @kept content limit hText hLimit =>
      rw [get_of_file hFound, content_fileBytes hLimit, Register.live?_of_texts r key hText, h.now]
      by_cases hOver : limit ≤ r.now
      · rw [if_pos (micros_le_iff.mpr hOver), if_neg (Int.not_lt.mpr hOver)]
        exact .missed .expired
      · rw [if_neg (mt micros_le_iff.mp hOver), if_pos (Int.not_le.mp hOver)]
        exact .live content

theorem has (h : Filed name IsKey r v) (hKey : IsKey key) :
    (v.folder name).has v.now key = .ok (r.live? key).isSome := by
  have hEntry := h.entry key hKey
  cases hFound : (v.folder name).get? (Folder.fileName key) with
  | none =>
    rw [hFound] at hEntry
    cases hEntry with
    | gone hNone =>
      rw [Register.live?_of_texts_eq_none r key hNone, Folder.has, Folder.file?, hFound]
      rfl
  | some item =>
    rw [hFound] at hEntry
    cases hEntry with
    | @kept content limit hText hLimit =>
      rw [has_of_file hFound, readStamp_fileBytes hLimit, Register.live?_of_texts r key hText,
        h.now]
      dsimp only
      by_cases hOver : limit ≤ r.now
      · rw [if_neg (Int.not_lt.mpr hOver),
          decide_eq_false (Int.not_lt.mpr (micros_le_iff.mpr hOver))]
        rfl
      · rw [if_pos (Int.not_le.mp hOver),
          decide_eq_true (Int.not_le.mp (mt micros_le_iff.mp hOver))]
        rfl

/-- When an entry with a lifetime of whole seconds expires that is stored at a whole second. -/
theorem expiryInstant_seconds {now seconds : Int} (hNow : InYears now)
    (hLimit : InYears (now + seconds)) :
    expiryInstant (Instant.ofSeconds now) (.int seconds)
      = .ok (Instant.ofSeconds (now + seconds)) := by
  have hSum : (Instant.ofSeconds now).addMicros (seconds * Instant.perSecond)
      = Instant.ofSeconds (now + seconds) :=
    congrArg Instant.mk (Int.add_mul now seconds Instant.perSecond).symm
  rw [← hSum]
  refine expiryInstant_int hNow ?_
  rw [hSum]
  exact hLimit

/-- Storing a text for whole seconds. -/
theorem put (hApart : DigestedApart IsKey) (h : Filed name IsKey r v) (hNow : InYears r.now)
    (content : String) {seconds : Int} (hLimit : InYears (r.now + seconds)) (hKey : IsKey key) :
    ∃ v', ((Ref.folder name).put key content (some (.int seconds))).run v = (.ok (), v')
      ∧ Filed name IsKey (r.write key (some (content, r.now + seconds))) v' := by
  have hInstant := expiryInstant_seconds hNow hLimit
  rw [← h.now] at hInstant
  refine ⟨_, run_put_folder content hInstant (h.get?_ne_directory _), setFolder h.now
    (Table.nodup_keys_insert h.names _) (fun item hMem => ?_) fun other hOther => ?_⟩
  · rcases Table.eq_or_mem_of_mem_insert hMem with rfl | hOld
    · exact nofun
    · exact h.files item hOld
  · by_cases hSame : other = key
    · subst hSame
      have hFound := Table.get?_insert_self (v.folder name) (Folder.fileName other)
        (.file (Folder.fileBytes (Instant.ofSeconds (r.now + seconds)) content))
      exact hFound ▸ .kept (r.texts_write_self other _) hLimit
    · have hSpot : Folder.fileName other ≠ Folder.fileName key :=
        fun hSpot => hSame (hApart other key hOther hKey hSpot)
      have hFound := Table.get?_insert_of_ne (v.folder name)
        (.file (Folder.fileBytes (Instant.ofSeconds (r.now + seconds)) content)) hSpot
      exact hFound ▸ (h.entry other hOther).write_of_ne hSame

theorem delete (hApart : DigestedApart IsKey) (h : Filed name IsKey r v) (hKey : IsKey key) :
    ∃ v', ((Ref.folder name).delete key).run v = (.ok (), v')
      ∧ Filed name IsKey (r.write key none) v' := by
  have hDelete := run_remove (Folder.fileName key) (v.folder name)
  rw [if_neg (h.get?_ne_directory _)] at hDelete
  have hRun : ((Ref.folder name).delete key).run v
      = (.ok (), v.setFolder name ((v.folder name).erase (Folder.fileName key))) := by
    rw [run_delete_folder, Folder.delete, hDelete]
  refine ⟨_, hRun, setFolder h.now (Table.nodup_keys_erase h.names)
    (fun item hMem => h.files item (Table.mem_of_mem_erase hMem)) fun other hOther => ?_⟩
  by_cases hSame : other = key
  · subst hSame
    rw [Table.get?_erase_self h.names]
    exact .gone (r.texts_write_self other none)
  · have hSpot : Folder.fileName other ≠ Folder.fileName key :=
      fun hSpot => hSame (hApart other key hOther hKey hSpot)
    rw [Table.get?_erase_of_ne _ hSpot]
    exact (h.entry other hOther).write_of_ne hSame

end Filed

end PageBlocks.Backends
