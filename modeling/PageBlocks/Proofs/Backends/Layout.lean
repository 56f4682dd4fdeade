import PageBlocks.Proofs.Backends.InFolder

/-!
# What is in the file of an entry

A file is an expiry in thirty-two bytes of ASCII, a checksum in eight hexadecimal digits, and a
payload (`IsLaidOut`). The widths never vary, whatever the calendar date and however long the
content, so that the header can be cut off by position. What is read back from it is the very
microsecond at which the lifetime of the content is over, and reads change over at that microsecond
(`entry_of_put`).
-/

set_option autoImplicit false

namespace PageBlocks.Backends

open PageBlocks.Cache PageBlocks.Publishing PageBlocks.Running PageBlocks.Storage PageBlocks.Text
  PageBlocks.Time

/-- The layout of a file that holds a content and expires at an instant. -/
structure IsLaidOut (expiry : Instant) (content : String) (data : Bytes) : Prop where
  size : data.length = 32 + 8 + (Utf8.ofText content).length
  stamp : data.take 32 = Folder.asciiBytes (Stamp.write expiry)
  ascii : ∀ b ∈ data.take 32, b.toNat < 128
  expiry : Folder.readStamp (data.take 32) = some (.instant expiry)
  digits : ∀ b ∈ (data.drop 32).take 8, Hex.isDigit (Char.ofNat b.toNat) = true
  checksum : (data.drop 32).take 8 = Folder.asciiBytes (Digest.Crc32.text (Utf8.ofText content))
  payload : data.drop (32 + 8) = Utf8.ofText content

section Layout

variable {expiry : Instant} {content : String}

theorem length_fileBytes (h : expiry.inCalendar = true) :
    (Folder.fileBytes expiry content).length = 32 + 8 + (Utf8.ofText content).length := by
  unfold Folder.fileBytes
  dsimp only
  rw [List.length_append, List.length_append, length_stampBytes h, Folder.asciiBytes,
    List.length_map, Digest.Crc32.length_text]
  rfl

/-- ASCII characters are the characters of their bytes. -/
theorem ofNat_of_mem_asciiBytes {cs : List Char} (h : ∀ c ∈ cs, c.toNat < 128) {b : UInt8}
    (hMem : b ∈ Folder.asciiBytes cs) : b.toNat < 128 ∧ Char.ofNat b.toNat ∈ cs := by
  obtain ⟨c, hChar, rfl⟩ := List.mem_map.mp hMem
  have hSmall := h c hChar
  have hByte : (UInt8.ofNat c.toNat).toNat = c.toNat := by
    rw [UInt8.toNat_ofNat']
    exact Nat.mod_eq_of_lt (by omega)
  rw [hByte, Char.ofNat_toNat]
  exact ⟨hSmall, hChar⟩

theorem isLaidOut_fileBytes (h : expiry.inCalendar = true) :
    IsLaidOut expiry content (Folder.fileBytes expiry content) := by
  have hSum : ((Folder.fileBytes expiry content).drop 32).take 8
      = Folder.asciiBytes (Digest.Crc32.text (Utf8.ofText content)) := by
    rw [List.take_drop]
    exact checksum_fileBytes h
  constructor
  case size => exact length_fileBytes h
  case stamp => exact take_stamp_fileBytes h
  case ascii =>
    intro b hMem
    rw [show 32 = Stamp.width from rfl, take_stamp_fileBytes h] at hMem
    exact (ofNat_of_mem_asciiBytes (fun _ => Stamp.toNat_lt_of_mem_write) hMem).1
  case expiry => exact readStamp_fileBytes h
  case digits =>
    intro b hMem
    rw [hSum] at hMem
    exact Hex.isDigit_of_mem_ofNat
      (ofNat_of_mem_asciiBytes (fun _ => Hex.toNat_lt_of_mem_ofNat) hMem).2
  case checksum => exact hSum
  case payload => exact drop_fileBytes content h

end Layout

section Put

variable {v stored : Vault} {name key content : String} {seconds : Int}

/-- A directory under the name of the file is all that keeps a content from being stored whose
lifetime ends within the calendar. -/
theorem run_put_iff (name key content : String) (hNow : v.now.inCalendar = true)
    (hExpiry : (v.now.addMicros (seconds * Instant.perSecond)).inCalendar = true) :
    (((Ref.folder name).put key content (some (.int seconds))).run v).1 = .ok ()
      ↔ (v.folder name).get? (Folder.fileName key) ≠ some .directory := by
  have hInstant := expiryInstant_int hNow hExpiry
  constructor
  · intro hPut hDirectory
    have hRefusal : Folder.refusal true (v.folder name) (Folder.fileName key)
        = some (.host .isDirectory) := by
      rw [Folder.refusal, if_pos rfl, hDirectory]
    rw [run_put_inFolder, Option.getD_some, run_put_of_expiry true content hInstant
      (get?_hiddenName_unusedDraw (v.folder name) key), hRefusal] at hPut
    cases hPut
  · intro hFile
    rw [run_put_folder content hInstant hFile]

/-- Storing a content for whole seconds lays its file out, unless a directory is in the way, and
from then on reading the entry in whatever folder has the file gives the content before the expiry
and finds it expired from the expiry on. -/
theorem entry_of_put (hNow : v.now.inCalendar = true)
    (hExpiry : (v.now.addMicros (seconds * Instant.perSecond)).inCalendar = true) :
    ((((Ref.folder name).put key content (some (.int seconds))).run v).1 = .ok ()
      ↔ (v.folder name).get? (Folder.fileName key) ≠ some .directory)
    ∧ ∀ stored, ((Ref.folder name).put key content (some (.int seconds))).run v = (.ok (), stored) →
      ∃ data, (stored.folder name).get? (Folder.fileName key) = some (.file data)
        ∧ IsLaidOut (v.now.addMicros (seconds * Instant.perSecond)) content data
        ∧ ∀ (later : Vault) (place : String),
          (later.folder place).get? (Folder.fileName key) = some (.file data) →
          ((Ref.folder place).fetch key).run later
            = (if later.now.micros < v.now.micros + seconds * Instant.perSecond then .ok content
                else .error (.cache (.text key) .expired), later) := by
  have hIff := run_put_iff name key content hNow hExpiry
  refine ⟨hIff, fun stored hPut => ⟨_, ?_, isLaidOut_fileBytes hExpiry, ?_⟩⟩
  · have hFile := hIff.mp (congrArg Prod.fst hPut)
    rw [run_put_folder content (expiryInstant_int hNow hExpiry) hFile] at hPut
    rw [← (Prod.mk.inj hPut).2, folder_setFolder, Table.get?_insert_self]
  · intro later place hFound
    rw [run_fetch_folder, get_of_file hFound, content_fileBytes hExpiry]
    have hOver : (v.now.addMicros (seconds * Instant.perSecond)).micros ≤ later.now.micros
        ↔ ¬ later.now.micros < v.now.micros + seconds * Instant.perSecond := Int.not_lt.symm
    by_cases hLive : later.now.micros < v.now.micros + seconds * Instant.perSecond
    · rw [if_pos hLive, if_neg (mt hOver.mp (not_not_intro hLive))]
    · rw [if_neg hLive, if_pos (hOver.mpr hLive)]

/-- The last seconds of a leap day before the epoch, with no folder written to yet. -/
def leapDay : Vault where
  now := ⟨-57974401750000⟩

theorem entry_of_put_on_leapDay :
    ∃ stored data,
      ((Ref.folder "c").put "k" "é𝄞" (some (.int 2))).run leapDay = (.ok (), stored)
      ∧ (stored.folder "c").get? (Folder.fileName "k") = some (.file data)
      ∧ IsLaidOut ⟨-57974399750000⟩ "é𝄞" data
      ∧ ((Ref.folder "c").fetch "k").run { stored with now := ⟨-57974399750001⟩ }
        = (.ok "é𝄞", { stored with now := ⟨-57974399750001⟩ })
      ∧ ((Ref.folder "c").fetch "k").run { stored with now := ⟨-57974399750000⟩ }
        = (.error (.cache (.text "k") .expired), { stored with now := ⟨-57974399750000⟩ }) := by
  obtain ⟨hIff, hEntry⟩ := @entry_of_put leapDay "c" "k" "é𝄞" 2
    (by decide) (by decide)
  have hOk := hIff.mpr fun hDirectory => nomatch hDirectory
  rcases hRun : ((Ref.folder "c").put "k" "é𝄞" (some (.int 2))).run leapDay with ⟨result, stored⟩
  rw [hRun] at hOk
  cases hOk
  obtain ⟨data, hFound, hLaid, hReads⟩ := hEntry stored hRun
  exact ⟨stored, data, rfl, hFound, hLaid, hReads _ "c" hFound, hReads _ "c" hFound⟩

example : Stamp.write ⟨-57974399750000⟩ = "1968-03-01T00:00:00.250000+00:00".toList := by
  decide +kernel

end Put

end PageBlocks.Backends
