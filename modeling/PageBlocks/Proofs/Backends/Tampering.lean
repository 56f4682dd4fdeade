import PageBlocks.Cache.Request
import PageBlocks.Proofs.Backends.InFolder
import PageBlocks.Proofs.Bursts

/-!
# Tampered payloads

A stored payload is guarded by the checksum that was stored with it. Where another payload of the
same length is put in its place that differs from it in four consecutive bytes at most, its
checksum is another one, so the entry is found corrupt as long as it is live
(`fetch_tampered`), in memory and on disk.
-/

set_option autoImplicit false

namespace PageBlocks.Backends

open PageBlocks.Cache PageBlocks.Digest PageBlocks.Number PageBlocks.Policy
  PageBlocks.Publishing PageBlocks.Running PageBlocks.Storage PageBlocks.Text PageBlocks.Time

/-! ## Windows -/

/-- Byte strings of one length that agree outside of four consecutive places. -/
structure WithinWindow (start : Nat) (bytes other : Bytes) : Prop where
  length : bytes.length = other.length
  outside : ∀ i, i < start ∨ start + 4 ≤ i → bytes[i]? = other[i]?

/-- What stands in the window that begins at a place. -/
def window (start : Nat) (bytes : Bytes) : Bytes := (bytes.drop start).take 4

theorem take_append_window (start : Nat) (bytes : Bytes) :
    bytes.take start ++ window start bytes ++ bytes.drop (start + 4) = bytes := by
  rw [window, List.append_assoc, ← List.drop_drop, List.take_append_drop, List.take_append_drop]

namespace WithinWindow

variable {start : Nat} {bytes other : Bytes}

theorem take_eq (h : WithinWindow start bytes other) : bytes.take start = other.take start := by
  apply List.ext_getElem?
  intro i
  rw [List.getElem?_take, List.getElem?_take]
  split
  · exact h.outside i (.inl ‹_›)
  · rfl

theorem drop_eq (h : WithinWindow start bytes other) :
    bytes.drop (start + 4) = other.drop (start + 4) := by
  apply List.ext_getElem?
  intro i
  rw [List.getElem?_drop, List.getElem?_drop]
  exact h.outside _ (.inr (Nat.le_add_right _ _))

/-- A difference within a window shows in the checksum. -/
theorem sum_ne (h : WithinWindow start bytes other) (hNe : bytes ≠ other) :
    Crc32.sum bytes ≠ Crc32.sum other := by
  have hWindows : window start bytes ≠ window start other := by
    intro hSame
    apply hNe
    rw [← take_append_window start bytes, ← take_append_window start other, h.take_eq, hSame,
      h.drop_eq]
  have hLength : (window start bytes).length = (window start other).length := by
    rw [window, window, List.length_take, List.length_take, List.length_drop, List.length_drop,
      h.length]
  have hFour : (window start bytes).length ≤ 4 := List.length_take_le 4 _
  have hSums := Crc32.sum_ne (bytes.take start) (bytes.drop (start + 4)) hLength hFour hWindows
  rw [take_append_window, h.take_eq, h.drop_eq, take_append_window] at hSums
  exact hSums

/-- So it shows in the checksum as it is stored. -/
theorem text_ne (h : WithinWindow start bytes other) (hNe : bytes ≠ other) :
    Crc32.text bytes ≠ Crc32.text other := by
  intro hSame
  have hRead := congrArg Hex.toNat? hSame
  rw [Crc32.text, Crc32.text, Hex.toNat?_ofNat, Hex.toNat?_ofNat, Option.some.injEq,
    show 1 <<< (4 * 8) = 4294967296 from rfl] at hRead
  have hFirst := (Crc32.sum bytes).toNat_lt
  have hSecond := (Crc32.sum other).toNat_lt
  refine h.sum_ne hNe (UInt32.toNat_inj.mp ?_)
  omega

end WithinWindow

/-- A stored checksum is read back from its bytes. -/
theorem ascii?_checksum (bytes : Bytes) :
    Folder.ascii? (Folder.asciiBytes (Crc32.text bytes)) = some (Crc32.text bytes) :=
  ascii?_asciiBytes fun _ => Hex.toNat_lt_of_mem_ofNat

/-! ## Entries -/

section Entries

variable {start : Nat} {payload : Bytes} {key content : String}

/-- An entry on a shelf whose payload was tampered with is corrupt. -/
theorem content_tamperedEntry (second : Binary64) (hNe : payload ≠ Utf8.ofText content)
    (hWindow : WithinWindow start payload (Utf8.ofText content)) :
    Entry.content { Entry.ofContent content second with payload } key
      = .error (.cache (.text key) .corrupt) := by
  unfold Entry.content
  exact if_neg (hWindow.text_ne hNe)

theorem length_header {expiry : Instant} (h : expiry.inCalendar = true) :
    ((Folder.fileBytes expiry content).take Folder.headerWidth).length = Folder.headerWidth := by
  rw [List.length_take, Folder.fileBytes, List.length_append, List.length_append,
    length_stampBytes h, Folder.asciiBytes, List.length_map, Crc32.length_text, Folder.headerWidth]
  omega

/-- A live file whose payload was tampered with is corrupt. -/
theorem content_tamperedFile {expiry now : Instant} (hDated : expiry.inCalendar = true)
    (hLive : now.micros < expiry.micros) (hNe : payload ≠ Utf8.ofText content)
    (hWindow : WithinWindow start payload (Utf8.ofText content)) :
    Folder.content now key ((Folder.fileBytes expiry content).take Folder.headerWidth ++ payload)
      = .error (.cache (.text key) .corrupt) := by
  have hHeader : ((Folder.fileBytes expiry content).take Folder.headerWidth).length
      = Folder.headerWidth := length_header hDated
  have hStamp : ((Folder.fileBytes expiry content).take Folder.headerWidth ++ payload).take
      Stamp.width = (Folder.fileBytes expiry content).take Stamp.width := by
    rw [List.take_append_of_le_length (by rw [hHeader]; decide), List.take_take,
      Nat.min_eq_left (by decide)]
  -- the stored checksum is the one of the content, and that of the payload is written otherwise
  have hSum : Folder.asciiBytes (Crc32.text payload)
      ≠ Folder.asciiBytes (Crc32.text (Utf8.ofText content)) := by
    intro hSame
    have hRead := congrArg Folder.ascii? hSame
    rw [ascii?_checksum, ascii?_checksum] at hRead
    exact hWindow.text_ne hNe (Option.some.inj hRead)
  unfold Folder.content
  rw [if_neg (by rw [List.length_append, hHeader]; omega), hStamp, readStamp_fileBytes hDated]
  dsimp only
  rw [if_neg (Int.not_le.mpr hLive), List.drop_left' hHeader, List.take_left' hHeader,
    checksum_fileBytes hDated, if_neg hSum]

end Entries

/-! ## Caches -/

/-- The caches with another payload in the place of a stored one. Its expiry and its checksum
stay. -/
def tampered (cache : Ref) (key : String) (payload : Bytes) (v : Vault) : Vault :=
  match cache with
  | .shelf n => v.setShelf n ((v.shelf n).tamper key payload)
  | .folder name => v.setFolder name ((v.folder name).tamper key payload)

section Caches

variable {cache : Ref} {key content : String} {lifetime : Option Value} {v stored later : Vault}

/-- A shelf that is not there has no entries. -/
theorem lt_of_get?_shelf {n : Nat} {entry : Entry} (h : (v.shelf n).get? key = some entry) :
    n < v.shelves.length := by
  refine Nat.lt_of_not_le fun hBound => ?_
  rw [Vault.shelf, List.getD_eq_getElem?_getD, List.getElem?_eq_none hBound] at h
  cases h

/-- Whether the entry of a key is as storing a content leaves it. A shelf that is not there has no
entry. -/
def Holds (cache : Ref) (key content : String) (v : Vault) : Prop :=
  match cache with
  | .shelf n => ∀ entry, (v.shelf n).get? key = some entry →
      ∃ second, entry = Entry.ofContent content second
  | .folder name => ∃ expiry, expiry.inCalendar = true
      ∧ (v.folder name).get? (Folder.fileName key)
        = some (.file (Folder.fileBytes expiry content))

theorem holds_put (cache : Ref) (key content : String) (lifetime : Option Value) (v : Vault) :
    Ends (cache.put key content lifetime) v (fun _ => Holds cache key content)
      (fun _ => True) := by
  cases cache with
  | shelf n =>
    unfold Ref.put
    refine ends_bind_of_run (run_note _ v) (ends_get_bind ?_)
    refine ends_lift_bind (fun shelf hShelf => ends_set fun entry hFound => ?_) trivial
    unfold Shelf.put at hShelf
    obtain ⟨second, -, hShelf⟩ := bind_eq_ok hShelf
    cases hShelf
    rw [shelf_setShelf] at hFound
    split at hFound
    · rw [Table.get?_insert_self] at hFound
      exact ⟨second, (Option.some.inj hFound).symm⟩
    · rename_i hBound
      exact absurd (lt_of_get?_shelf hFound) hBound
  | folder name =>
    have hRun := run_put_inFolder name key content lifetime v
    rcases run_put_cases true v.now content (lifetime.getD defaultLifetime)
        (get?_hiddenName_unusedDraw (v.folder name) key) with
      ⟨fault, hPut⟩ | ⟨expiry, hExpiry, -, hPut⟩
    · rw [hPut] at hRun
      exact ends_of_run_error hRun trivial
    · rw [hPut] at hRun
      refine ends_of_run hRun ⟨expiry, inCalendar_of_expiryInstant hExpiry, ?_⟩
      rw [folder_setFolder, Table.get?_insert_self]

/-- An entry stays as it is where its spot is untouched. -/
theorem Holds.of_untouched (h : Holds cache key content stored)
    (hKept : Untouched cache (slot cache key) stored later) : Holds cache key content later := by
  cases cache with
  | shelf n =>
    intro entry hFound
    exact h entry (hKept.symm.trans hFound)
  | folder name =>
    obtain ⟨expiry, hDated, hFile⟩ := h
    exact ⟨expiry, hDated, Eq.trans hKept hFile⟩

/-- Reading an entry whose payload was tampered with finds it corrupt. -/
theorem reading_tampered {start : Nat} {payload : Bytes} (h : Holds cache key content v)
    (hLive : (cache.has key).run v = (.ok true, v)) (hNe : payload ≠ Utf8.ofText content)
    (hWindow : WithinWindow start payload (Utf8.ofText content)) :
    reading cache key (tampered cache key payload v) = .error (.cache (.text key) .corrupt)
      ∧ afterFetch cache key (tampered cache key payload v) = tampered cache key payload v := by
  cases cache with
  | shelf n =>
    have hHas : (v.shelf n).has v.now key = true := Except.ok.inj (congrArg Prod.fst hLive)
    obtain ⟨entry, hFound, hNotOver⟩ := has_eq_true_iff.mp hHas
    obtain ⟨second, rfl⟩ := h entry hFound
    have hShelf : (tampered (.shelf n) key payload v).shelf n
        = (v.shelf n).insert key { Entry.ofContent content second with payload } := by
      rw [tampered, shelf_setShelf, if_pos (lt_of_get?_shelf hFound), Shelf.tamper, hFound]
    have hGet : ((tampered (.shelf n) key payload v).shelf n).get v.now key
        = (.error (.cache (.text key) .corrupt), (tampered (.shelf n) key payload v).shelf n) := by
      have hLater : Entry.isExpired { Entry.ofContent content second with payload } v.now = false :=
        hNotOver
      rw [hShelf, Shelf.get, Table.get?_insert_self]
      dsimp only
      rw [hLater, content_tamperedEntry second hNe hWindow]
      rfl
    refine ⟨congrArg Prod.fst hGet, ?_⟩
    show (tampered (.shelf n) key payload v).setShelf n _ = _
    exact (congrArg _ (congrArg Prod.snd hGet)).trans (setShelf_shelf _ n)
  | folder name =>
    obtain ⟨expiry, hDated, hFile⟩ := h
    have hHas : (v.folder name).has v.now key = .ok true := congrArg Prod.fst hLive
    rw [has_of_file hFile, readStamp_fileBytes hDated] at hHas
    have hBefore : v.now.micros < expiry.micros := of_decide_eq_true (Except.ok.inj hHas)
    have hTampered : ((tampered (.folder name) key payload v).folder name).get?
        (Folder.fileName key) = some (.file
          ((Folder.fileBytes expiry content).take Folder.headerWidth ++ payload)) := by
      rw [tampered, folder_setFolder, Folder.tamper, hFile, Table.get?_insert_self]
    refine ⟨?_, rfl⟩
    exact (get_of_file hTampered).trans (content_tamperedFile hDated hBefore hNe hWindow)

/-- A content that was stored is there, nothing has been done to its entry since, and it is live. If
then its payload is replaced by another one of the same length that differs from it within a window
of four bytes, the next read finds the entry corrupt, and a lookup finds nothing. -/
theorem fetch_tampered {start : Nat} {payload : Bytes}
    (hPut : (cache.put key content lifetime).run v = (.ok (), stored))
    (hKept : Untouched cache (slot cache key) stored later)
    (hLive : (cache.has key).run later = (.ok true, later)) (hNe : payload ≠ Utf8.ofText content)
    (hWindow : WithinWindow start payload (Utf8.ofText content)) :
    (cache.fetch key).run (tampered cache key payload later)
        = (.error (.cache (.text key) .corrupt), tampered cache key payload later)
      ∧ (cache.lookup key).run (tampered cache key payload later)
        = (.ok none, tampered cache key payload later) := by
  have hHolds : Holds cache key content later :=
    ((holds_put cache key content lifetime v).of_run hPut).of_untouched hKept
  obtain ⟨hReading, hAfter⟩ := reading_tampered hHolds hLive hNe hWindow
  constructor
  · rw [run_fetch, hReading, hAfter]
  · rw [run_lookup, entry, hReading, hAfter]
    rfl

end Caches

/-- An empty shelf at the start of the year 2026. -/
def emptyShelf : Vault where
  now := Instant.ofSeconds 1767225600
  shelves := [[]]

/-- Half a minute after a content was stored for a minute. -/
def halfMinuteOn : Vault where
  now := Instant.ofSeconds 1767225630
  shelves := [[("k", Entry.ofContent "abcdefgh" (Binary64.ofInt 1767225660))]]

theorem fetch_tampered_of_four_bytes :
    ((Ref.shelf 0).fetch "k").run (tampered (.shelf 0) "k" (Utf8.ofText "ab0123gh") halfMinuteOn)
        = (.error (.cache (.text "k") .corrupt),
          tampered (.shelf 0) "k" (Utf8.ofText "ab0123gh") halfMinuteOn)
      ∧ ((Ref.shelf 0).lookup "k").run
          (tampered (.shelf 0) "k" (Utf8.ofText "ab0123gh") halfMinuteOn)
        = (.ok none, tampered (.shelf 0) "k" (Utf8.ofText "ab0123gh") halfMinuteOn) := by
  have hSecond : expirySecond emptyShelf.now (.int 60) = .ok (Binary64.ofInt 1767225660) := by rfl
  have hLive : ((Ref.shelf 0).has "k").run halfMinuteOn = (.ok true, halfMinuteOn) := by rfl
  have hBytes : Utf8.ofText "ab0123gh" = [97, 98, 48, 49, 50, 51, 103, 104] := by decide
  have hContent : Utf8.ofText "abcdefgh" = [97, 98, 99, 100, 101, 102, 103, 104] := by decide
  have hWindow : WithinWindow 2 (Utf8.ofText "ab0123gh") (Utf8.ofText "abcdefgh") := by
    rw [hBytes, hContent]
    refine ⟨rfl, fun i hOutside => ?_⟩
    by_cases hInside : i < 8
    · have hTable : ∀ i : Fin 8, i.val < 2 ∨ 2 + 4 ≤ i.val →
          ([97, 98, 48, 49, 50, 51, 103, 104] : Bytes)[i.val]?
            = ([97, 98, 99, 100, 101, 102, 103, 104] : Bytes)[i.val]? := by decide
      exact hTable ⟨i, hInside⟩ hOutside
    · rw [List.getElem?_eq_none (Nat.not_lt.mp hInside),
        List.getElem?_eq_none (Nat.not_lt.mp hInside)]
  exact fetch_tampered (run_put_shelf "abcdefgh" hSecond) rfl hLive (by decide) hWindow

end PageBlocks.Backends
