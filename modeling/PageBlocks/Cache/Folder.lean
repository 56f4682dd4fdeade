import PageBlocks.Cache.Lifetime
import PageBlocks.Digest.Crc32
import PageBlocks.Digest.Sha1
import PageBlocks.Time.Stamp

/-!
# Folders

A cache on disk: one file an entry, named by the digest of its key. A file holds the stamp of its
expiry in thirty-two characters, the checksum of the payload in eight, and the payload. Whatever
else a file may hold is a corrupt entry, unless its stamp names no instant.
-/

set_option autoImplicit false

namespace PageBlocks.Cache

open PageBlocks.Text PageBlocks.Time

/-- What stands under a name in a folder. -/
inductive FolderItem where
  | file (data : Bytes)
  | directory
  deriving DecidableEq

/-- A cache on disk. -/
abbrev Folder := Table String FolderItem

namespace Folder

/-- The width of a file's header: the stamp and the checksum. -/
def headerWidth : Nat := Stamp.width + 8

/-- The name of the file of a key. -/
def fileName (key : String) : String := Digest.Sha1.ofText key

/-- ASCII characters as bytes. -/
def asciiBytes (cs : List Char) : Bytes := cs.map fun c => UInt8.ofNat c.toNat

/-- The characters of ASCII bytes. -/
def ascii? (bytes : Bytes) : Option (List Char) :=
  if bytes.all fun b => b.toNat < 128 then some (bytes.map fun b => Char.ofNat b.toNat) else none

/-- What the stamp of a file says. -/
def readStamp (bytes : Bytes) : Option Stamp.Reading := (ascii? bytes).bind Stamp.read?

/-- The bytes of a file that holds a content and expires at an instant. -/
def fileBytes (expiry : Instant) (content : String) : Bytes :=
  let payload := Utf8.ofText content
  asciiBytes (Stamp.write expiry) ++ asciiBytes (Digest.Crc32.text payload) ++ payload

/-- The bytes under the name of a key, if there is a file. -/
def file? (folder : Folder) (key : String) : Except Fault (Option Bytes) :=
  match folder.get? (fileName key) with
  | some (.file data) => .ok (some data)
  | some .directory => .error (.host .isDirectory)
  | none => .ok none

/-- Whether there is a live entry. Only the stamp is looked at. -/
def has (folder : Folder) (now : Instant) (key : String) : Except Fault Bool := do
  match ← folder.file? key with
  | some data =>
    match readStamp (data.take Stamp.width) with
    | some (.instant expiry) => return decide (now.micros < expiry.micros)
    | some (.local _) => throw (.host .type)
    | none => return false
  | none => return false

/-- The content of a file's bytes. -/
def content (now : Instant) (key : String) (data : Bytes) : Except Fault String :=
  if data.length < headerWidth then .error (.cache (.text key) .corrupt)
  else
    match readStamp (data.take Stamp.width) with
    | none => .error (.cache (.text key) .corrupt)
    | some (.local _) => .error (.host .type)
    | some (.instant expiry) =>
      if expiry.micros ≤ now.micros then .error (.cache (.text key) .expired)
      else
        -- the checksum is that of the bytes, so it is compared before they are read as text
        let payload := data.drop headerWidth
        if asciiBytes (Digest.Crc32.text payload) = (data.take headerWidth).drop Stamp.width then
          match Utf8.toText? payload with
          | some content => .ok content
          | none => .error (.cache (.text key) .corrupt)
        else .error (.cache (.text key) .corrupt)

/-- The content of a live entry. -/
def get (folder : Folder) (now : Instant) (key : String) : Except Fault String := do
  match ← folder.file? key with
  | some data => content now key data
  | none => throw (.cache (.text key) .notFound)

/-- A computation on a folder. What it changed stays, also if it fails. -/
abbrev Change := ExceptT Fault (StateM Folder)

/-- The name under which a file is written for a key before it becomes the entry. -/
def hiddenName (key draw : String) : String := "." ++ fileName key ++ "." ++ draw ++ ".tmp"

/-- A draw whose hidden names are not in use: they are longer than every name in the folder. -/
def unusedDraw (folder : Folder) : String :=
  String.ofList (List.replicate (folder.foldr (fun item most => max item.1.length most) 0) '0')

/-- Remove the file of a name, if there is one. -/
def remove (name : String) : Change Unit := do
  match Table.get? (← MonadState.get) name with
  | some .directory => throw (.host .isDirectory)
  | _ => modify fun folder => folder.erase name

/-- What keeps a file from taking a name: the surroundings, or a directory of that name. -/
def refusal (allowed : Bool) (folder : Folder) (name : String) : Option Fault :=
  if allowed then
    match folder.get? name with
    | some .directory => some (.host .isDirectory)
    | _ => none
  else some (.host .renameRefused)

/-- Give a file another name, in a single step, in place of the file that had it. -/
def rename (allowed : Bool) (source target : String) : Change Unit := do
  let folder ← MonadState.get
  match refusal allowed folder target, folder.get? source with
  | some fault, _ => throw fault
  | none, none => throw (.host .renameRefused)
  | none, some item => set (Table.insert (folder.erase source) target item)

/-- Store a content. The complete file is written under a hidden name and takes the place of an
earlier one by being renamed; if that fails, the hidden file is removed. -/
def put (allowed : Bool) (draw : String) (now : Instant) (key content : String)
    (lifetime : Value) : Change Unit := do
  -- a refused expiry is found before there is any file
  let expiry ← expiryInstant now lifetime
  let hidden := hiddenName key draw
  modify fun folder => folder.insert hidden (.file (fileBytes expiry content))
  tryCatch (rename allowed hidden (fileName key)) fun fault => do
    remove hidden
    throw fault

/-- Remove an entry. -/
def delete (key : String) : Change Unit := remove (fileName key)

/-- Remove all entries; directories stay. -/
def clear (folder : Folder) : Folder := folder.filter fun item => item.2 = .directory

/-- Replace a stored payload and keep its header. -/
def tamper (folder : Folder) (key : String) (payload : Bytes) : Folder :=
  match folder.get? (fileName key) with
  | some (.file data) => folder.insert (fileName key) (.file (data.take headerWidth ++ payload))
  | _ => folder

end Folder

end PageBlocks.Cache
