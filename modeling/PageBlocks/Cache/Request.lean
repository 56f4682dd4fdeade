import PageBlocks.Cache.Vault

/-!
# Requests to a cache

What can be asked of a cache from outside of a rendering run, and how the whole content of a cache
is shown. Some requests put a folder into states that storing alone never produces.
-/

set_option autoImplicit false

namespace PageBlocks.Cache

open PageBlocks.Number PageBlocks.Text PageBlocks.Time

/-- A request to a cache. -/
inductive Request where
  | put (key content : String) (lifetime : Option Value)
  | get (key : String)
  | has (key : String)
  | lookup (key : String)
  | delete (key : String)
  | clear
  /-- Move the clock. -/
  | advance (micros : Int)
  | size
  /-- Show all entries. -/
  | dump
  /-- Replace a stored payload and nothing else. -/
  | tamper (key content : String)
  /-- Write the file of a key as a whole. -/
  | writeFile (key : String) (data : Bytes)
  /-- Write the file of a key from its parts; without a checksum the correct one is written. -/
  | writeEntry (key stamp : String) (checksum : Option String) (payload : Bytes)
  | makeDirectory (name : String)
  /-- Store a content when the last step of storing fails. -/
  | putRefused (key content : String)

/-- Characters below 256 as bytes. -/
def latinBytes (s : String) : Bytes := s.toList.map fun c => UInt8.ofNat c.toNat

/-- Bytes as characters below 256. -/
def latinText (bytes : Bytes) : String := String.ofList (bytes.map fun b => Char.ofNat b.toNat)

/-- A payload as text. -/
def payloadText (bytes : Bytes) : String := (Utf8.toText? bytes).getD (latinText bytes)

/-- Rows in ascending order of their names. -/
def inOrder {α : Type} (rows : Table String α) : Table String α :=
  rows.mergeSort fun a b => decide (a.1 ≤ b.1)

/-- A number of seconds, as an integer if it is whole. -/
def secondsValue (x : Binary64) : Value :=
  match x.toInt? with
  | some n => .int n
  | none => .real x

/-- The entries of a shelf: key, content, and the seconds that are left. -/
def Shelf.dump (shelf : Shelf) (now : Instant) : Value :=
  .list ((inOrder shelf).map fun row =>
    .list [.text row.1, .text (payloadText row.2.payload),
      secondsValue (row.2.expiresAt.sub now.toSeconds)])

/-- The items of a folder: name, stamp, checksum and payload, or the name alone. -/
def Folder.dump (folder : Folder) : Value :=
  .list ((inOrder folder).map fun row =>
    match row.2 with
    | .file data =>
      .list [.text row.1, .text (latinText (data.take Stamp.width)),
        .text (latinText ((data.take headerWidth).drop Stamp.width)),
        .text (payloadText (data.drop headerWidth))]
    | .directory => .list [.text row.1, .null])

/-- The entries of a cache. -/
def Ref.dump (cache : Ref) (v : Vault) : Value :=
  match cache with
  | shelf n => (v.shelf n).dump v.now
  | folder name => (v.folder name).dump

/-- Apply a function to the folder that a cache is; other caches have no files. -/
def Ref.onFolder (cache : Ref) (f : Folder → Folder) : VaultM Unit :=
  match cache with
  | shelf _ => throw (.host .attribute)
  | folder name => modify fun v => v.setFolder name (f (v.folder name))

/-- Carry out a request to an existing cache. -/
def Ref.perform (cache : Ref) : Request → VaultM Value
  | .put key content lifetime => do
    cache.put key content lifetime
    return .null
  | .get key => Value.text <$> cache.fetch key
  | .has key => Value.bool <$> cache.has key
  | .lookup key => do
    match ← cache.lookup key with
    | some content => return .text content
    | none => return .null
  | .delete key => do
    cache.delete key
    return .null
  | .clear => do
    cache.clear
    return .null
  | .advance micros => do
    modify fun v => { v with now := v.now.addMicros micros }
    return .null
  | .size => do return .int (cache.size (← get))
  | .dump => do return cache.dump (← get)
  | .tamper key content => do
    modify fun v =>
      match cache with
      | shelf n => v.setShelf n ((v.shelf n).tamper key (Utf8.ofText content))
      | folder name => v.setFolder name ((v.folder name).tamper key (Utf8.ofText content))
    return .null
  | .writeFile key data => do
    cache.onFolder fun f => f.insert (Folder.fileName key) (.file data)
    return .null
  | .writeEntry key stamp checksum payload => do
    let checksum := (checksum.map latinBytes).getD
      (Folder.asciiBytes (Digest.Crc32.text payload))
    cache.onFolder fun f =>
      f.insert (Folder.fileName key) (.file (latinBytes stamp ++ checksum ++ payload))
    return .null
  | .makeDirectory name => do
    cache.onFolder fun f => f.insert name .directory
    return .null
  | .putRefused key content => do
    Ref.note ⟨key, content, none⟩
    match cache with
    | shelf _ => throw (.host .attribute)
    | folder name =>
      let v ← get
      Ref.inFolder name
        (Folder.put false (v.folder name).unusedDraw v.now key content defaultLifetime)
      return .null

/-- Carry out a request. Without a cache there is only the clock to move and nothing to show. -/
def perform (cache : Option Ref) (request : Request) : VaultM Value :=
  match cache, request with
  | some cache, request => cache.perform request
  | none, .advance micros => do
    modify fun v => { v with now := v.now.addMicros micros }
    return .null
  | none, .dump => return .null
  | none, _ => throw (.host .attribute)

end PageBlocks.Cache
