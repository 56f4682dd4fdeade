import PageBlocks.Cache.Lifetime
import PageBlocks.Digest.Crc32

/-!
# Shelves

A cache in memory: a table from keys to payloads, each with its expiry and its checksum. Reading an
expired entry removes it; asking for one does not.
-/

set_option autoImplicit false

namespace PageBlocks.Cache

open PageBlocks.Number PageBlocks.Text PageBlocks.Time

/-- A stored payload. -/
structure Entry where
  payload : Bytes
  expiresAt : Binary64
  checksum : List Char

/-- Whether something that expires at a given second has expired. -/
def hasExpired (expiresAt now : Binary64) : Bool := expiresAt.le now

/-- The same for any values that have an order. -/
def isExpired (expiresAt now : Value) : Except Fault Bool :=
  Fault.ofOrder (Value.relate .atLeast now expiresAt)

/-- Whether an entry has expired. -/
def Entry.isExpired (entry : Entry) (now : Instant) : Bool :=
  hasExpired entry.expiresAt now.toSeconds

/-- The entry of a content that expires at the given second. -/
def Entry.ofContent (content : String) (expiresAt : Binary64) : Entry :=
  let payload := Utf8.ofText content
  ⟨payload, expiresAt, Digest.Crc32.text payload⟩

/-- The content of an entry, if its payload matches its checksum. -/
def Entry.content (entry : Entry) (key : String) : Except Fault String :=
  if Digest.Crc32.text entry.payload = entry.checksum then
    match Utf8.toText? entry.payload with
    | some content => .ok content
    | none => .error (.host .undecodable)
  else .error (.cache (.text key) .corrupt)

/-- A cache in memory. -/
abbrev Shelf := Table String Entry

namespace Shelf

/-- Whether there is a live entry. -/
def has (shelf : Shelf) (now : Instant) (key : String) : Bool :=
  match shelf.get? key with
  | some entry => !entry.isExpired now
  | none => false

/-- The content of a live entry, and the shelf after reading it. -/
def get (shelf : Shelf) (now : Instant) (key : String) : Except Fault String × Shelf :=
  match shelf.get? key with
  | some entry =>
    if entry.isExpired now then (.error (.cache (.text key) .expired), shelf.erase key)
    else (entry.content key, shelf)
  | none => (.error (.cache (.text key) .notFound), shelf)

/-- Store a content. -/
def put (shelf : Shelf) (now : Instant) (key content : String) (lifetime : Value) :
    Except Fault Shelf := do
  return shelf.insert key (Entry.ofContent content (← expirySecond now lifetime))

/-- Replace a stored payload and keep its expiry and its checksum. -/
def tamper (shelf : Shelf) (key : String) (payload : Bytes) : Shelf :=
  match shelf.get? key with
  | some entry => shelf.insert key { entry with payload }
  | none => shelf

end Shelf

end PageBlocks.Cache
