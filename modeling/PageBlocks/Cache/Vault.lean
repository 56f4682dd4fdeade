import PageBlocks.Cache.Folder
import PageBlocks.Cache.Shelf

/-!
# Vaults

All caches of a run with the clock that they share: shelves by number and folders by name. Every
request to store something is noted, also one that fails. A lookup takes every fault of an entry
for a miss.
-/

set_option autoImplicit false

namespace PageBlocks.Cache

open PageBlocks.Number PageBlocks.Text PageBlocks.Time

/-- Which cache is meant. -/
inductive Ref where
  | shelf (number : Nat)
  | folder (name : String)
  deriving DecidableEq

/-- A request to store something. The lifetime is absent if it was left to the cache. -/
structure Deposit where
  key : String
  content : String
  lifetime : Option Value

/-- All caches of a run. -/
structure Vault where
  now : Instant
  shelves : List Shelf := []
  folders : Table String Folder := []
  /-- The deposits since they were last asked for, latest first. -/
  deposits : List Deposit := []

/-- A computation on the caches of a run that may fail and keeps what it changed. -/
abbrev VaultM := ExceptT Fault (StateM Vault)

namespace Vault

/-- A folder; one that was never written to is empty. -/
def folder (v : Vault) (name : String) : Folder := (v.folders.get? name).getD []

/-- A shelf. -/
def shelf (v : Vault) (number : Nat) : Shelf := v.shelves.getD number []

/-- Replace a folder. -/
def setFolder (v : Vault) (name : String) (folder : Folder) : Vault :=
  { v with folders := v.folders.insert name folder }

/-- Replace a shelf. -/
def setShelf (v : Vault) (number : Nat) (shelf : Shelf) : Vault :=
  { v with shelves := v.shelves.set number shelf }

/-- A vault with one more shelf, an empty one, and its reference. -/
def addShelf (v : Vault) : Ref × Vault :=
  (.shelf v.shelves.length, { v with shelves := v.shelves ++ [[]] })

end Vault

namespace Ref

/-- Whether a cache has a live entry. -/
def has (cache : Ref) (key : String) : VaultM Bool := do
  let v ← get
  match cache with
  | shelf n => return (v.shelf n).has v.now key
  | folder name => (v.folder name).has v.now key

/-- The content of a live entry. -/
def fetch (cache : Ref) (key : String) : VaultM String := do
  let v ← get
  match cache with
  | shelf n =>
    let (result, after) := (v.shelf n).get v.now key
    set (v.setShelf n after)
    result
  | folder name => (v.folder name).get v.now key

/-- The content of an entry, or nothing if it is missing, expired or corrupt. -/
def lookup (cache : Ref) (key : String) : VaultM (Option String) :=
  tryCatch (some <$> cache.fetch key) fun fault =>
    match fault with
    | .cache _ _ => pure none
    -- a fault of the surroundings is no miss
    | fault => throw fault

/-- Carry out a change of a folder. -/
def inFolder (name : String) (change : Folder.Change Unit) : VaultM Unit := do
  let v ← get
  let (result, after) := change.run (v.folder name)
  set (v.setFolder name after)
  result

/-- Note a deposit. -/
def note (deposit : Deposit) : VaultM Unit :=
  modify fun v => { v with deposits := deposit :: v.deposits }

/-- Store a content. -/
def put (cache : Ref) (key content : String) (lifetime : Option Value) : VaultM Unit := do
  -- the request is noted even if it fails below
  note ⟨key, content, lifetime⟩
  let v ← get
  let lifetime := lifetime.getD defaultLifetime
  match cache with
  | shelf n => set (v.setShelf n (← (v.shelf n).put v.now key content lifetime))
  | folder name =>
    inFolder name (Folder.put true (v.folder name).unusedDraw v.now key content lifetime)

/-- Remove an entry. -/
def delete (cache : Ref) (key : String) : VaultM Unit := do
  let v ← get
  match cache with
  | shelf n => set (v.setShelf n ((v.shelf n).erase key))
  | folder name => inFolder name (Folder.delete key)

/-- Remove all entries. -/
def clear (cache : Ref) : VaultM Unit :=
  modify fun v =>
    match cache with
    | shelf n => v.setShelf n []
    | folder name => v.setFolder name (v.folder name).clear

/-- The number of entries, live or not. -/
def size (cache : Ref) (v : Vault) : Nat :=
  match cache with
  | shelf n => (v.shelf n).length
  | folder name => (v.folder name).length

end Ref

end PageBlocks.Cache
