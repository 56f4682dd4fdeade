/-!
# Kinds of faults

The kinds of faults form a hierarchy: who handles one kind handles every kind below it. `lineage`
lists a kind and everything above it, the most general kind last.
-/

set_option autoImplicit false

namespace PageBlocks.Fault

/-- The kinds of faults that the library itself defines. -/
inductive Kind where
  | general
  | templateNotFound
  | structural
  | blockTypeMismatch
  | extendCycle
  | blockStack
  | invalidCacheMode
  | cache
  | cacheEntryNotFound
  | cacheEntryExpired
  | cacheEntryCorrupt
  | cacheUnavailable
  | deferredFragment
  deriving DecidableEq, Repr

namespace Kind

/-- All kinds. -/
def all : List Kind :=
  [general, templateNotFound, structural, blockTypeMismatch, extendCycle, blockStack,
    invalidCacheMode, cache, cacheEntryNotFound, cacheEntryExpired, cacheEntryCorrupt,
    cacheUnavailable, deferredFragment]

/-- The kind directly above. -/
def parent? : Kind → Option Kind
  | general => none
  | blockTypeMismatch | extendCycle | blockStack => some structural
  | cacheEntryNotFound | cacheEntryExpired | cacheEntryCorrupt => some cache
  | _ => some general

/-- A kind and the kinds above it; no kind is more than two steps below the most general one. -/
def lineage (k : Kind) : List Kind :=
  match k.parent? with
  | none => [k]
  | some p =>
    match p.parent? with
    | none => [k, p]
    | some q => [k, p, q]

end Kind

end PageBlocks.Fault
