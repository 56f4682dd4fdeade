import PageBlocks.Fault

/-!
# Faults from their arguments

What a fault of each kind is made of, if its parts are given as values. Parts that a message prints
may be any values. The places that were searched and the pages of a chain are the items of any value
that offers some to a loop, and each kind takes a fixed number of parts, except for the two whose
message is made of the arguments alone.
-/

set_option autoImplicit false

namespace PageBlocks.Fault

/-- The printed items of a value that offers some. -/
def printedItems (v : Value) : Except Fault (List String) :=
  match v.elements? with
  | some items => .ok (items.map Value.print)
  | none => .error (host .type)

/-- The kind of blocks that a value names. -/
def blockKindOf (v : Value) : Except Fault BlockKind :=
  match v with
  | .text s =>
    match BlockKind.ofName? s with
    | some kind => .ok kind
    | none => .error (value (.blockKind v))
  | _ => .error (value (.blockKind v))

/-- The fault of a kind with the given parts. -/
def ofArguments : Kind → List Value → Except Fault Fault
  | .general, arguments => .ok (general arguments)
  | .deferredFragment, arguments => .ok (fragment (.other arguments))
  | .templateNotFound, [name] => .ok (templateNotFound name [])
  | .templateNotFound, [name, searched] => do
    return templateNotFound name (← printedItems searched)
  | .structural, [path, message] => .ok (misplaced path.print message.print)
  | .blockStack, [path, message] => .ok (blockStack path.print (.other message.print))
  | .blockTypeMismatch, [path, block, existing, conflicting] => do
    return blockTypeMismatch path.print block (← blockKindOf existing) (← blockKindOf conflicting)
  | .extendCycle, [chain] => do ofCycle? (← printedItems chain)
  | .invalidCacheMode, [requested] => .ok (invalidCacheMode requested)
  | .cache, [key] => .ok (cache key .unavailable)
  | .cacheEntryNotFound, [key] => .ok (cache key .notFound)
  | .cacheEntryExpired, [key] => .ok (cache key .expired)
  | .cacheEntryCorrupt, [key] => .ok (cache key .corrupt)
  | .cacheUnavailable, [path] => .ok (cacheUnavailable path.print)
  | _, _ => .error (host .type)

end PageBlocks.Fault
