import PageBlocks.Block.Kind
import PageBlocks.Fault.Kind
import PageBlocks.Value

/-!
# Faults

Everything that can go wrong, by cause. `Fault.message` words the causes that have a message of
their own; the others are reported by their kind alone.
-/

set_option autoImplicit false

namespace PageBlocks

/-- What is wrong with an entry that a cache was asked for. -/
inductive CacheFault where
  | unavailable
  | notFound
  | expired
  | corrupt
  deriving DecidableEq

/-- What is wrong with the nesting of a page's blocks. -/
inductive StackFault where
  /-- A block was closed and none was open. -/
  | noOpenBlock
  /-- The body ended with these blocks open, outermost first. -/
  | unclosed (names : List Value)
  | other (text : String)

/-- What is wrong with a deferred fragment. -/
inductive FragmentFault where
  /-- A kind that is not registered, with the names of those that are. -/
  | unknown (kind : Value) (available : List String)
  | unserialisable (kind : Value)
  /-- The text between the markers of a tag is no payload. -/
  | badTag (payload : String)
  | other (arguments : List Value)

/-- Requests that name something impossible. -/
inductive ValueFault where
  | blockId (text : String)
  | placeholder (text : String)
  /-- A markup block without a transform. -/
  | noTransform (block : Value)
  | unknownTransform (name : Value) (available : List String)
  | reservedName
  | option (name : Value)
  /-- An item in a series of pairs that is no pair. -/
  | pairLength (index length : Nat)
  /-- A value that names no kind of blocks. -/
  | blockKind (name : Value)
  /-- A lifetime setting that is no integer. -/
  | lifetime (raw : String)
  /-- A lifetime that is not a number. -/
  | lifetimeNotANumber
  /-- A range whose step is zero. -/
  | noStep
  /-- A time format with a null character in it. -/
  | nullInFormat
  /-- A fragment whose own computation failed. -/
  | fragmentFailed

/-- The faults of the surroundings and of wrongly typed calls, which carry no message. -/
inductive HostFault where
  /-- A value of the wrong type, wrong arguments, or a value that cannot be called. -/
  | type
  /-- A value without the operation that was asked of it. -/
  | attribute
  /-- A body calls a name that is not bound. -/
  | unboundName
  /-- The same in a body that tolerates unbound names otherwise. -/
  | undefinedName
  /-- A capture is needed and none is open. -/
  | noCapture
  /-- An instant outside of the calendar. -/
  | outOfRange
  /-- The final renaming of a written file failed. -/
  | renameRefused
  /-- A file was expected where a directory is. -/
  | isDirectory
  /-- A response whose status is not a success. -/
  | httpStatus
  | noConnection
  | tooManyRedirects
  /-- An address that is not well formed. -/
  | badAddress
  /-- A response that sends to an address that is not well formed. -/
  | badRedirect
  /-- A response that sends to an address with characters beyond ASCII. -/
  | unencodable
  /-- The home directory of an unknown user. -/
  | noHome
  /-- Bodies nest beyond the limit. -/
  | tooDeep
  /-- A template source that is not well formed. -/
  | malformedSource
  /-- A template source in which a loop binds the name of its own counter. -/
  | boundCounter
  /-- A template source in which loops and branches nest too deep. -/
  | deepNesting
  /-- A template source in which loops nest too deep or a call repeats an argument. -/
  | refusedSource
  /-- A stored payload with a valid checksum that is no text. -/
  | undecodable
  deriving DecidableEq

/-- A cause of failure. -/
inductive Fault where
  | general (arguments : List Value)
  | templateNotFound (name : Value) (searched : List String)
  | misplaced (path message : String)
  | blockTypeMismatch (path : String) (block : Value) (existing conflicting : BlockKind)
  /-- A chain of pages, each of which extends the next one, that comes back to one of its own. -/
  | extendCycle (first : String) (rest : List String)
  | blockStack (path : String) (cause : StackFault)
  | invalidCacheMode (requested : Value)
  | cache (key : Value) (cause : CacheFault)
  | cacheUnavailable (path : String)
  | fragment (cause : FragmentFault)
  | value (cause : ValueFault)
  | host (cause : HostFault)

/-- What is wrong with an entry, in words. -/
def CacheFault.words : CacheFault → String
  | .unavailable => "unavailable"
  | .notFound => "not found"
  | .expired => "expired"
  | .corrupt => "failed checksum validation"

namespace Fault

/-- The fault of asking a value for an operation that only texts have. What an unbound name stands
for reports the missing name instead. -/
def withoutOperation : Value → Fault
  | .missing => host .undefinedName
  | _ => host .attribute

/-- The fault of comparing values that have no order. -/
def ofNoOrder : Value.NoOrder → Fault
  | .kinds => host .type
  | .missing => host .undefinedName

/-- The result of a comparison, or its fault. -/
def ofOrder {α : Type} (result : Except Value.NoOrder α) : Except Fault α :=
  result.mapError ofNoOrder

/-- A cycle from its chain; an empty chain has no first page to report. -/
def ofCycle? : List String → Except Fault Fault
  | [] => .error (host .noCapture)
  | first :: rest => .ok (extendCycle first rest)

/-- Texts with a comma and a space between them. -/
def enumerate (items : List String) : String := ", ".intercalate items

/-- A list of names in ascending order, each one quoted, in brackets. -/
def bracketed (names : List String) : String :=
  (Value.list ((names.mergeSort fun a b => decide (a ≤ b)).map .text)).quoted

/-- The text of a fault that is constructed with arguments of its own. -/
def argumentsText : List Value → String
  | [] => ""
  | [argument] => argument.print
  | arguments => (Value.tuple arguments).quoted

/-- The message of an impossible request. -/
def valueMessage : ValueFault → String
  | .blockId s => "invalid block id " ++ Text.Quoted.text s
  | .placeholder s => "not a block placeholder: " ++ Text.Quoted.text s
  | .noTransform block => "markup block " ++ block.quoted ++ " requires a transform"
  | .unknownTransform name available =>
    "Unknown markup transform " ++ name.quoted ++ ". Available: " ++ bracketed available
  | .reservedName => "block name '.' is reserved"
  | .option name => "invalid option " ++ name.quoted
  | .pairLength index length =>
    "dictionary update sequence element #" ++ Number.Decimal.text index ++ " has length "
      ++ Number.Decimal.text length ++ "; 2 is required"
  | .blockKind name => name.quoted ++ " is not a valid BlockKind"
  | .lifetime raw =>
    "STRATA_CACHE_TTL must be an integer number of seconds, got " ++ Text.Quoted.text raw
  | .lifetimeNotANumber => "cannot convert float NaN to integer"
  | .noStep => "range() arg 3 must not be zero"
  | .nullInFormat => "embedded null character"
  | .fragmentFailed => "fragment failed"

/-- The message of a fault about deferred fragments. -/
def fragmentMessage : FragmentFault → String
  | .unknown kind available =>
    "Unknown deferred fragment " ++ kind.quoted ++ ". Available: " ++ bracketed available
  | .unserialisable kind =>
    "arguments for deferred fragment " ++ kind.quoted ++ " are not JSON serialisable"
  | .badTag payload => "invalid deferred fragment tag " ++ Text.Quoted.text payload
  | .other arguments => argumentsText arguments

/-- What is wrong with the nesting, in words. -/
def stackMessage : StackFault → String
  | .noOpenBlock => "end() called with no open block"
  | .unclosed names => "unclosed block(s) " ++ enumerate (names.map Value.quoted)
  | .other text => text

/-- The place of a structural fault. -/
def inTemplate (message path : String) : String := message ++ " in template '" ++ path ++ "'"

/-- The message of a fault. -/
def message : Fault → String
  | general arguments => argumentsText arguments
  | templateNotFound name [] => "template not found " ++ name.quoted
  | templateNotFound name searched =>
    "template not found " ++ name.quoted ++ " (searched: " ++ enumerate searched ++ ")"
  | misplaced path message => inTemplate message path
  | blockTypeMismatch path block existing conflicting =>
    inTemplate ("unable to extend block '" ++ block.print ++ "' (" ++ existing.name
      ++ ") with a block of a different kind (" ++ conflicting.name ++ ")") path
  | extendCycle first rest =>
    inTemplate ("circular extend chain " ++ " -> ".intercalate (first :: rest)) first
  | blockStack path cause => inTemplate (stackMessage cause) path
  | invalidCacheMode requested =>
    "invalid cache mode " ++ requested.quoted
      ++ "; must be one of 'static', 'dynamic' or 'disabled'"
  | cache key cause => "cache entry " ++ key.quoted ++ " " ++ cause.words
  | cacheUnavailable path => "template '" ++ path ++ "' does not have a cache instance"
  | fragment cause => fragmentMessage cause
  | value cause => valueMessage cause
  | host _ => ""

/-- The kind of a fault that the library defines. -/
def kind? : Fault → Option Kind
  | general _ => some .general
  | templateNotFound _ _ => some .templateNotFound
  | misplaced _ _ => some .structural
  | blockTypeMismatch _ _ _ _ => some .blockTypeMismatch
  | extendCycle _ _ => some .extendCycle
  | blockStack _ _ => some .blockStack
  | invalidCacheMode _ => some .invalidCacheMode
  | cache _ .unavailable => some .cache
  | cache _ .notFound => some .cacheEntryNotFound
  | cache _ .expired => some .cacheEntryExpired
  | cache _ .corrupt => some .cacheEntryCorrupt
  | cacheUnavailable _ => some .cacheUnavailable
  | fragment _ => some .deferredFragment
  | value _ | host _ => none

/-- Whether the message of a fault is part of its report. -/
def hasMessage : Fault → Bool
  | host _ => false
  | _ => true

end Fault

end PageBlocks
