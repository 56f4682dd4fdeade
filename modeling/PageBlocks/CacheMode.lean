/-!
# Cache modes

How the finished output of a page is cached: as it is, with its deferred fragments still encoded,
or not at all.
-/

set_option autoImplicit false

namespace PageBlocks

/-- How a page's output is cached. -/
inductive CacheMode where
  | static
  | dynamic
  | disabled
  deriving DecidableEq, Repr

namespace CacheMode

/-- The name under which a mode is requested. -/
def name : CacheMode → String
  | static => "static"
  | dynamic => "dynamic"
  | disabled => "disabled"

/-- The name in capitals, by which a mode prints itself. -/
def label : CacheMode → String
  | static => "STATIC"
  | dynamic => "DYNAMIC"
  | disabled => "DISABLED"

/-- The mode of a name. -/
def ofName? (s : String) : Option CacheMode :=
  [static, dynamic, disabled].find? fun mode => mode.name == s

theorem ofName?_name (mode : CacheMode) : ofName? mode.name = some mode := by
  cases mode <;> decide

end CacheMode

end PageBlocks
