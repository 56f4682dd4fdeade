import PageBlocks.Cache.Lifetime
import PageBlocks.Locator
import PageBlocks.Number.Reading
import PageBlocks.Text.Blank

/-!
# Settings

The settings of a site: search directories, whether to cache, where, and for how long. Values that
are given explicitly win over those of the environment, and those over the defaults.
-/

set_option autoImplicit false

namespace PageBlocks

/-- Settings that are given explicitly. -/
structure Settings.Given where
  paths : Option (List String) := none
  cacheEnabled : Option Bool := none
  cacheFolder : Option String := none
  lifetime : Option Value := none

/-- The settings of a site. -/
structure Settings where
  paths : List Path
  cacheEnabled : Bool
  cacheFolder : Option Path
  lifetime : Value

namespace Settings

/-- The texts between colons that are not empty; `part` is the text being read, last character
first. -/
def splitColons (part : List Char) : List Char → List String
  | [] => if part.isEmpty then [] else [String.ofList part.reverse]
  | c :: rest =>
    if c = ':' then
      (if part.isEmpty then [] else [String.ofList part.reverse]) ++ splitColons [] rest
    else splitColons (c :: part) rest

/-- The words that switch caching off. -/
def offWords : List String := ["0", "false", "no", "off", ""]

/-- Whether a switch is on: it is unless it says otherwise. -/
def isOn (raw : String) : Bool :=
  !offWords.contains (String.ofList (Text.lower (Text.trim raw.toList)))

/-- A text unless it is empty. -/
def unlessEmpty (s : String) : Option String := if s = "" then none else some s

/-- The lifetime that the environment asks for. -/
def lifetimeOf (raw : Option String) : Except Fault Value :=
  match raw with
  | none => .ok Cache.defaultLifetime
  | some raw =>
    match Number.Reading.int? raw with
    | some n => .ok (.int n)
    | none => .error (.value (.lifetime raw))

/-- Settings from what is given and an environment. -/
def ofEnvironment (environment : Table String String) (given : Given) : Except Fault Settings := do
  let paths := given.paths.getD
    (splitColons [] ((environment.get? "STRATA_TEMPLATE_PATH").getD "").toList)
  let cacheEnabled := given.cacheEnabled.getD
    (((environment.get? "STRATA_CACHE").map isOn).getD true)
  let folder := match given.cacheFolder with
    | some folder => some folder
    | none => environment.get? "STRATA_CACHE_DIR"
  let lifetime ← match given.lifetime with
    | some lifetime => pure lifetime
    | none => lifetimeOf (environment.get? "STRATA_CACHE_TTL")
  -- the lifetime is looked at first, so a bad one wins over an unknown home directory
  let paths ← Locator.expandAll paths
  let cacheFolder ← match folder.bind unlessEmpty with
    | some folder => some <$> Locator.expand (Path.ofText folder)
    | none => pure none
  return { paths, cacheEnabled, cacheFolder, lifetime }

end Settings

end PageBlocks
