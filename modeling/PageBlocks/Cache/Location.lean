import PageBlocks.FileTree

/-!
# The default location of a cache folder

Where stored output goes if no folder is configured. It depends on the platform: the user's cache
folder by the platform's convention, and in it a folder of the application.
-/

set_option autoImplicit false

namespace PageBlocks.Cache

/-- A platform, as far as its convention for cache folders goes. -/
inductive Platform where
  | darwin
  | windows
  | other
  deriving DecidableEq

/-- The platform of a system name. -/
def Platform.ofName (s : String) : Platform :=
  if s = "Darwin" then darwin else if s = "Windows" then windows else other

/-- The cache folder below the home directory that is used where nothing else applies. -/
def hiddenFolder : Path := Path.home.join ⟨.none, [".cache"]⟩

/-- The user's cache folder. On other platforms than the two with a place of their own, a setting
that is not empty names it. -/
def userFolder {α : Type} (platform : Platform) (setting : Option String) (tree : FileTree α) :
    Path :=
  match platform with
  | .darwin => Path.home.join ⟨.none, ["Library", "Caches"]⟩
  | .windows =>
    let folder := Path.home.join ⟨.none, ["AppData", "Local"]⟩
    if tree.leadsSomewhere folder then folder else hiddenFolder
  | .other =>
    match setting with
    | none | some "" => hiddenFolder
    | some text => Path.ofText text

/-- The default cache folder. -/
def defaultFolder {α : Type} (platform : Platform) (setting : Option String)
    (tree : FileTree α) : Path :=
  (userFolder platform setting tree).join ⟨.none, ["strata", "render_cache"]⟩

end PageBlocks.Cache
