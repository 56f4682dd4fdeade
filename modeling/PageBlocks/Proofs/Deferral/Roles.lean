import PageBlocks.Body.Evaluation
import PageBlocks.Proofs.Deferral.Layout
import PageBlocks.Site.Directive

/-!
# Bodies that take no text apart

What a body may do with texts that hold tags: print them, print them with other text, have them
escaped, and let names stand for them that are used for nothing else. A name has a role that says so
(`Role`), and whether a body keeps to the roles can be checked (`Item.isTame`). A body that does
never loops over such a text and never hands one to a directive other than one that escapes it.

The roles of directives are those of `roleOf`. Directives that keep output in the cache as it is are
barred: whoever reads such an entry takes it for output without tags.
-/

set_option autoImplicit false

namespace PageBlocks

/-- How a body may use a name. -/
inductive Role where
  /-- The name stands for data without STX. -/
  | clean
  /-- The name stands for a text that may have tags, or for something that gives such a text when it
  is called. -/
  | tame
  /-- The name stands for a directive that escapes its first argument. -/
  | escaping
  /-- The name is not used. -/
  | barred
  deriving DecidableEq

/-- The role of a directive's name. -/
def Directive.role : Directive → Role
  | openBlock | openBefore | openBehind | closeBlock | extendPage | includePage | blockOutput
  | parentContent | inserter | setVariable | setOption | deferFragment | freshFetch => .tame
  | markupBlock transforms | transformText transforms =>
    if transforms.get? "escape" = some .escape then .escaping else .barred
  | _ => .barred

/-- The roles of names where some directives are there, and some other names may stand for what
bodies call and for what calls give. -/
def roleOf (directives : Table String Directive) (loose : List String) (name : String) : Role :=
  match directives.get? name with
  | some directive => directive.role
  | none => if loose.contains name then .tame else .clean

namespace Body

namespace Expr

mutual

/-- Whether an expression has a clean value. -/
def isClean (role : String → Role) : Expr → Bool
  | literal v => v.isClean
  | name s => role s = .clean
  | call f arguments named =>
    f.isClean role && areClean role arguments && areNamedClean role named
  | join parts => areClean role parts
  | list items => areClean role items
  | map entries => areEntriesClean role entries

/-- Whether all expressions have clean values. -/
def areClean (role : String → Role) : List Expr → Bool
  | [] => true
  | e :: rest => e.isClean role && areClean role rest

/-- Whether all named arguments have clean names and values. -/
def areNamedClean (role : String → Role) : List (String × Expr) → Bool
  | [] => true
  | (word, e) :: rest =>
    (Value.text word).isClean && e.isClean role && areNamedClean role rest

/-- Whether all keys and values of map entries are clean. -/
def areEntriesClean (role : String → Role) : List (Expr × Expr) → Bool
  | [] => true
  | (k, e) :: rest => k.isClean role && e.isClean role && areEntriesClean role rest

end

/-- Whether an expression names the transform that escapes. -/
def isEscape : Expr → Bool
  | literal (.text s) => s = "escape"
  | _ => false

/-- Whether an expression is the name of a directive that escapes its first argument. -/
def isEscaping (role : String → Role) : Expr → Bool
  | name s => role s = .escaping
  | _ => false

mutual

/-- Whether an expression has a value that is clean, a text that was put together from whole tags,
or something to call. -/
def isTame (role : String → Role) : Expr → Bool
  | literal v => v.isClean
  | name s => role s = .clean || role s = .tame
  | call f arguments named =>
    (f.isTame role && areClean role arguments && areNamedClean role named)
      || (f.isEscaping role && isTameFirst role arguments
        && named.all fun binding => (Value.text binding.1).isClean && binding.2.isEscape)
  | join parts => areTame role parts
  | list items => areClean role items
  | map entries => areEntriesClean role entries

/-- Whether all expressions have such values. -/
def areTame (role : String → Role) : List Expr → Bool
  | [] => true
  | e :: rest => e.isTame role && areTame role rest

/-- Whether the first of some arguments has such a value and the others name the transform that
escapes. -/
def isTameFirst (role : String → Role) : List Expr → Bool
  | [] => false
  | e :: rest => e.isTame role && rest.all isEscape

end

end Expr

namespace Item

mutual

/-- Whether an item keeps to the roles of names. -/
def isTame (role : String → Role) : Item → Bool
  | text s => (Value.text s).isClean
  | emit e => e.isTame role
  | bind name e => e.isClean role || (role name = .tame && e.isTame role)
  | forget _ => true
  | each _ source items => source.isClean role && areTame role items
  | branch arms otherwise => areArmsTame role arms && areTame role otherwise

/-- Whether all items keep to the roles of names. -/
def areTame (role : String → Role) : List Item → Bool
  | [] => true
  | item :: rest => item.isTame role && areTame role rest

/-- Whether all conditions and the items behind them keep to the roles of names. -/
def areArmsTame (role : String → Role) : List (Expr × List Item) → Bool
  | [] => true
  | (condition, items) :: rest =>
    condition.isTame role && areTame role items && areArmsTame role rest

end

end Item

end Body

namespace Deferral

open PageBlocks.Body

/-! ## Values and scopes -/

/-- A value that is clean, a text that was put together from whole tags, or bound to a page as a
body may call it. -/
inductive Tame (directives : Table String Directive) (tags : Bool) (p : Nat) : Value → Prop where
  | clean {v : Value} (h : v.isClean = true) : Tame directives tags p v
  | text {s : String} (h : Laid tags s.toList) : Tame directives tags p (.text s)
  | directive {name : String} {directive : Directive} (h : directives.get? name = some directive)
      (hRole : directive.role = .tame) : Tame directives tags p (.directive p name)
  | inserter {template : Value} (h : template.isClean = true) :
      Tame directives tags p (.inserter p template)

/-- Whether a name with a role may stand for a value. -/
def Fits (directives : Table String Directive) (tags : Bool) (p : Nat) (name : String) (v : Value) :
    Role → Prop
  | .clean => v.isClean = true
  | .tame => Tame directives tags p v
  | .escaping => v.isClean = true ∨ v = .directive p name
  | .barred => True

/-- Whether all names of a scope stand for values that fit their roles. -/
def ScopeFits (directives : Table String Directive) (role : String → Role) (tags : Bool) (p : Nat)
    (scope : Scope) : Prop :=
  ∀ entry ∈ scope, Fits directives tags p entry.1 entry.2 (role entry.1)

section Scopes

variable {directives : Table String Directive} {role : String → Role} {tags more : Bool} {p : Nat}
  {name : String} {v : Value} {scope : Scope}

theorem Tame.mono (h : Tame directives tags p v) (hMore : tags = true → more = true) :
    Tame directives more p v := by
  cases h with
  | clean h => exact .clean h
  | text h => exact .text (h.mono hMore)
  | directive h hRole => exact .directive h hRole
  | inserter h => exact .inserter h

/-- The printed form of a tame value is laid out. -/
theorem Tame.print (h : Tame directives tags p v) : Laid tags v.print.toList := by
  cases h with
  | clean h => exact .of_clean (clean_print h)
  | text h => exact h
  | directive h hRole =>
    have hClean : Clean "<function>".toList := by decide
    exact .of_clean hClean
  | inserter h =>
    have hClean : Clean "<function>".toList := by decide
    exact .of_clean hClean

theorem Fits.mono {r : Role} (h : Fits directives tags p name v r)
    (hMore : tags = true → more = true) : Fits directives more p name v r := by
  cases r with
  | clean => exact h
  | tame => exact Tame.mono h hMore
  | escaping => exact h
  | barred => trivial

/-- Every name may stand for clean data. -/
theorem fits_of_isClean (r : Role) (h : v.isClean = true) : Fits directives tags p name v r := by
  cases r with
  | clean => exact h
  | tame => exact .clean h
  | escaping => exact .inl h
  | barred => trivial

namespace ScopeFits

theorem mono (h : ScopeFits directives role tags p scope) (hMore : tags = true → more = true) :
    ScopeFits directives role more p scope :=
  fun entry hMem => (h entry hMem).mono hMore

theorem get? (h : ScopeFits directives role tags p scope) (hFound : scope.get? name = some v) :
    Fits directives tags p name v (role name) :=
  h (name, v) (Table.mem_of_get?_eq_some hFound)

theorem insert (h : ScopeFits directives role tags p scope)
    (hFits : Fits directives tags p name v (role name)) :
    ScopeFits directives role tags p (scope.insert name v) := by
  intro entry hMem
  rcases Table.eq_or_mem_of_mem_insert hMem with rfl | hOld
  · exact hFits
  · exact h entry hOld

theorem erase (h : ScopeFits directives role tags p scope) (names : List String) :
    ScopeFits directives role tags p (names.foldl Table.erase scope) := by
  induction names generalizing scope with
  | nil => exact h
  | cons name names ih => exact ih fun entry hMem => h entry (Table.mem_of_mem_erase hMem)

end ScopeFits

end Scopes

end Deferral

end PageBlocks
