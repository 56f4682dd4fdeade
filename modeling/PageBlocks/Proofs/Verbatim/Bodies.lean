import PageBlocks.Proofs.Upkeep.Calls

/-!
# Bodies that defer nothing

A body that uses no directive that defers, and none that has a say in how its page is cached but for
options that are set to values that can be read off, leaves its page static unless an output that it
includes marks it. Any data may stand in its variables, texts that look like tags among it.
-/

set_option autoImplicit false

namespace PageBlocks

/-- Whether a directive neither defers anything nor has a say in how its page is cached. Directives
that include a page are let in or left out. -/
def Directive.isInert (including : Bool) : Directive → Bool
  | .openBlock | .openBefore | .openBehind | .closeBlock | .extendPage | .blockOutput
  | .parentContent | .setVariable | .markupBlock _ | .transformText _ | .lightBlock _ | .lightText _
  | .wrap | .writeText => true
  | .includePage | .inserter => including
  | _ => false

/-- Whether a name stands for nothing that defers. -/
def isInertName (directives : Table String Directive) (including : Bool) (name : String) : Bool :=
  match directives.get? name with
  | some directive => directive.isInert including
  | none => true

namespace Value

mutual

/-- Whether a value is data, as it comes from outside, or holds nothing callable that defers. -/
def isInert (directives : Table String Directive) (including : Bool) : Value → Bool
  | list items | tuple items => areInert directives including items
  | map entries => areInertEntries directives including entries
  | directive _ name => isInertName directives including name
  | inserter _ _ => including
  | _ => true

/-- Whether all values are inert. -/
def areInert (directives : Table String Directive) (including : Bool) : List Value → Bool
  | [] => true
  | item :: rest => isInert directives including item && areInert directives including rest

/-- Whether all keys and values are inert. -/
def areInertEntries (directives : Table String Directive) (including : Bool) :
    List (Value × Value) → Bool
  | [] => true
  | (key, value) :: rest =>
    isInert directives including key && isInert directives including value
      && areInertEntries directives including rest

end

end Value

namespace Verbatim

open PageBlocks.Body PageBlocks.Running PageBlocks.Site PageBlocks.Upkeep

/-! ## Bodies that defer nothing -/

/-- Whether a value asks for no cache mode, or for one that does not have tags resolved. -/
def isModest (v : Value) : Bool :=
  match modeOf v with
  | .ok .dynamic => false
  | _ => true

/-- Whether an expression is a literal value of this kind. -/
def isModestLiteral (fits : Value → Bool) : Expr → Bool
  | .literal v => fits v && isModest v
  | _ => false

/-- Whether an expression sets an option by name to a value that can be read off: it is not the
cache mode in which tags are resolved. -/
def setsModestly (directives : Table String Directive) (fits : Value → Bool) : Expr → Bool
  | .call (.name s) arguments named =>
    match directives.get? s with
    | some .setOption => arguments.all (isModestLiteral fits)
      && named.all fun binding => fits (.text binding.1) && isModestLiteral fits binding.2
    | _ => false
  | _ => false

/-- The terms of a site whose bodies defer nothing. -/
def terms (settings : Context) (including : Bool) : Terms where
  directives := settings.directives
  cache := settings.cache
  fits := Value.isInert settings.directives including
  modes := fun mode => mode ≠ .dynamic
  tracks := including

/-- What bodies that defer nothing use: inert values, the names of inert directives, and options
that are set to modest values. -/
def rules (settings : Context) (including : Bool) : Rules where
  fits := Value.isInert settings.directives including
  free := isInertName settings.directives including
  special := setsModestly settings.directives (Value.isInert settings.directives including)

/-- Whether the bodies of all templates of a site defer nothing, and its variables call nothing that
does. -/
structure DefersNothing (start : World) (including : Bool) : Prop where
  bodies : ∀ place items, bodyAt start.files place = .ok items →
    Item.allKeep (rules start.settings including) items = true
  globals : BindingsFit (Value.isInert start.settings.directives including) start.globals

section Terms

variable {settings : Context} {including : Bool} {directives : Table String Directive}

theorem areInert_iff {items : List Value} :
    Value.areInert directives including items = true
      ↔ ∀ v ∈ items, v.isInert directives including = true := by
  induction items with
  | nil => simp [Value.areInert]
  | cons item rest ih => simp [Value.areInert, ih]

theorem areInertEntries_iff {entries : List (Value × Value)} :
    Value.areInertEntries directives including entries = true
      ↔ BindingsFit (Value.isInert directives including) entries := by
  induction entries with
  | nil => simp [Value.areInertEntries, BindingsFit]
  | cons entry rest ih =>
    obtain ⟨key, value⟩ := entry
    simp only [Value.areInertEntries, Bool.and_eq_true, ih, BindingsFit, List.forall_mem_cons]

theorem closed_isInert : Closed (Value.isInert directives including) where
  null := rfl
  missing := rfl
  int _ := rfl
  range _ _ _ := rfl
  builtIn _ := rfl
  counter _ _ := rfl
  list _ := areInert_iff
  tuple _ := areInert_iff.mp
  map _ := areInertEntries_iff
  character _ _ _ _ := rfl
  print _ _ := rfl
  join _ _ := rfl

theorem sound_terms : (terms settings including).Sound where
  closed := closed_isInert
  text _ := rfl
  inserter _ _ := rfl
  static := rfl
  directive p name directive hFits hFound := by
    have hInert : directive.isInert including = true := by
      have hName : isInertName settings.directives including name = true := hFits
      have hFoundName : settings.directives.get? name = some directive := hFound
      rwa [isInertName, hFoundName] at hName
    cases directive <;> first | rfl | exact hInert | cases hInert

/-- Literals of one kind have values of that kind, and nothing else comes of evaluating them. -/
theorem upholds_evalAll_modest {fits : Value → Bool} {I : World → Prop} {handler : Handler SiteM}
    {scope : Scope} {es : List Expr} (h : es.all (isModestLiteral fits) = true) :
    Upholds I (evalAll handler scope es) fun values =>
      ∀ v ∈ values, fits v = true ∧ isModest v = true := by
  induction es with
  | nil =>
    rw [evalAll]
    exact upholds_pure fun _ hMem => absurd hMem List.not_mem_nil
  | cons e rest ih =>
    rw [List.all_cons, Bool.and_eq_true] at h
    rw [evalAll]
    have hLiteral :
        Upholds I (e.eval handler scope) fun v => fits v = true ∧ isModest v = true := by
      cases e with
      | literal v =>
        rw [Expr.eval]
        exact upholds_pure (Bool.and_eq_true_iff.mp h.1)
      | _ => cases h.1
    refine hLiteral.bind fun v hValue => (ih h.2).bind fun values hValues => upholds_pure ?_
    exact List.forall_mem_cons.mpr ⟨hValue, hValues⟩

theorem upholds_evalNamed_modest {fits : Value → Bool} {I : World → Prop} {handler : Handler SiteM}
    {scope : Scope} {named : List (String × Expr)}
    (h : (named.all fun binding =>
      fits (.text binding.1) && isModestLiteral fits binding.2) = true) :
    Upholds I (evalNamed handler scope named) fun bound =>
      NamedFit fits bound ∧ ∀ binding ∈ bound, isModest binding.2 = true := by
  induction named with
  | nil =>
    rw [evalNamed]
    exact upholds_pure ⟨fun _ hMem => absurd hMem List.not_mem_nil,
      fun _ hMem => absurd hMem List.not_mem_nil⟩
  | cons binding rest ih =>
    obtain ⟨word, e⟩ := binding
    rw [List.all_cons, Bool.and_eq_true, Bool.and_eq_true] at h
    rw [evalNamed]
    have hLiteral :
        Upholds I (e.eval handler scope) fun v => fits v = true ∧ isModest v = true := by
      cases e with
      | literal v =>
        rw [Expr.eval]
        exact upholds_pure (Bool.and_eq_true_iff.mp h.1.2)
      | _ => cases h.1.2
    refine hLiteral.bind fun v hValue => (ih h.2).bind fun bound hBound => upholds_pure ?_
    exact ⟨List.forall_mem_cons.mpr ⟨⟨h.1.1, hValue.1⟩, hBound.1⟩,
      List.forall_mem_cons.mpr ⟨hValue.2, hBound.2⟩⟩

/-- Setting an option to a modest value keeps all pages from becoming dynamic by it. -/
theorem upholds_setsModestly {w₀ : World} {prepare : Nat → SiteM Unit} {p : Nat} {page : Page}
    {e : Expr} {scope : Scope} {files : FileTree Source}
    (hPrepare : Prepares (terms settings including) files prepare) (hFiles : w₀.files = files)
    (hSets : setsModestly settings.directives
      (Value.isInert settings.directives including) e = true)
    (hScope : ScopeFits (rules settings including) p scope) :
    Upholds (Kept (terms settings including) w₀) (e.eval (handlerOf prepare p page) scope) fun v =>
      v.isInert settings.directives including = true := by
  unfold setsModestly at hSets
  split at hSets
  · rename_i s arguments named
    split at hSets
    · rename_i hFound
      rw [Bool.and_eq_true] at hSets
      rw [Expr.eval]
      split
      · exact upholds_throw _
      rw [Expr.eval, pure_bind]
      refine (upholds_evalAll_modest hSets.1).bind fun values hValues => ?_
      refine (upholds_evalNamed_modest hSets.2).bind fun bound hBound => ?_
      have hFit : ∀ v ∈ values, (terms settings including).fits v = true :=
        fun v hMem => (hValues v hMem).1
      have hModestMode : ∀ v, isModest v = true → ∀ m, modeOf v = .ok m →
          (terms settings including).modes m = true := by
        intro v hModest m hMode
        rw [isModest, hMode] at hModest
        cases m with
        | dynamic => cases hModest
        | _ => rfl
      have hNoDefault : ∀ q ∈ parameters .setOption, ∀ v, q.default = some v →
          isModest v = true := by
        intro q hMem v hDefault
        simp only [parameters, List.mem_cons, List.not_mem_nil, or_false] at hMem
        rcases hMem with rfl | rfl <;> cases hDefault
      have hSet : ∀ q, Upholds (Kept (terms settings including) w₀)
          (call prepare (.directive q s) values bound) fun v =>
            v.isInert settings.directives including = true := by
        intro q
        refine upholds_callByName fun directive hDirective => ?_
        have hSame : settings.directives.get? s = some directive := hDirective
        rw [hFound] at hSame
        cases hSame
        refine Upholds.bind_check fun found hArguments => ?_
        obtain ⟨hLength, hAll⟩ := forall_mem_bindArguments (P := fun v => isModest v = true)
          hNoDefault (fun v hMem => (hValues v hMem).2) (fun binding hMem => hBound.2 binding
            ((Table.mem_or_mem_of_mem_merge hMem).resolve_left List.not_mem_nil)) hArguments
        obtain ⟨option, value, rfl⟩ : ∃ a b, found = [a, b] :=
          ⟨_, _, List.eq_getElem_of_length_eq_two _ hLength⟩
        have hModes := hModestMode value (hAll value (by simp))
        exact (upholds_setOption_of (fun m hMode => upholds_mode (hModes m hMode)) option).seq
          fun _ => upholds_pure rfl
      cases hCallee : scope.get? s with
      | none =>
        -- the name is not bound, and calling what is missing fails
        split
        · exact upholds_throw _
        · refine upholds_call sound_terms hPrepare hFiles ?_ hFit hBound.1
          exact closed_isInert.unbound _
      | some v =>
        rcases hScope (s, v) (Table.mem_of_get?_eq_some hCallee) with hFits | ⟨-, hOwn⟩
        · -- a variable hides the directive
          split
          · exact upholds_throw _
          · exact upholds_call sound_terms hPrepare hFiles hFits hFit hBound.1
        · obtain rfl : v = .directive p s := hOwn
          exact hSet p
    · cases hSets
  · cases hSets

theorem serve_rules (files : FileTree Source) :
    Rules.Serve (rules settings including) (terms settings including) files where
  fits := rfl
  free _ _ _ hFree := hFree
  special hPrepare hFiles hSets hScope := upholds_setsModestly hPrepare hFiles hSets hScope
  shown _ := rfl

theorem prepares_of_defersNothing {start : World} (h : DefersNothing start including) :
    Prepares (terms start.settings including) start.files Site.prepare :=
  prepares sound_terms (serve_rules _) h.bodies

end Terms

end Verbatim

end PageBlocks
