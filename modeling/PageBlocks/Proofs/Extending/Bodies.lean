import PageBlocks.Proofs.Deferral.Values
import PageBlocks.Proofs.Extending.Records
import PageBlocks.Proofs.Progress.Calls

/-!
# Bodies that extend pages

What bodies may do that extend other pages and include none: they extend by calling a directive by
its name, and all other directives that stay with their page can be used like any value, in loops,
in branches and inside of expressions (`rules`). The record of the calls of such a body tells about
running it (`told_runBody`), and a cycle is reported by nothing but a call that extends the page
(`cycle_runBody`).
-/

set_option autoImplicit false

namespace PageBlocks

/-- Whether a directive stays with its page and gives nothing but texts and numbers. -/
def Directive.isHarmless : Directive → Bool
  -- the name of a block may be any key
  | .currentName => false
  | directive => Extending.staysHome directive

/-- Whether a name stands for no other directive. -/
def isHarmlessName (directives : Table String Directive) (name : String) : Bool :=
  match directives.get? name with
  | some directive => directive.isHarmless
  | none => true

/-- Whether a value is data or a harmless directive, or made of such values. -/
def Value.isHarmless (directives : Table String Directive) (v : Value) : Bool :=
  v.every fun
    | .directive _ name => isHarmlessName directives name
    | .inserter _ _ => false
    | _ => true

namespace Extending

open PageBlocks.Body PageBlocks.Deferral PageBlocks.Progress PageBlocks.Running PageBlocks.Site
  PageBlocks.Upkeep

/-! ## Rules -/

/-- The directives that are called by their names only. -/
def isCalledByName : Directive → Bool
  | .extendPage | .currentName => true
  | _ => false

/-- What bodies may use that call none of these. -/
def plainRules (directives : Table String Directive) : Rules where
  fits := Value.isHarmless directives
  free := isHarmlessName directives

/-- Whether an expression calls a directive of some kind by its name, with arguments that call none
like it. -/
def callsByName (directives : Table String Directive) (kind : Directive → Bool) : Expr → Bool
  | .call (.name s) arguments named =>
    (directives.get? s).any kind && Expr.allKeep (plainRules directives) arguments
      && Expr.allNamedKeep (plainRules directives) named
  | _ => false

/-- What bodies may use that extend pages and include none: to extend a page has no result, and the
name of the innermost open block can be printed. -/
def rules (directives : Table String Directive) : Rules where
  fits := Value.isHarmless directives
  free := isHarmlessName directives
  special := callsByName directives (· matches .extendPage)
  shown := callsByName directives (· matches .currentName)

/-- The terms of pages with such bodies. -/
def terms (directives : Table String Directive) : Progress.Terms where
  files := fun files => ∀ place items, bodyAt files place = .ok items →
    Item.allKeep (rules directives) items = true
  context := fun context => context.directives = directives
  fits := Value.isHarmless directives
  includes := false

section Terms

variable {directives : Table String Directive}

theorem closed_isHarmless : Closed (Value.isHarmless directives) where
  null := rfl
  missing := rfl
  int _ := rfl
  range _ _ _ := rfl
  builtIn _ := rfl
  counter _ _ := rfl
  list _ := everyItem_iff
  tuple _ := everyItem_iff.mp
  map _ := everyEntry_iff
  character _ _ _ _ := rfl
  print _ _ := rfl
  join _ _ := rfl

theorem sound_terms : (terms directives).Sound := ⟨closed_isHarmless, fun _ => rfl⟩

theorem allows_of_isHarmless {directive : Directive} (h : directive.isHarmless = true) :
    (terms directives).allows directive = true := by
  cases directive <;> first | rfl | cases h

theorem staysHome_of_isHarmless {directive : Directive} (h : directive.isHarmless = true) :
    staysHome directive = true := by
  cases directive <;> first | rfl | cases h

theorem allows_of_isCalledByName {directive : Directive} (h : isCalledByName directive = true) :
    (terms directives).allows directive = true := by
  cases directive <;> first | rfl | cases h

end Terms

/-! ## Results -/

/-- All results of a computation are of some kind. -/
def Results {α : Type} (x : SiteM α) (post : α → Prop) : Prop :=
  ∀ w a w', x.run w = (.ok a, w') → post a

section Results

variable {α β : Type} {post : β → Prop} {directives : Table String Directive} {p : Nat}

theorem results_pure {b : β} (h : post b) : Results (pure b : SiteM β) post := by
  intro w a w' hRun
  cases hRun
  exact h

theorem results_throw (fault : Fault) : Results (throw fault : SiteM β) post := nofun

theorem results_bind {x : SiteM α} {f : α → SiteM β} (h : ∀ a, Results (f a) post) :
    Results (x >>= f) post := by
  intro w b w' hRun
  obtain ⟨a, w₁, -, hNext⟩ := run_bind_eq_ok hRun
  exact h a w₁ b w' hNext

theorem results_map {x : SiteM α} {f : α → β} (h : ∀ a, post (f a)) : Results (f <$> x) post := by
  rw [map_eq_pure_bind]
  exact results_bind fun a => results_pure (h a)

theorem results_transformed (transforms : Table String Transform) (text transform : Value) :
    Results (transformed transforms text transform) fun v => v.isHarmless directives = true := by
  refine results_bind fun found w v w' hRun => ?_
  -- whatever is transformed, the result is a text
  unfold Transform.applyTo at hRun
  split at hRun <;> cases hRun <;> rfl

theorem results_deferFragment (kind : Value) (arguments : List Value) :
    Results (deferFragment p kind arguments) fun v => v.isHarmless directives = true :=
  results_bind fun _ => results_map fun _ => rfl

/-- A harmless directive gives a text or a number. -/
theorem results_carryOut {prepare : Nat → SiteM Unit} {directive : Directive}
    (h : directive.isHarmless = true) (values : List Value) :
    Results (carryOut prepare p directive values) fun v => v.isHarmless directives = true := by
  have hDone : ∀ {α : Type} (x : SiteM α), Results (do
      let _ ← x
      return done) fun v => v.isHarmless directives = true :=
    fun x => results_bind fun _ => results_pure rfl
  have hText : ∀ x : SiteM String,
      Results (Value.text <$> x) fun v => v.isHarmless directives = true :=
    fun x => results_map fun _ => rfl
  unfold carryOut
  split
  · exact hDone _
  · exact hDone _
  · exact hDone _
  · exact hDone _
  · exact hDone _
  · exact hText _
  · exact hText _
  · exact results_bind fun _ => results_pure rfl
  · cases h
  · exact hDone _
  · exact hDone _
  · exact results_bind fun _ => results_bind fun _ => hDone _
  · exact hText _
  · exact hText _
  · exact results_bind fun _ => results_bind fun _ => results_deferFragment _ _
  · exact hDone _
  · exact results_transformed _ _ _
  · exact hDone _
  · exact results_transformed _ _ _
  · exact results_bind fun _ => results_pure rfl
  · exact results_pure rfl
  · exact hDone _
  · exact results_bind fun _ => results_pure rfl
  · exact results_bind fun _ => results_pure rfl
  · exact hText _
  · cases h
  · exact results_bind fun _ => results_bind fun _ => results_pure rfl
  · exact results_bind fun _ => results_pure rfl
  · cases h
  · exact results_throw _

theorem results_callDirective {prepare : Nat → SiteM Unit} {directive : Directive}
    (h : directive.isHarmless = true) (arguments : List Value) (named : Table String Value) :
    Results (callDirective prepare p directive arguments named) fun v =>
      v.isHarmless directives = true := by
  unfold callDirective
  split
  · exact results_bind fun _ => results_deferFragment _ _
  · exact results_bind fun _ => results_bind fun _ => results_pure rfl
  · exact results_bind fun values => results_carryOut h values

theorem Upholds.results {I : World → Prop} {x : SiteM β} (h : Upholds I x fun _ => True)
    (hResults : Results x post) : Upholds I x post := by
  intro w hHolds
  rcases hRun : x.run w with ⟨fault | b, w'⟩
  · exact ends_of_run_error hRun ((h w hHolds).of_run_error hRun)
  · exact ends_of_run hRun ⟨hResults w b w' hRun, ((h w hHolds).of_run hRun).2⟩

end Results

/-! ## Calls -/

section Calls

variable {directives : Table String Directive} {w₀ w : World} {p : Nat}
  {prepare prepare' : Nat → SiteM Unit}

/-- A directive that stays with its page prepares no other one. -/
theorem carryOut_congr {directive : Directive} (h : staysHome directive = true)
    (values : List Value) :
    carryOut prepare p directive values = carryOut prepare' p directive values := by
  rw [carryOut.eq_def prepare]
  split <;> first | (cases h; done) | rfl | (rw [carryOut] <;> assumption)

theorem callDirective_congr {directive : Directive} (h : staysHome directive = true)
    (arguments : List Value) (named : Table String Value) :
    callDirective prepare p directive arguments named
      = callDirective prepare' p directive arguments named := by
  unfold callDirective
  split
  · rfl
  · rfl
  · have hAlike : carryOut prepare p directive = carryOut prepare' p directive :=
      funext (carryOut_congr h)
    simp only [hAlike]

theorem spares_callDirective {directive : Directive} (h : staysHome directive = true)
    (arguments : List Value) (named : Table String Value) :
    Spares (callDirective prepare p directive arguments named) := by
  unfold callDirective
  split
  · exact (spares_check (cycleOf_kindAndArguments _ _)).bind fun _ => spares_deferFragment _ _
  · refine (spares_check (cycleOf_kindAndArguments _ _)).bind fun _ => ?_
    exact (spares_tagOf _ _).bind fun _ => spares_pure _
  · refine (spares_check (cycleOf_bindArguments _ _ _)).bind fun values => ?_
    exact spares_carryOut prepare h values

/-- The directive behind a harmless value is harmless. -/
theorem isHarmless_of_get? {q : Nat} {name : String} {directive : Directive}
    (h : (Value.directive q name).isHarmless directives = true)
    (hFound : directives.get? name = some directive) : directive.isHarmless = true := by
  have hName : isHarmlessName directives name = true := h
  rwa [isHarmlessName, hFound] at hName

/-- Calling what is harmless prepares no other page and reports no cycle. -/
theorem call_of_isHarmless (hKept : Kept (terms directives) w₀ w) {callee : Value}
    (h : callee.isHarmless directives = true) (arguments : List Value)
    (named : List (String × Value)) :
    (call prepare callee arguments named).run w = (call prepare' callee arguments named).run w
      ∧ cycleOf ((call prepare callee arguments named).run w).1 = none := by
  cases callee with
  | directive q name =>
    cases hPage : w.pages[q]? with
    | none =>
      have hFails : ∀ prepare : Nat → SiteM Unit,
          (call prepare (.directive q name) arguments named).run w = (.error unknownNumber, w) :=
        fun prepare => run_bind_of_error (run_page_error hPage) _
      rw [hFails, hFails]
      exact ⟨rfl, rfl⟩
    | some page =>
      have hContext : page.context.directives = directives := (hKept.pages q page hPage).context
      cases hFound : page.context.directives.get? name with
      | none =>
        have hFails : ∀ prepare : Nat → SiteM Unit,
            (call prepare (.directive q name) arguments named).run w
              = (.error unknownNumber, w) := by
          intro prepare
          unfold call
          dsimp only
          rw [run_bind_of_ok (run_page hPage), hFound]
          rfl
        rw [hFails, hFails]
        exact ⟨rfl, rfl⟩
      | some directive =>
        have hHome := staysHome_of_isHarmless (isHarmless_of_get? h (hContext ▸ hFound))
        rw [run_call_directive hPage hFound, run_call_directive hPage hFound,
          callDirective_congr hHome]
        exact ⟨rfl, spares_callDirective hHome _ _ w⟩
  | inserter q name => cases h
  | builtIn f => exact ⟨rfl, spares_check (cycleOf_callBuiltIn _ _ f) w⟩
  | _ => exact ⟨rfl, rfl⟩

theorem upholds_call_of_isHarmless (hPrepare : Prepares (terms directives) prepare)
    {callee : Value} {arguments : List Value} {named : List (String × Value)}
    (hCallee : callee.isHarmless directives = true)
    (hArguments : ∀ v ∈ arguments, v.isHarmless directives = true)
    (hNamed : NamedFit (Value.isHarmless directives) named) :
    Upholds (Kept (terms directives) w₀) (call prepare callee arguments named) fun v =>
      v.isHarmless directives = true := by
  cases callee with
  | directive q name =>
    refine upholds_call_directive_of fun w page directive hKept hPage hFound => ?_
    have hSame : page.context.directives = directives := (hKept.pages q page hPage).context
    have hHarmless := isHarmless_of_get? hCallee (hSame ▸ hFound)
    refine Upholds.results ?_ (results_callDirective hHarmless _ _)
    exact (Progress.backs sound_terms hPrepare q).upholds_callDirective
      (allows_of_isHarmless hHarmless) hArguments hNamed.table
  | inserter q name => cases hCallee
  | builtIn f =>
    exact upholds_check fun v hShown =>
      closed_isHarmless.callBuiltIn hArguments hNamed.table hShown
  | _ => exact upholds_throw _

/-- Calling a directive by its name makes a course. -/
theorem upholds_callByName (hPrepare : Prepares (terms directives) prepare) {s : String}
    {arguments : List Value} {named : List (String × Value)} {post : Value → Prop}
    (hNamed : ∃ directive, directives.get? s = some directive ∧ isCalledByName directive = true
      ∧ Results (callDirective prepare p directive arguments (Table.ofBindings named)) post)
    (hArguments : ∀ v ∈ arguments, v.isHarmless directives = true)
    (hBound : NamedFit (Value.isHarmless directives) named) :
    Upholds (Kept (terms directives) w₀) (call prepare (.directive p s) arguments named) post := by
  obtain ⟨directive, hFound, hByName, hResults⟩ := hNamed
  refine upholds_call_directive_of fun w page known hKept hPage hKnown => ?_
  have hSame : page.context.directives = directives := (hKept.pages p page hPage).context
  obtain rfl : directive = known := Option.some.inj (hFound.symm.trans (hSame ▸ hKnown))
  refine Upholds.results ?_ hResults
  exact (Progress.backs sound_terms hPrepare p).upholds_callDirective
    (allows_of_isCalledByName hByName) hArguments hBound.table

end Calls

/-! ## Watching bodies -/

/-- A page's body under watch that is run with two ways of preparing other pages. -/
def watch (directives : Table String Directive) (rules : Rules) (w₀ : World) (p : Nat)
    (page : Page) (prepare prepare' : Nat → SiteM Unit) : Watch where
  holds := Kept (terms directives) w₀
  rules := rules
  page := p
  named := fun s => ∃ directive, directives.get? s = some directive
    ∧ isCalledByName directive = true
  handler := handlerOf prepare p page
  other := handlerOf prepare' p page

section Watching

variable {directives : Table String Directive} {w₀ w : World} {p : Nat} {page : Page}
  {prepare prepare' : Nat → SiteM Unit} {scope : Scope}

theorem upholds_write (s : String) :
    Upholds (Kept (terms directives) w₀) ((handlerOf prepare p page).write s) fun _ => True := by
  have hWrite : Upholds (Kept (terms directives) w₀) (onDraft p (Draft.write (.text s)))
      fun _ => True := upholds_onDraft fun _ => .write _
  exact hWrite

theorem spares_handlerOf (s : String) : Spares ((handlerOf prepare p page).write s) := by
  have hWrite : Spares (onDraft p (Draft.write (.text s))) := spares_onDraft (spares_write _)
  exact hWrite

theorem dialect_handlerOf : (handlerOf prepare p page).dialect = page.context.dialect := rfl

theorem write_handlerOf :
    (handlerOf prepare p page).write = fun s => onDraft p (Draft.write (.text s)) := rfl

theorem reports_plainRules (hPrepare : Prepares (terms directives) prepare) :
    (watch directives (plainRules directives) w₀ p page prepare prepare').Reports where
  closed := closed_isHarmless
  -- how calls are carried out stays folded, since it differs
  dialect := dialect_handlerOf.trans dialect_handlerOf.symm
  output := write_handlerOf.trans write_handlerOf.symm
  call hCallee hArguments hNamed := upholds_call_of_isHarmless hPrepare hCallee hArguments hNamed
  write s := upholds_write s
  spares s := spares_handlerOf s
  special h := (Bool.false_ne_true h).elim
  shown h := (Bool.false_ne_true h).elim

/-- What a record tells does not depend on the rules beyond the values that may be anywhere. -/
theorem tells_of_plainRules {α : Type} {x x' : SiteM α} {y : RecordM α} {post : α → Prop}
    (h : Tells (watch directives (plainRules directives) w₀ p page prepare prepare') x x' y post) :
    Tells (watch directives (rules directives) w₀ p page prepare prepare') x x' y post := by
  intro w hHolds
  obtain ⟨calls, hTold⟩ := h w hHolds
  refine ⟨calls, hTold.recorded, hTold.ends, fun m hMem => ?_, hTold.cycle, hTold.agree⟩
  have hProper := hTold.proper m hMem
  exact ⟨hProper.holds, hProper.callee⟩

/-- The record tells about a call of a directive by its name. -/
theorem tells_callsByName (hPrepare : Prepares (terms directives) prepare)
    {kind : Directive → Bool} {post : Value → Prop} {e : Expr}
    (hKind : ∀ directive, kind directive = true → isCalledByName directive = true
      ∧ ∀ arguments named, Results (callDirective prepare p directive arguments named) post)
    (hPost : ∀ v, v.isHarmless directives = true → post v)
    (h : callsByName directives kind e = true) (hScope : ScopeFits (rules directives) p scope) :
    Tells (watch directives (rules directives) w₀ p page prepare prepare')
      (e.eval (handlerOf prepare p page) scope) (e.eval (handlerOf prepare' p page) scope)
      (e.eval (recorder (handlerOf prepare p page)) scope) post := by
  have hPlain : (watch directives (plainRules directives) w₀ p page prepare prepare').Reports :=
    reports_plainRules hPrepare
  have hPlainScope : ScopeFits (plainRules directives) p scope := hScope
  unfold callsByName at h
  split at h
  · rename_i s arguments named
    simp only [Bool.and_eq_true, Option.any_eq_true] at h
    obtain ⟨⟨⟨directive, hFound, hDirective⟩, hArguments⟩, hNamed⟩ := h
    simp only [Expr.eval, pure_bind]
    have hDialect : (recorder (handlerOf prepare p page)).dialect = page.context.dialect := rfl
    have hDialect' : ∀ prepare, (handlerOf prepare p page).dialect = page.context.dialect :=
      fun _ => rfl
    simp only [hDialect, hDialect']
    split
    · exact tells_throw rfl
    · refine Tells.bind (tells_of_plainRules
        (tells_evalAll hPlain hPlainScope arguments hArguments))
        fun values hValues => ?_
      refine Tells.bind (tells_of_plainRules (tells_evalNamed hPlain hPlainScope named hNamed))
        fun bound hBound => ?_
      have hHidden : ∀ v : Value, v.isHarmless directives = true →
          Tells (watch directives (rules directives) w₀ p page prepare prepare')
            ((handlerOf prepare p page).call v values bound)
            ((handlerOf prepare' p page).call v values bound)
            ((recorder (handlerOf prepare p page)).call v values bound) post := by
        intro v hValue
        refine tells_call (.inl hValue) ?_
        exact (upholds_call_of_isHarmless hPrepare hValue hValues hBound).mono hPost
      cases hCallee : scope.get? s with
      | none =>
        -- the name is not bound, and calling what is missing fails
        dsimp only [Option.getD]
        split
        · exact tells_throw rfl
        · exact hHidden _ (closed_isHarmless.unbound _)
      | some v =>
        dsimp only [Option.getD]
        split
        · exact tells_throw rfl
        · rcases hScope (s, v) (Table.mem_of_get?_eq_some hCallee) with hFits | ⟨-, hOwn⟩
          · -- a variable hides the directive
            exact hHidden v hFits
          · obtain rfl : v = .directive p s := hOwn
            obtain ⟨hByName, hResults⟩ := hKind directive hDirective
            refine tells_call (.inr ⟨s, ⟨directive, hFound, hByName⟩, rfl⟩) ?_
            exact upholds_callByName hPrepare ⟨directive, hFound, hByName, hResults _ _⟩ hValues
              hBound
  · cases h

theorem results_extendPage (arguments : List Value) (named : Table String Value) :
    Results (callDirective prepare p .extendPage arguments named) fun v =>
      v.isHarmless directives = true := by
  refine results_bind fun values => ?_
  unfold carryOut
  split
  all_goals first
    | exact results_throw _
    | exact results_bind fun _ => results_pure rfl
    | contradiction

theorem reports_rules (hPrepare : Prepares (terms directives) prepare) :
    (watch directives (rules directives) w₀ p page prepare prepare').Reports where
  closed := closed_isHarmless
  -- how calls are carried out stays folded, since it differs
  dialect := dialect_handlerOf.trans dialect_handlerOf.symm
  output := write_handlerOf.trans write_handlerOf.symm
  call hCallee hArguments hNamed := upholds_call_of_isHarmless hPrepare hCallee hArguments hNamed
  write s := upholds_write s
  spares s := spares_handlerOf s
  special h hScope := by
    refine tells_callsByName hPrepare (fun directive hKind => ?_) (fun _ hValue => hValue) h hScope
    cases directive with
    | extendPage => exact ⟨rfl, results_extendPage⟩
    | _ => cases hKind
  shown h hScope := by
    refine tells_callsByName hPrepare (fun directive hKind => ?_) (fun _ _ => trivial) h hScope
    cases directive with
    | currentName => exact ⟨rfl, fun _ _ _ _ _ _ => trivial⟩
    | _ => cases hKind

end Watching

end Extending

end PageBlocks
