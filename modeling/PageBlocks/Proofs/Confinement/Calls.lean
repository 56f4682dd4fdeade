import PageBlocks.Proofs.Confinement.Limits
import PageBlocks.Proofs.Policy.Rendering

/-!
# Runs that keep to limits

Every directive keeps to limits on a page that may be worked on; the few that change how a page is
cached, or what its outline is, need a page that may be anything (`Directive.retunes`). A request
that a body passes on makes pages of its own. So preparing a page keeps to limits to whatever depth
that nests, if a guard keeps the bodies of pages that may be anything to such pages
(`Limits.Guarded.prepares`).
-/

set_option autoImplicit false

namespace PageBlocks

/-- Whether a directive changes how its page is cached, or which outline it has. -/
def Directive.retunes : Directive → Bool
  | .extendPage | .includePage | .setOption | .deferFragment | .cachedInclude _
  | .freshFetch => true
  | _ => false

namespace Confinement

open PageBlocks.Body PageBlocks.Cache PageBlocks.Deferral PageBlocks.Guards PageBlocks.Policy
  PageBlocks.Running PageBlocks.Site PageBlocks.Upkeep
open PageBlocks.Outline (lasting_isLabelled)

section Calls

variable {L : Limits} {w₀ w : World} {p : Nat} {prepare : Nat → SiteM Unit}

/-! ## Directives -/

theorem upholds_declareBlock (hReady : L.ready w₀) (hPages : L.pages w₀ p) (name : Value)
    (kind : BlockKind) (lifetime : Value) (transform : Option Transform) :
    Upholds (L.goes w₀) (declareBlock p name kind lifetime transform) fun _ => True := by
  unfold declareBlock
  refine (upholds_page hReady p).bind fun page _ => Upholds.bind_check fun b _ => ?_
  exact (upholds_onDraft hReady hPages (lasting_isLabelled.addBlock trivial _)).seq fun _ =>
    upholds_pure trivial

theorem upholds_text {x : SiteM String} (h : Upholds (L.goes w₀) x fun _ => True) :
    Upholds (L.goes w₀) (Value.text <$> x) fun _ => True :=
  Upholds.map h

theorem upholds_cachedFetch (hReady : L.ready w₀) (p : Nat) (url lifetime : Value) :
    Upholds (L.goes w₀) (cachedFetch p url lifetime) fun _ => True := by
  unfold cachedFetch
  refine (upholds_page hReady p).bind fun page hContext => ?_
  refine (upholds_requireCache page).bind fun cache hCache => ?_
  exact upholds_remembered hReady hContext hCache _ _
    (upholds_of_staysAside hReady (staysAside_fetch url))

/-! ## Requests -/

theorem upholds_store (hReady : L.ready w₀) {page : Page} {cache : Ref}
    (hContext : L.context page.context) (hCache : page.context.cache = some cache)
    (output : String) : Upholds (L.goes w₀) (store cache page output) fun _ => True := by
  unfold store
  split
  · exact upholds_pure trivial
  · exact upholds_onVault hReady (L.put hContext hCache _ output _)

theorem upholds_renderAnew (hPrepare : L.Prepares prepare) (hReady : L.ready w₀)
    (hFree : L.free w₀ p) (request : Bindings) :
    Upholds (L.goes w₀) (renderAnew prepare p request) fun _ => True := by
  have hOutput : Upholds (L.goes w₀) (renderPage prepare p) fun _ => True := fun _ hGoes =>
    ends_renderPage hPrepare hReady hGoes (L.free_of_goes hReady hGoes hFree)
  unfold renderAnew
  refine hOutput.seq fun output => (upholds_page hReady p).bind fun page hContext => ?_
  have hRest : Upholds (L.goes w₀) (if page.isDynamic = true then
      resolveFragments page.context request output else pure output) fun _ => True := by
    split
    · exact upholds_of_staysAside hReady (staysAside_resolve _ _ _)
    · exact upholds_pure trivial
  cases hCache : page.context.cache with
  | some cache =>
    dsimp only
    exact (upholds_store hReady hContext hCache output).seq fun _ => hRest
  | none => exact hRest

theorem upholds_renderCached (hPrepare : L.Prepares prepare) (hReady : L.ready w₀)
    (hFree : L.free w₀ p) {settings : Context} {cache : Ref} (hContext : L.context settings)
    (hCache : settings.cache = some cache) (request : Bindings) :
    Upholds (L.goes w₀) (renderCached prepare cache p request) fun _ => True := by
  unfold renderCached
  refine (upholds_page hReady p).bind fun page _ => ?_
  refine (upholds_onVault hReady (L.lookup hContext hCache _)).seq fun compiled => ?_
  cases compiled with
  | some text => exact upholds_of_staysAside hReady (staysAside_resolve _ _ _)
  | none =>
    refine (upholds_onVault hReady (L.lookup hContext hCache _)).seq fun found => ?_
    cases found with
    | some output => exact upholds_pure trivial
    | none => exact upholds_renderAnew hPrepare hReady hFree request

/-- A request for a page makes that page, and the page may be anything. -/
theorem upholds_render (hPrepare : L.Prepares prepare) (hReady : L.ready w₀) (name vars : Value)
    (paths : List String) (useGlobals : Bool) :
    Upholds (L.goes w₀) (render prepare name vars paths useGlobals) fun _ => True := by
  unfold render
  refine Upholds.bind_get fun w hGoes => ?_
  have hContext : L.context (contextFor w.settings (paths.map Path.ofText)) :=
    L.located _ (L.settings (L.ready_of_goes hReady hGoes))
  refine Ends.bind ((looks_locate _ _ _).upholds w hGoes) fun place w₁ hPlace => ?_
  refine Ends.bind ((looks_check _).upholds w₁ hPlace.2) fun given w₂ hEnd => ?_
  dsimp only
  refine Ends.bind (ends_newPage hReady hContext place _ [] hEnd.2) fun q w₃ hPage => ?_
  have hHere := L.ready_of_goes hReady hPage.2
  cases hCache : (contextFor w.settings (paths.map Path.ofText)).cache with
  | some cache =>
    exact L.follow hPage.2 (upholds_renderCached hPrepare hHere hPage.1 hContext hCache _)
  | none => exact L.follow hPage.2 (upholds_renderAnew hPrepare hHere hPage.1 _)

/-- A request that a body passes on keeps to the limits. -/
theorem upholds_answer (hPrepare : L.Prepares prepare) (hReady : L.ready w₀) {settings : Context}
    {name : String} {r : Request} (hContext : L.context settings)
    (hKnown : settings.directives.get? name = some (.request r)) :
    Upholds (L.goes w₀) (answer prepare r) fun _ => True := by
  cases hAsks : asksForPage r with
  | false => exact fun w hGoes => ends_of_goes (L.trans hGoes
      (L.passOn (L.ready_of_goes hReady hGoes) hContext hKnown hAsks prepare))
  | true =>
    cases r with
    | render name vars paths useGlobals =>
      exact upholds_text (upholds_render hPrepare hReady name _ paths useGlobals)
    | _ => cases hAsks

/-! ## Calls -/

/-- Some page that keeps to the limits knows a directive, if that passes a request on. -/
def Limits.Knows (L : Limits) (directive : Directive) : Prop :=
  ∀ r, directive = .request r →
    ∃ settings name, L.context settings ∧ settings.directives.get? name = some directive

/-- The steps of directives keep to the limits, for a page that may be anything if need be. -/
theorem backs (hPrepare : L.Prepares prepare) (hReady : L.ready w₀) (hPages : L.pages w₀ p) :
    Backs (L.goes w₀) anything.fits (fun _ => True) (fun directive =>
      L.Knows directive ∧ (directive.retunes = true → L.free w₀ p)) prepare p where
  closed := closed_anything
  word _ := rfl
  text _ := trivial
  inserter _ _ := trivial
  currentName _ _ := trivial
  openBlock name mode := upholds_onDraft hReady hPages (lasting_isLabelled.openBlock name mode)
  close := upholds_onDraft hReady hPages lasting_isLabelled.close
  write v := upholds_onDraft hReady hPages (lasting_isLabelled.write v)
  cacheable _ _ _ := upholds_declareBlock hReady hPages _ _ _ _
  markup _ _ := upholds_declareBlock hReady hPages _ _ _ _
  bind _ _ := upholds_work hReady hPages fun _ => ⟨⟨rfl, rfl, rfl, rfl⟩, rfl, rfl, rfl⟩
  mode h _ := upholds_turn hReady (h.2 rfl) (fun _ => ⟨rfl, rfl, rfl, rfl⟩) fun _ => rfl
  renderBlock := upholds_renderBlock hReady p
  track h := upholds_track hReady (h.elim (fun h => h.2 rfl) fun h => h.2 rfl)
  count _ := upholds_of_staysAside hReady (staysAside_count _)
  extend h := upholds_extend hPrepare hReady (h.2 rfl)
  includePage h _ _ _ := upholds_includePage hPrepare hReady (h.2 rfl) _ _
  cachedInclude h _ _ _ _ := upholds_cachedInclude hPrepare hReady (h.2 rfl) _ _ _
  cachedFetch _ := upholds_cachedFetch hReady p
  answer h := by
    obtain ⟨settings, name, hContext, hKnown⟩ := h.1 _ rfl
    exact (upholds_answer hPrepare hReady hContext hKnown).mono fun _ _ => trivial

theorem upholds_callDirective (hPrepare : L.Prepares prepare) (hReady : L.ready w₀)
    (hPages : L.pages w₀ p) {settings : Context} {name : String} {directive : Directive}
    (hContext : L.context settings) (hKnown : settings.directives.get? name = some directive)
    (hFree : directive.retunes = true → L.free w₀ p) (arguments : List Value)
    (named : Table String Value) :
    Upholds (L.goes w₀) (callDirective prepare p directive arguments named) fun _ => True :=
  (backs hPrepare hReady hPages).upholds_callDirective
    ⟨fun _ _ => ⟨settings, name, hContext, hKnown⟩, hFree⟩ (fun _ _ => rfl) fun _ _ => ⟨rfl, rfl⟩

/-- A call keeps to the limits if what is called belongs to a page that may be anything. -/
theorem upholds_call (hPrepare : L.Prepares prepare) (hReady : L.ready w₀) {callee : Value}
    (hOwner : ∀ q, ownerOf callee = some q → L.free w₀ q) (arguments : List Value)
    (named : List (String × Value)) :
    Upholds (L.goes w₀) (call prepare callee arguments named) fun _ => True := by
  refine upholds_call_of (fun q name hCallee w page directive hGoes hPage hFound => ?_)
    (fun q name hCallee => ?_) fun _ _ _ _ => trivial
  · have hFree := hOwner q (by rw [hCallee]; rfl)
    have hContext := L.contexts (L.ready_of_goes hReady hGoes) hPage
    exact upholds_callDirective hPrepare hReady (L.pages_of_free hFree) hContext hFound
      (fun _ => hFree) arguments _
  · have hFree := hOwner q (by rw [hCallee]; rfl)
    exact (backs hPrepare hReady (L.pages_of_free hFree)).upholds_callInserter
      ⟨nofun, fun _ => hFree⟩ (fun _ _ => rfl) fun _ _ => ⟨rfl, rfl⟩

/-! ## Bodies -/

/-- A guard keeps the bodies of pages that may be anything to such pages. -/
def Limits.Guarded (L : Limits) (guard : Guard) : Prop :=
  ∀ {w : World} {p q : Nat}, L.ready w → L.free w p → guard p w q = true → L.free w q

variable {refusal : Fault} {guard : Guard}

theorem upholds_guardedCall (hGuard : L.Guarded guard) (hPrepare : L.Prepares prepare)
    (hReady : L.ready w₀) (hFree : L.free w₀ p) (callee : Value) (arguments : List Value)
    (named : List (String × Value)) :
    Upholds (L.goes w₀) (guardedCall refusal guard p prepare callee arguments named)
      fun _ => True := by
  unfold guardedCall
  refine Upholds.bind_get fun w hGoes => ?_
  split
  · rename_i hAllows
    have hHere := L.ready_of_goes hReady hGoes
    refine L.follow hGoes (upholds_call hPrepare hHere (fun q hOwner => ?_) arguments named)
    unfold Guard.allows at hAllows
    rw [hOwner] at hAllows
    exact hGuard hHere (L.free_of_goes hReady hGoes hFree) hAllows
  · exact ends_throw hGoes

/-- Running a body keeps to the limits if its calls do. -/
theorem upholds_bodyWith {call : Value → List Value → List (String × Value) → SiteM Value}
    (hReady : L.ready w₀) (hPages : L.pages w₀ p)
    (hCall : ∀ callee arguments named,
      Upholds (L.goes w₀) (call callee arguments named) fun _ => True) :
    Upholds (L.goes w₀) (bodyWith call p) fun _ => True := by
  refine upholds_bodyWith_of (upholds_onDraft hReady hPages lasting_isLabelled.resetCaptures)
    (fun w hGoes => ?_) (fun _ _ items _ _ _ _ _ => ?_)
    (upholds_onDraft hReady hPages lasting_isLabelled.finish)
  · exact L.trans hGoes
      (L.aside (L.ready_of_goes hReady hGoes) rfl rfl rfl (L.through_refl _))
  · have hWrite : ∀ s, Upholds (L.goes w₀) (onDraft p (Draft.write (.text s))) fun _ => True :=
      fun s => upholds_onDraft hReady hPages (lasting_isLabelled.write (.text s))
    exact upholds_runAll_anything hCall hWrite items

/-- Preparing a page keeps to the limits, to whatever depth that nests. -/
theorem Limits.Guarded.prepares (hGuard : L.Guarded guard) (refusal : Fault) (depth : Nat) :
    L.Prepares (prepareWhere refusal guard depth) := by
  induction depth with
  | zero => exact fun _ _ => L.refl _
  | succ depth ih =>
    intro w p hReady hFree
    exact (upholds_bodyWith hReady (L.pages_of_free hFree) fun callee arguments named =>
      upholds_guardedCall hGuard ih hReady hFree callee arguments named).run (L.refl w)

/-- Where all pages may be anything, no guard is needed. -/
theorem Limits.prepares_of_free (hFree : ∀ {w : World} {q : Nat}, L.ready w → L.free w q)
    (depth : Nat) : L.Prepares (prepareFrom depth) := by
  have hGuarded : L.Guarded fun _ _ _ => true := fun hReady _ _ => hFree hReady
  rw [← prepareWhere_all (.host .tooDeep) depth]
  exact @Limits.Guarded.prepares L (fun _ _ _ => true) hGuarded (.host .tooDeep) depth

/-- The depth to which a site prepares pages is one of all. -/
theorem Limits.prepares_site (h : ∀ depth, L.Prepares (prepareFrom depth)) :
    L.Prepares Site.prepare := by
  intro w p hReady hFree
  unfold Site.prepare
  rw [run_bind_of_ok (run_get w)]
  exact h (depthLimit w) hReady hFree

end Calls

end Confinement

end PageBlocks
