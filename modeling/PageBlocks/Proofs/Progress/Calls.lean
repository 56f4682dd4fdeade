import PageBlocks.Proofs.Policy.Rendering
import PageBlocks.Proofs.Progress.Pages

/-!
# Runs of bodies are courses

Whatever directive a body calls, with whatever values, it makes the site go a course of single steps
(`backs`). Passing on a request is the exception, since a request may also change the files and the
settings. For pages without that directive, preparing a fresh page is a course, whatever its body is
and to whatever depth preparing pages nests (`prepares_prepareFrom`).
-/

set_option autoImplicit false

namespace PageBlocks.Progress

open PageBlocks.Body PageBlocks.Cache PageBlocks.Deferral PageBlocks.Guards PageBlocks.Policy
  PageBlocks.Running PageBlocks.Site PageBlocks.Upkeep

/-- The check on values is one that bodies do not leave, and lets every text through. -/
structure Terms.Sound (t : Terms) : Prop where
  closed : Closed t.fits
  text : ∀ s, t.fits (.text s) = true

section Calls

variable {t : Terms} {w₀ : World} {p : Nat} {prepare : Nat → SiteM Unit}

/-! ## Directives -/

theorem upholds_declareBlock (name : Value) (kind : BlockKind) (lifetime : Value)
    (transform : Option Transform) :
    Upholds (Kept t w₀) (declareBlock p name kind lifetime transform) fun _ => True := by
  unfold declareBlock
  refine (upholds_page p).bind fun page _ => Upholds.bind_check fun b hBlock => ?_
  have hNew : b.children = [] := by
    unfold Block.declare at hBlock
    split at hBlock
    · cases hBlock
    · cases hBlock
      rfl
  exact (upholds_onDraft fun _ => .addBlock b .replace hNew).seq fun _ => upholds_pure trivial

/-- By way of the cache or not: what is computed is computed with the pages of before. -/
theorem ends_remembered {cache : Ref} {key : String} {lifetime : Value} {compute : SiteM String}
    {w : World} (hKept : Kept t w₀ w)
    (hCompute : ∀ v, Ends compute { w with vault := v } (fun _ w' => True ∧ Kept t w₀ w')
      (Kept t w₀)) :
    Ends (Site.remembered cache key lifetime compute) w (fun _ w' => True ∧ Kept t w₀ w')
      (Kept t w₀) := by
  have hLookup : Ends (onVault (cache.lookup key)) w
      (fun _ w' => ∃ v, w' = { w with vault := v }) (Kept t w₀) := by
    have hAny : Ends (cache.lookup key) w.vault (fun _ _ => True) fun _ => True := by
      unfold Ends
      split <;> trivial
    refine Ends.mono (ends_onVault hAny) ?_ ?_
    · rintro _ w' ⟨v, -, rfl⟩
      exact ⟨v, rfl⟩
    · rintro w' ⟨v, -, rfl⟩
      exact hKept.aside rfl rfl rfl
  unfold Site.remembered
  refine Ends.bind hLookup fun found w₁ ⟨v, hSame⟩ => ?_
  subst hSame
  cases found with
  | some text => exact ends_pure ⟨trivial, hKept.aside rfl rfl rfl⟩
  | none =>
    refine Ends.bind (hCompute v) fun text w₂ hText => ?_
    exact ((upholds_onVault _).seq fun _ => upholds_pure trivial) w₂ hText.2

theorem upholds_cachedFetch (url lifetime : Value) :
    Upholds (Kept t w₀) (cachedFetch p url lifetime) fun _ => True := by
  unfold cachedFetch
  refine (upholds_page p).bind fun page _ => (upholds_requireCache page).bind fun cache _ => ?_
  intro w hKept
  refine ends_remembered hKept fun v => ?_
  exact upholds_of_staysAside (staysAside_fetch url) _ (hKept.aside rfl rfl rfl)

theorem upholds_cachedInclude (hClosed : Closed t.fits) (hPrepare : Prepares t prepare)
    {name vars lifetime : Value} (hVars : t.fits vars = true) :
    Upholds (Kept t w₀) (cachedInclude prepare p name vars lifetime) fun _ => True := by
  unfold cachedInclude
  refine (upholds_page p).bind fun page _ => (upholds_requireCache page).bind fun cache _ => ?_
  intro w hKept
  refine Ends.bind (ends_relatedPage hClosed hVars hKept) fun other w₁ ⟨hFresh, hKept₁⟩ => ?_
  obtain ⟨found, hFound, hOpen⟩ := hFresh
  refine ends_bind_of_run (run_page hFound) ?_
  -- the page is prepared right here, or not at all
  refine Ends.bind (ends_remembered hKept₁ fun v => ?_) fun text w₂ hText =>
    upholds_track text w₂ hText.2
  exact ends_renderPage hPrepare (hKept₁.aside rfl rfl rfl) ⟨found, hFound, hOpen⟩

/-- The steps of the directives that bodies may call are parts of courses. -/
theorem backs (hSound : t.Sound) (hPrepare : Prepares t prepare) (p : Nat) :
    Backs (Kept t w₀) t.fits (fun _ => True) (fun directive => t.allows directive = true)
      prepare p where
  closed := hSound.closed
  word := hSound.text
  text _ := trivial
  inserter _ _ := trivial
  currentName _ _ := trivial
  openBlock name mode := upholds_onDraft fun _ => .openBlock name mode
  close := upholds_onDraft fun _ => .close
  write v := upholds_onDraft fun _ => .write v
  cacheable _ _ _ := upholds_declareBlock _ _ _ _
  markup _ _ := upholds_declareBlock _ _ _ _
  bind hName hValue := upholds_updatePage (fun _ => ⟨⟨rfl, rfl, rfl, rfl⟩, rfl, rfl, rfl⟩)
    fun _ hVars => hVars.insert hName hValue
  mode _ _ := upholds_updatePage (fun _ => ⟨⟨rfl, rfl, rfl, rfl⟩, rfl, rfl, rfl⟩)
    fun _ hVars => hVars
  renderBlock := upholds_renderBlock p
  track _ := upholds_track
  count _ := upholds_of_staysAside (staysAside_count _)
  extend _ := upholds_extend hPrepare
  includePage _ _ _ hVars := upholds_includePage hSound.closed hPrepare hVars
  cachedInclude _ _ _ _ hVars := upholds_cachedInclude hSound.closed hPrepare hVars
  cachedFetch _ := upholds_cachedFetch
  answer hAllowed := Bool.noConfusion hAllowed

end Calls

/-! ## Bodies that do anything -/

/-- No directive passes a request on. -/
def AsksNothing (context : Context) : Prop :=
  ∀ name r, context.directives.get? name ≠ some (.request r)

/-- Bodies may do anything but pass requests on. -/
def unrestricted : Terms :=
  { files := fun _ => True, context := AsksNothing, fits := fun _ => true, includes := true }

section Unrestricted

variable {w₀ : World} {p : Nat} {prepare : Nat → SiteM Unit}

theorem sound_unrestricted : unrestricted.Sound := ⟨closed_anything, fun _ => rfl⟩

theorem AsksNothing.allows {context : Context} (h : AsksNothing context) {name : String}
    {directive : Directive} (hFound : context.directives.get? name = some directive) :
    unrestricted.allows directive = true := by
  cases directive with
  | request r => exact absurd hFound (h name r)
  | _ => rfl

/-- Whatever is called makes a course. -/
theorem upholds_call (hPrepare : Prepares unrestricted prepare) (callee : Value)
    (arguments : List Value) (named : List (String × Value)) :
    Upholds (Kept unrestricted w₀) (call prepare callee arguments named)
      fun _ => True := by
  refine upholds_call_of (fun q name _ w page directive hKept hPage hFound => ?_)
    (fun q name _ => ?_) fun _ _ _ _ => trivial
  · have hContext : AsksNothing page.context := (hKept.pages q page hPage).context
    exact (backs sound_unrestricted hPrepare q).upholds_callDirective (hContext.allows hFound)
      (fun _ _ => rfl) fun _ _ => ⟨rfl, rfl⟩
  · exact (backs sound_unrestricted hPrepare q).upholds_callInserter rfl (fun _ _ => rfl)
      fun _ _ => ⟨rfl, rfl⟩

/-- Running the body of a fresh page makes a course if preparing other pages does. -/
theorem prepares_runBody (hPrepare : Prepares unrestricted prepare) :
    Prepares unrestricted (runBody prepare) := by
  intro w₀ w p hKept hFresh
  obtain ⟨page, hPage, hOpen⟩ := hFresh
  rw [runBody_eq]
  -- only the first step needs that no block is open
  refine ends_bodyWith_of (ends_onDraft hKept hPage fun o => .resetCaptures hOpen)
    (fun w hKept => hKept.aside rfl rfl rfl) (fun _ _ items _ _ _ _ _ => ?_)
    (upholds_onDraft fun _ => .finish)
  have hWrite : ∀ s, Upholds (Kept unrestricted w₀) (onDraft p (Draft.write (.text s)))
      fun _ => True := fun s => upholds_onDraft fun _ => .write (.text s)
  exact upholds_runAll_anything (upholds_call hPrepare) hWrite items

/-- Preparing a fresh page makes a course, to whatever depth that nests. -/
theorem prepares_prepareFrom (depth : Nat) :
    Prepares unrestricted (prepareFrom depth) := by
  induction depth with
  | zero => exact fun _ _ _ hKept _ => ends_throw hKept
  | succ depth ih => exact prepares_runBody ih

theorem prepares :
    Prepares unrestricted Site.prepare :=
  fun w₀ w p hKept hFresh =>
    ends_get_bind (prepares_prepareFrom (depthLimit w) w₀ w p hKept hFresh)

end Unrestricted

end PageBlocks.Progress
