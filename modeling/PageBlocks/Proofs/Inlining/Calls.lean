import PageBlocks.Proofs.Inlining.Flags

/-!
# Calls that change cache flags

What a call makes of the flags of the page whose body makes it is what the calls that count for
flags would make of them (`flagsAt_guardedCall`): setting the mode, keeping track of the output of
an included page or of the tag of a fragment, and, where the page extends another one, all that
counts in the body of the base (`flagsAt_extend`).
-/

set_option autoImplicit false

namespace PageBlocks.Inlining

open PageBlocks.Body PageBlocks.Confinement PageBlocks.Extending PageBlocks.Guards
  PageBlocks.Running PageBlocks.Site PageBlocks.Upkeep

section Calls

variable {w w' : World} {p k : Nat} {page : Page} {prepare : Nat → SiteM Unit}

/-! ## Output that is kept track of -/

/-- A page keeps track of the output of a computation, and nothing else changes its flags. -/
def Emits (p : Nat) (x : SiteM String) : Prop :=
  ∀ {w w' : World} {text : String}, p < w.pages.size → x.run w = (.ok text, w') →
    flagsAt w' p = (flagsAt w p).map fun f => f.after (.track text)

/-- A computation leaves the flags of a page alone. -/
def Quiet {α : Type} (p : Nat) (x : SiteM α) : Prop :=
  ∀ {w : World}, p < w.pages.size → flagsAt (x.run w).2 p = flagsAt w p

theorem quiet_of_upholds {α : Type} {x : SiteM α} {post : α → Prop}
    (h : ∀ {w}, (flagged p).ready w → Upholds ((flagged p).goes w) x post) : Quiet p x :=
  fun hBound => ((h hBound).run ((flagged p).refl _)).seen

theorem emits_of_track {x : SiteM String} (h : Quiet p x) : Emits p (x >>= track p) := by
  intro w w' text hBound hRun
  obtain ⟨output, w₁, hOutput, hTracks⟩ := run_bind_eq_ok hRun
  have hSame := h hBound
  rw [hOutput] at hSame
  have hTracked : (((FlagCall.track output).perform p).run w₁).2 = w' ∧ text = output := by
    unfold track at hTracks
    unfold FlagCall.perform track
    dsimp only
    split at hTracks
    · rename_i hMarked
      rw [if_pos hMarked]
      cases hTracks
      exact ⟨rfl, rfl⟩
    · rename_i hMarked
      rw [if_neg hMarked]
      cases hTracks
      exact ⟨rfl, rfl⟩
  obtain ⟨rfl, rfl⟩ := hTracked
  rw [← hSame]
  exact (flags_perform (.track text) p w₁).2

theorem emits_includePage (hPrepare : (flagged p).Prepares prepare) (name vars : Value) :
    Emits p (includePage prepare p name vars) := by
  rw [includePage_eq]
  exact emits_of_track (quiet_of_upholds fun hReady =>
    upholds_fragment hPrepare hReady p name vars)

theorem emits_cachedInclude (hPrepare : (flagged p).Prepares prepare) (name vars lifetime : Value) :
    Emits p (cachedInclude prepare p name vars lifetime) := by
  rw [cachedInclude_eq]
  exact emits_of_track (quiet_of_upholds fun hReady =>
    upholds_rememberedFragment hPrepare hReady p name vars lifetime)

theorem emits_tag (kind : Value) (arguments : List Value) :
    Emits p (tagOf p kind arguments >>= track p) :=
  emits_of_track (quiet_of_upholds fun _ => (looks_tagOf p kind arguments).upholds)

/-! ## Directives that change flags -/

/-- A result that a page keeps track of is a text. -/
theorem Emits.value {x : SiteM String} (h : Emits p x) (hBound : p < w.pages.size) {v : Value}
    (hRun : (Value.text <$> x).run w = (.ok v, w')) :
    flagsAt w' p = (flagsAt w p).map fun f => f.replay (trackOf (.ok v)) := by
  obtain ⟨text, w₁, hText, hValue⟩ := run_bind_eq_ok (f := fun a => pure (Value.text a)) hRun
  cases hValue
  exact h hBound hText

theorem flagsAt_deferFragment (hBound : p < w.pages.size) {kind v : Value} {arguments : List Value}
    (hRun : (deferFragment p kind arguments).run w = (.ok v, w')) :
    flagsAt w' p = (flagsAt w p).map fun f => f.replay (trackOf (.ok v)) := by
  refine Emits.value (emits_tag kind arguments) hBound ?_
  rw [map_bind]
  exact hRun

/-- Setting an option sets the mode that the value asks for. -/
theorem flagsAt_setOption {option value : Value}
    (hRun : (setOption p option value).run w = (.ok (), w')) :
    flagsAt w' p = (flagsAt w p).map fun f => f.replay (setModeOf (.ok [option, value])) := by
  have hMode : (setMode p value).run w = (.ok (), w') := by
    unfold setOption at hRun
    split at hRun
    · split at hRun
      · exact hRun
      · cases hRun
    · cases hRun
    · cases hRun
  obtain ⟨mode, w₁, hFound, hSets⟩ := run_bind_eq_ok hMode
  obtain ⟨hAsked, rfl⟩ := eq_of_run_check hFound
  have hCalls : setModeOf (.ok [option, value]) = [.setMode mode] := by
    simp only [setModeOf, hAsked]
  rw [hCalls]
  cases hSets
  exact (flags_perform (.setMode mode) p w).2

/-- A base is made in the mode of the page that extends it, and nothing else happens. -/
theorem run_baseFor_eq_ok (hPage : w.pages[p]? = some page) {place : Place} {base : Nat}
    (hRun : (baseFor page place).run w = (.ok base, w')) :
    p < base ∧ w'.pages[p]? = some page ∧ flagsAt w' base = some ⟨page.mode, false⟩ := by
  have hHere := (Array.getElem?_eq_some_iff.mp hPage).1
  obtain ⟨made, w₁, hNew, hMode⟩ := run_bind_eq_ok hRun
  obtain ⟨id, -, rfl, rfl⟩ := Progress.run_newPage_eq_ok hNew
  cases hMode
  refine ⟨hHere, ?_, ?_⟩
  · dsimp only
    rw [Array.getElem?_modify, if_neg (Nat.ne_of_gt hHere)]
    exact Progress.getElem?_push_of_eq_some hPage _
  · unfold flagsAt
    dsimp only
    rw [Array.getElem?_modify, if_pos rfl, Array.getElem?_push_size]
    rfl

/-- A page that goes on with the outline of another one takes over its mode, its mark and its
variables. -/
theorem run_adopt_eq_ok (hPage : w.pages[p]? = some page) {base : Nat} {name : Value}
    (hRun : (adopt p base name).run w = (.ok (), w')) :
    ∃ prepared page', w.pages[base]? = some prepared ∧ w'.pages[p]? = some page'
      ∧ flagsOf page' = ⟨prepared.mode, page.deferred || prepared.deferred⟩
      ∧ page'.vars = Table.merge prepared.vars
          (page.vars.filter fun entry => entry.1 == entry.1) := by
  unfold adopt at hRun
  cases hBase : w.pages[base]? with
  | none =>
    rw [run_bind_of_error (run_page_error hBase)] at hRun
    cases hRun
  | some prepared =>
    rw [run_bind_of_ok (run_page hBase)] at hRun
    unfold updatePage onDraft at hRun
    rw [run_bind_of_ok (run_modify _ w)] at hRun
    have hHere : ∀ f : Page → Page, (w.pages.modify p f)[p]? = some (f page) := by
      intro f
      rw [Array.getElem?_modify, if_pos rfl, hPage]
      rfl
    rw [run_bind_of_ok (run_page (hHere _)), run_bind_of_ok (run_outlineOf_getD (hHere _))] at hRun
    cases hRun
    refine ⟨prepared, ?_⟩
    dsimp only
    rw [Array.getElem?_modify, if_pos rfl, hHere, Option.map_some]
    exact ⟨_, rfl, rfl, rfl, rfl⟩

/-- What extending a page comes to: a base is made in the mode of the page and prepared, the page
itself stays as it is meanwhile, and then it takes over the mode, the mark and the variables. -/
theorem exists_of_run_extend (hPrepare : (elsewhere p).Prepares prepare)
    (hPage : w.pages[p]? = some page) {name : Value}
    (hRun : (extend prepare p name).run w = (.ok (), w')) :
    ∃ place base w₁ w₂ prepared page', placeFor w page name = .ok place
      ∧ (baseFor page place).run w = (.ok base, w₁)
      ∧ p < base ∧ flagsAt w₁ base = some ⟨page.mode, false⟩
      ∧ (prepare base).run w₁ = (.ok (), w₂) ∧ w₂.pages[base]? = some prepared
      ∧ w'.pages[p]? = some page'
      ∧ flagsOf page' = ⟨prepared.mode, page.deferred || prepared.deferred⟩
      ∧ page'.vars = Table.merge prepared.vars
          (page.vars.filter fun entry => entry.1 == entry.1) := by
  have hHere := (Array.getElem?_eq_some_iff.mp hPage).1
  cases hPlace : placeFor w page name with
  | error fault =>
    rw [run_extend_of_error hPage hPlace] at hRun
    cases hRun
  | ok place =>
    by_cases hMem : place ∈ page.chain ++ [page.place]
    · have hCycle : cycleOf ((extend prepare p name).run w).1 = some _ :=
        run_extend_of_mem hPage hPlace hMem
      rw [hRun] at hCycle
      cases hCycle
    · rw [run_extend_of_not_mem hPage hPlace hMem] at hRun
      obtain ⟨base, w₁, hBase, hRun⟩ := run_bind_eq_ok hRun
      obtain ⟨_, w₂, hPrepared, hAdopts⟩ := run_bind_eq_ok hRun
      obtain ⟨hAfter, hStill, hMade⟩ := run_baseFor_eq_ok hPage hBase
      -- the page is not the one that is prepared, so it stays as it is
      have hReady : p < w₁.pages.size := (Array.getElem?_eq_some_iff.mp hStill).1
      have hSeen := (hPrepare (w := w₁) (p := base) hReady (Nat.ne_of_gt hAfter)).seen
      rw [hPrepared, Option.map_id, hStill] at hSeen
      have hKept : w₂.pages[p]? = some page := hSeen
      obtain ⟨prepared, page', hFound, hNow, hFlags, hVars⟩ := run_adopt_eq_ok hKept hAdopts
      exact ⟨place, base, w₁, w₂, prepared, page', rfl, hBase, hAfter, hMade, hPrepared, hFound,
        hNow, hFlags, hVars⟩

/-! ## Calls -/

/-- What preparing a page makes of its flags, told by the calls that are made meanwhile. -/
def Tells (k : Nat) (prepare : Nat → SiteM Unit) (inlined : Nat → World → List FlagCall) : Prop :=
  ∀ {p : Nat} {w w' : World} {f : Flags}, k ≤ p → flagsAt w p = some f →
    (prepare p).run w = (.ok (), w') → flagsAt w' p = some (f.replay (inlined p w))

/-- Extending a page makes of its flags what the calls of the base would make of them. -/
theorem flagsAt_extend {inlined : Nat → World → List FlagCall} (hBound : k ≤ p)
    (hPrepare : (elsewhere p).Prepares prepare) (hTells : Tells k prepare inlined)
    (hPage : w.pages[p]? = some page) {name : Value}
    (hRun : (extend prepare p name).run w = (.ok (), w')) :
    flagsAt w' p = (flagsAt w p).map fun f => f.replay (baseCalls inlined w page (.ok [name])) := by
  obtain ⟨place, base, w₁, w₂, prepared, page', hPlace, hBase, hAfter, hMade, hPrepared, hFound,
    hNow, hFlags, -⟩ := exists_of_run_extend hPrepare hPage hRun
  have hCalls : baseCalls inlined w page (.ok [name]) = inlined base w₁ := by
    simp only [baseCalls, baseStart, hPlace, hBase]
  have hReplayed := hTells (Nat.le_of_lt (Nat.lt_of_le_of_lt hBound hAfter)) hMade hPrepared
  rw [flagsAt, hFound, Option.map_some, Option.some.injEq] at hReplayed
  have hOwn : flagsAt w p = some (flagsOf page) := by rw [flagsAt, hPage, Option.map_some]
  rw [hCalls, hOwn, Option.map_some, flagsAt, hNow, Option.map_some, hFlags,
    Flags.replay_inlined (flagsOf page), flagsOf, ← hReplayed, flagsOf]

/-- Whether a directive takes a fixed list of parameters. -/
def takesParameters : Directive → Bool
  | .deferFragment | .bareTag => false
  | _ => true

/-- A directive that is called with arguments is carried out with their values. -/
theorem exists_values_of_run {directive : Directive} {arguments : List Value}
    {named : Table String Value} {v : Value} (hTakes : takesParameters directive = true)
    (hRun : (callDirective prepare p directive arguments named).run w = (.ok v, w')) :
    ∃ values, bindArguments (parameters directive) arguments named = .ok values
      ∧ (carryOut prepare p directive values).run w = (.ok v, w') := by
  unfold callDirective at hRun
  split at hRun
  · cases hTakes
  · cases hTakes
  · obtain ⟨values, w₁, hValues, hCarried⟩ := run_bind_eq_ok hRun
    obtain ⟨hFound, rfl⟩ := eq_of_run_check hValues
    exact ⟨values, hFound, hCarried⟩

theorem eq_ok_of_run_discard {x : SiteM Unit} {v : Value}
    (hRun : (do
      x
      return done : SiteM Value).run w = (.ok v, w')) : x.run w = (.ok (), w') := by
  obtain ⟨_, w₁, hFirst, hRest⟩ := run_bind_eq_ok hRun
  cases hRest
  exact hFirst

/-- A directive of a page makes of its flags what its calls for them would make of them. -/
theorem flagsAt_of_callDirective {inlined : Nat → World → List FlagCall} (hBound : k ≤ p)
    (hFlagged : (flagged p).Prepares prepare) (hElsewhere : (elsewhere p).Prepares prepare)
    (hTells : Tells k prepare inlined) (hPage : w.pages[p]? = some page) {name : String}
    {directive : Directive} (hKnown : page.context.directives.get? name = some directive)
    {arguments : List Value} {named : Table String Value} {v : Value}
    (hRun : (callDirective prepare p directive arguments named).run w = (.ok v, w')) :
    flagsAt w' p = (flagsAt w p).map fun f =>
      f.replay (directiveCalls inlined w page directive arguments named (.ok v)) := by
  have hHere := (Array.getElem?_eq_some_iff.mp hPage).1
  cases hRetunes : directive.retunes with
  | false =>
    have hSame := flagsAt_callDirective hFlagged hPage hKnown hRetunes arguments named
    have hNone : directiveCalls inlined w page directive arguments named (.ok v) = [] := by
      cases directive <;> first | rfl | cases hRetunes
    rw [hRun] at hSame
    rw [hNone, hSame]
    exact Option.map_id'.symm
  | true =>
    cases directive with
    | deferFragment =>
      obtain ⟨⟨kind, rest⟩, w₁, hFound, hDefers⟩ := run_bind_eq_ok hRun
      obtain ⟨-, rfl⟩ := eq_of_run_check hFound
      exact flagsAt_deferFragment hHere hDefers
    | setOption =>
      obtain ⟨values, hValues, hCarried⟩ := exists_values_of_run rfl hRun
      rw [directiveCalls, hValues]
      match values with
      | [option, value] =>
        have hSets : (setOption p option value).run w = (.ok (), w') :=
          eq_ok_of_run_discard hCarried
        exact flagsAt_setOption hSets
      | [] => cases hCarried
      | [_] => cases hCarried
      | _ :: _ :: _ :: _ => cases hCarried
    | extendPage =>
      obtain ⟨values, hValues, hCarried⟩ := exists_values_of_run rfl hRun
      rw [directiveCalls, hValues]
      match values with
      | [name] =>
        have hExtends : (extend prepare p name).run w = (.ok (), w') :=
          eq_ok_of_run_discard hCarried
        exact flagsAt_extend hBound hElsewhere hTells hPage hExtends
      | [] => cases hCarried
      | _ :: _ :: _ => cases hCarried
    | includePage =>
      obtain ⟨values, hValues, hCarried⟩ := exists_values_of_run rfl hRun
      match values with
      | [name, vars] => exact Emits.value (emits_includePage hFlagged name vars) hHere hCarried
      | [] => cases hCarried
      | [_] => cases hCarried
      | _ :: _ :: _ :: _ => cases hCarried
    | cachedInclude default =>
      obtain ⟨values, hValues, hCarried⟩ := exists_values_of_run rfl hRun
      match values with
      | [name, vars, lifetime] =>
        exact Emits.value (emits_cachedInclude hFlagged name vars _) hHere hCarried
      | [] => cases hCarried
      | [_] => cases hCarried
      | [_, _] => cases hCarried
      | _ :: _ :: _ :: _ :: _ => cases hCarried
    | freshFetch =>
      obtain ⟨values, hValues, hCarried⟩ := exists_values_of_run rfl hRun
      match values with
      | [url] =>
        obtain ⟨found, w₁, hFound, hRest⟩ := run_bind_eq_ok hCarried
        obtain ⟨cache, w₂, hCache, hDefers⟩ := run_bind_eq_ok hRest
        rw [run_page hPage] at hFound
        cases hFound
        have hSame : w₂ = w := by
          unfold requireCache at hCache
          split at hCache
          · cases hCache
            rfl
          · cases hCache
        rw [hSame] at hDefers
        exact flagsAt_deferFragment hHere hDefers
      | [] => cases hCarried
      | _ :: _ :: _ => cases hCarried
    | _ => cases hRetunes

/-- Calling an inserter of a page counts as keeping track of what it includes. -/
theorem flagsAt_callInserter (hPrepare : (flagged p).Prepares prepare) (hHere : p < w.pages.size)
    {name v : Value} {arguments : List Value} {named : Table String Value}
    (hRun : (callInserter prepare p name arguments named).run w = (.ok v, w')) :
    flagsAt w' p = (flagsAt w p).map fun f => f.replay (trackOf (.ok v)) := by
  have hRest : ∀ (vars : Value) (left : Table String Value), (do
      let given ← check (Bindings.ofMap vars)
      let more := left.map fun binding => (Value.text binding.1, binding.2)
      Value.text <$> includePage prepare p name (.map (Table.merge given more)) : SiteM Value).run w
        = (.ok v, w') →
      flagsAt w' p = (flagsAt w p).map fun f => f.replay (trackOf (.ok v)) := by
    intro vars left hRun
    obtain ⟨given, w₁, hGiven, hIncludes⟩ := run_bind_eq_ok hRun
    obtain ⟨-, rfl⟩ := eq_of_run_check hGiven
    exact Emits.value (emits_includePage hPrepare name _) hHere hIncludes
  unfold callInserter at hRun
  dsimp only at hRun
  split at hRun
  · exact hRest .null named hRun
  · rename_i found _
    exact hRest found (named.erase "variables") hRun
  · rename_i found _
    exact hRest found named hRun
  · cases hRun

variable {inlined : Nat → World → List FlagCall} {real : Nat → SiteM Unit} {callee v : Value}
  {arguments : List Value} {named : List (String × Value)}

/-- What the calls of a function of a page itself make of the flags of the page. -/
theorem flagsAt_ownCall (hBound : k ≤ p) (hFlagged : (flagged p).Prepares prepare)
    (hElsewhere : (elsewhere p).Prepares prepare) (hTells : Tells k prepare inlined)
    (hPage : w.pages[p]? = some page) (hOwner : ownerOf callee = some p)
    (hReal : (call real callee arguments named).run w = (.ok v, w'))
    (hRun : (call prepare callee arguments named).run w = (.ok v, w')) :
    flagsAt w' p = (flagsAt w p).map fun f =>
      f.replay (momentCalls k inlined real ⟨w, callee, arguments, named⟩) := by
  cases callee with
  | directive q name =>
    obtain rfl : q = p := Option.some.inj hOwner
    unfold momentCalls
    dsimp only
    rw [if_pos hBound, hPage, hReal]
    dsimp only
    cases hKnown : page.context.directives.get? name with
    | none =>
      have hFails : (call prepare (.directive q name) arguments named).run w
          = (.error unknownNumber, w) := by
        unfold call
        dsimp only
        rw [run_bind_of_ok (run_page hPage), hKnown]
        rfl
      rw [hFails] at hRun
      cases hRun
    | some directive =>
      rw [run_call_directive hPage hKnown] at hRun
      exact flagsAt_of_callDirective hBound hFlagged hElsewhere hTells hPage hKnown hRun
  | inserter q name =>
    obtain rfl : q = p := Option.some.inj hOwner
    unfold momentCalls
    dsimp only
    rw [if_pos hBound, hReal]
    exact flagsAt_callInserter hFlagged (Array.getElem?_eq_some_iff.mp hPage).1 hRun
  | _ => cases hOwner

/-- Nothing is counted for a call of a function that is bound to an earlier page, or to none. -/
theorem momentCalls_of_owner (h : ∀ q, ownerOf callee = some q → q < k) :
    momentCalls k inlined real ⟨w, callee, arguments, named⟩ = [] := by
  cases callee with
  | directive q name => exact if_neg (Nat.not_le.mpr (h q rfl))
  | inserter q name => exact if_neg (Nat.not_le.mpr (h q rfl))
  | _ => rfl

variable {refusal : Fault}

/-- A call that is not refused is the call itself, and makes of the flags of the page whose body
makes it what its calls for them would make of them. -/
theorem flagsAt_guardedCall (hBound : k ≤ p) (hFlagged : (flagged p).Prepares prepare)
    (hElsewhere : (elsewhere p).Prepares prepare) (hTells : Tells k prepare inlined)
    (hSame : ∀ q, (sameUnless refusal).holds (prepare q) (real q))
    (hPage : w.pages[p]? = some page)
    (hRun : (guardedCall refusal (homely k) p prepare callee arguments named).run w
      = (.ok v, w')) :
    (call real callee arguments named).run w = (.ok v, w')
      ∧ flagsAt w' p = (flagsAt w p).map fun f =>
        f.replay (momentCalls k inlined real ⟨w, callee, arguments, named⟩) := by
  unfold guardedCall at hRun
  rw [run_bind_of_ok (run_get w)] at hRun
  split at hRun
  · rename_i hAllowed
    have hReal : (call real callee arguments named).run w = (.ok v, w') :=
      eq_ok_of_sameUnless ((prepares_sameUnless hSame).call callee arguments named) hRun
    refine ⟨hReal, ?_⟩
    by_cases hOwner : ownerOf callee = some p
    · exact flagsAt_ownCall hBound hFlagged hElsewhere hTells hPage hOwner hReal hRun
    · have hEarlier : ∀ q, ownerOf callee = some q → q < k := by
        intro q hOf
        rw [Guard.allows, hOf, Option.all_some, homely, Bool.or_eq_true, decide_eq_true_eq,
          decide_eq_true_eq] at hAllowed
        rcases hAllowed with rfl | hLess
        · exact absurd hOf hOwner
        · exact hLess
      have hLeft := flagsAt_call_of_ne hFlagged hPage hOwner arguments named
      rw [hRun] at hLeft
      rw [momentCalls_of_owner hEarlier, hLeft]
      exact Option.map_id'.symm
  · cases hRun

end Calls

end PageBlocks.Inlining
