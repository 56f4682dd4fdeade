import PageBlocks.Proofs.Deferral.Evaluation
import PageBlocks.Site.Call

/-!
# Calls that keep track of tags

What bodies may call keeps to its role: a directive with the role `tame` has a tame result, one that
escapes gives what it was given laid out as before, and functions of the language make clean data of
clean data. Everything that puts a tag into a text marks the page.
-/

set_option autoImplicit false

namespace PageBlocks.Deferral

open PageBlocks.Body PageBlocks.Running PageBlocks.Site

/-! ## Arguments -/

theorem mem_ofBindings {named : List (String × Value)} {binding : String × Value}
    (h : binding ∈ Table.ofBindings named) : binding ∈ named :=
  (Table.mem_or_mem_of_mem_merge h).resolve_left List.not_mem_nil

/-- An argument and the name of the transform that escapes are the values of two parameters of
which the second one names a transform. -/
theorem bindArguments_escape {first : Value} {rest values : List Value}
    {named : Table String Value} {text transform : String}
    (hRest : ∀ v ∈ rest, v = escapeName) (hNamed : ∀ binding ∈ named, binding.2 = escapeName)
    (h : bindArguments [required text, optional transform escapeName] (first :: rest) named
      = .ok values) : values = [first, escapeName] := by
  rw [bindArguments] at h
  split at h
  · cases h
  · cases hMore : bindArguments [optional transform escapeName] rest named with
    | error fault =>
      rw [hMore] at h
      cases h
    | ok more =>
      rw [hMore] at h
      cases h
      have hDefaults : ∀ q ∈ [optional transform escapeName], ∀ v, q.default = some v →
          v = escapeName := by
        intro q hMem v hDefault
        obtain rfl := List.mem_singleton.mp hMem
        exact (Option.some.inj hDefault).symm
      obtain ⟨hLength, hAll⟩ := forall_mem_bindArguments hDefaults hRest hNamed hMore
      obtain ⟨v, rfl⟩ := List.length_eq_one_iff.mp hLength
      rw [hAll v List.mem_cons_self]

/-! ## Functions of the language -/

theorem addPair_char (bound : Bindings) (c : Char) (n : Nat) :
    Bindings.addPair bound (.text (String.ofList [c]), n) = .error (.value (.pairLength n 1)) := by
  have hItems : (Value.text (String.ofList [c])).elements? = some [.text (String.ofList [c])] := by
    simp [Value.elements?]
  simp only [Bindings.addPair, hItems, List.length_cons, List.length_nil]

/-- Of tame values, only clean ones are series of pairs, but for the empty text. -/
theorem cleanBindings_ofSeries_of_tame {directives : Table String Directive} {tags : Bool} {p : Nat}
    {v : Value} {bound : Bindings} (h : Tame directives tags p v)
    (hBound : Bindings.ofSeries v = .ok bound) : CleanBindings bound := by
  cases h with
  | clean h => exact closed_isClean.ofSeries h hBound
  | @text s h =>
    have hFold : (s.toList.map fun c => Value.text (String.ofList [c])).zipIdx.foldlM
        Bindings.addPair [] = .ok bound := hBound
    cases hText : s.toList with
    | nil =>
      rw [hText] at hFold
      cases hFold
      exact cleanBindings_nil
    | cons c cs =>
      rw [hText, List.map_cons, List.zipIdx_cons, List.foldlM_cons, addPair_char] at hFold
      cases hFold
  | directive h hRole => cases hBound
  | inserter h => cases hBound

/-! ## Directives -/

/-- A tag that is made of clean data is one. -/
theorem laid_encode {registry : Fragment.Registry} {kind : Value} {arguments : List Value}
    {text : String} (hKind : kind.isClean = true) (hArguments : Value.areClean arguments = true)
    (h : registry.encode kind arguments = .ok text) : Laid true text.toList := by
  unfold Fragment.Registry.encode at h
  obtain ⟨found, -, h⟩ := bind_eq_ok h
  split at h
  · cases h
  · split at h
    · rename_i payload hPayload
      cases h
      have hTag := Laid.tag ⟨kind, arguments, hKind, hArguments, hPayload⟩ Laid.nil
      rw [List.append_nil] at hTag
      rw [String.toList_ofList]
      exact hTag
    · cases h

section Directives

variable {start w : World} {active : List Nat} {p : Nat} {prepare : Nat → SiteM Unit}

theorem isClean_result : done.isClean = true := by decide

theorem safe_deferFragment {kind : Value} {arguments : List Value} (hHeld : Held start active w)
    (hActive : p ∈ active) (hKind : kind.isClean = true)
    (hArguments : Value.areClean arguments = true) :
    Safe start active w (deferFragment p kind arguments) fun v w' =>
      Tame start.settings.directives (mayTag w' p) p v := by
  have hTag : Gives w (tagOf p kind arguments) fun text => Laid true text.toList := by
    refine (gives_page w p).bind fun page _ => ?_
    refine Ends.mono (gives_check _) (fun text w' hText => ?_) fun _ => id
    exact ⟨laid_encode hKind hArguments hText.1, hText.2⟩
  refine Safe.bind_gives hHeld hTag fun text hText => Safe.map ?_
  exact (safe_track hHeld hActive hText).mono fun shown w' _ _ hShown => .text hShown

/-- A change of a page that leaves its texts, its outline and its mark alone is safe. -/
theorem safe_adjust {f : Page → Page} (hHeld : Held start active w) (hActive : p ∈ active)
    (hKept : ∀ page : Page, (f page).context = page.context ∧ (f page).captures = page.captures
      ∧ (f page).outline = page.outline ∧ (f page).id = page.id
      ∧ (f page).deferred = page.deferred)
    (hVars : ∀ page : Page, CleanBindings page.vars → CleanBindings (f page).vars) :
    Safe start active w (updatePage p f) fun _ _ => True := by
  obtain ⟨page, hPage⟩ := hHeld.found p hActive
  obtain ⟨hLaid, -⟩ := hHeld.pages p page hPage
  obtain ⟨hContext, hCaptures, hOutline, hId, hDeferred⟩ := hKept page
  have hNext : PageLaid start.settings (f page) := by
    refine ⟨?_, hVars page hLaid.vars, ?_⟩
    · rw [hContext]
      exact hLaid.context
    · rw [hCaptures, hDeferred]
      exact hLaid.captures
  have hUpdate := safe_updatePage hHeld hActive hPage hNext hOutline hId
    fun hMark => hDeferred ▸ hMark
  exact hUpdate.mono fun _ _ _ _ _ => trivial

theorem safe_setVariable {name value : Value} (hHeld : Held start active w) (hActive : p ∈ active)
    (hName : name.isClean = true) (hValue : value.isClean = true) :
    Safe start active w (setVariable p name value) fun _ _ => True := by
  unfold setVariable
  split
  · exact safe_adjust hHeld hActive (fun _ => ⟨rfl, rfl, rfl, rfl, rfl⟩)
      fun page hVars => hVars.insert hName hValue
  · exact safe_throw hHeld

theorem safe_setOption {option value : Value} (hHeld : Held start active w) (hActive : p ∈ active) :
    Safe start active w (setOption p option value) fun _ _ => True := by
  unfold setOption
  split
  · split
    · refine Safe.bind_check hHeld fun mode _ => ?_
      exact safe_adjust hHeld hActive (fun _ => ⟨rfl, rfl, rfl, rfl, rfl⟩) fun _ hVars => hVars
    · exact safe_throw hHeld
  · exact safe_throw hHeld
  · exact safe_throw hHeld

theorem gives_outlineOf (hHeld : Held start active w) (hActive : p ∈ active) :
    Gives w (outlineOf p) (OutlineLaid (mayTag w p)) := by
  obtain ⟨page, hPage⟩ := hHeld.found p hActive
  obtain ⟨-, hBound⟩ := hHeld.pages p page hPage
  have hOutline : w.outlines[page.outline]? = some w.outlines[page.outline] :=
    Array.getElem?_eq_getElem hBound
  refine ends_of_run (run_outlineOf hPage hOutline) ⟨?_, rfl⟩
  rw [mayTag_eq hPage]
  exact hHeld.own p hActive page _ hPage hOutline

theorem safe_blockOutput {name : Value} (hHeld : Held start active w) (hActive : p ∈ active) :
    Safe start active w (blockOutput p name) fun text w' => Laid (mayTag w' p) text.toList := by
  unfold blockOutput
  split
  · exact safe_throw hHeld
  · refine Safe.bind_gives hHeld (gives_outlineOf hHeld hActive) fun o _ => ?_
    split
    · exact (safe_renderBlock hHeld hActive _).mono fun text w' _ _ hText => hText.2
    · exact safe_pure hHeld .nil

theorem gives_parentContent (hHeld : Held start active w) (hActive : p ∈ active) :
    Gives w (currentBlock p) (BlockLaid (mayTag w p)) := by
  unfold currentBlock
  refine (gives_page w p).bind fun page _ => ?_
  refine (gives_outlineOf hHeld hActive).bind fun o hLaid => ?_
  dsimp only
  split
  · rename_i b hBlock
    exact gives_pure (hLaid.block hBlock)
  · exact gives_throw _

theorem safe_open {x : DraftM Nat} (hHeld : Held start active w) (hActive : p ∈ active)
    (hKeeps : KeepsLaid (mayTag w p) x) :
    Safe start active w (do
      let _ ← onDraft p x
      return done) fun v w' => Tame start.settings.directives (mayTag w' p) p v := by
  refine Safe.bind (safe_onDraft hHeld hActive hKeeps) fun _ w' hHeld' _ _ => ?_
  exact safe_pure hHeld' (.clean isClean_result)

theorem isClean_default (directive : Directive) :
    ∀ q ∈ parameters directive, ∀ v, q.default = some v → v.isClean = true := by
  intro q hMem v hDefault
  have hAll : ((parameters directive).all fun q => q.default.all Value.isClean) = true := by
    cases directive <;> rfl
  have hOne := List.all_eq_true.mp hAll q hMem
  rw [hDefault] at hOne
  exact hOne

/-- A directive with the role `tame` that is called with clean data has a tame result. -/
theorem safe_carryOut {directive : Directive} {values : List Value}
    (hPrepare : PreparesSafely start prepare) (hHeld : Held start active w) (hActive : p ∈ active)
    (hRole : directive.role = .tame) (hLength : values.length = (parameters directive).length)
    (hValues : Value.areClean values = true) :
    Safe start active w (carryOut prepare p directive values) fun v w' =>
      Tame start.settings.directives (mayTag w' p) p v := by
  have hTwo : ∀ {vs : List Value}, vs.length = 2 → ∃ a b, vs = [a, b] :=
    fun h => ⟨_, _, List.eq_getElem_of_length_eq_two _ h⟩
  cases directive with
  | openBlock =>
    obtain ⟨name, rfl⟩ := List.length_eq_one_iff.mp hLength
    exact safe_open hHeld hActive (keepsLaid_openBlock name .replace)
  | openBefore =>
    obtain ⟨name, rfl⟩ := List.length_eq_one_iff.mp hLength
    exact safe_open hHeld hActive (keepsLaid_openBlock name .prepend)
  | openBehind =>
    obtain ⟨name, rfl⟩ := List.length_eq_one_iff.mp hLength
    exact safe_open hHeld hActive (keepsLaid_openBlock name .append)
  | closeBlock =>
    obtain rfl := List.length_eq_zero_iff.mp hLength
    refine Safe.bind (safe_onDraft hHeld hActive keepsLaid_close) fun _ w' hHeld' _ _ => ?_
    exact safe_pure hHeld' (.clean isClean_result)
  | extendPage =>
    obtain ⟨name, rfl⟩ := List.length_eq_one_iff.mp hLength
    refine Safe.bind (safe_extend hPrepare hHeld hActive) fun _ w' hHeld' _ _ => ?_
    exact safe_pure hHeld' (.clean isClean_result)
  | includePage =>
    obtain ⟨name, vars, rfl⟩ := hTwo hLength
    have hVars := areClean_iff.mp hValues vars (by simp)
    refine Safe.map ((safe_includePage hPrepare hHeld hActive hVars).mono ?_)
    exact fun text w' _ _ hText => .text hText
  | blockOutput =>
    obtain ⟨name, rfl⟩ := List.length_eq_one_iff.mp hLength
    refine Safe.map ((safe_blockOutput hHeld hActive).mono ?_)
    exact fun text w' _ _ hText => .text hText
  | parentContent =>
    obtain rfl := List.length_eq_zero_iff.mp hLength
    refine Safe.bind_gives hHeld (gives_parentContent hHeld hActive) fun b hLaid => ?_
    exact safe_pure hHeld (.text hLaid.content)
  | inserter =>
    obtain ⟨name, rfl⟩ := List.length_eq_one_iff.mp hLength
    exact safe_pure hHeld (.inserter (areClean_iff.mp hValues name (by simp)))
  | setVariable =>
    obtain ⟨name, value, rfl⟩ := hTwo hLength
    have hName := areClean_iff.mp hValues name (by simp)
    have hValue := areClean_iff.mp hValues value (by simp)
    refine Safe.bind (safe_setVariable hHeld hActive hName hValue) fun _ w' hHeld' _ _ => ?_
    exact safe_pure hHeld' (.clean isClean_result)
  | setOption =>
    obtain ⟨option, value, rfl⟩ := hTwo hLength
    refine Safe.bind (safe_setOption hHeld hActive) fun _ w' hHeld' _ _ => ?_
    exact safe_pure hHeld' (.clean isClean_result)
  | deferFragment =>
    obtain rfl := List.length_eq_zero_iff.mp hLength
    exact safe_throw hHeld
  | freshFetch =>
    obtain ⟨url, rfl⟩ := List.length_eq_one_iff.mp hLength
    refine Safe.bind_page hHeld fun page _ => ?_
    have hCache : Gives w (requireCache page) fun _ => True := by
      unfold requireCache
      split
      · exact gives_pure trivial
      · exact gives_throw _
    refine Safe.bind_gives hHeld hCache fun _ _ => ?_
    exact safe_deferFragment hHeld hActive (by decide) hValues
  | markupBlock transforms | transformText transforms =>
    rw [Directive.role] at hRole
    split at hRole <;> cases hRole
  | _ => cases hRole

theorem safe_declareMarkup {transforms : Table String Transform} {name transform : Value}
    (hHeld : Held start active w) (hActive : p ∈ active)
    (hFind : Transform.find transforms transform = .ok .escape) :
    Safe start active w (declareMarkup p transforms name transform) fun _ _ => True := by
  unfold declareMarkup
  rw [hFind]
  refine Safe.bind_check hHeld fun t hTransform => ?_
  cases hTransform
  refine Safe.bind_page hHeld fun page _ => ?_
  refine Safe.bind_check hHeld fun b hBlock => ?_
  have hKeeps : KeepsLaid (mayTag w p) (Draft.addBlock b .replace) :=
    keepsLaid_addBlock (blockLaid_declare hBlock) .replace
  refine Safe.bind (safe_onDraft hHeld hActive hKeeps) fun _ w' hHeld' _ _ => ?_
  exact safe_pure hHeld' trivial

/-- A directive that escapes its first argument gives it laid out as before. -/
theorem safe_carryOut_escaping {directive : Directive} {v : Value}
    (hHeld : Held start active w) (hActive : p ∈ active) (hRole : directive.role = .escaping)
    (hValue : Tame start.settings.directives (mayTag w p) p v) :
    Safe start active w (carryOut prepare p directive [v, escapeName]) fun shown w' =>
      Tame start.settings.directives (mayTag w' p) p shown := by
  have hFind : ∀ transforms : Table String Transform, transforms.get? "escape" = some .escape →
      Transform.find transforms escapeName = .ok .escape := by
    intro transforms hEscape
    rw [escapeName, Transform.find, hEscape]
  cases directive with
  | markupBlock transforms =>
    rw [Directive.role] at hRole
    split at hRole
    · rename_i hEscape
      refine Safe.bind (safe_declareMarkup hHeld hActive (hFind transforms hEscape)) ?_
      exact fun _ w' hHeld' _ _ => safe_pure hHeld' (.clean isClean_result)
    · cases hRole
  | transformText transforms =>
    rw [Directive.role] at hRole
    split at hRole
    · rename_i hEscape
      have hApply : Transform.escape.applyTo v = .ok (.text (Transform.escape.apply v.print)) := by
        cases v <;> rfl
      have hShown : Laid (mayTag w p) (Transform.escape.apply v.print).toList := by
        rw [Transform.apply, String.toList_ofList]
        exact hValue.print.escape
      refine Safe.bind_check hHeld fun t hTransform => ?_
      rw [hFind transforms hEscape] at hTransform
      cases hTransform
      rw [hApply]
      exact safe_pure hHeld (.text hShown)
    · cases hRole
  | _ => cases hRole

/-! ## Calls -/

/-- An inserter that is called with clean data gives a tame text. -/
theorem safe_callInserter {name : Value} {arguments : List Value} {named : Table String Value}
    (hPrepare : PreparesSafely start prepare) (hHeld : Held start active w) (hActive : p ∈ active)
    (hArguments : Value.areClean arguments = true) (hNamed : CleanNamed named) :
    Safe start active w (callInserter prepare p name arguments named) fun v w' =>
      Tame start.settings.directives (mayTag w' p) p v := by
  have hRest : ∀ {vars : Value} {left : Table String Value}, vars.isClean = true →
      CleanNamed left → Safe start active w (do
        let given ← check (Bindings.ofMap vars)
        let more := left.map fun binding => (Value.text binding.1, binding.2)
        Value.text <$> includePage prepare p name (.map (Table.merge given more)))
        fun v w' => Tame start.settings.directives (mayTag w' p) p v := by
    intro vars left hVars hLeft
    refine Safe.bind_check hHeld fun given hGiven => Safe.map ?_
    have hMerged : (Value.map (Table.merge given
        (left.map fun binding => (Value.text binding.1, binding.2)))).isClean = true :=
      areCleanEntries_iff.mpr
        ((closed_isClean.ofMap hVars hGiven).merge (Upkeep.NamedFit.bindings hLeft))
    refine (safe_includePage hPrepare hHeld hActive hMerged).mono ?_
    exact fun text w' _ _ hText => .text hText
  have hNull : Value.null.isClean = true := rfl
  unfold callInserter
  dsimp only
  split
  · exact hRest hNull hNamed
  · rename_i v hFound
    refine hRest (hNamed _ (Table.mem_of_get?_eq_some hFound)).2 ?_
    exact fun binding hMem => hNamed binding (Table.mem_of_mem_erase hMem)
  · exact hRest (areClean_iff.mp hArguments _ List.mem_cons_self) hNamed
  · exact safe_throw hHeld

theorem exists_get?_of_roleOf {directives : Table String Directive} {loose : List String}
    {name : String} (h : roleOf directives loose name = .escaping) :
    ∃ directive, directives.get? name = some directive ∧ directive.role = .escaping := by
  unfold roleOf at h
  split at h
  · rename_i directive hFound
    exact ⟨directive, hFound, h⟩
  · split at h <;> cases h

theorem isClean_kindAndArguments {arguments rest : List Value} {named : Table String Value}
    {kind : Value} (hArguments : Value.areClean arguments = true) (hNamed : CleanNamed named)
    (h : kindAndArguments arguments named = .ok (kind, rest)) :
    kind.isClean = true ∧ Value.areClean rest = true := by
  unfold kindAndArguments at h
  split at h
  · cases h
    simpa [Value.areClean] using hArguments
  · split at h
    · cases h
      exact ⟨(hNamed _ List.mem_cons_self).2, rfl⟩
    · cases h
  · cases h

/-- A directive with the role `tame` that is called with clean data has a tame result. -/
theorem safe_callDirective {directive : Directive} {arguments : List Value}
    {named : Table String Value} (hPrepare : PreparesSafely start prepare)
    (hHeld : Held start active w) (hActive : p ∈ active) (hRole : directive.role = .tame)
    (hArguments : Value.areClean arguments = true) (hNamed : CleanNamed named) :
    Safe start active w (callDirective prepare p directive arguments named) fun v w' =>
      Tame start.settings.directives (mayTag w' p) p v := by
  unfold callDirective
  split
  · refine Safe.bind_check hHeld fun found hFound => ?_
    obtain ⟨kind, rest⟩ := found
    obtain ⟨hKind, hRest⟩ := isClean_kindAndArguments hArguments hNamed hFound
    exact safe_deferFragment hHeld hActive hKind hRest
  · cases hRole
  · refine Safe.bind_check hHeld fun values hValues => ?_
    obtain ⟨hLength, hAll⟩ := forall_mem_bindArguments (isClean_default directive)
      (areClean_iff.mp hArguments) (fun binding hMem => (hNamed binding hMem).2) hValues
    exact safe_carryOut hPrepare hHeld hActive hRole hLength (areClean_iff.mpr hAll)

/-- A directive that escapes and is called with a tame value has a tame result. -/
theorem safe_callDirective_escaping {directive : Directive} {first : Value} {rest : List Value}
    {named : Table String Value} (hHeld : Held start active w) (hActive : p ∈ active)
    (hRole : directive.role = .escaping)
    (hFirst : Tame start.settings.directives (mayTag w p) p first)
    (hRest : ∀ v ∈ rest, v = escapeName) (hNamed : ∀ binding ∈ named, binding.2 = escapeName) :
    Safe start active w (callDirective prepare p directive (first :: rest) named) fun v w' =>
      Tame start.settings.directives (mayTag w' p) p v := by
  have hParameters : ∃ text transform,
      parameters directive = [required text, optional transform escapeName] := by
    cases directive with
    | markupBlock transforms => exact ⟨_, _, rfl⟩
    | transformText transforms => exact ⟨_, _, rfl⟩
    | _ => cases hRole
  obtain ⟨text, transform, hParameters⟩ := hParameters
  unfold callDirective
  split
  · cases hRole
  · cases hRole
  · rw [hParameters]
    refine Safe.bind_check hHeld fun values hValues => ?_
    obtain rfl := bindArguments_escape hRest hNamed hValues
    exact safe_carryOut_escaping hHeld hActive hRole hFirst

theorem PageLaid.directives_eq {settings : Context} {page : Page} (h : PageLaid settings page) :
    page.context.directives = settings.directives := by
  have hSame := congrArg Context.directives h.context
  exact hSame

/-- Calling a directive of a page carries it out. -/
theorem safe_callByName {name : String} {directive : Directive} {arguments : List Value}
    {named : List (String × Value)} {post : Value → World → Prop} (hHeld : Held start active w)
    (hFound : start.settings.directives.get? name = some directive)
    (h : Safe start active w
      (callDirective prepare p directive arguments (Table.ofBindings named)) post) :
    Safe start active w (call prepare (.directive p name) arguments named) post := by
  refine Safe.bind_page hHeld fun page hPage => ?_
  have hDirective : page.context.directives.get? name = some directive := by
    rw [(hHeld.pages p page hPage).1.directives_eq, hFound]
  rw [hDirective]
  exact h

theorem gives_callClean {callee : Value} {arguments : List Value} {named : List (String × Value)}
    (hCallee : callee.isClean = true)
    (hArguments : ∀ v ∈ arguments, ∀ bound, Bindings.ofSeries v = .ok bound → CleanBindings bound)
    (hNamed : CleanNamed named) :
    Gives w (call prepare callee arguments named) fun v => v.isClean = true := by
  have hTable : CleanNamed (Table.ofBindings named) :=
    fun binding hMem => hNamed binding (mem_ofBindings hMem)
  cases callee with
  | directive q name => cases hCallee
  | inserter q name => cases hCallee
  | builtIn f =>
    refine Ends.mono (gives_check _) (fun v w' hResult => ?_) fun _ => id
    exact ⟨closed_isClean.callBuiltIn_of_series hArguments hTable hResult.1, hResult.2⟩
  | _ => exact gives_throw _

/-- What the body of a page calls keeps to its role. -/
theorem serves_handlerOf (loose : List String) {page : Page}
    (hPrepare : PreparesSafely start prepare) (hActive : p ∈ active) :
    Serves start active p (roleOf start.settings.directives loose)
      (handlerOf prepare p page) := by
  refine ⟨?_, ?_, ?_, ?_⟩
  · intro w callee arguments named hCallee hArguments hNamed
    refine gives_callClean hCallee (fun v hMem bound hBound => ?_) hNamed
    exact closed_isClean.ofSeries (areClean_iff.mp hArguments v hMem) hBound
  · intro w callee arguments named hHeld hCallee hArguments hNamed
    have hTable : CleanNamed (Table.ofBindings named) :=
      fun binding hMem => hNamed binding (mem_ofBindings hMem)
    cases hCallee with
    | clean h =>
      have hGives : Gives w (call prepare callee arguments named) fun v => v.isClean = true :=
        gives_callClean h (fun v hMem bound hBound =>
          closed_isClean.ofSeries (areClean_iff.mp hArguments v hMem) hBound) hNamed
      exact (hGives.safe hHeld).mono fun v w' _ _ hClean => .clean hClean.1
    | text h => exact safe_throw hHeld
    | directive hFound hRole =>
      exact safe_callByName hHeld hFound
        (safe_callDirective hPrepare hHeld hActive hRole hArguments hTable)
    | inserter h => exact safe_callInserter hPrepare hHeld hActive hArguments hTable
  · intro w name callee first rest named hHeld hRole hCallee hFirst hRest hNamed
    rcases hCallee with hClean | rfl
    · -- a variable hides the directive, and what is called is nothing but a function
      have hArguments : ∀ v ∈ first :: rest, ∀ bound, Bindings.ofSeries v = .ok bound →
          CleanBindings bound := by
        intro v hMem bound hBound
        rcases List.mem_cons.mp hMem with rfl | hMem
        · exact cleanBindings_ofSeries_of_tame hFirst hBound
        · rw [hRest v hMem] at hBound
          exact closed_isClean.ofSeries (by decide) hBound
      have hGives : Gives w (call prepare callee (first :: rest) named) fun v =>
          v.isClean = true := by
        refine gives_callClean hClean hArguments fun binding hMem => ?_
        obtain ⟨hName, hValue⟩ := hNamed binding hMem
        rw [hValue]
        exact ⟨hName, by decide⟩
      exact (hGives.safe hHeld).mono fun v w' _ _ hResult => .clean hResult.1
    · obtain ⟨directive, hFound, hEscaping⟩ := exists_get?_of_roleOf hRole
      refine safe_callByName hHeld hFound (safe_callDirective_escaping hHeld hActive hEscaping
        hFirst hRest fun binding hMem => ?_)
      exact (hNamed binding (mem_ofBindings hMem)).2
  · intro w s hHeld hText
    have hKeeps : KeepsLaid (mayTag w p) (Draft.write (.text s)) := by
      refine keepsLaid_write fun t hShape => ?_
      cases hShape
      exact hText
    have hSafe := safe_onDraft hHeld hActive hKeeps
    exact hSafe

end Directives

end PageBlocks.Deferral
