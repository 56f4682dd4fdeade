import PageBlocks.Proofs.Bodies

/-!
# Where a cycle can be reported

Only extending a page reports a cycle (`Fault.extendCycle`). Everything else that a page can ask for
without including another one spares that fault: the pure computations (`IsCyclic`), the steps of
drafts, the caches, and all directives but the one that extends (`spares_carryOut`).
-/

set_option autoImplicit false

namespace PageBlocks.Extending

open PageBlocks.Body PageBlocks.Cache PageBlocks.Running PageBlocks.Site

/-- The chain of a result that reports a cycle. -/
def cycleOf {α : Type} : Except Fault α → Option (List String)
  | .error (.extendCycle first rest) => some (first :: rest)
  | _ => none

/-- A computation that reports no cycle. -/
def Spares {σ α : Type} (x : Run σ α) : Prop := ∀ s, cycleOf (x.run s).1 = none

section Combinators

variable {σ α β : Type}

/-- A fault reports the same chain, whatever was to be computed. -/
theorem cycleOf_error (fault : Fault) :
    cycleOf (.error fault : Except Fault α) = cycleOf (.error fault : Except Fault β) := by
  cases fault <;> rfl

theorem cycleOf_bind {x : Except Fault α} {f : α → Except Fault β} (h : cycleOf x = none)
    (hNext : ∀ a, cycleOf (f a) = none) : cycleOf (x >>= f) = none := by
  cases x with
  | ok a => exact hNext a
  | error fault => cases fault <;> first | rfl | cases h

theorem cycleOf_map {x : Except Fault α} (f : α → β) : cycleOf (x.map f) = cycleOf x := by
  cases x with
  | ok a => rfl
  | error fault => cases fault <;> rfl

theorem spares_pure (a : α) : Spares (pure a : Run σ α) := fun _ => rfl

theorem spares_throw {fault : Fault} (h : cycleOf (.error fault : Except Fault α) = none) :
    Spares (throw fault : Run σ α) := fun _ => h

theorem Spares.bind {x : Run σ α} {f : α → Run σ β} (h : Spares x) (hNext : ∀ a, Spares (f a)) :
    Spares (x >>= f) := by
  intro s
  have hFirst := h s
  rw [run_bind]
  rcases hRun : x.run s with ⟨fault | a, t⟩
  · rw [hRun] at hFirst
    cases fault <;> first | rfl | cases hFirst
  · exact hNext a t

theorem Spares.map {x : Run σ α} (h : Spares x) (f : α → β) : Spares (f <$> x) := by
  intro s
  have hFirst := h s
  rw [run_map]
  rcases hRun : x.run s with ⟨fault | a, t⟩
  · rw [hRun] at hFirst
    cases fault <;> first | rfl | cases hFirst
  · rfl

theorem Spares.bind_get {f : σ → Run σ α} (h : ∀ s, Spares (f s)) : Spares (get >>= f) :=
  fun s => h s s

theorem spares_set (s : σ) : Spares (set s : Run σ PUnit) := fun _ => rfl

theorem spares_modify (f : σ → σ) : Spares (modify f : Run σ PUnit) := fun _ => rfl

theorem spares_lift {x : Except Fault α} (h : cycleOf x = none) : Spares (liftM x : Run σ α) := by
  intro s
  cases x with
  | ok a => rfl
  | error fault => exact h

theorem spares_check {x : Except Fault α} (h : cycleOf x = none) : Spares (check x) := by
  intro w
  cases x with
  | ok a => rfl
  | error fault => exact h

theorem spares_tryCatch {x : Run σ α} {handle : Fault → Run σ α} (h : Spares x)
    (hHandle : ∀ fault, cycleOf (.error fault : Except Fault α) = none → Spares (handle fault)) :
    Spares (tryCatch x handle) := by
  intro s
  have hFirst := h s
  rw [run_tryCatch]
  rcases hRun : x.run s with ⟨fault | a, t⟩
  · rw [hRun] at hFirst
    exact hHandle fault hFirst t
  · rfl

theorem spares_inFolder (name : String) {change : Folder.Change Unit} (h : Spares change) :
    Spares (Ref.inFolder name change) := by
  refine Spares.bind_get fun v => (spares_set _).bind fun _ => spares_lift ?_
  exact h (v.folder name)

theorem spares_onVault {x : VaultM α} (h : Spares x) : Spares (onVault x) := by
  unfold onVault
  refine Spares.bind_get fun w => ?_
  exact (spares_set _).bind fun _ => spares_check (h w.vault)

end Combinators

/-! ## Pure computations -/

section Pure

theorem cycleOf_ofOrder {α : Type} (x : Except Value.NoOrder α) :
    cycleOf (Fault.ofOrder x) = none := by
  cases x with
  | ok a => rfl
  | error e => cases e <;> rfl

theorem cycleOf_withoutOperation {α : Type} (v : Value) :
    cycleOf (.error (Fault.withoutOperation v) : Except Fault α) = none := by
  cases v <;> rfl

theorem cycleOf_identity (path : String) (vars : Bindings) :
    cycleOf (Identity.page path vars) = none := by
  have hQuoted : cycleOf (Identity.quotedVariables vars) = none :=
    cycleOf_bind (cycleOf_ofOrder _) fun _ => rfl
  have hText : cycleOf (Identity.variablesText vars) = none := by
    unfold Identity.variablesText
    split
    · rfl
    · rfl
    · exact hQuoted
  have hPage : cycleOf (Identity.pageText path vars) = none := cycleOf_bind hText fun _ => rfl
  exact (cycleOf_map _).trans hPage

theorem cycleOf_bindArguments (ps : List Parameter) (arguments : List Value)
    (named : Table String Value) : cycleOf (bindArguments ps arguments named) = none := by
  induction ps generalizing arguments named with
  | nil =>
    unfold bindArguments
    split <;> first | rfl | contradiction
  | cons q ps ih =>
    cases arguments with
    | cons v rest =>
      rw [bindArguments]
      split
      · rfl
      · exact (cycleOf_map _).trans (ih rest named)
    | nil =>
      rw [bindArguments]
      split
      · exact (cycleOf_map _).trans (ih [] _)
      · exact (cycleOf_map _).trans (ih [] _)
      · rfl

theorem cycleOf_modeOf (v : Value) : cycleOf (modeOf v) = none := by
  unfold modeOf
  split
  · rfl
  · split <;> rfl
  · rfl

theorem cycleOf_kindAndArguments (arguments : List Value) (named : Table String Value) :
    cycleOf (kindAndArguments arguments named) = none := by
  unfold kindAndArguments
  split
  · rfl
  · split <;> rfl
  · rfl

theorem cycleOf_encode (registry : Fragment.Registry) (kind : Value) (arguments : List Value) :
    cycleOf (registry.encode kind arguments) = none := by
  have hFind : cycleOf (registry.find? kind) = none := by
    unfold Fragment.Registry.find?
    split
    · rfl
    · split <;> rfl
  refine cycleOf_bind hFind fun found => ?_
  split
  · rfl
  · split <;> rfl

theorem cycleOf_declare (owner : String) (name : Value) (kind : BlockKind) (lifetime : Value)
    (transform : Option Transform) :
    cycleOf (Block.declare owner name kind lifetime transform) = none := by
  unfold Block.declare
  split <;> rfl

theorem cycleOf_find (transforms : Table String Transform) (name : Value) :
    cycleOf (Transform.find transforms name) = none := by
  unfold Transform.find
  split
  · split <;> rfl
  · split <;> rfl

theorem cycleOf_applyTo (transform : Transform) (v : Value) :
    cycleOf (transform.applyTo v) = none := by
  unfold Transform.applyTo
  split <;> first | rfl | exact cycleOf_withoutOperation _

theorem cycleOf_variablesText (vars : Bindings) : cycleOf (Fragment.variablesText vars) = none :=
  cycleOf_bind (cycleOf_ofOrder _) fun _ => rfl

theorem cycleOf_placeAt (files : FileTree Source) (locator : Locator) (name : Value)
    (extra : List Path) : cycleOf (placeAt files locator name extra) = none := by
  unfold placeAt
  split
  · unfold Locator.locate
    dsimp only
    split
    · rfl
    · refine cycleOf_bind ?_ fun given => ?_
      · unfold Locator.expand
        split <;> rfl
      · split <;> rfl
  · rfl
  · exact cycleOf_withoutOperation _

theorem cycleOf_rangeOf (arguments : List Value) : cycleOf (rangeOf arguments) = none := by
  have hWhole : ∀ v, cycleOf (wholeOf v) = none := by
    intro v
    unfold wholeOf
    split <;> rfl
  unfold rangeOf
  split
  · exact cycleOf_bind (hWhole _) fun _ => rfl
  · exact cycleOf_bind (hWhole _) fun _ => cycleOf_bind (hWhole _) fun _ => rfl
  · refine cycleOf_bind (hWhole _) fun _ => cycleOf_bind (hWhole _) fun _ => ?_
    refine cycleOf_bind (hWhole _) fun step => ?_
    split <;> rfl
  · rfl

theorem cycleOf_ofSeries (v : Value) : cycleOf (Bindings.ofSeries v) = none := by
  have hPair : ∀ bound pair, cycleOf (Bindings.addPair bound pair) = none := by
    intro bound pair
    unfold Bindings.addPair
    split
    · rfl
    · split <;> rfl
    · rfl
  have hPairs : ∀ (pairs : List (Value × Nat)) (bound : Bindings),
      cycleOf (pairs.foldlM Bindings.addPair bound) = none := by
    intro pairs
    induction pairs with
    | nil => exact fun _ => rfl
    | cons pair rest ih =>
      intro bound
      rw [List.foldlM_cons]
      exact cycleOf_bind (hPair bound pair) fun next => ih next
  unfold Bindings.ofSeries
  split
  · rfl
  · rfl
  · split
    · exact hPairs _ _
    · rfl

theorem cycleOf_callBuiltIn (arguments : List Value) (named : Table String Value) (f : BuiltIn) :
    cycleOf (callBuiltIn arguments named f) = none := by
  cases f with
  | range =>
    show cycleOf (if named.isEmpty then rangeOf arguments else .error (.host .type)) = none
    split
    · exact cycleOf_rangeOf arguments
    · rfl
  | mapping =>
    unfold callBuiltIn
    dsimp only
    split
    · rfl
    · exact cycleOf_bind (cycleOf_ofSeries _) fun _ => rfl
    · rfl

theorem cycleOf_namedVariables (dialect : Dialect) (vars : Bindings) :
    cycleOf (namedVariables dialect vars) = none := by
  unfold namedVariables
  generalize ([] : Scope) = bound
  induction vars generalizing bound with
  | nil => rfl
  | cons entry rest ih =>
    rw [List.foldlM_cons]
    refine cycleOf_bind ?_ fun next => ih next
    split <;> rfl

end Pure

/-! ## Drafts -/

section Drafts

theorem spares_reopen (i : Nat) (mode : ApplyMode) : Spares (do
    Draft.markExtended i
    Draft.push i mode
    return i : DraftM Nat) :=
  (spares_modify _).bind fun _ => (spares_modify _).bind fun _ => spares_pure i

theorem cycleOf_checkName (name : Value) : cycleOf (Draft.checkName name) = none := by
  unfold Draft.checkName
  split
  · rfl
  · split <;> rfl

theorem spares_openBlock (name : Value) (mode : ApplyMode) :
    Spares (Draft.openBlock name mode) := by
  refine (spares_lift (cycleOf_checkName name)).bind fun _ => Spares.bind_get fun d => ?_
  split
  · exact spares_reopen _ mode
  · exact (spares_set _).bind fun _ => (spares_modify _).bind fun _ => spares_pure _

theorem spares_addBlock (b : Block) (mode : ApplyMode) : Spares (Draft.addBlock b mode) := by
  refine (spares_lift (cycleOf_checkName b.name)).bind fun _ => Spares.bind_get fun d => ?_
  split
  · split
    · split
      · exact spares_throw rfl
      · exact spares_reopen _ mode
    · exact spares_reopen _ mode
  · exact (spares_set _).bind fun _ => (spares_modify _).bind fun _ => spares_pure _

theorem spares_write (v : Value) : Spares (Draft.write v) := by
  refine Spares.bind_get fun d => ?_
  split
  · exact spares_throw rfl
  · exact spares_set _

theorem cycleOf_read (capture : Capture) : cycleOf capture.read = none := by
  cases capture <;> rfl

theorem spares_close : Spares Draft.close := by
  refine Spares.bind_get fun d => ?_
  split
  · refine (spares_set _).bind fun _ => ?_
    split
    · exact spares_throw rfl
    · refine (spares_set _).bind fun _ => (spares_lift (cycleOf_read _)).bind fun captured => ?_
      refine (spares_modify _).bind fun _ => ?_
      split
      · split
        · exact spares_pure _
        · exact spares_write _
      · exact spares_pure _
  · exact spares_throw rfl

theorem spares_finish : Spares Draft.finish := by
  refine Spares.bind_get fun d => ?_
  by_cases hOpen : d.stack.length > 1
  · simp only [hOpen, if_true]
    exact spares_throw rfl
  · simp only [hOpen, if_false]
    cases d.captures.getLast? with
    | none => exact spares_throw rfl
    | some capture =>
      refine (spares_lift (cycleOf_read capture)).bind fun captured => ?_
      split
      · split
        · exact spares_pure _
        · exact spares_set _
      · exact spares_pure _

end Drafts

/-! ## Caches -/

section Caches

theorem spares_lookup (cache : Ref) (key : String) : Spares (cache.lookup key) := by
  have hFetch : Spares (cache.fetch key) := by
    refine Spares.bind_get fun v => ?_
    cases cache with
    | shelf n =>
      refine (spares_set _).bind fun _ => spares_lift ?_
      split
      · split
        · rfl
        · unfold Entry.content
          split
          · split <;> rfl
          · rfl
      · rfl
    | folder name =>
      refine spares_lift (cycleOf_bind ?_ fun data => ?_)
      · unfold Folder.file?
        split <;> rfl
      · split
        · unfold Folder.content
          split
          · rfl
          · split
            · rfl
            · rfl
            · dsimp only
              split
              · rfl
              · split
                · split <;> rfl
                · rfl
        · rfl
  intro v
  unfold Ref.lookup
  have hFound := (hFetch.map some) v
  rw [run_tryCatch]
  rcases hRun : (some <$> cache.fetch key).run v with ⟨fault | a, t⟩
  · rw [hRun] at hFound
    dsimp only
    split
    · rfl
    · exact hFound
  · rfl

theorem spares_remove (name : String) : Spares (Folder.remove name) := by
  refine Spares.bind_get fun folder => ?_
  split
  · exact spares_throw rfl
  · exact spares_modify _

theorem cycleOf_refusal {allowed : Bool} {folder : Folder} {name : String} {fault : Fault}
    (h : Folder.refusal allowed folder name = some fault) :
    cycleOf (.error fault : Except Fault Unit) = none := by
  unfold Folder.refusal at h
  split at h
  · split at h
    · cases h
      rfl
    · cases h
  · cases h
    rfl

theorem spares_rename (allowed : Bool) (source target : String) :
    Spares (Folder.rename allowed source target) := by
  refine Spares.bind_get fun folder => ?_
  cases hRefused : Folder.refusal allowed folder target with
  | some fault => exact spares_throw (cycleOf_refusal hRefused)
  | none =>
    cases Table.get? folder source with
    | none => exact spares_throw rfl
    | some item => exact spares_set _

/-- Storing in a folder reports no cycle. -/
theorem spares_putFile (allowed : Bool) (draw : String) (now : Time.Instant) (key content : String)
    (lifetime : Value) : Spares (Folder.put allowed draw now key content lifetime) := by
  unfold Folder.put
  refine (spares_lift ?_).bind fun expiry => (spares_modify _).bind fun _ => ?_
  · refine cycleOf_bind ?_ fun micros => ?_
    · unfold lifetimeMicros
      split
      · rfl
      · rfl
      · rfl
      · split <;> rfl
      · rfl
    · dsimp only
      split <;> rfl
  · refine spares_tryCatch (spares_rename _ _ _) fun fault hFault => ?_
    exact (spares_remove _).bind fun _ => spares_throw hFault

theorem spares_put (cache : Ref) (key content : String) (lifetime : Option Value) :
    Spares (cache.put key content lifetime) := by
  refine (spares_modify _).bind fun _ => Spares.bind_get fun v => ?_
  cases cache with
  | shelf n =>
    refine (spares_lift (cycleOf_bind ?_ fun _ => rfl)).bind fun _ => spares_set _
    refine (cycleOf_map _).trans ?_
    unfold lifetimeSeconds
    split
    · rfl
    · split <;> rfl
    · rfl
    · rfl
    · rfl
  | folder name =>
    exact spares_inFolder name (spares_putFile true (v.folder name).unusedDraw v.now key content
      (lifetime.getD defaultLifetime))

theorem spares_compose {render : Nat → VaultM String} (h : ∀ i, Spares (render i)) (o : Outline)
    (b : Block) : Spares (Outline.compose render o b) := by
  unfold Outline.compose
  refine Spares.bind ?_ fun rendered => spares_pure _
  induction b.children with
  | nil => exact spares_pure _
  | cons j rest ih =>
    rw [List.filterMapM_cons]
    refine Spares.bind ?_ fun shown => ?_
    · split
      · exact (h j).bind fun text => spares_pure _
      · exact spares_pure _
    · split
      · exact ih
      · exact ih.bind fun more => spares_pure _

theorem spares_renderFrom (depth : Nat) (memo : Option Memo) (o : Outline) (i : Nat) :
    Spares (Outline.renderFrom depth memo o i) := by
  induction depth generalizing i with
  | zero => exact spares_throw rfl
  | succ depth ih =>
    have hCompose : ∀ b, Spares (Outline.compose (Outline.renderFrom depth memo o) o b) :=
      fun b => spares_compose ih o b
    rw [Outline.renderFrom]
    split
    · exact spares_pure _
    · split
      · unfold Outline.remembered
        refine (spares_lookup _ _).bind fun found => ?_
        split
        · exact spares_pure _
        · exact (hCompose _).bind fun output => (spares_put _ _ _ _).bind fun _ => spares_pure _
      · exact hCompose _

end Caches

/-! ## Sites -/

section Sites

variable {p : Nat}

theorem spares_page (p : Nat) : Spares (Site.page p) := by
  refine Spares.bind_get fun w => ?_
  split
  · exact spares_pure _
  · exact spares_throw rfl

theorem spares_outlineOf (p : Nat) : Spares (outlineOf p) :=
  (spares_page p).bind fun _ => Spares.bind_get fun _ => spares_pure _

theorem spares_onDraft {α : Type} {x : DraftM α} (h : Spares x) : Spares (onDraft p x) := by
  unfold onDraft
  refine (spares_page p).bind fun page => (spares_outlineOf p).bind fun o => ?_
  exact (spares_modify _).bind fun _ => spares_check (h _)

theorem spares_renderBlock (p i : Nat) : Spares (renderBlock p i) := by
  unfold renderBlock
  refine (spares_page p).bind fun page => (spares_outlineOf p).bind fun o => ?_
  exact spares_onVault (spares_renderFrom _ _ _ _)

theorem spares_newPage (place : Place) (vars : Bindings) (context : Context) (chain : List Place) :
    Spares (newPage place vars context chain) := by
  unfold newPage
  refine (spares_check (cycleOf_identity _ _)).bind fun id => Spares.bind_get fun w => ?_
  exact (spares_set _).bind fun _ => spares_pure _

theorem spares_updatePage (f : Page → Page) : Spares (updatePage p f) := spares_modify _

theorem spares_track (text : String) : Spares (track p text) := by
  unfold track
  split
  · exact (spares_updatePage _).bind fun _ => spares_pure _
  · exact spares_pure _

theorem spares_adopt (base : Nat) (name : Value) : Spares (adopt p base name) := by
  unfold adopt
  refine (spares_page base).bind fun prepared => (spares_updatePage _).bind fun _ => ?_
  exact spares_onDraft (spares_modify _)

theorem spares_requireCache (page : Page) : Spares (requireCache page) := by
  unfold requireCache
  split
  · exact spares_pure _
  · exact spares_throw rfl

theorem spares_setOption (option value : Value) : Spares (setOption p option value) := by
  unfold setOption
  split
  · split
    · exact (spares_check (cycleOf_modeOf value)).bind fun _ => spares_updatePage _
    · exact spares_throw rfl
  · exact spares_throw rfl
  · exact spares_throw (cycleOf_withoutOperation _)

theorem spares_setVariable (name value : Value) : Spares (setVariable p name value) := by
  unfold setVariable
  split
  · exact spares_updatePage _
  · exact spares_throw rfl

theorem spares_declareBlock (name : Value) (kind : BlockKind) (lifetime : Value)
    (transform : Option Transform) : Spares (declareBlock p name kind lifetime transform) := by
  unfold declareBlock
  refine (spares_page p).bind fun page => (spares_check (cycleOf_declare _ _ _ _ _)).bind
    fun b => ?_
  exact (spares_onDraft (spares_addBlock b .replace)).bind fun _ => spares_pure _

theorem spares_declareMarkup (transforms : Table String Transform) (name transform : Value) :
    Spares (declareMarkup p transforms name transform) :=
  (spares_check (cycleOf_find transforms transform)).bind fun _ => spares_declareBlock _ _ _ _

theorem spares_transformed (transforms : Table String Transform) (text transform : Value) :
    Spares (transformed transforms text transform) :=
  (spares_check (cycleOf_find transforms transform)).bind fun found =>
    spares_check (cycleOf_applyTo found text)

theorem spares_blockOutput (name : Value) : Spares (blockOutput p name) := by
  unfold blockOutput
  split
  · exact spares_throw rfl
  · refine (spares_outlineOf p).bind fun o => ?_
    split
    · exact spares_renderBlock p _
    · exact spares_pure _

theorem spares_currentBlock : Spares (currentBlock p) := by
  unfold currentBlock
  refine (spares_page p).bind fun page => (spares_outlineOf p).bind fun o => ?_
  dsimp only
  split
  · exact spares_pure _
  · exact spares_throw rfl

theorem spares_blockNames : Spares (blockNames p) := by
  unfold blockNames
  refine (spares_outlineOf p).bind fun o => Spares.bind ?_ fun names => spares_pure _
  induction o.registry with
  | nil => exact spares_pure _
  | cons entry rest ih =>
    rw [List.mapM_cons]
    refine Spares.bind ?_ fun name => ih.bind fun names => spares_pure _
    split
    · exact spares_pure _
    · exact spares_throw rfl

theorem spares_tagOf (kind : Value) (arguments : List Value) : Spares (tagOf p kind arguments) :=
  (spares_page p).bind fun _ => spares_check (cycleOf_encode _ _ _)

theorem spares_deferFragment (kind : Value) (arguments : List Value) :
    Spares (deferFragment p kind arguments) :=
  (spares_tagOf kind arguments).bind fun text => (spares_track text).map _

theorem spares_remembered {cache : Ref} {key : String} {lifetime : Value} {compute : SiteM String}
    (h : Spares compute) : Spares (Site.remembered cache key lifetime compute) := by
  unfold Site.remembered
  refine (spares_onVault (spares_lookup cache key)).bind fun found => ?_
  split
  · exact spares_pure _
  · exact h.bind fun text => (spares_onVault (spares_put _ _ _ _)).bind fun _ => spares_pure _

theorem spares_count (counter : Nat) : Spares (count counter) :=
  Spares.bind_get fun _ => (spares_set _).bind fun _ => spares_pure _

theorem spares_nextResponse (url : String) : Spares (nextResponse url) := by
  unfold nextResponse
  refine (spares_modify _).bind fun _ => Spares.bind_get fun w => ?_
  split
  · exact spares_throw rfl
  · exact spares_throw rfl
  · exact spares_pure _
  · exact (spares_set _).bind fun _ => spares_pure _

theorem cycleOf_redirectTarget (request : Address) (location : String) :
    cycleOf (redirectTarget request location) = none := by
  unfold redirectTarget
  split
  · rfl
  · split
    · rfl
    · split <;> rfl

theorem spares_fetchFrom (more : Nat) (address : Address) : Spares (fetchFrom more address) := by
  induction more generalizing address with
  | zero => exact spares_throw rfl
  | succ more ih =>
    unfold fetchFrom
    refine (spares_nextResponse _).bind fun r => ?_
    split
    · exact (spares_check (cycleOf_redirectTarget _ _)).bind fun target => ih target
    · split
      · exact spares_pure _
      · exact spares_throw rfl

theorem spares_fetch (url : Value) : Spares (fetch url) := by
  unfold fetch
  split
  · split
    · exact spares_fetchFrom _ _
    · exact spares_throw rfl
  · exact spares_throw rfl

theorem spares_cachedFetch (url lifetime : Value) : Spares (cachedFetch p url lifetime) :=
  (spares_page p).bind fun page => (spares_requireCache page).bind fun _ =>
    spares_remembered (spares_fetch url)

/-- Whether a directive stays with its page: it neither includes nor extends another one, and passes
no request on. -/
def staysHome : Directive → Bool
  | .extendPage | .includePage | .cachedInclude _ | .inserter | .request _ => false
  | _ => true

/-- A directive that stays with its page reports no cycle. -/
theorem spares_carryOut (prepare : Nat → SiteM Unit) {directive : Directive}
    (hHome : staysHome directive = true) (values : List Value) :
    Spares (carryOut prepare p directive values) := by
  have hDone : ∀ {x : SiteM Unit}, Spares x → Spares (do
      x
      return done) := fun h => h.bind fun _ => spares_pure _
  have hOpened : ∀ name mode, Spares (do
      let _ ← onDraft p (Draft.openBlock name mode)
      return done) := fun name mode =>
        (spares_onDraft (spares_openBlock name mode)).bind fun _ => spares_pure _
  unfold carryOut
  split
  · exact hOpened _ _
  · exact hOpened _ _
  · exact hOpened _ _
  · exact hDone (spares_onDraft spares_close)
  · cases hHome
  · cases hHome
  · exact (spares_blockOutput _).map _
  · exact spares_currentBlock.bind fun _ => spares_pure _
  · cases hHome
  · exact hDone (spares_setVariable _ _)
  · exact hDone (spares_setOption _ _)
  · refine (spares_page p).bind fun page => (spares_requireCache page).bind fun _ => ?_
    exact hDone (spares_declareBlock _ _ _ _)
  · cases hHome
  · exact (spares_cachedFetch _ _).map _
  · refine (spares_page p).bind fun page => (spares_requireCache page).bind fun _ => ?_
    exact spares_deferFragment _ _
  · exact hDone (spares_declareMarkup _ _ _)
  · exact spares_transformed _ _ _
  · exact hDone (spares_declareMarkup _ _ _)
  · exact spares_transformed _ _ _
  · exact (spares_count _).bind fun _ => spares_pure _
  · exact spares_pure _
  · exact hDone (spares_onDraft (spares_write _))
  · exact (spares_page p).bind fun _ => spares_pure _
  · exact (spares_page p).bind fun _ => spares_pure _
  · exact spares_blockNames.map _
  · exact spares_currentBlock.bind fun _ => spares_pure _
  · exact (spares_page p).bind fun _ => (spares_check (cycleOf_variablesText _)).bind fun _ =>
      spares_pure _
  · exact (spares_page p).bind fun _ => spares_pure _
  · cases hHome
  · exact spares_throw rfl

end Sites

end PageBlocks.Extending
