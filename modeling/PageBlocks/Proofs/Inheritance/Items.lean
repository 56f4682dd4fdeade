import PageBlocks.Proofs.Bodies
import PageBlocks.Proofs.Inheritance.Drawing

/-!
# Parts as items of a body

The items that parts stand for, and what running them does: it draws the parts on the draft of the
page whose body it is, and leaves everything else in the site alone (`itemsAll_run`).
-/

set_option autoImplicit false

namespace PageBlocks.Inheritance

open PageBlocks.Body PageBlocks.Running PageBlocks.Site

/-! ## Pages and their drafts -/

/-- A page of a site has a draft; its other fields are those of `page`. -/
structure Drafting (w : World) (p : Nat) (page : Page) (d : Draft) : Prop where
  found : w.pages[p]? = some { page with stack := d.stack, captures := d.captures }
  outline : w.outlines[page.outline]? = some d.outline
  path : d.path = page.path.print

/-- What work on one page leaves alone: the files, the caches, and the other pages. -/
structure Frame (p : Nat) (w w' : World) : Prop where
  files : w'.files = w.files
  vault : w'.vault = w.vault
  size : w.pages.size ≤ w'.pages.size
  others : ∀ q, q < w.pages.size → q ≠ p → w'.pages[q]? = w.pages[q]?

namespace Frame

variable {p : Nat} {w w' w'' : World}

theorem refl (p : Nat) (w : World) : Frame p w w :=
  ⟨rfl, rfl, Nat.le_refl _, fun _ _ _ => rfl⟩

theorem trans (h : Frame p w w') (h' : Frame p w' w'') : Frame p w w'' := by
  refine ⟨h'.files.trans h.files, h'.vault.trans h.vault, Nat.le_trans h.size h'.size, ?_⟩
  intro q hSize hNe
  rw [h'.others q (Nat.lt_of_lt_of_le hSize h.size) hNe, h.others q hSize hNe]

end Frame

theorem run_updatePage {w : World} {p : Nat} {page : Page} (f : Page → Page)
    (h : w.pages[p]? = some page) :
    ∃ w', (updatePage p f).run w = (.ok (), w') ∧ w'.pages[p]? = some (f page)
      ∧ w'.outlines = w.outlines ∧ Frame p w w' := by
  refine ⟨_, run_modify _ w, ?_, rfl, rfl, rfl, ?_, ?_⟩
  · simp [Array.getElem?_modify, h]
  · simp
  · intro q _ hNe
    simp [Array.getElem?_modify, Ne.symm hNe]

section Draft

variable {w : World} {p : Nat} {page : Page} {d : Draft}

/-- A step of a draft is a step of the page that has it. -/
theorem run_onDraft {α : Type} {d' : Draft} {x : DraftM α} {a : α}
    (drafting : Drafting w p page d) (h : x.run d = (.ok a, d')) (hPath : d'.path = d.path) :
    ∃ w', (onDraft p x).run w = (.ok a, w') ∧ Drafting w' p page d' ∧ Frame p w w' := by
  have hDraft : draftOf { page with stack := d.stack, captures := d.captures } d.outline = d := by
    have hp := drafting.path
    cases d
    simp only at hp
    subst hp
    rfl
  unfold onDraft
  rw [run_bind_of_ok (run_page drafting.found),
    run_bind_of_ok (run_outlineOf drafting.found drafting.outline), hDraft, h]
  refine ⟨_, rfl, ⟨?_, ?_, hPath.trans drafting.path⟩, ⟨rfl, rfl, ?_, ?_⟩⟩
  · simp [Array.getElem?_modify, drafting.found]
  · simp [Array.getElem?_modify, drafting.outline]
  · simp
  · intro q _ hNe
    simp [Array.getElem?_modify, Ne.symm hNe]

end Draft

/-! ## Items -/

/-- Call a directive by its name and print what it gives. -/
def invoke (word : String) (arguments : List Value) : Item :=
  .emit (.call (.name word) (arguments.map .literal) [])

/-- The word that opens a block, and the directive that it names. -/
def opener : ApplyMode → String × Directive
  | .replace => ("begin", .openBlock)
  | .prepend => ("prepend", .openBefore)
  | .append => ("append", .openBehind)

/-- The item that opens a block. -/
def Opening.item (name : String) : Opening → Item
  | .plain mode => invoke (opener mode).1 [.text name]
  | .cacheable lifetime => invoke "cache" (.text name :: lifetime.toList)

mutual

/-- The items of a part. -/
def Part.items : Part → List Item
  | .text s => [.text s]
  | .block opening name inner => opening.item name :: (itemsAll inner ++ [invoke "end" []])

/-- The items of parts. -/
def itemsAll : List Part → List Item
  | [] => []
  | part :: rest => part.items ++ itemsAll rest

end

/-- A word means a directive: it is bound to it for the page of a number, and the settings of the
page know it. -/
def Means (context : Context) (scope : Scope) (p : Nat) (word : String) (directive : Directive) :
    Prop :=
  scope.get? word = some (.directive p word) ∧ context.directives.get? word = some directive

/-- A body can open and close plain blocks. -/
structure Fluent (means : String → Directive → Prop) : Prop where
  opens : ∀ mode, means (opener mode).1 (opener mode).2
  closes : means "end" .closeBlock

/-- A body can open cacheable blocks. -/
def CanCache (context : Context) (means : String → Directive → Prop) : Prop :=
  means "cache" .cacheableBlock ∧ ∃ cache, context.cache = some cache

section Running

variable (prepare : Nat → SiteM Unit) {w : World} {p : Nat} {page : Page} {d : Draft}
  {scope : Scope}

theorem runAll_append (handler : Handler SiteM) (items more : List Item) :
    runAll handler scope (items ++ more)
      = (runAll handler scope items >>= fun scope => runAll handler scope more) := by
  induction items generalizing scope with
  | nil =>
    rw [List.nil_append, runAll.eq_1, pure_bind]
  | cons item items ih =>
    rw [List.cons_append, runAll.eq_2, runAll.eq_2, bind_assoc]
    exact congrArg _ (funext fun scope => ih)

theorem evalAll_literals (handler : Handler SiteM) (values : List Value) :
    evalAll handler scope (values.map .literal) = pure values := by
  induction values with
  | nil => rw [List.map_nil, evalAll.eq_1]
  | cons v values ih =>
    rw [List.map_cons, evalAll.eq_2, ih, Expr.eval.eq_1, pure_bind, pure_bind]

/-- An item that calls a directive prints what the directive gives. -/
theorem run_invoke {word : String} {directive : Directive} (arguments : List Value)
    (hFound : w.pages[p]? = some page) (hMeans : Means page.context scope p word directive) :
    ((invoke word arguments).run (handlerOf prepare p page) scope).run w
      = (do
          let v ← callDirective prepare p directive arguments []
          onDraft p (Draft.write (.text (outputText v)))
          return scope : SiteM Scope).run w := by
  have hBound : (handlerOf prepare p page).dialect.refusesCallee scope (.name word) = false := by
    simp [Dialect.refusesCallee, Table.has, hMeans.1]
  have hEval : (Expr.call (.name word) (arguments.map .literal) []).eval
      (handlerOf prepare p page) scope = call prepare (.directive p word) arguments [] := by
    rw [Expr.eval.eq_3, hBound, Expr.eval.eq_2, evalAll_literals, evalNamed.eq_1, hMeans.1]
    rfl
  rw [invoke, Item.run.eq_2, hEval, run_bind, run_bind, run_call_directive hFound hMeans.2]
  rfl

/-- Calling the directive of an opening opens the block. -/
theorem run_opening {opening : Opening} {name : String} {i : Nat} {d' : Draft}
    (drafting : Drafting w p page d)
    (hFluent : Fluent (Means page.context scope p))
    (hCache : opening.lifetime?.isSome → CanCache page.context (Means page.context scope p))
    (hEnter : (opening.enter page.id name).run d = (.ok i, d')) (hPath : d'.path = d.path) :
    ∃ w', ((opening.item name).run (handlerOf prepare p page) scope).run w
        = (onDraft p (Draft.write (.text "")) >>= fun _ => return scope : SiteM Scope).run w'
      ∧ Drafting w' p page d' ∧ Frame p w w' := by
  obtain ⟨w', hRun, drafting', frame⟩ := run_onDraft drafting hEnter hPath
  refine ⟨w', ?_, drafting', frame⟩
  -- the page that calls has other stacks and captures, but the same settings and the same identity
  have hFound := drafting.found
  have hPage : ∀ arguments word directive, Means page.context scope p word directive →
      (callDirective prepare p directive arguments []).run w = (.ok done, w') →
      ((invoke word arguments).run (handlerOf prepare p page) scope).run w
        = (onDraft p (Draft.write (.text "")) >>= fun _ => return scope : SiteM Scope).run w' := by
    intro arguments word directive hMeans hCall
    have hInvoke := run_invoke prepare arguments hFound hMeans
    refine hInvoke.trans ?_
    rw [run_bind_of_ok hCall]
    rfl
  cases opening with
  | plain mode =>
    refine hPage _ _ _ (hFluent.opens mode) ?_
    cases mode <;> exact (run_bind_of_ok hRun _).trans rfl
  | cacheable lifetime =>
    obtain ⟨hMeans, cache, hSome⟩ := hCache rfl
    refine hPage _ _ _ hMeans ?_
    have hBind : bindArguments (parameters .cacheableBlock) (.text name :: lifetime.toList) []
        = .ok [.text name, lifetime.getD .null] := by
      cases lifetime <;> rfl
    have hAllowed : (requireCache { page with stack := d.stack, captures := d.captures }).run w
        = (.ok cache, w) := by
      unfold requireCache
      simp only [hSome]
      rfl
    have hDeclare : (declareBlock p (.text name) .cacheable (lifetime.getD .null) none).run w
        = (.ok (), w') := by
      unfold declareBlock
      rw [run_bind_of_ok (run_page hFound)]
      exact (run_bind_of_ok hRun _).trans rfl
    unfold callDirective
    simp only
    rw [run_bind_of_ok (run_check hBind w)]
    unfold carryOut
    simp only
    rw [run_bind_of_ok (run_page hFound), run_bind_of_ok hAllowed, run_bind_of_ok hDeclare]
    rfl

/-- Whether parts open plain blocks only, or their body can open cacheable ones. -/
def Allowed (context : Context) (means : String → Directive → Prop) (isPlain : Bool) : Prop :=
  isPlain = true ∨ CanCache context means

variable (page scope)

mutual

/-- Running the items of a part draws the part. -/
theorem Part.items_run {blocks : Ledger} {names : List String} {around s : String} {i : Nat}
    {rest : List Capture} {w : World} {d : Draft} (part : Part)
    (hFluent : Fluent (Means page.context scope p))
    (hAllowed : Allowed page.context (Means page.context scope p) part.isPlain)
    (hRoot : root ∈ names) (hFresh : part.isFresh names = true)
    (hAgrees : part.agrees page.id around blocks = true)
    (ready : Ready blocks names around s i rest d) (drafting : Drafting w p page d) :
    ∃ w' d', (runAll (handlerOf prepare p page) scope part.items).run w = (.ok scope, w')
      ∧ Drafting w' p page d' ∧ Frame p w w'
      ∧ Drawn (part.read page.id around blocks) s i rest d d' := by
  cases part with
  | text t =>
    have hClean : '\x02' ∉ t.toList := by
      simpa [Part.isFresh] using hFresh
    obtain ⟨w', hRun, drafting', frame⟩ := run_onDraft drafting (run_write t ready.captures) rfl
    refine ⟨w', _, ?_, drafting', frame, Drawn.text t hClean ready.mirrors⟩
    have hFirst : ((Item.text t).run (handlerOf prepare p page) scope).run w = (.ok scope, w') := by
      rw [Item.run.eq_1]
      exact (run_bind_of_ok hRun _).trans rfl
    rw [Part.items, runAll.eq_2, run_bind_of_ok hFirst, runAll.eq_1]
    rfl
  | block opening name inner =>
    simp only [Part.isFresh, Bool.and_eq_true, Bool.not_eq_true', List.contains_eq_mem,
      decide_eq_false_iff_not] at hFresh
    simp only [Part.agrees, Bool.and_eq_true] at hAgrees
    have hCache :
        opening.lifetime?.isSome → CanCache page.context (Means page.context scope p) := by
      intro hSome
      rcases hAllowed with hPlain | hCan
      · cases opening with
        | plain mode => cases hSome
        | cacheable lifetime => cases hPlain
      · exact hCan
    have hInner : Allowed page.context (Means page.context scope p) (arePlain inner) := by
      rcases hAllowed with hPlain | hCan
      · cases opening with
        | plain mode => exact Or.inl hPlain
        | cacheable lifetime => cases hPlain
      · exact Or.inr hCan
    obtain ⟨below, hStack⟩ := ready.stack
    obtain ⟨above, hAbove, hOwner⟩ := ready.owner
    have hName : name ≠ root := fun hSame => hFresh.1 (hSame ▸ hRoot)
    obtain ⟨k, o, hEnter, entered'⟩ := enter_run hName ready.mirrors hStack hAbove hOwner
      (fun _ hMem => ready.closed hFresh.1 hMem) (fun _ hMem => ready.lt_of_mem hMem) hAgrees.1
    obtain ⟨w₁, hOpen, drafting₁, frame₁⟩ :=
      run_opening prepare drafting hFluent hCache hEnter rfl
    -- opening and closing print the empty text
    have hEmpty : (Draft.write (.text "")).run (entered d o k) = (.ok (), entered d o k) :=
      (run_write "" rfl).trans rfl
    obtain ⟨w₂, hWrite, drafting₂, frame₂⟩ := run_onDraft drafting₁ hEmpty rfl
    obtain ⟨w₃, d₃, hItems, drafting₃, frame₃, drawn⟩ := itemsAll_run inner hFluent hInner
      (List.mem_cons_of_mem _ hRoot) hFresh.2 hAgrees.2 (entered'.ready ready) drafting₂
    obtain ⟨d₄, hClose, closed⟩ := close_run ready entered' drawn
    have hPath : d₄.path = d₃.path := closed.path.trans drawn.path.symm
    obtain ⟨w₄, hEnd, drafting₄, frame₄⟩ := run_onDraft drafting₃ hClose hPath
    have hLast : (Draft.write (.text "")).run d₄ = (.ok (), d₄) := by
      rw [run_write "" closed.captures, String.append_empty, ← closed.captures]
    obtain ⟨w₅, hWriteLast, drafting₅, frame₅⟩ := run_onDraft drafting₄ hLast rfl
    refine ⟨w₅, d₄, ?_, drafting₅,
      (((frame₁.trans frame₂).trans frame₃).trans frame₄).trans frame₅, closed⟩
    have hFirst : ((opening.item name).run (handlerOf prepare p page) scope).run w
        = (.ok scope, w₂) := by
      rw [hOpen, run_bind_of_ok hWrite]
      rfl
    have hCall : (callDirective prepare p .closeBlock [] []).run w₃ = (.ok done, w₄) :=
      (run_bind_of_ok hEnd _).trans rfl
    have hClosing : ((invoke "end" []).run (handlerOf prepare p page) scope).run w₃
        = (.ok scope, w₅) := by
      refine (run_invoke prepare [] drafting₃.found hFluent.closes).trans ?_
      rw [run_bind_of_ok hCall]
      exact (run_bind_of_ok hWriteLast _).trans rfl
    rw [Part.items, runAll.eq_2, run_bind_of_ok hFirst, runAll_append, run_bind_of_ok hItems,
      runAll.eq_2, run_bind_of_ok hClosing, runAll.eq_1]
    rfl

/-- Running the items of parts draws the parts. -/
theorem itemsAll_run {blocks : Ledger} {names : List String} {around s : String} {i : Nat}
    {rest : List Capture} {w : World} {d : Draft} (parts : List Part)
    (hFluent : Fluent (Means page.context scope p))
    (hAllowed : Allowed page.context (Means page.context scope p) (arePlain parts))
    (hRoot : root ∈ names) (hFresh : areFresh names parts = true)
    (hAgree : agree page.id around parts blocks = true)
    (ready : Ready blocks names around s i rest d) (drafting : Drafting w p page d) :
    ∃ w' d', (runAll (handlerOf prepare p page) scope (itemsAll parts)).run w = (.ok scope, w')
      ∧ Drafting w' p page d' ∧ Frame p w w'
      ∧ Drawn (readAll page.id around parts blocks) s i rest d d' := by
  cases parts with
  | nil =>
    refine ⟨w, d, ?_, drafting, Frame.refl p w, Drawn.nil ready.captures ready.mirrors⟩
    rw [itemsAll, runAll.eq_1]
    rfl
  | cons part more =>
    simp only [areFresh, Bool.and_eq_true] at hFresh
    simp only [agree, Bool.and_eq_true] at hAgree
    have hBoth : Allowed page.context (Means page.context scope p) part.isPlain
        ∧ Allowed page.context (Means page.context scope p) (arePlain more) := by
      rcases hAllowed with hPlain | hCan
      · simp only [arePlain, Bool.and_eq_true] at hPlain
        exact ⟨Or.inl hPlain.1, Or.inl hPlain.2⟩
      · exact ⟨Or.inr hCan, Or.inr hCan⟩
    obtain ⟨w₁, d₁, hFirst, drafting₁, frame₁, drawn₁⟩ := Part.items_run part hFluent
      hBoth.1 hRoot hFresh.1 hAgree.1 ready drafting
    obtain ⟨w₂, d₂, hMore, drafting₂, frame₂, drawn₂⟩ := itemsAll_run more hFluent
      hBoth.2 hRoot hFresh.2 hAgree.2 (ready.next drawn₁) drafting₁
    refine ⟨w₂, d₂, ?_, drafting₂, frame₁.trans frame₂, drawn₁.append drawn₂⟩
    rw [itemsAll, runAll_append, run_bind_of_ok hFirst, hMore]

end

end Running

end PageBlocks.Inheritance
