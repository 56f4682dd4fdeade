import PageBlocks.Proofs.Inheritance.Items
import PageBlocks.Proofs.Nesting.Steps

/-!
# Strict nesting

The body of a page runs as a list of steps. An end closes the block of the latest unmatched opening,
and the first end without one ends the run; a body that ends with unmatched openings is refused, and
the fault names their blocks, outermost first (`Enforced`). That is so for every list of steps whose
openings do not fail themselves and which extends templates that can be extended
(`nesting_is_strict`), and for every body of a template that comes to such steps (`bodySteps?`).

While the steps are taken, the open blocks of the page are those of the layers into which the steps
so far are cut (`Reached`). An opening adds a layer, an end takes one away, and extending a template
leaves none.
-/

set_option autoImplicit false

namespace PageBlocks.Nesting

open PageBlocks.Body PageBlocks.Cache PageBlocks.Confinement PageBlocks.Running PageBlocks.Site
  PageBlocks.Upkeep
open PageBlocks.Inheritance (invoke)
open PageBlocks.Progress (SamePage)

/-! ## Runs -/

/-- Taking its opening, a block is opened above a stack, and under the name that was asked for. -/
inductive Opens (prepare : Nat → SiteM Unit) (p : Nat) (w : World) (h : Held) (below : List Nat) :
    Prop
  | intro {u u' : World} {d d' : Draft} {b : Block} {asked : Value}
    (hReaches : Reaches prepare p w h.earlier u)
    (hRun : (h.opening.perform prepare p).run u = (.ok (), u'))
    (hBefore : draftAt u p = some d) (hBelow : d.stack = below)
    (hAfter : draftAt u' p = some d') (hStack : d'.stack = h.number :: below)
    (hBlock : d'.outline.block? h.number = some b) (hName : b.name = h.name)
    (hAsked : h.opening.opened? = some asked) (hCalled : IsCalled h.name asked)

/-- An end behind some steps closes a block: the block is open above just what was open before its
opening, which is open again afterwards, and the text captured for it joins its content. -/
inductive Closes (prepare : Nat → SiteM Unit) (p : Nat) (w : World) (before : List Step)
    (h : Held) : Prop
  | intro {v v' : World} {d d' : Draft} {b : Block} {captured : String} {rest : List Capture}
    (hBefore : Reaches prepare p w before v)
    (hAfter : Reaches prepare p w (before ++ [.close]) v')
    (hDraft : draftAt v p = some d) (hDraft' : draftAt v' p = some d')
    (hOpens : Opens prepare p w h d'.stack) (hStack : d.stack = h.number :: d'.stack)
    (hCaptures : d.captures = .text captured :: rest)
    (hBlock : d.outline.block? h.number = some b)
    (hContent : d'.outline.block? h.number = some (b.merge captured))

/-- Taking steps, a page reached a point where just the blocks of the layers are open. -/
structure Reached (prepare : Nat → SiteM Unit) (p : Nat) (home : Page) (w : World)
    (steps : List Step) (held : List Held) (v : World) : Prop where
  reaches : Reaches prepare p w steps v
  layers : Layers steps held
  sound : Sound v
  page : IsSameAt v p home
  draft : ∃ d, draftAt v p = some d ∧ Stands held d
  opens : ∀ h below, h :: below <:+ held → Opens prepare p w h (stackOf below)

section Runs

variable {prepare : Nat → SiteM Unit} {p : Nat} {home : Page} {w v v' : World}
  {steps : List Step} {step : Step} {held held' : List Held} {h : Held} {d : Draft}

namespace Reached

/-- The draft of the page is one of the page's template. -/
theorem path_eq (r : Reached prepare p home w steps held v) (hDraft : draftAt v p = some d) :
    d.path = (Path.absolute home.place).print := by
  obtain ⟨page, hPage, hSame⟩ := r.page
  obtain ⟨other, o, hOther, -, rfl⟩ := exists_of_draftAt hDraft
  rw [hPage] at hOther
  cases hOther
  show (Path.absolute page.place).print = _
  rw [hSame.place]

/-- A step that succeeds leads on. -/
theorem next (hPrepare : everywhere.Prepares prepare) (r : Reached prepare p home w steps held v)
    (hRun : (step.perform prepare p).run v = (.ok (), v'))
    (hLayers : Layers (steps ++ [step]) held')
    (hDraft : ∃ d, draftAt v' p = some d ∧ Stands held' d)
    (hOpens : ∀ h below, h :: below <:+ held' → Opens prepare p w h (stackOf below)) :
    Reached prepare p home w (steps ++ [step]) held' v' := by
  have hLasts := lasts_perform (p := p) hPrepare r.sound step
  rw [hRun] at hLasts
  exact ⟨r.reaches.concat hRun, hLayers, hLasts.sound r.sound, r.page.lasts hLasts, hDraft, hOpens⟩

theorem write (hPrepare : everywhere.Prepares prepare) (r : Reached prepare p home w steps held v)
    (s : String) : ∃ v', Reached prepare p home w (steps ++ [.write s]) held v' := by
  obtain ⟨d, hDraft, hStands⟩ := r.draft
  obtain ⟨d', hWrite, hStands'⟩ := hStands.write s
  obtain ⟨v', hRun, hDraft'⟩ := exists_run_onDraft hDraft (Draft.write (.text s))
  rw [hWrite] at hRun hDraft'
  refine ⟨v', r.next hPrepare hRun (r.layers.append (.write s .nil)) ⟨_, hDraft', ?_⟩ r.opens⟩
  exact ⟨hStands'.bears, hStands'.stack, hStands'.captures⟩

/-- An opening adds a layer. -/
theorem enter (hPrepare : everywhere.Prepares prepare) (r : Reached prepare p home w steps held v)
    (hOpens : step.opens = true) (hRun : (step.perform prepare p).run v = (.ok (), v')) :
    ∃ h, Reached prepare p home w (steps ++ [step]) (h :: held) v' := by
  obtain ⟨d, hDraft, hStands⟩ := r.draft
  have hPerform : step.perform prepare p = (do
      let _ ← onDraft p step.enter : SiteM Unit) := by
    cases step with
    | opening _ _ | adding _ _ => rfl
    | write _ | close | extend _ => cases hOpens
  obtain ⟨v'', hEnter, hDraft'⟩ := exists_run_onDraft hDraft step.enter
  rcases hResult : step.enter.run d with ⟨fault | i, d'⟩
  · rw [hResult] at hEnter
    rw [hPerform, run_bind_of_error hEnter] at hRun
    cases hRun
  · rw [hResult] at hEnter hDraft'
    have hSame := hRun
    rw [hPerform, run_bind_of_ok hEnter] at hSame
    cases hSame
    obtain ⟨b, asked, hBlock, hAsked, hCalled, hStack, hStands'⟩ :=
      hStands.enter hOpens hResult steps
    refine ⟨⟨steps, step, i, b.name⟩, r.next hPrepare hRun ?_ ⟨_, hDraft', ?_⟩ ?_⟩
    · exact @Layers.layer ⟨steps, step, i, b.name⟩ [] held r.layers hOpens .nil
    · exact ⟨hStands'.bears, hStands'.stack, hStands'.captures⟩
    · intro h below hSuffix
      rcases List.suffix_cons_iff.mp hSuffix with hTop | hInner
      · cases hTop
        exact .intro r.reaches hRun hDraft hStands.stack hDraft'
          (hStack.trans (congrArg (i :: ·) hStands.stack)) hBlock rfl hAsked hCalled
      · exact r.opens h below hInner

/-- Extending a template leaves no layer. -/
theorem extend (hPrepare : everywhere.Prepares prepare) (r : Reached prepare p home w steps held v)
    {name : Value} (hRun : ((Step.extend name).perform prepare p).run v = (.ok (), v')) :
    Reached prepare p home w (steps ++ [.extend name]) [] v' := by
  obtain ⟨page, hPage, -⟩ := r.page
  have hLayers : Layers (steps ++ [.extend name] ++ []) [] :=
    .bottom (.inr ⟨steps, name, rfl⟩) .nil
  rw [List.append_nil] at hLayers
  refine r.next hPrepare hRun hLayers (draftAt_of_run_extend hPrepare r.sound hPage hRun) ?_
  intro h below hSuffix
  cases List.suffix_nil.mp hSuffix

/-- An end takes the innermost layer away and closes its block. -/
theorem close (hPrepare : everywhere.Prepares prepare)
    (r : Reached prepare p home w steps (h :: held) v) :
    ∃ v', Reached prepare p home w (steps ++ [.close]) held v' ∧ Closes prepare p w steps h := by
  obtain ⟨d, hDraft, hStands⟩ := r.draft
  obtain ⟨d', captured, rest, b, hClose, hStands', hCaptures, hBlock, hContent⟩ := hStands.close
  obtain ⟨v', hRun, hDraft'⟩ := exists_run_onDraft hDraft Draft.close
  rw [hClose] at hRun hDraft'
  have hReached : Reached prepare p home w (steps ++ [.close]) held v' := by
    refine r.next hPrepare hRun r.layers.close ⟨_, hDraft', ?_⟩ fun h' below hSuffix => ?_
    · exact ⟨hStands'.bears, hStands'.stack, hStands'.captures⟩
    · exact r.opens h' below (hSuffix.trans (List.suffix_cons _ _))
  refine ⟨v', hReached, .intro r.reaches hReached.reaches hDraft hDraft' ?_ ?_ hCaptures hBlock
    hContent⟩
  · rw [hStands'.stack]
    exact r.opens h held List.suffix_rfl
  · rw [hStands'.stack]
    exact hStands.stack

end Reached

/-! ## Enforcement -/

/-- Every end closes an unmatched opening. -/
def IsNested (steps : List Step) : Prop :=
  ∀ before after, steps = before ++ .close :: after → ¬ IsStray before

/-- What openings and extended templates come to: the steps that may fail for a reason of their own
do not. -/
def Succeeds (prepare : Nat → SiteM Unit) (p : Nat) (w : World) (steps : List Step) : Prop :=
  ∀ before step after v, steps = before ++ step :: after → step.mayFail = true →
    Reaches prepare p w before v → ∃ v', (step.perform prepare p).run v = (.ok (), v')

/-- What preparing a page does with the openings and the ends of its body. -/
structure Enforced (prepare : Nat → SiteM Unit) (p : Nat) (path : String) (w : World)
    (steps : List Step) : Prop where
  /-- The first end without an unmatched opening ends the run. -/
  stray : ∀ before after, steps = before ++ .close :: after → IsNested before → IsStray before →
    ∃ v v', Reaches prepare p w before v
      ∧ (Step.close.perform prepare p).run v = (.error (.blockStack path .noOpenBlock), v')
      ∧ (prepareBy prepare p steps).run w = (.error (.blockStack path .noOpenBlock), v')
  /-- Openings that are unmatched in the end are refused, and the fault names just their blocks,
  outermost first. -/
  unclosed : IsNested steps → (∃ earlier, Unmatched steps earlier) → ∃ held : List Held,
    held.Pairwise (fun outer inner => outer.earlier.length < inner.earlier.length)
      ∧ (∀ earlier, Unmatched steps earlier ↔ ∃ h ∈ held, h.earlier = earlier)
      ∧ (∀ h ∈ held, h.earlier ++ [h.opening] <+: steps ∧ ∃ below, Opens prepare p w h below)
      ∧ ((prepareBy prepare p steps).run w).1
        = .error (.blockStack path (.unclosed (held.map Held.name)))
  /-- A body without such openings completes its page. -/
  complete : IsNested steps → (∀ earlier, ¬ Unmatched steps earlier) →
    ((prepareBy prepare p steps).run w).1 = .ok ()
  /-- Each end closes the block of the latest unmatched opening. -/
  closes : ∀ before after, steps = before ++ .close :: after → IsNested (before ++ [.close]) →
    ∃ h, h.earlier ++ [h.opening] <+: before ∧ Unmatched before h.earlier
      ∧ (∀ earlier, Unmatched before earlier → earlier.length ≤ h.earlier.length)
      ∧ Closes prepare p w before h

theorem IsNested.of_append {more : List Step} (h : IsNested (steps ++ more)) : IsNested steps := by
  rintro before after rfl
  exact h before (after ++ more) (by rw [List.append_assoc, List.cons_append])

/-- As long as no end is stray, the open blocks are those of the layers. -/
theorem exists_reached (hPrepare : everywhere.Prepares prepare)
    (hStart : ∃ v, Reached prepare p home w [] [] v) (hSucceeds : Succeeds prepare p w steps)
    {before : List Step} (hPrefix : before <+: steps) (hNested : IsNested before) :
    ∃ held v, Reached prepare p home w before held v := by
  induction before using List.reverseRecOn with
  | nil =>
    obtain ⟨v, r⟩ := hStart
    exact ⟨[], v, r⟩
  | append_singleton before step ih =>
    obtain ⟨after, hSteps⟩ := hPrefix
    rw [← List.append_cons] at hSteps
    obtain ⟨held, v, r⟩ := ih ⟨_, hSteps⟩ hNested.of_append
    have hRuns : step.mayFail = true → ∃ v', (step.perform prepare p).run v = (.ok (), v') :=
      fun hMay => hSucceeds before step after v hSteps.symm hMay r.reaches
    cases step with
    | write s =>
      obtain ⟨v', r'⟩ := r.write hPrepare s
      exact ⟨held, v', r'⟩
    | opening name mode =>
      obtain ⟨v', hRun⟩ := hRuns rfl
      obtain ⟨h, r'⟩ := r.enter hPrepare rfl hRun
      exact ⟨h :: held, v', r'⟩
    | adding b mode =>
      obtain ⟨v', hRun⟩ := hRuns rfl
      obtain ⟨h, r'⟩ := r.enter hPrepare rfl hRun
      exact ⟨h :: held, v', r'⟩
    | extend name =>
      obtain ⟨v', hRun⟩ := hRuns rfl
      exact ⟨[], v', r.extend hPrepare hRun⟩
    | close =>
      cases held with
      | nil => exact absurd (r.layers.isStray_iff.mpr rfl) (hNested before [] rfl)
      | cons h held =>
        obtain ⟨v', r', -⟩ := r.close hPrepare
        exact ⟨held, v', r'⟩

/-- Nesting is enforced from wherever a page starts without open blocks. -/
theorem enforced_of_reached (hPrepare : everywhere.Prepares prepare)
    (hStart : ∃ v, Reached prepare p home w [] [] v) (hSucceeds : Succeeds prepare p w steps) :
    Enforced prepare p (Path.absolute home.place).print w steps := by
  constructor
  case stray =>
    rintro before after rfl hNested hStray
    obtain ⟨held, v, r⟩ :=
      exists_reached hPrepare hStart hSucceeds (List.prefix_append _ _) hNested
    obtain rfl := r.layers.isStray_iff.mp hStray
    obtain ⟨d, hDraft, hStands⟩ := r.draft
    obtain ⟨v', hRun, -⟩ := exists_run_onDraft hDraft Draft.close
    rw [hStands.close_error, r.path_eq hDraft] at hRun
    exact ⟨v, v', r.reaches, hRun, r.reaches.run_of_error hRun⟩
  case unclosed =>
    rintro hNested ⟨earlier, hUnmatched⟩
    obtain ⟨held, v, r⟩ := exists_reached hPrepare hStart hSucceeds List.prefix_rfl hNested
    obtain ⟨d, hDraft, hStands⟩ := r.draft
    have hOpen : held ≠ [] := fun hNone => r.layers.isStray_iff.mpr hNone earlier hUnmatched
    refine ⟨held.reverse, List.pairwise_reverse.mpr r.layers.pairwise, fun earlier => ?_,
      fun h hMem => ?_, ?_⟩
    · simpa only [List.mem_reverse] using r.layers.unmatched_iff
    · rw [List.mem_reverse] at hMem
      obtain ⟨inner, below, rfl⟩ := List.append_of_mem hMem
      exact ⟨r.layers.opening_prefix h hMem, stackOf below,
        r.opens h below (List.suffix_append _ _)⟩
    · obtain ⟨v', hRun, -⟩ := exists_run_onDraft hDraft Draft.finish
      rw [r.reaches.run_eq, hRun, hStands.finish_error hOpen, r.path_eq hDraft, List.map_reverse]
  case complete =>
    intro hNested hNone
    obtain ⟨held, v, r⟩ := exists_reached hPrepare hStart hSucceeds List.prefix_rfl hNested
    obtain rfl := r.layers.isStray_iff.mp hNone
    obtain ⟨d, hDraft, hStands⟩ := r.draft
    obtain ⟨d', hFinish⟩ := hStands.finish
    obtain ⟨v', hRun, -⟩ := exists_run_onDraft hDraft Draft.finish
    rw [r.reaches.run_eq, hRun, hFinish]
  case closes =>
    rintro before after rfl hNested
    obtain ⟨held, v, r⟩ := exists_reached hPrepare hStart hSucceeds (List.prefix_append _ _)
      hNested.of_append
    cases held with
    | nil => exact absurd (r.layers.isStray_iff.mpr rfl) (hNested before [] rfl)
    | cons h held =>
      obtain ⟨v', -, hCloses⟩ := r.close hPrepare
      refine ⟨h, r.layers.opening_prefix h List.mem_cons_self, ?_, fun earlier hUnmatched => ?_,
        hCloses⟩
      · exact r.layers.unmatched_iff.mpr ⟨h, List.mem_cons_self, rfl⟩
      · exact r.layers.length_le (r.layers.unmatched_iff.mp hUnmatched)

/-- Steps that were all taken succeeded one by one. -/
theorem Reaches.succeeds (h : Reaches prepare p w steps v) : Succeeds prepare p w steps := by
  rintro before step after u rfl - hBefore
  obtain ⟨_, t, hStart, hSteps⟩ := run_bind_eq_ok h
  obtain ⟨_, t', hStart', hFirst⟩ := run_bind_eq_ok hBefore
  rw [hStart] at hStart'
  cases hStart'
  rw [perform_append, run_bind_of_ok hFirst, perform_cons] at hSteps
  obtain ⟨_, u', hStep, -⟩ := run_bind_eq_ok hSteps
  exact ⟨u', hStep⟩

/-- A page that was just made has no open block. -/
theorem exists_reached_newPage {w₀ : World} {place : Place} {vars : Bindings} {context : Context}
    {chain : List Place} (hSound : Sound w₀)
    (hNew : (newPage place vars context chain).run w₀ = (.ok p, w)) :
    Sound w ∧ ∃ home, w.pages[p]? = some home ∧ home.place = place
      ∧ ∃ v, Reached prepare p home w [] [] v := by
  obtain ⟨id, -, rfl, rfl⟩ := Progress.run_newPage_eq_ok hNew
  have hOwn : ({ place, vars, context, id, chain, outline := w₀.outlines.size } : Page).outline
      = w₀.outlines.size := rfl
  have hSound₁ := hSound.push hOwn id
  generalize hMade : ({ w₀ with pages := _, outlines := _ } : World) = w₁ at hSound₁ ⊢
  have hPage : w₁.pages[w₀.pages.size]? = some
      { place, vars, context, id, chain, outline := w₀.outlines.size } := by
    rw [← hMade]
    exact Array.getElem?_push_size
  have hOutline : w₁.outlines[w₀.outlines.size]? = some (Outline.start id) := by
    rw [← hMade]
    exact Array.getElem?_push_size
  refine ⟨hSound₁, _, hPage, rfl, ?_⟩
  have hStarts : ∃ v, Reaches prepare w₀.pages.size w₁ [] v ∧ draftAt v w₀.pages.size = _ :=
    reaches_nil (draftAt_eq_some hPage hOutline)
  obtain ⟨v, hReaches, hDraft⟩ := hStarts
  have hLasts := lasts_startRun (p := w₀.pages.size) hSound₁
  obtain ⟨_, u, hStart, hNone⟩ := run_bind_eq_ok hReaches
  cases hNone
  rw [hStart] at hLasts
  refine ⟨v, hReaches, .nil, hLasts.sound hSound₁, hLasts.pages _ _ hPage, ⟨_, hDraft, ?_⟩, ?_⟩
  · exact ⟨bears_nil (Outline.isLabelled_start id), rfl, [""], rfl, rfl⟩
  · intro h below hSuffix
    cases List.suffix_nil.mp hSuffix

end Runs

/-! ## Bodies -/

/-- The value of an expression that calls nothing. -/
def settled? (dialect : Dialect) (scope : Scope) : Expr → Option Value
  | .literal v => some v
  | .name s => some ((scope.get? s).getD dialect.unbound)
  | _ => none

/-- The step of a directive with the values of its parameters. -/
def stepOf? (home : Page) : Directive → List Value → Option Step
  | .writeText, [.text s] => some (.write s)
  | .openBlock, [name] => some (.opening name .replace)
  | .openBefore, [name] => some (.opening name .prepend)
  | .openBehind, [name] => some (.opening name .append)
  | .cacheableBlock, [name, lifetime] => do
    let _ ← home.context.cache
    let b ← (Block.declare home.id name .cacheable lifetime none).toOption
    return .adding b .replace
  | .markupBlock transforms, [name, transform] => do
    let found ← (Transform.find transforms transform).toOption
    let b ← (Block.declare home.id name .markup .null (some found)).toOption
    return .adding b .replace
  | .lightBlock transforms, [name] => do
    let found ← (Transform.find transforms (.text "md")).toOption
    let b ← (Block.declare home.id name .markup .null (some found)).toOption
    return .adding b .replace
  | .closeBlock, [] => some .close
  | .extendPage, [name] => some (.extend name)
  | _, _ => none

/-- The directive of the page itself that a name stands for. -/
def ownDirective? (p : Nat) (home : Page) (scope : Scope) (word : String) : Option Directive :=
  match scope.get? word with
  | some (.directive q key) => if q = p then home.context.directives.get? key else none
  | _ => none

/-- The steps of an item. The result of a call is printed, and that of these directives is the empty
text. -/
def itemSteps? (p : Nat) (home : Page) (scope : Scope) : Item → Option (List Step)
  | .text s => some [.write s]
  | .emit (.call (.name word) arguments named) => do
    let directive ← ownDirective? p home scope word
    let values ← arguments.mapM (settled? home.context.dialect scope)
    let bound ← named.mapM fun entry =>
      (entry.1, ·) <$> settled? home.context.dialect scope entry.2
    let values ←
      (bindArguments (parameters directive) values (Table.ofBindings bound)).toOption
    return [← stepOf? home directive values, .write ""]
  | _ => none

/-- The steps of a body that writes, opens and closes blocks, and extends templates, one after the
other. -/
def bodySteps? (p : Nat) (home : Page) (scope : Scope) (items : List Item) : Option (List Step) :=
  List.flatten <$> items.mapM (itemSteps? p home scope)

section Bodies

variable {prepare : Nat → SiteM Unit} {p : Nat} {home page : Page} {w v : World} {scope : Scope}
  {steps : List Step} {step : Step}

theorem eval_settled {handler : Handler SiteM} {e : Expr} {a : Value}
    (h : settled? handler.dialect scope e = some a) : e.eval handler scope = pure a := by
  cases e with
  | literal b =>
    cases h
    exact Expr.eval.eq_1 ..
  | name s =>
    cases h
    exact Expr.eval.eq_2 ..
  | _ => cases h

theorem evalAll_settled {handler : Handler SiteM} {es : List Expr} {values : List Value}
    (h : es.mapM (settled? handler.dialect scope) = some values) :
    evalAll handler scope es = pure values := by
  induction es generalizing values with
  | nil =>
    cases h
    exact evalAll.eq_1 ..
  | cons e es ih =>
    rw [List.mapM_cons] at h
    obtain ⟨a, hFirst, h⟩ := Option.bind_eq_some_iff.mp h
    obtain ⟨rest, hRest, h⟩ := Option.bind_eq_some_iff.mp h
    cases h
    rw [evalAll.eq_2, eval_settled hFirst, ih hRest, pure_bind, pure_bind]

theorem evalNamed_settled {handler : Handler SiteM} {named : List (String × Expr)}
    {bound : List (String × Value)}
    (h : (named.mapM fun entry => (entry.1, ·) <$> settled? handler.dialect scope entry.2)
      = some bound) : evalNamed handler scope named = pure bound := by
  induction named generalizing bound with
  | nil =>
    cases h
    exact evalNamed.eq_1 ..
  | cons entry named ih =>
    rw [List.mapM_cons] at h
    obtain ⟨first, hFirst, h⟩ := Option.bind_eq_some_iff.mp h
    obtain ⟨rest, hRest, h⟩ := Option.bind_eq_some_iff.mp h
    obtain ⟨a, hValue, rfl⟩ := Option.map_eq_some_iff.mp hFirst
    cases h
    rw [evalNamed.eq_2, eval_settled hValue, ih hRest, pure_bind, pure_bind]

theorem run_declareBlock {name lifetime : Value} {kind : BlockKind} {transform : Option Transform}
    {b : Block} (hHome : IsSameAt v p home)
    (hDeclare : (Block.declare home.id name kind lifetime transform).toOption = some b) :
    (declareBlock p name kind lifetime transform).run v
      = ((Step.adding b .replace).perform prepare p).run v := by
  obtain ⟨page, hPage, hSame⟩ := hHome
  unfold declareBlock
  rw [run_bind_of_ok (run_page hPage), hSame.id,
    run_bind_of_ok (run_check (eq_ok_of_toOption hDeclare) v)]
  rfl

theorem exists_of_ownDirective? {word : String} {directive : Directive}
    (h : ownDirective? p home scope word = some directive) :
    ∃ key, scope.get? word = some (.directive p key)
      ∧ home.context.directives.get? key = some directive := by
  unfold ownDirective? at h
  split at h
  · rename_i q key hOther
    split at h
    · rename_i hHere
      exact ⟨key, hHere ▸ hOther, h⟩
    · cases h
  · cases h

/-- Carrying out a directive takes its step. -/
theorem run_carryOut {directive : Directive} {values : List Value} (hHome : IsSameAt v p home)
    (hStep : stepOf? home directive values = some step) :
    (carryOut prepare p directive values).run v
      = (step.perform prepare p >>= fun _ => return done : SiteM Value).run v := by
  have hDeclared : ∀ {name lifetime : Value} {kind : BlockKind} {transform : Option Transform}
      {b : Block}, (Block.declare home.id name kind lifetime transform).toOption = some b →
      (declareBlock p name kind lifetime transform >>= fun _ => return done : SiteM Value).run v
        = ((Step.adding b .replace).perform prepare p >>= fun _ => return done : SiteM Value).run
          v := by
    intro name lifetime kind transform b hDeclare
    rw [run_bind, run_declareBlock hHome hDeclare, ← run_bind]
  have hMarkup : ∀ {transforms : Table String Transform} {name transform : Value},
      (do
        let found ← (Transform.find transforms transform).toOption
        let b ← (Block.declare home.id name .markup .null (some found)).toOption
        return Step.adding b .replace) = some step →
      (do
        declareMarkup p transforms name transform
        return done : SiteM Value).run v
        = (step.perform prepare p >>= fun _ => return done : SiteM Value).run v := by
    intro transforms name transform hFound
    obtain ⟨found, hFind, hFound⟩ := Option.bind_eq_some_iff.mp hFound
    obtain ⟨b, hDeclare, hFound⟩ := Option.bind_eq_some_iff.mp hFound
    cases hFound
    rw [← hDeclared hDeclare]
    unfold declareMarkup
    rw [bind_assoc, run_bind_of_ok (run_check (eq_ok_of_toOption hFind) v)]
  obtain ⟨page, hPage, hSame⟩ := id hHome
  unfold stepOf? at hStep
  split at hStep
  case h_5 name lifetime =>
    obtain ⟨cache, hCache, hStep⟩ := Option.bind_eq_some_iff.mp hStep
    obtain ⟨b, hDeclare, hStep⟩ := Option.bind_eq_some_iff.mp hStep
    cases hStep
    have hAllowed : (requireCache page).run v = (.ok cache, v) := by
      unfold requireCache
      rw [hSame.context, hCache]
      rfl
    rw [← hDeclared hDeclare]
    unfold carryOut
    rw [run_bind_of_ok (run_page hPage)]
    exact run_bind_of_ok hAllowed _
  case h_6 => exact hMarkup hStep
  case h_7 => exact hMarkup hStep
  case h_10 => cases hStep
  case h_2 | h_3 | h_4 =>
    cases hStep
    rw [Step.perform, bind_assoc]
    rfl
  all_goals
    cases hStep
    rfl

/-- Whatever is called, a directive that takes a step is bound to its parameters and carried out. -/
theorem run_callDirective {directive : Directive} {arguments values : List Value}
    {named : Table String Value} (hHome : IsSameAt v p home)
    (hBind : (bindArguments (parameters directive) arguments named).toOption = some values)
    (hStep : stepOf? home directive values = some step) :
    (callDirective prepare p directive arguments named).run v
      = (step.perform prepare p >>= fun _ => return done : SiteM Value).run v := by
  rw [← run_carryOut hHome hStep]
  unfold callDirective
  split
  · cases hStep
  · cases hStep
  · exact run_bind_of_ok (run_check (eq_ok_of_toOption hBind) v) _

/-- An item takes its steps. -/
theorem run_item {item : Item} (hHome : IsSameAt v p home)
    (hSteps : itemSteps? p home scope item = some steps) :
    (item.run (handlerOf prepare p home) scope).run v
      = (perform prepare p steps >>= fun _ => return scope : SiteM Scope).run v := by
  unfold itemSteps? at hSteps
  split at hSteps
  · cases hSteps
    rw [Item.run.eq_1, perform_cons, bind_assoc]
    rfl
  · rename_i word arguments named
    obtain ⟨directive, hOwn, hSteps⟩ := Option.bind_eq_some_iff.mp hSteps
    obtain ⟨values, hValues, hSteps⟩ := Option.bind_eq_some_iff.mp hSteps
    obtain ⟨bound, hBound, hSteps⟩ := Option.bind_eq_some_iff.mp hSteps
    obtain ⟨given, hGiven, hSteps⟩ := Option.bind_eq_some_iff.mp hSteps
    obtain ⟨step, hStep, hSteps⟩ := Option.bind_eq_some_iff.mp hSteps
    cases hSteps
    obtain ⟨key, hMeans, hDirective⟩ := exists_of_ownDirective? hOwn
    have hBoundName : (handlerOf prepare p home).dialect.refusesCallee scope (.name word)
        = false := by
      simp only [Dialect.refusesCallee, Table.has, hMeans, Option.isSome_some, Bool.not_true,
        Bool.and_false]
    have hEval : (Expr.call (.name word) arguments named).eval (handlerOf prepare p home) scope
        = call prepare (.directive p key) values bound := by
      rw [Expr.eval.eq_3, hBoundName, Expr.eval.eq_2, evalAll_settled hValues,
        evalNamed_settled hBound, hMeans]
      rfl
    obtain ⟨page, hPage, hSame⟩ := id hHome
    have hCall : (call prepare (.directive p key) values bound).run v
        = (step.perform prepare p >>= fun _ => return done : SiteM Value).run v := by
      rw [run_call_directive hPage (hSame.context ▸ hDirective)]
      exact run_callDirective hHome hGiven hStep
    rw [Item.run.eq_2, hEval, run_bind, hCall, ← run_bind, bind_assoc, perform_cons, bind_assoc]
    refine congrArg (fun rest => (step.perform prepare p >>= rest).run v) (funext fun _ => ?_)
    rw [pure_bind, perform_cons, bind_assoc]
    rfl
  · cases hSteps

/-- The items of a body take their steps. -/
theorem run_items (hPrepare : everywhere.Prepares prepare) {items : List Item} (hSound : Sound v)
    (hHome : IsSameAt v p home) (hSteps : bodySteps? p home scope items = some steps) :
    (runAll (handlerOf prepare p home) scope items).run v
      = (perform prepare p steps >>= fun _ => return scope : SiteM Scope).run v := by
  induction items generalizing v steps with
  | nil =>
    cases hSteps
    rw [runAll.eq_1]
    rfl
  | cons item items ih =>
    obtain ⟨parts, hParts, rfl⟩ := Option.map_eq_some_iff.mp hSteps
    rw [List.mapM_cons] at hParts
    obtain ⟨first, hFirst, hParts⟩ := Option.bind_eq_some_iff.mp hParts
    obtain ⟨rest, hRest, hParts⟩ := Option.bind_eq_some_iff.mp hParts
    cases hParts
    have hTail : bodySteps? p home scope items = some rest.flatten := by
      rw [bodySteps?, hRest]
      rfl
    have hStart : (item.run (handlerOf prepare p home) scope).run v
        = (perform prepare p first >>= fun _ => return scope : SiteM Scope).run v :=
      run_item hHome hFirst
    rw [runAll.eq_2, List.flatten_cons, perform_append, bind_assoc]
    rcases hRun : (perform prepare p first).run v with ⟨fault | _, u⟩
    · rw [run_bind_of_error hRun] at hStart ⊢
      exact run_bind_of_error hStart _
    · have hLasts := lasts_performAll (p := p) hPrepare hSound first
      rw [hRun] at hLasts
      rw [run_bind_of_ok hRun] at hStart ⊢
      rw [run_bind_of_ok hStart]
      exact ih (hLasts.sound hSound) (hHome.lasts hLasts) hTail

/-- Preparing a page takes the steps of its body. -/
theorem run_prepareFrom {depth : Nat} {items : List Item} (hSound : Sound w)
    (hPage : w.pages[p]? = some page) (hBody : bodyAt w.files page.place = .ok items)
    (hScope : scopeOf p page = .ok scope) (hSteps : bodySteps? p page scope items = some steps) :
    (prepareFrom (depth + 1) p).run w = (prepareBy (prepareFrom depth) p steps).run w := by
  have hParts : prepareFrom (depth + 1) p = (do
      startRun p
      let page ← Site.page p
      let items ← bodyOf page
      let _ ← runAll (handlerOf (prepareFrom depth) p page) (← check (scopeOf p page)) items
      onDraft p Draft.finish : SiteM Unit) := by
    rw [startRun, bind_assoc]
    rfl
  obtain ⟨u, hStart, hFiles, hHere⟩ := exists_run_startRun hSound hPage
  have hLasts := lasts_startRun (p := p) hSound
  rw [hStart] at hLasts
  have hRead : (bodyOf { page with captures := [Capture.empty] }).run u = (.ok items, u) := by
    rw [run_bodyOf, hFiles, hBody]
  have hTaken := run_items (prepares_everywhere depth) (hLasts.sound hSound)
    (hLasts.pages p page hPage) hSteps
  unfold prepareBy
  rw [hParts, run_bind_of_ok hStart, run_bind_of_ok hStart, run_bind_of_ok (run_page hHere),
    run_bind_of_ok hRead]
  refine (run_bind_of_ok (run_check hScope u) _).trans ?_
  rcases hRun : (perform (prepareFrom depth) p steps).run u with ⟨fault | _, v⟩
  · rw [run_bind_of_error hRun] at hTaken ⊢
    exact run_bind_of_error hTaken _
  · rw [run_bind_of_ok hRun] at hTaken ⊢
    exact run_bind_of_ok hTaken _

end Bodies

/-! ## Strict nesting -/

/-- Nesting is enforced on a page that was just made, whatever the steps of its body. -/
theorem nesting_is_strict {w w₁ : World} {place : Place} {vars : Bindings} {context : Context}
    {chain : List Place} {p depth : Nat} {steps : List Step} (hSound : Sound w)
    (hNew : (newPage place vars context chain).run w = (.ok p, w₁))
    (hSucceeds : Succeeds (prepareFrom depth) p w₁ steps) :
    Enforced (prepareFrom depth) p (Path.absolute place).print w₁ steps
      ∧ ∀ page items scope, w₁.pages[p]? = some page → bodyAt w₁.files place = .ok items →
        scopeOf p page = .ok scope → bodySteps? p page scope items = some steps →
        (prepareFrom (depth + 1) p).run w₁ = (prepareBy (prepareFrom depth) p steps).run w₁ := by
  obtain ⟨hSound₁, home, hHome, rfl, hStart⟩ := exists_reached_newPage hSound hNew
  refine ⟨enforced_of_reached (prepares_everywhere depth) hStart hSucceeds, ?_⟩
  intro page items scope hPage hBody hScope hSteps
  rw [hHome] at hPage
  cases hPage
  exact run_prepareFrom hSound₁ hHome hBody hScope hSteps

/-- A body that extends a template while it has a block open, and leaves two blocks open itself. -/
def yardItems : List Item :=
  [invoke "begin" [.text "lost"], invoke "extend" [.text "base"], invoke "append" [.text "main"],
    .text "More", invoke "begin" [.text "inner"], invoke "end" [], invoke "prepend" [.text "side"]]

/-- A site with a page of that body. -/
def yard : World where
  files := [
    (["base"], .items [invoke "begin" [.text "main"], .text "Base", invoke "end" []]),
    (["page"], .items yardItems)]
  vault := { now := ⟨0⟩ }
  settings := startSettings { paths := [Path.absolute []] } .script defaultLifetime

/-- The steps of that body. -/
def yardSteps : List Step :=
  [.opening (.text "lost") .replace, .write "", .extend (.text "base"), .write "",
    .opening (.text "main") .append, .write "", .write "More", .opening (.text "inner") .replace,
    .write "", .close, .write "", .opening (.text "side") .prepend, .write ""]

/-- Nesting is enforced on the page of that site. -/
theorem nesting_is_strict_in_yard :
    ∃ w₁, (newPage ["page"] [] yard.settings []).run yard = (.ok 0, w₁)
      ∧ Succeeds (prepareFrom 2) 0 w₁ yardSteps
      ∧ Enforced (prepareFrom 2) 0 "/page" w₁ yardSteps
      ∧ (prepareFrom 3 0).run w₁ = (prepareBy (prepareFrom 2) 0 yardSteps).run w₁ := by
  have hMade : ((newPage ["page"] [] yard.settings []).run yard).1.toOption = some 0 := by
    decide +kernel
  have hTaken : ((do
      startRun 0
      perform (prepareFrom 2) 0 yardSteps : SiteM Unit).run
        ((newPage ["page"] [] yard.settings []).run yard).2).1.toOption = some () := by
    decide +kernel
  rcases hNew : (newPage ["page"] [] yard.settings []).run yard with ⟨fault | p, w₁⟩
  · rw [hNew] at hMade
    cases hMade
  · rw [hNew] at hMade hTaken
    obtain rfl : p = 0 := Option.some.inj hMade
    have hSucceeds : Succeeds (prepareFrom 2) 0 w₁ yardSteps := by
      rcases hRun : (do
          startRun 0
          perform (prepareFrom 2) 0 yardSteps : SiteM Unit).run w₁ with ⟨fault | _, v⟩
      · rw [hRun] at hTaken
        cases hTaken
      · exact Reaches.succeeds (v := v) hRun
    have hSound : Sound yard := sound_of_empty rfl rfl
    obtain ⟨hEnforced, hBody⟩ := nesting_is_strict hSound hNew hSucceeds
    refine ⟨w₁, rfl, hSucceeds, hEnforced, ?_⟩
    obtain ⟨id, -, -, rfl⟩ := Progress.run_newPage_eq_ok hNew
    let directives : Scope :=
      Directive.builtIn.map fun entry => (entry.1, .directive 0 entry.1)
    have hSteps : ∀ page : Page, page.context = yard.settings →
        bodySteps? 0 page directives yardItems = some yardSteps := by
      rintro ⟨⟩ rfl
      rfl
    exact hBody { place := ["page"], vars := [], context := yard.settings, id, outline := 0 }
      yardItems directives rfl rfl rfl (hSteps _ rfl)

end PageBlocks.Nesting
