import PageBlocks.Proofs.Deferral.Calls
import PageBlocks.Proofs.Filling.Pages

/-!
# Calls and bodies that compose pages

Calling a directive that composes pages keeps all text where it belongs, and what it gives has no
STX (`upholds_call`). Printing the content of the innermost open block puts it back into the text
for the same block, whose children its tokens are those of (`ends_eval_showsContent`). So a body
that composes its page keeps all text where it belongs, and so does preparing pages to whatever
depth that nests (`prepares`).
-/

set_option autoImplicit false

namespace PageBlocks.Filling

open PageBlocks.Body PageBlocks.Cache PageBlocks.Deferral PageBlocks.Running PageBlocks.Site
  PageBlocks.Upkeep

section Calls

variable {common : Context} {p : Nat} {prepare : Nat → SiteM Unit}

/-! ## Directives -/

/-- A page with another mode, or with one variable more, has its text where it was. -/
theorem upholds_mode (mode : CacheMode) :
    Upholds (Tight common) (updatePage p fun page => { page with mode }) fun _ => True :=
  upholds_updatePage (fun _ hFits => ⟨hFits.directives, hFits.cache, hFits.vars⟩)
    fun _ _ hDrafted => hDrafted

theorem upholds_bind {name value : Value} (hName : name.isStainless common.directives = true)
    (hValue : value.isStainless common.directives = true) :
    Upholds (Tight common) (updatePage p fun page =>
      { page with vars := page.vars.insert name value }) fun _ => True :=
  upholds_updatePage
    (fun _ hFits => ⟨hFits.directives, hFits.cache, hFits.vars.insert hName hValue⟩)
    fun _ _ hDrafted => hDrafted

theorem upholds_declareBlock (name : Value) (kind : BlockKind) (lifetime : Value)
    (transform : Option Transform) :
    Upholds (Tight common) (declareBlock p name kind lifetime transform) fun _ => True := by
  unfold declareBlock
  refine (upholds_page p).bind fun page _ => Upholds.bind_check fun b hDeclared => ?_
  have hKeeps := keepsPlaced_addBlock (isBlank_of_declare hDeclared) .replace
  exact (upholds_onDraft hKeeps).seq fun _ => upholds_pure trivial

theorem isStainless_done : done.isStainless common.directives = true := rfl

theorem upholds_done {x : SiteM Unit} (h : Upholds (Tight common) x fun _ => True) :
    Upholds (Tight common) (do
      x
      return done) fun v => v.isStainless common.directives = true :=
  h.seq fun _ => upholds_pure isStainless_done

/-- A directive that composes pages keeps all text where it belongs. -/
theorem upholds_carryOut (hPrepare : Prepares common prepare) {directive : Directive}
    (hComposes : directive.composes = true) {values : List Value}
    (hValues : ∀ v ∈ values, v.isStainless common.directives = true) :
    Upholds (Tight common) (carryOut prepare p directive values) fun v =>
      v.isStainless common.directives = true := by
  have hText : ∀ {x : SiteM String}, (Upholds (Tight common) x fun text => Clean text.toList) →
      Upholds (Tight common) (Value.text <$> x) fun v => v.isStainless common.directives = true :=
    fun h => Upholds.map (h.mono fun _ hClean => isStainless_text.mpr hClean)
  have hLast : ∀ x : DraftM Nat, KeepsPlaced x → Upholds (Tight common) (do
      let _ ← onDraft p x
      return done) fun v => v.isStainless common.directives = true :=
    fun x hKeeps => (upholds_onDraft hKeeps).seq fun _ => upholds_pure isStainless_done
  unfold carryOut
  split
  · exact hLast _ (keepsPlaced_openBlock _ _)
  · exact hLast _ (keepsPlaced_openBlock _ _)
  · exact hLast _ (keepsPlaced_openBlock _ _)
  · exact upholds_done (upholds_onDraft keepsPlaced_close)
  · exact upholds_done (upholds_extend hPrepare _)
  · exact hText (upholds_includePage hPrepare (hValues _ (by simp)))
  · exact hText (upholds_blockOutput_of (upholds_renderBlock p) clean_nil _)
  · cases hComposes
  · cases hComposes
  · refine upholds_done (upholds_setVariable_of ?_)
    exact upholds_bind (hValues _ (by simp)) (hValues _ (by simp))
  · exact upholds_done (upholds_setOption_of (fun mode _ => upholds_mode mode) _)
  · refine (upholds_page p).bind fun page _ => (upholds_requireCache page).bind fun _ _ => ?_
    exact upholds_done (upholds_declareBlock _ _ _ _)
  · exact hText (upholds_cachedInclude hPrepare (hValues _ (by simp)))
  · cases hComposes
  · cases hComposes
  · exact upholds_done (upholds_declareMarkup_of (fun _ => upholds_declareBlock _ _ _ _) _ _)
  -- the other directives do not compose pages, and other numbers of values are refused
  all_goals first | exact upholds_throw _ | cases hComposes

/-! ## Calls -/

theorem upholds_callDirective (hPrepare : Prepares common prepare) {directive : Directive}
    (hComposes : directive.composes = true) {arguments : List Value} {named : Table String Value}
    (hArguments : ∀ v ∈ arguments, v.isStainless common.directives = true)
    (hNamed : NamedFit (Value.isStainless common.directives) named) :
    Upholds (Tight common) (callDirective prepare p directive arguments named) fun v =>
      v.isStainless common.directives = true := by
  have hDefaults : ∀ q ∈ parameters directive, ∀ v, q.default = some v →
      v.isStainless common.directives = true :=
    fun q hMem v hDefault => isStainless_of_isClean (isClean_default directive q hMem v hDefault)
  unfold callDirective
  split
  · cases hComposes
  · cases hComposes
  · refine Upholds.bind_check fun values hBound => ?_
    have hValues := (forall_mem_bindArguments hDefaults hArguments
      (fun binding hMem => (hNamed binding hMem).2) hBound).2
    exact upholds_carryOut hPrepare hComposes hValues

/-- Whatever is called with stainless values keeps all text where it belongs. -/
theorem upholds_call (hPrepare : Prepares common prepare) {callee : Value} {arguments : List Value}
    {named : List (String × Value)} (hCallee : callee.isStainless common.directives = true)
    (hArguments : ∀ v ∈ arguments, v.isStainless common.directives = true)
    (hNamed : NamedFit (Value.isStainless common.directives) named) :
    Upholds (Tight common) (call prepare callee arguments named) fun v =>
      v.isStainless common.directives = true := by
  cases callee with
  | directive q name =>
    refine upholds_call_directive_of fun w page directive hTight hPage hFound => ?_
    have hFits : PageFits (terms common) page := hTight.pages q page hPage
    have hSame : page.context.directives = common.directives := hFits.directives
    rw [hSame] at hFound
    have hName : isComposingName common.directives name = true := hCallee
    rw [isComposingName, hFound] at hName
    exact upholds_callDirective hPrepare hName hArguments hNamed.table
  | inserter q name => cases hCallee
  | builtIn f =>
    exact upholds_check fun v hShown =>
      closed_isStainless.callBuiltIn hArguments hNamed.table hShown
  | _ => exact upholds_throw _

/-! ## The content of a block in its own text -/

/-- A value may be printed on a page if the text has places for children of the innermost open block
only. -/
def MayPrint (p : Nat) (v : Value) (w : World) : Prop :=
  ∀ page o, w.pages[p]? = some page → w.outlines[page.outline]? = some o →
    MayWrite o (draftOf page o).current (.text (outputText v))

theorem mayPrint_of_isStainless {v : Value} {w : World}
    (h : v.isStainless common.directives = true) : MayPrint p v w := by
  rintro page o - - s ⟨rfl⟩
  exact holds_of_clean (isStainless_text.mp (closed_isStainless.outputText h))

/-- So may the content of the innermost open block. -/
theorem ends_parentContent (prepare : Nat → SiteM Unit) {w : World} (hTight : Tight common w) :
    Ends (carryOut prepare p .parentContent []) w (fun v w' => MayPrint p v w' ∧ Tight common w')
      (Tight common) := by
  have hContent : Ends (currentBlock p) w
      (fun b w' => MayPrint p (.text b.content) w' ∧ Tight common w') (Tight common) := by
    unfold currentBlock
    cases hPage : w.pages[p]? with
    | none => exact ends_bind_of_run_error (run_page_error hPage) hTight
    | some page =>
      obtain ⟨o, hOutline, hPlaced⟩ := hTight.placed hPage
      refine ends_bind_of_run (run_page hPage) (ends_bind_of_run (run_outlineOf hPage hOutline) ?_)
      dsimp only
      split
      · rename_i b hBlock
        refine ends_pure ⟨fun found o' hFound hOutline' => ?_, hTight⟩
        rw [hPage] at hFound
        cases hFound
        rw [hOutline] at hOutline'
        cases hOutline'
        rintro s ⟨rfl⟩
        exact hPlaced.outline.content _ b hBlock
      · exact ends_throw hTight
  exact Ends.bind hContent fun b w' hEnd => ends_pure hEnd

/-- Printing what may be printed keeps all text where it belongs. -/
theorem ends_print {v : Value} {w : World} (hTight : Tight common w) (hPrint : MayPrint p v w) :
    Ends (onDraft p (Draft.write (.text (outputText v)))) w (fun _ w' => True ∧ Tight common w')
      (Tight common) := by
  cases hPage : w.pages[p]? with
  | none =>
    unfold onDraft
    exact ends_bind_of_run_error (run_page_error hPage) hTight
  | some page =>
    obtain ⟨o, hOutline, hPlaced⟩ := hTight.placed hPage
    exact ends_onDraft hTight hPage hOutline (ends_write hPlaced (hPrint page o hPage hOutline))

/-- What a call for the content of a block gives may be printed. -/
theorem ends_eval_showsContent (hPrepare : Prepares common prepare) {page : Page} {e : Expr}
    {scope : Scope} (hShows : showsContent common.directives e = true)
    (hScope : ScopeFits (rules common.directives) p scope) {w : World} (hTight : Tight common w) :
    Ends (e.eval (handlerOf prepare p page) scope) w
      (fun v w' => MayPrint p v w' ∧ Tight common w') (Tight common) := by
  unfold showsContent at hShows
  split at hShows
  · rename_i s
    split at hShows
    · rename_i hFound
      rw [Expr.eval]
      split
      · exact ends_throw hTight
      rw [Expr.eval, pure_bind, evalAll, pure_bind, evalNamed, pure_bind]
      have hOther : ∀ callee : Value, callee.isStainless common.directives = true →
          Ends (call prepare callee [] []) w (fun v w' => MayPrint p v w' ∧ Tight common w')
            (Tight common) := by
        intro callee hCallee
        have hCall : Upholds (Tight common) (call prepare callee [] []) fun v =>
            v.isStainless common.directives = true := upholds_call hPrepare hCallee nofun nofun
        exact Ends.mono (hCall w hTight)
          (fun v w' hEnd => ⟨mayPrint_of_isStainless hEnd.1, hEnd.2⟩) fun _ => id
      have hOwn : Ends (call prepare (.directive p s) [] []) w
          (fun v w' => MayPrint p v w' ∧ Tight common w') (Tight common) := by
        unfold call
        dsimp only
        cases hPage : w.pages[p]? with
        | none => exact ends_bind_of_run_error (run_page_error hPage) hTight
        | some found =>
          have hSame : found.context.directives = common.directives :=
            (hTight.pages p found hPage).directives
          refine ends_bind_of_run (run_page hPage) ?_
          rw [hSame, hFound]
          exact ends_parentContent prepare hTight
      cases hCallee : scope.get? s with
      | none =>
        -- the name is not bound, and calling what is missing fails
        split
        · exact ends_throw hTight
        · exact hOther _ (closed_isStainless.unbound _)
      | some v =>
        rcases hScope (s, v) (Table.mem_of_get?_eq_some hCallee) with hFits | ⟨-, hSame⟩
        · -- a variable hides the directive
          split
          · exact ends_throw hTight
          · exact hOther v hFits
        · obtain rfl : v = .directive p s := hSame
          exact hOwn
    · cases hShows
  · cases hShows

/-! ## Bodies -/

theorem conducts_handlerOf (hPrepare : Prepares common prepare) (page : Page) :
    Conducts (Tight common) (rules common.directives) p (handlerOf prepare p page) := by
  constructor
  case closed => exact closed_isStainless
  case call =>
    intro callee arguments named hCallee hArguments hNamed
    exact upholds_call hPrepare hCallee hArguments hNamed
  case write =>
    intro s hText
    have hWrite : Upholds (Tight common) (onDraft p (Draft.write (.text s))) fun _ => True := by
      refine upholds_onDraft (keepsPlaced_write ?_)
      have hFits : (Value.text s).isStainless common.directives = true := hText
      rintro t ⟨rfl⟩
      exact isStainless_text.mp hFits
    exact hWrite
  case special =>
    intro e scope hSpecial
    cases hSpecial
  case shown =>
    intro e scope hShown hScope w hTight
    have hEval : Ends (e.eval (handlerOf prepare p page) scope) w
        (fun v w' => MayPrint p v w' ∧ Tight common w') (Tight common) :=
      ends_eval_showsContent hPrepare hShown hScope hTight
    exact Ends.bind hEval fun v w' hEnd => ends_print hEnd.2 hEnd.1

/-- The body of a template composes its page. -/
theorem BodiesCompose.allKeep {directives : Table String Directive} {files : FileTree Source}
    (h : BodiesCompose directives files) {place : Place} {items : List Item}
    (hBody : bodyAt files place = .ok items) :
    Item.allKeep (rules directives) items = true := by
  cases hSource : files.get? place with
  | none =>
    rw [bodyAt, hSource] at hBody
    cases hBody
  | some source =>
    have hMem := Table.mem_of_get?_eq_some hSource
    refine h _ hMem items ?_
    have hOnly : Table.get? [(place, source)] place = some source := by
      rw [Table.get?_cons, beq_self_eq_true, if_pos rfl]
    rw [bodyAt, hOnly, ← hBody, bodyAt, hSource]

theorem Tight.counted {w : World} (h : Tight common w) :
    Tight common { w with executed := w.executed + 1 } :=
  ⟨h.bodies, h.globals, h.vault, h.pages, h.drafts, h.outlines, h.settings⟩

theorem prepares_runBody (hPrepare : Prepares common prepare) :
    Prepares common (runBody prepare) := by
  intro p
  refine upholds_bodyWith_of (upholds_onDraft keepsPlaced_resetCaptures)
    (fun w hTight => hTight.counted) ?_ (upholds_onDraft keepsPlaced_finish)
  intro w page items scope hTight hPage hBody hScope
  have hStart : ScopeFits (rules common.directives) p scope :=
    scopeFits_scopeOf closed_isStainless rfl (fun _ _ hFree => hFree)
      (hTight.pages p page hPage) hScope
  have hItems := hTight.bodies.allKeep hBody
  exact (upholds_runAll (conducts_handlerOf hPrepare page) items hItems hStart).mono
    fun _ _ => trivial

/-- Preparing a page keeps all text where it belongs, to whatever depth that nests. -/
theorem prepares_prepareFrom (depth : Nat) : Prepares common (prepareFrom depth) := by
  induction depth with
  | zero => exact fun p => upholds_throw _
  | succ depth ih => exact prepares_runBody ih

theorem prepares : Prepares common Site.prepare :=
  fun p => Upholds.bind_get fun w hTight => prepares_prepareFrom (depthLimit w) p w hTight

end Calls

end PageBlocks.Filling
