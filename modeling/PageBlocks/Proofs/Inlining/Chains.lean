import PageBlocks.Proofs.Inlining.Calls

/-!
# Extending is inlining

A page that extends another one gets the cache flags that it would have if all calls that count for
flags had been made on it alone, those of the base in the place in which it is extended, and so on
along the chain (`extending_is_inlining`). A mark is never lost on the way (`Chained.deferred`), and
variables are layered from the outside in.

The calls of a body are taken down while it runs. What one call makes of the flags of its page is
carried along the run by `recording`, and along the chain by an induction on how deep preparing
pages nests (`tells_prepareWhere`).

Functions are values, so the body of a base may call a function that is bound to the page which
extends it; such a call is not inlined (`borrowing_is_not_inlined`).
-/

set_option autoImplicit false

namespace PageBlocks.Inlining

open PageBlocks.Body PageBlocks.Confinement PageBlocks.Extending PageBlocks.Guards
  PageBlocks.Running PageBlocks.Site PageBlocks.Upkeep
open PageBlocks.Outline (lasting_isLabelled)

section Chains

variable {w w' : World} {p k : Nat} {page : Page} {prepare real : Nat → SiteM Unit}
  {inlined : Nat → World → List FlagCall} {refusal : Fault} {callee : Value}
  {arguments : List Value} {named : List (String × Value)}

/-! ## Bodies -/

/-- A run and another one that takes down calls: if the first one comes to an end, so does the
other, and the calls that it takes down tell what the first one makes of the flags of a page. -/
def recording (flagCalls : Moment → List FlagCall) (p : Nat) :
    Link World (World × List Moment) where
  holds {α} x y := ∀ (w w' : World) (a : α) (f : Flags), flagsAt w p = some f →
    x.run w = (.ok a, w') → ∃ calls, (∀ before, y.run (w, before) = (.ok a, w', before ++ calls))
      ∧ flagsAt w' p = some (f.replay (calls.flatMap flagCalls))
  pure a := by
    intro w w' b f hFlags hRun
    cases hRun
    refine ⟨[], fun before => ?_, hFlags⟩
    rw [List.append_nil]
    rfl
  throw fault := by
    intro w w' b f hFlags hRun
    cases hRun
  bind {α β x y g g'} h hNext := by
    intro w w' b f hFlags hRun
    obtain ⟨a, w₁, hFirst, hRest⟩ := run_bind_eq_ok hRun
    obtain ⟨calls, hRecorded, hFlags₁⟩ := h w w₁ a f hFlags hFirst
    obtain ⟨more, hRecordedRest, hFlags'⟩ := hNext a w₁ w' b _ hFlags₁ hRest
    refine ⟨calls ++ more, fun before => ?_, ?_⟩
    · rw [run_bind_of_ok (hRecorded before), hRecordedRest, List.append_assoc]
    · rw [List.flatMap_append, Flags.replay_append]
      exact hFlags'

theorem recording_unrecorded {α : Type} {counted : Moment → List FlagCall} {x : SiteM α}
    (h : Quiet p x) : (recording counted p).holds x (unrecorded x) := by
  intro w w' a f hFlags hRun
  obtain ⟨page, hPage, -⟩ := Option.map_eq_some_iff.mp hFlags
  have hSame := h (Array.getElem?_eq_some_iff.mp hPage).1
  rw [hRun] at hSame
  refine ⟨[], fun before => ?_, hSame.trans hFlags⟩
  rw [run_unrecorded, hRun, List.append_nil]

theorem recording_call (hBound : k ≤ p) (hFlagged : (flagged p).Prepares prepare)
    (hElsewhere : (elsewhere p).Prepares prepare) (hTells : Tells k prepare inlined)
    (hSame : ∀ q, (sameUnless refusal).holds (prepare q) (real q)) :
    (recording (momentCalls k inlined real) p).holds
      (guardedCall refusal (homely k) p prepare callee arguments named)
      ((recorder (handlerOf real p page)).call callee arguments named) := by
  intro w w' v f hFlags hRun
  obtain ⟨found, hPage, -⟩ := Option.map_eq_some_iff.mp hFlags
  obtain ⟨hReal, hMade⟩ := flagsAt_guardedCall hBound hFlagged hElsewhere hTells hSame hPage hRun
  refine ⟨[⟨w, callee, arguments, named⟩], fun before => ?_, ?_⟩
  · show (unrecorded (call real callee arguments named)).run (w, before ++ [_]) = _
    rw [run_unrecorded, hReal]
  · rw [hMade, hFlags, List.flatMap_singleton]
    rfl

/-- Running a body in two ways is related if calls are, and so is what leaves the flags alone. -/
theorem holds_recordedBody {L : Link World (World × List Moment)}
    {call : Value → List Value → List (String × Value) → SiteM Value}
    (hQuiet : ∀ {α : Type} (x : SiteM α), Quiet p x → L.holds x (unrecorded x))
    (hCall : ∀ (page : Page) (callee : Value) (arguments : List Value)
      (named : List (String × Value)), L.holds (call callee arguments named)
        ((recorder (handlerOf real p page)).call callee arguments named)) :
    L.holds (bodyWith call p) (recordedBody real p) := by
  have hDraft : ∀ {α : Type} {act : DraftM α}, Draft.Keeps Outline.IsLabelled act →
      Quiet p (onDraft p act) := fun hKeeps =>
    quiet_of_upholds fun hReady => upholds_onDraft hReady (.inr trivial) hKeeps
  unfold bodyWith recordedBody
  refine L.bind (hQuiet _ (hDraft lasting_isLabelled.resetCaptures)) fun _ => ?_
  refine L.bind (hQuiet _ fun _ => rfl) fun _ => ?_
  refine L.bind (hQuiet _ ?_) fun page => ?_
  · exact quiet_of_upholds fun hReady => upholds_page hReady p
  refine L.bind (hQuiet _ ?_) fun items => ?_
  · exact quiet_of_upholds fun _ => (looks_bodyOf page).upholds
  refine L.bind (hQuiet _ ?_) fun scope => ?_
  · exact quiet_of_upholds fun _ => upholds_check fun _ _ => trivial
  have hWrite : ∀ s : String, L.holds (onDraft p (Draft.write (.text s)))
      ((recorder (handlerOf real p page)).write s) := fun s =>
    hQuiet (onDraft p (Draft.write (.text s))) (hDraft (lasting_isLabelled.write _))
  have hHandles : L.Handles
      { dialect := page.context.dialect
        call
        write := fun s => onDraft p (Draft.write (.text s)) }
      (recorder (handlerOf real p page)) :=
    ⟨rfl, hCall page, hWrite⟩
  exact L.bind (Link.runAll hHandles items scope) fun _ =>
    hQuiet _ (hDraft lasting_isLabelled.finish)

/-- What preparing a page under a guard makes of its flags is told by the calls of the bodies. -/
theorem tells_prepareWhere (refusal : Fault) (k depth : Nat) :
    Tells k (prepareWhere refusal (homely k) depth) (flagCalls k depth) := by
  induction depth with
  | zero =>
    intro p w w' f hBound hFlags hRun
    cases hRun
  | succ depth ih =>
    intro p w w' f hBound hFlags hRun
    have hFlagged : (flagged p).Prepares (prepareWhere refusal (homely k) depth) :=
      Limits.Guarded.prepares (guarded_homely_flagged hBound) refusal depth
    have hElsewhere : (elsewhere p).Prepares (prepareWhere refusal (homely k) depth) :=
      Limits.Guarded.prepares (guarded_homely_elsewhere hBound) refusal depth
    have hBodies : (recording (momentCalls k (flagCalls k depth) (prepareFrom depth)) p).holds
        (prepareWhere refusal (homely k) (depth + 1) p) (recordedBody (prepareFrom depth) p) :=
      holds_recordedBody (fun _ => recording_unrecorded) fun _ _ _ _ =>
        recording_call hBound hFlagged hElsewhere ih
          (prepareWhere_sameUnless refusal (homely k) depth)
    obtain ⟨calls, hRecorded, hFlags'⟩ := hBodies w w' () f hFlags hRun
    rw [flagCalls, hRecorded []]
    exact hFlags'

/-! ## Chains -/

/-- What a call that extends a page counts for is what the body of the base counts for. -/
theorem momentCalls_of_momentBase {m : Moment} {b : Nat} {w₁ : World}
    (h : momentBase k m = some (b, w₁)) : momentCalls k inlined real m = inlined b w₁ := by
  unfold momentBase at h
  unfold momentCalls
  cases hCallee : m.callee with
  | directive q name =>
    simp only [hCallee] at h
    split at h
    · rename_i hBound
      split at h
      · rename_i page hPage
        split at h
        · rename_i hKnown
          simp only [if_pos hBound, hPage, hKnown]
          simp only [directiveCalls, baseCalls, h]
        · cases h
      · cases h
    · cases h
  | _ =>
    simp only [hCallee] at h
    cases h

/-- The calls of a body stand in the place in which it runs. -/
theorem Chained.infix {depth d q : Nat} {v : World} (h : Chained k depth p w d q v) :
    flagCalls k d q v <:+: flagCalls k depth p w := by
  induction h with
  | own depth p w => exact List.infix_refl _
  | base hMem hBase _ ih =>
    obtain ⟨earlier, later, hSplit⟩ := List.append_of_mem hMem
    refine ih.trans ?_
    rw [flagCalls, hSplit, List.flatMap_append, List.flatMap_cons, momentCalls_of_momentBase hBase,
      ← List.append_assoc]
    exact List.infix_append _ _ _

/-- A base starts without a mark. -/
theorem deferred_of_momentBase {m : Moment} {b : Nat} {w₁ : World}
    (h : momentBase k m = some (b, w₁)) : (flagsAt w₁ b).map Flags.deferred = some false := by
  unfold momentBase at h
  split at h
  · split at h
    · split at h
      · rename_i page hPage
        split at h
        · unfold baseStart at h
          split at h
          · split at h
            · split at h
              · rename_i hBase
                cases h
                rw [(run_baseFor_eq_ok hPage hBase).2.2]
                rfl
              · cases h
            · cases h
          · cases h
        · cases h
      · cases h
    · cases h
  · cases h

/-- Only the outermost page of a chain may be marked before its body runs. -/
theorem Chained.deferred_start {depth d q : Nat} {v : World} (h : Chained k depth p w d q v)
    (hMarked : (flagsAt v q).map Flags.deferred = some true) :
    (flagsAt w p).map Flags.deferred = some true := by
  induction h with
  | own depth p w => exact hMarked
  | base hMem hBase _ ih =>
    rw [deferred_of_momentBase hBase] at ih
    cases ih hMarked

/-- A mark that a page of a chain bears at any time while its body runs is borne by the outermost
page in the end. -/
theorem Chained.deferred {depth d q : Nat} {v : World} {f g : Flags} {before : List FlagCall}
    (h : Chained k depth p w d q v) (hStart : flagsAt w p = some f) (hFlags : flagsAt v q = some g)
    (hBefore : before <+: flagCalls k d q v) (hMarked : (g.replay before).deferred = true) :
    (f.replay (flagCalls k depth p w)).deferred = true := by
  rw [Flags.deferred_replay, Bool.or_eq_true] at hMarked ⊢
  rcases hMarked with hOld | hNew
  · have hOuter := h.deferred_start (by rw [hFlags, Option.map_some, hOld])
    rw [hStart, Option.map_some, Option.some.injEq] at hOuter
    exact .inl hOuter
  · obtain ⟨c, hMem, hMarks⟩ := List.any_eq_true.mp hNew
    exact .inr (List.any_eq_true.mpr ⟨c, h.infix.subset (hBefore.subset hMem), hMarks⟩)

/-- As long as bodies call the functions of their own pages, or of pages that were made before the
outermost one, the flags of a page are in the end what all calls of the chain would have made of
them on one page; a mark on any page of the chain stays; and a variable that is bound when another
page is extended keeps its value, while all others are taken over from the base. -/
theorem extending_is_inlining (refusal : Fault) (depth : Nat) (hPage : w.pages[p]? = some page) :
    (∀ w', (prepareWhere refusal (homely p) depth p).run w = (.ok (), w') →
      (prepareFrom depth p).run w = (.ok (), w')
      ∧ ∃ f, flagsAt w' p = some f
        ∧ (∀ v q, flagsAt v q = some (flagsOf page) →
          ∃ v', ((flagCalls p depth p w).forM (FlagCall.perform q)).run v = (.ok (), v')
            ∧ flagsAt v' q = some f)
        ∧ ∀ d q v g before, Chained p depth p w d q v → flagsAt v q = some g →
          before <+: flagCalls p d q v → (g.replay before).deferred = true → f.deferred = true)
    ∧ ∀ name w', (extend (prepareWhere refusal (homely p) depth) p name).run w = (.ok (), w') →
      (extend (prepareFrom depth) p name).run w = (.ok (), w')
      ∧ ∃ base w₁ w₂ prepared page', baseStart w page (.ok [name]) = some (base, w₁)
        ∧ (prepareFrom depth base).run w₁ = (.ok (), w₂) ∧ w₂.pages[base]? = some prepared
        ∧ w'.pages[p]? = some page'
        ∧ flagsOf page' = ⟨prepared.mode, page.deferred || prepared.deferred⟩
        ∧ (page.vars.keys.Nodup → ∀ key, page'.vars.get? (.text key)
          = (page.vars.get? (.text key)).or (prepared.vars.get? (.text key))) := by
  have hStart : flagsAt w p = some (flagsOf page) := by rw [flagsAt, hPage, Option.map_some]
  have hReal : ∀ q, (sameUnless refusal).holds (prepareWhere refusal (homely p) depth q)
      (prepareFrom depth q) := prepareWhere_sameUnless refusal (homely p) depth
  constructor
  · intro w' hRun
    refine ⟨eq_ok_of_sameUnless (hReal p) hRun, (flagsOf page).replay (flagCalls p depth p w),
      tells_prepareWhere refusal p depth (Nat.le_refl p) hStart hRun, fun v q hSame => ?_,
      fun d q v g before hChained hFlags hBefore => hChained.deferred hStart hFlags hBefore⟩
    obtain ⟨v', hPerformed, hFlags⟩ := run_perform_calls (flagCalls p depth p w) q v
    exact ⟨v', hPerformed, hFlags.trans (congrArg _ hSame)⟩
  · intro name w' hRun
    obtain ⟨place, base, w₁, w₂, prepared, page', hPlace, hBase, -, -, hPrepared, hFound, hNow,
      hFlags, hVars⟩ := exists_of_run_extend (Limits.Guarded.prepares
        (guarded_homely_elsewhere (Nat.le_refl p)) refusal depth) hPage hRun
    have hBaseStart : baseStart w page (.ok [name]) = some (base, w₁) := by
      simp only [baseStart, hPlace, hBase]
    refine ⟨eq_ok_of_sameUnless ((prepares_sameUnless hReal).extend name) hRun, base, w₁, w₂,
      prepared, page', hBaseStart, eq_ok_of_sameUnless (hReal base) hPrepared, hFound, hNow, hFlags,
      fun hOnce key => ?_⟩
    have hKept : (Table.keys (page.vars.filter fun entry => entry.1 == entry.1)).Nodup :=
      hOnce.sublist (List.filter_sublist.map _)
    rw [hVars, Table.get?_merge_text _ hKept, Table.get?_filter_text _ fun _ =>
      Table.beq_text_iff.mpr rfl]

/-! ## A page of two layers -/

/-- A site with a page that hands its function for options on and then extends a base. -/
def layered (base : List Item) : World where
  files := [
    (["v", "base"], .items base),
    (["v", "page"], .items [
      .emit (.call (.name "let") [.literal (.text "o"), .name "opt"] []),
      .emit (.call (.name "opt") [.literal (.text "cachemode"), .literal (.text "disabled")] []),
      .emit (.call (.name "extend") [.literal (.text "base")] [])])]
  vault := { now := ⟨0⟩ }
  settings := startSettings { paths := [Path.absolute ["v"]] } .script Cache.defaultLifetime
  pages := #[{
    place := ["v", "page"]
    vars := [(.text "title", .text "page")]
    context := startSettings { paths := [Path.absolute ["v"]] } .script Cache.defaultLifetime
    id := "page"
    outline := 0 }]
  outlines := #[Outline.start "page"]

/-- A base that is marked and sets a mode afterwards, and binds two variables. -/
def marking : List Item := [
  .emit (.call (.name "defer") [.literal (.text "now")] []),
  .emit (.call (.name "opt") [.literal (.text "cachemode"), .literal (.text "static")] []),
  .emit (.call (.name "let") [.literal (.text "title"), .literal (.text "base")] []),
  .emit (.call (.name "let") [.literal (.text "part"), .literal (.text "base")] [])]

/-- A base that calls what it was handed. -/
def borrowing : List Item := [
  .emit (.call (.name "o") [.literal (.text "cachemode"), .literal (.text "static")] [])]

/-- A page keeps the mode that its base sets last, the mark from before, and its own title. -/
theorem marking_is_inlined :
    ∃ w' w'' page', (prepareFrom 3 0).run (layered marking) = (.ok (), w')
      ∧ flagsAt w' 0 = some ⟨.static, true⟩
      ∧ (∀ v q, flagsAt v q = some ⟨.static, false⟩ →
        ∃ v', ((flagCalls 0 3 0 (layered marking)).forM (FlagCall.perform q)).run v = (.ok (), v')
          ∧ flagsAt v' q = some ⟨.static, true⟩)
      ∧ (extend (prepareFrom 2) 0 (.text "base")).run (layered marking) = (.ok (), w'')
      ∧ w''.pages[0]? = some page'
      ∧ page'.vars.get? (.text "title") = some (.text "page") := by
  have hEnds : ((prepareWhere (.host .tooDeep) (homely 0) 3 0).run (layered marking)).1.toBool
      = true := by decide +kernel
  have hLast : flagsAt ((prepareWhere (.host .tooDeep) (homely 0) 3 0).run (layered marking)).2 0
      = some ⟨.static, true⟩ := by decide +kernel
  have hExtends : ((extend (prepareWhere (.host .tooDeep) (homely 0) 2) 0 (.text "base")).run
      (layered marking)).1.toBool = true := by decide +kernel
  obtain ⟨page, hPage, hFirst, hVars⟩ : ∃ page, (layered marking).pages[0]? = some page
      ∧ flagsOf page = ⟨.static, false⟩ ∧ page.vars = [(.text "title", .text "page")] :=
    ⟨_, rfl, rfl, rfl⟩
  have hBody := (extending_is_inlining (.host .tooDeep) 3 hPage).1
  have hLayers := (extending_is_inlining (.host .tooDeep) 2 hPage).2
    (.text "base")
  rcases hRun : (prepareWhere (.host .tooDeep) (homely 0) 3 0).run (layered marking)
    with ⟨fault | _, w'⟩
  · rw [hRun] at hEnds
    cases hEnds
  rcases hRun' : (extend (prepareWhere (.host .tooDeep) (homely 0) 2) 0 (.text "base")).run
    (layered marking) with ⟨fault | _, w''⟩
  · rw [hRun'] at hExtends
    cases hExtends
  obtain ⟨hReal, f, hFlags, hInlined, -⟩ := hBody w' hRun
  obtain ⟨hReal', base, w₁, w₂, prepared, page', -, -, -, hNow, -, hFound⟩ := hLayers w'' hRun'
  rw [hRun, hFlags, Option.some.injEq] at hLast
  subst hLast
  rw [hFirst] at hInlined
  refine ⟨w', w'', page', hReal, hFlags, hInlined, hReal', hNow, ?_⟩
  rw [hFound (by rw [hVars]; exact List.pairwise_singleton _ _), hVars]
  rfl

/-- Functions are values. The base calls the function for options that it was handed, and so the
mode that it asks for is lost; inlined, the call would count. -/
theorem borrowing_is_not_inlined :
    ∃ w' page v', (layered borrowing).pages[0]? = some page
      ∧ (prepareFrom 3 0).run (layered borrowing) = (.ok (), w')
      ∧ flagsAt (layered borrowing) 0 = some (flagsOf page)
      ∧ ((flagCalls 0 3 0 (layered borrowing)).forM (FlagCall.perform 0)).run (layered borrowing)
        = (.ok (), v')
      ∧ flagsAt v' 0 ≠ flagsAt w' 0 := by
  have hEnds : ((prepareFrom 3 0).run (layered borrowing)).1.toBool = true := by decide +kernel
  have hLast : flagsAt ((prepareFrom 3 0).run (layered borrowing)).2 0
      = some ⟨.disabled, false⟩ := by decide +kernel
  have hInlined : flagsAt (((flagCalls 0 3 0 (layered borrowing)).forM (FlagCall.perform 0)).run
      (layered borrowing)).2 0 = some ⟨.static, false⟩ := by decide +kernel
  obtain ⟨page, hPage⟩ : ∃ page, (layered borrowing).pages[0]? = some page := ⟨_, rfl⟩
  obtain ⟨v', hPerformed, -⟩ :=
    run_perform_calls (flagCalls 0 3 0 (layered borrowing)) 0 (layered borrowing)
  rcases hRun : (prepareFrom 3 0).run (layered borrowing) with ⟨fault | _, w'⟩
  · rw [hRun] at hEnds
    cases hEnds
  rw [hRun] at hLast
  rw [hPerformed] at hInlined
  refine ⟨w', page, v', hPage, rfl, ?_, hPerformed, ?_⟩
  · rw [flagsAt, hPage, Option.map_some]
  · rw [hInlined, hLast]
    intro hSame
    cases hSame

end Chains

end PageBlocks.Inlining
