import PageBlocks.Proofs.Confinement.Frames

/-!
# Operations that fail

What the body of a page does to its page by opening and closing blocks, extending, including,
changing the cache mode and deferring fragments (`Operation`). An operation that fails leaves the
page and its outline as they were, even where the bodies of other pages ran first and failed at any
depth (`failed_operation_changes_nothing`). That takes that no such body calls a function of a page
that stands on this outline (`sparing`): functions are values, so one could be handed on to it.
-/

set_option autoImplicit false

namespace PageBlocks.Confinement

open PageBlocks.Guards PageBlocks.Progress PageBlocks.Running PageBlocks.Site PageBlocks.Upkeep

/-! ## Operations -/

/-- What a body can do to its page. -/
inductive Operation where
  | openBlock (name : Value) (mode : ApplyMode)
  | addBlock (b : Block) (mode : ApplyMode)
  | close
  | extend (name : Value)
  | include (name vars : Value)
  | setMode (v : Value)
  | defer (kind : Value) (arguments : List Value)

/-- Carry an operation out on a page, given how other pages are prepared. -/
def Operation.perform (prepare : Nat → SiteM Unit) (p : Nat) : Operation → SiteM Unit
  | openBlock name mode => do
    let _ ← onDraft p (Draft.openBlock name mode)
  | addBlock b mode => do
    let _ ← onDraft p (Draft.addBlock b mode)
  | close => onDraft p Draft.close
  | extend name => Site.extend prepare p name
  | .include name vars => do
    let _ ← includePage prepare p name vars
  | setMode v => Site.setMode p v
  | defer kind arguments => do
    let _ ← deferFragment p kind arguments

/-- Other bodies may not call the functions of pages that stand on an outline. -/
def sparing (n : Nat) : Guard := fun _ w q => (w.pages[q]?).all fun page => page.outline ≠ n

/-- A block of another kind is registered under the name of a block. -/
def Clashes (o : Outline) (b : Block) : Prop :=
  ∃ i existing, o.find? b.name = some i ∧ o.block? i = some existing ∧ existing.kind ≠ b.kind

section Failing

variable {w w' : World} {p : Nat} {page : Page} {fault refusal : Fault}

/-! ## Reachable sites -/

/-- A change that a body makes leaves every page with an outline. -/
theorem Lodged.step (h : Lodged w) (hStep : Step w w') : Lodged w' := by
  cases hStep with
  | aside _ hPages hOutlines =>
    intro q page hPage
    rw [hPages] at hPage
    rw [hOutlines]
    exact h q page hPage
  | revise p hSame =>
    refine h.modify rfl fun page hPage => ?_
    rw [(hSame page).outline]
    exact h p page hPage
  | draft hPage _ _ => exact h.modify Array.size_modify fun page hFound => h _ page hFound
  | push _ hMade owner => exact h.push hMade.outline _
  | adopt p hBase hAdopts =>
    refine h.modify rfl fun page _ => ?_
    rw [(hAdopts page).outline]
    exact h _ _ hBase

theorem Lodged.course (h : Lodged w) (hCourse : Course w w') : Lodged w' := by
  induction hCourse with
  | refl => exact h
  | tail _ hStep ih => exact ih.step hStep

/-! ## Drafts -/

/-- A name that is refused is refused before anything changes. -/
theorem run_checkName_bind {α : Type} {name : Value} {x : DraftM α} (d : Draft) :
    ((do
      Draft.checkName name
      x) : DraftM α).run d = match Draft.checkName name with
        | .ok _ => x.run d
        | .error fault => (.error fault, d) := by
  cases Draft.checkName name <;> rfl

theorem run_openBlock_error {d d' : Draft} {name : Value} {mode : ApplyMode}
    (h : (Draft.openBlock name mode).run d = (.error fault, d')) : d' = d := by
  unfold Draft.openBlock at h
  rw [run_checkName_bind] at h
  split at h
  · -- past the check of the name nothing fails
    rw [run_bind_of_ok (run_get d)] at h
    split at h <;> cases h
  · cases h
    rfl

/-- Adding a block to a draft fails for its name, or for its kind. -/
theorem run_addBlock_error {d d' : Draft} {b : Block} {mode : ApplyMode}
    (h : (Draft.addBlock b mode).run d = (.error fault, d')) : d' = d := by
  unfold Draft.addBlock at h
  rw [run_checkName_bind] at h
  split at h
  · rw [run_bind_of_ok (run_get d)] at h
    split at h
    · rename_i i hFind
      cases hBlock : d.outline.block? i with
      | none =>
        rw [hBlock] at h
        cases h
      | some existing =>
        rw [hBlock] at h
        dsimp only at h
        split at h
        · cases h
          rfl
        · cases h
    · cases h
  · cases h
    rfl

/-- A block is refused for its kind if one of another kind has its name. -/
theorem addBlock_mismatch_iff {d : Draft} {b : Block} {mode : ApplyMode}
    (hName : Draft.checkName b.name = .ok ()) :
    (∃ path name existing conflicting, ((Draft.addBlock b mode).run d).1
        = .error (.blockTypeMismatch path name existing conflicting))
      ↔ Clashes d.outline b := by
  unfold Draft.addBlock Clashes
  rw [run_checkName_bind, hName]
  dsimp only
  rw [run_bind_of_ok (run_get d)]
  cases hFind : d.outline.find? b.name with
  | none =>
    constructor
    · rintro ⟨_, _, _, _, h⟩
      cases h
    · rintro ⟨_, _, h, -⟩
      cases h
  | some i =>
    dsimp only
    cases hBlock : d.outline.block? i with
    | none =>
      constructor
      · rintro ⟨_, _, _, _, h⟩
        cases h
      · rintro ⟨_, _, hSame, hFound, -⟩
        cases hSame
        rw [hBlock] at hFound
        cases hFound
    | some existing =>
      dsimp only
      by_cases hKind : existing.kind ≠ b.kind
      · rw [if_pos hKind]
        exact ⟨fun _ => ⟨i, existing, rfl, hBlock, hKind⟩, fun _ => ⟨_, _, _, _, rfl⟩⟩
      · rw [if_neg hKind]
        constructor
        · rintro ⟨_, _, _, _, h⟩
          cases h
        · rintro ⟨_, other, hSame, hFound, hOther⟩
          cases hSame
          rw [hBlock] at hFound
          cases hFound
          exact absurd hOther hKind

/-- No open block: then nothing was closed. -/
theorem run_close_error {d d' : Draft} {path : String}
    (h : Draft.close.run d = (.error (.blockStack path .noOpenBlock), d')) : d' = d := by
  unfold Draft.close at h
  rw [run_bind_of_ok (run_get d)] at h
  split at h
  · rename_i i next below hStack
    rw [run_bind_of_ok (run_set _ _)] at h
    split at h
    · cases h
    · rename_i capture rest hCaptures
      rw [run_bind_of_ok (run_set _ _)] at h
      cases capture with
      | spoiled => cases h
      | text s =>
        have hRead : (liftM (Capture.read (.text s)) : DraftM String) = pure s := rfl
        rw [hRead, pure_bind, run_bind_of_ok (run_modify _ _)] at h
        split at h
        · split at h
          · cases h
          · -- the token may find no capture to go to, which is another fault
            unfold Draft.write at h
            rw [run_bind_of_ok (run_get _)] at h
            cases rest <;> cases h
        · cases h
  · cases h
    rfl

/-! ## Pages -/

/-- A step of a draft has the result that it has, and the page and its outline go with it. -/
theorem run_onDraft_eq {α : Type} {o : Outline} (hPage : w.pages[p]? = some page)
    (hOutline : w.outlines[page.outline]? = some o) (x : DraftM α) :
    (onDraft p x).run w = ((x.run (draftOf page o)).1,
      { w with
        pages := w.pages.modify p fun other =>
          { other with
            stack := (x.run (draftOf page o)).2.stack
            captures := (x.run (draftOf page o)).2.captures }
        outlines := w.outlines.modify page.outline
          fun _ => (x.run (draftOf page o)).2.outline }) := by
  unfold onDraft
  rw [run_bind_of_ok (run_page hPage), run_bind_of_ok (run_outlineOf hPage hOutline)]
  rcases hRun : x.run (draftOf page o) with ⟨fault | a, d⟩ <;> rfl

/-- A step of a draft that fails and leaves the draft leaves the page and its outline. -/
theorem unchanged_of_onDraft_error {α : Type} {x : DraftM α} (hPage : w.pages[p]? = some page)
    (hLodged : page.outline < w.outlines.size)
    (hSame : ∀ d d', x.run d = (.error fault, d') → d' = d)
    (h : (onDraft p x).run w = (.error fault, w')) :
    w'.pages[p]? = some page ∧ w'.outlines[page.outline]? = w.outlines[page.outline]? := by
  have hOutline := Array.getElem?_eq_getElem hLodged
  rw [run_onDraft_eq hPage hOutline] at h
  rcases hRun : x.run (draftOf page w.outlines[page.outline]) with ⟨result, d⟩
  rw [hRun] at h
  cases h
  have hDraft := hSame _ _ hRun
  subst hDraft
  dsimp only
  rw [Array.getElem?_modify, if_pos rfl, Array.getElem?_modify, if_pos rfl, hPage, hOutline]
  exact ⟨rfl, rfl⟩

theorem run_track (text : String) (w : World) : ∃ w', (track p text).run w = (.ok text, w') := by
  unfold track
  split
  · exact ⟨_, rfl⟩
  · exact ⟨_, rfl⟩

/-- A page goes on with the outline of another one, if that one is there. -/
theorem run_adopt_error {base : Nat} {name : Value} (hPage : w.pages[p]? = some page)
    (h : (adopt p base name).run w = (.error fault, w')) : w' = w := by
  unfold adopt at h
  cases hBase : w.pages[base]? with
  | none =>
    rw [run_bind_of_error (run_page_error hBase)] at h
    cases h
    rfl
  | some prepared =>
    rw [run_bind_of_ok (run_page hBase)] at h
    unfold updatePage onDraft at h
    rw [run_bind_of_ok (run_modify _ w)] at h
    have hHere : ∀ f : Page → Page, (w.pages.modify p f)[p]? = some (f page) := by
      intro f
      rw [Array.getElem?_modify, if_pos rfl, hPage]
      rfl
    rw [run_bind_of_ok (run_page (hHere _)), run_bind_of_ok (run_outlineOf_getD (hHere _))] at h
    cases h

/-! ## Failing operations -/

theorem run_error_of_discard {α : Type} {x : SiteM α}
    (h : (do
      let _ ← x : SiteM Unit).run w = (.error fault, w')) : x.run w = (.error fault, w') := by
  rcases run_bind_eq_error_iff.mp h with hFirst | ⟨_, _, -, hRest⟩
  · exact hFirst
  · cases hRest

theorem run_discard_eq_error_iff {α : Type} {x : SiteM α} :
    ((do
      let _ ← x : SiteM Unit).run w).1 = .error fault ↔ (x.run w).1 = .error fault := by
  rw [run_bind]
  rcases x.run w with ⟨other | a, w'⟩
  · constructor <;> (intro h; cases h; rfl)
  · constructor <;> (intro h; cases h)

/-- What is kept apart from the outline of a page leaves the page as it was. -/
theorem Untouched.unchanged (h : Untouched page.outline w w') (hPage : w.pages[p]? = some page) :
    w'.pages[p]? = some page ∧ w'.outlines[page.outline]? = w.outlines[page.outline]? :=
  ⟨(h.pages p page rfl).mpr hPage, h.outline⟩

theorem guarded_sparing (n : Nat) : (apartFrom n).Guarded (sparing n) := by
  intro w p q _ _ hSpares page hPage
  unfold sparing at hSpares
  rw [hPage] at hSpares
  simpa using hSpares

/-- An operation that fails leaves its page as it was if the bodies of other pages do. -/
theorem unchanged_of_perform_error {prepare : Nat → SiteM Unit} {op : Operation}
    (hPrepare : (apartFrom page.outline).Prepares prepare) (hPage : w.pages[p]? = some page)
    (hLodged : page.outline < w.outlines.size)
    (hClose : op = .close → ∃ path, fault = .blockStack path .noOpenBlock)
    (h : (op.perform prepare p).run w = (.error fault, w')) :
    w'.pages[p]? = some page ∧ w'.outlines[page.outline]? = w.outlines[page.outline]? := by
  cases op with
  | openBlock name mode =>
    refine unchanged_of_onDraft_error hPage hLodged ?_ (run_error_of_discard h)
    exact fun _ _ hRun => run_openBlock_error hRun
  | addBlock b mode =>
    refine unchanged_of_onDraft_error hPage hLodged ?_ (run_error_of_discard h)
    exact fun _ _ hRun => run_addBlock_error hRun
  | close =>
    obtain ⟨path, rfl⟩ := hClose rfl
    exact unchanged_of_onDraft_error hPage hLodged (fun _ _ hRun => run_close_error hRun) h
  | extend name =>
    have hBase := ends_preparedBase hPrepare hLodged p name ((apartFrom page.outline).refl w)
    have hRun : (preparedBase prepare p name >>= fun base => adopt p base name).run w
        = (.error fault, w') := by
      rw [← extend_eq]
      exact h
    -- the base fails, at whatever depth, or the page goes on with it
    rcases run_bind_eq_error_iff.mp hRun with hFails | ⟨base, w₁, hPrepared, hAdopts⟩
    · exact (hBase.of_run_error hFails).unchanged hPage
    · obtain ⟨-, hGone⟩ := hBase.of_run hPrepared
      have hStill := Untouched.unchanged hGone hPage
      rw [run_adopt_error hStill.1 hAdopts]
      exact hStill
  | «include» name vars =>
    have hText := upholds_fragment hPrepare hLodged p name vars w ((apartFrom page.outline).refl w)
    have hRun : (fragment prepare p name vars >>= track p).run w = (.error fault, w') := by
      rw [← includePage_eq]
      exact run_error_of_discard h
    rcases run_bind_eq_error_iff.mp hRun with hFails | ⟨text, w₁, -, hTracks⟩
    · exact (hText.of_run_error hFails).unchanged hPage
    · obtain ⟨w₂, hTracked⟩ := run_track (p := p) text w₁
      rw [hTracked] at hTracks
      cases hTracks
  | setMode v =>
    rcases run_bind_eq_error_iff.mp h with hFails | ⟨mode, w₁, -, hSets⟩
    · cases hMode : modeOf v with
      | ok mode =>
        rw [run_check hMode] at hFails
        cases hFails
      | error other =>
        rw [run_check_error hMode] at hFails
        cases hFails
        exact ⟨hPage, rfl⟩
    · cases hSets
  | defer kind arguments =>
    rcases run_bind_eq_error_iff.mp (run_error_of_discard h) with hFails | ⟨tag, w₁, -, hTracks⟩
    · unfold tagOf at hFails
      rw [run_bind_of_ok (run_page hPage)] at hFails
      cases hTag : page.context.fragments.encode kind arguments with
      | ok tag =>
        rw [run_check hTag] at hFails
        cases hFails
      | error other =>
        rw [run_check_error hTag] at hFails
        cases hFails
        exact ⟨hPage, rfl⟩
    · obtain ⟨w₂, hTracked⟩ := run_track (p := p) tag w₁
      rw [run_map_of_ok hTracked] at hTracks
      cases hTracks

/-- An operation under a guard is the operation, unless a call is refused. -/
theorem perform_sameUnless (refusal : Fault) (guard : Guard) (depth p : Nat) (op : Operation) :
    (sameUnless refusal).holds (op.perform (prepareWhere refusal guard depth) p)
      (op.perform (prepareFrom depth) p) := by
  have hPrepares : Guards.Prepares (sameUnless refusal) (prepareWhere refusal guard depth)
      (prepareFrom depth) := prepares_sameUnless (prepareWhere_sameUnless refusal guard depth)
  cases op with
  | extend name => exact hPrepares.extend name
  | «include» name vars =>
    exact (sameUnless refusal).bind (hPrepares.includePage name vars) fun _ => hPrepares.refl _
  | _ =>
    dsimp only [Operation.perform]
    exact hPrepares.refl _

/-- Wherever the run of a body has come to, an operation on its page that fails changes nothing of
the page and its outline, whatever the other pages are that it has run; and adding a block is
refused for its kind exactly if a block of another kind is registered under its name. -/
theorem failed_operation_changes_nothing {w₁ : World} (hStart : Lodged w₁) (hCourse : Course w₁ w)
    (hPage : w.pages[p]? = some page) :
    (∀ (op : Operation) (depth : Nat) (refusal fault : Fault) (w' : World),
      ((op.perform (prepareWhere refusal (sparing page.outline) depth) p).run w).1
          ≠ .error refusal →
        (op.perform (prepareFrom depth) p).run w = (.error fault, w') →
          (op = .close → ∃ path, fault = .blockStack path .noOpenBlock) →
            w'.pages[p]? = some page
              ∧ w'.outlines[page.outline]? = w.outlines[page.outline]?)
    ∧ ∀ (o : Outline) (b : Block) (mode : ApplyMode) (prepare : Nat → SiteM Unit),
      w.outlines[page.outline]? = some o → Draft.checkName b.name = .ok () →
        ((∃ path name existing conflicting,
            (((Operation.addBlock b mode).perform prepare p).run w).1
              = .error (.blockTypeMismatch path name existing conflicting))
          ↔ Clashes o b) := by
  have hLodged : page.outline < w.outlines.size := hStart.course hCourse p page hPage
  constructor
  · intro op depth refusal fault w' hSpared hFails hClose
    have hSame := (perform_sameUnless refusal (sparing page.outline) depth p op w).resolve_left
      hSpared
    rw [hSame] at hFails
    exact unchanged_of_perform_error (Limits.Guarded.prepares (guarded_sparing _) refusal depth)
      hPage hLodged hClose hFails
  · intro o b mode prepare hOutline hName
    simp only [Operation.perform, run_discard_eq_error_iff, run_onDraft_eq hPage hOutline]
    exact addBlock_mismatch_iff hName

/-! ## Pages with an `end` too many -/

/-- A site with a page whose body is about to include another one. Two of the others close a block
that is not open: one after a block of its own, the other one after calling what it was given. -/
def workshop (vars : Bindings) : World where
  files := [
    (["v", "part"], .items [.emit (.call (.name "defer") [.literal (.text "now")] [])]),
    (["v", "broken"], .items [.emit (.call (.name "begin") [.literal (.text "list")] []),
      .emit (.call (.name "end") [] []), .emit (.call (.name "end") [] [])]),
    (["v", "caller"], .items [.emit (.call (.name "part") [] []),
      .emit (.call (.name "end") [] [])])]
  vault := { now := ⟨0⟩ }
  settings := startSettings { paths := [Path.absolute ["v"]] } .script Cache.defaultLifetime
  pages := #[{
    place := ["v", "page"]
    vars
    context := startSettings { paths := [Path.absolute ["v"]] } .script Cache.defaultLifetime
    id := "page"
    outline := 0 }]
  outlines := #[Outline.start "page"]

theorem lodged_workshop (vars : Bindings) : Lodged (workshop vars) := by
  intro p page hPage
  have hBound : p < 1 := (Array.getElem?_eq_some_iff.mp hPage).1
  obtain rfl : p = 0 := Nat.lt_one_iff.mp hBound
  cases hPage
  exact Nat.one_pos

/-- The body of the page binds variables. -/
theorem course_workshop (vars : Bindings) : Course (workshop []) (workshop vars) := by
  refine .single (b := workshop vars) ?_
  have hBinds := Step.revise (w := workshop []) 0 (f := fun page => { page with vars })
    fun _ => ⟨⟨rfl, rfl, rfl, rfl⟩, rfl, rfl, rfl⟩
  exact hBinds

/-- Whether a computation failed because no block was open. -/
def findsNoBlock : Except Fault Unit → Bool
  | .error (.blockStack _ .noOpenBlock) => true
  | _ => false

theorem exists_of_findsNoBlock {result : Except Fault Unit} (h : findsNoBlock result = true) :
    ∃ path, result = .error (.blockStack path .noOpenBlock) := by
  unfold findsNoBlock at h
  split at h
  · exact ⟨_, rfl⟩
  · cases h

/-- The included page fails after it has opened and closed a block of its own. -/
theorem include_of_broken_changes_nothing :
    ∃ path w', ((Operation.include (.text "broken") .null).perform (prepareFrom 1) 0).run
        (workshop []) = (.error (.blockStack path .noOpenBlock), w')
      ∧ w'.pages[0]? = (workshop []).pages[0]? ∧ w'.outlines[0]? = (workshop []).outlines[0]? := by
  have hFails : findsNoBlock (((Operation.include (.text "broken") .null).perform
      (prepareFrom 1) 0).run (workshop [])).1 = true := by decide +kernel
  have hSpared : findsNoBlock (((Operation.include (.text "broken") .null).perform
      (prepareWhere (.host .tooDeep) (sparing 0) 1) 0).run (workshop [])).1 = true := by
    decide +kernel
  obtain ⟨page, hPage, hOutline⟩ :
    ∃ page, (workshop []).pages[0]? = some page ∧ page.outline = 0 := ⟨_, rfl, rfl⟩
  have hKeeps := (failed_operation_changes_nothing (lodged_workshop []) .refl hPage).1
    (.include (.text "broken") .null) 1 (.host .tooDeep)
  rw [hOutline] at hKeeps
  rcases hGuarded : ((Operation.include (.text "broken") .null).perform
    (prepareWhere (.host .tooDeep) (sparing 0) 1) 0).run (workshop []) with ⟨result, w₁⟩
  rcases hRun : ((Operation.include (.text "broken") .null).perform (prepareFrom 1) 0).run
    (workshop []) with ⟨result', w'⟩
  rw [hGuarded] at hSpared hKeeps
  rw [hRun] at hFails hKeeps
  obtain ⟨path, rfl⟩ := exists_of_findsNoBlock hSpared
  obtain ⟨path', rfl⟩ := exists_of_findsNoBlock hFails
  rw [hPage]
  exact ⟨path', w', rfl, hKeeps _ w' nofun rfl nofun⟩

/-- Functions are values. The page hands an inserter of its own on to the page that it includes;
that one calls it before it fails, and so the page is marked. -/
theorem include_of_caller_marks :
    ∃ w₁ w w' page path, Lodged w₁ ∧ Course w₁ w ∧ w.pages[0]? = some page
      ∧ ((Operation.include (.text "caller") .null).perform (prepareFrom 2) 0).run w
        = (.error (.blockStack path .noOpenBlock), w')
      ∧ w'.pages[0]? ≠ some page := by
  have hFails : findsNoBlock (((Operation.include (.text "caller") .null).perform
      (prepareFrom 2) 0).run (workshop [(.text "part", .inserter 0 (.text "part"))])).1 = true := by
    decide +kernel
  have hMarked : (((Operation.include (.text "caller") .null).perform
      (prepareFrom 2) 0).run
        (workshop [(.text "part", .inserter 0 (.text "part"))])).2.pages[0]?.map Page.deferred
      = some true := by decide +kernel
  have hCourse := course_workshop [(.text "part", .inserter 0 (.text "part"))]
  obtain ⟨page, hPage, hUnmarked⟩ : ∃ page,
    (workshop [(.text "part", .inserter 0 (.text "part"))]).pages[0]? = some page
      ∧ page.deferred = false := ⟨_, rfl, rfl⟩
  generalize workshop [(.text "part", .inserter 0 (.text "part"))] = w at *
  rcases hRun : ((Operation.include (.text "caller") .null).perform (prepareFrom 2) 0).run w
    with ⟨result, w'⟩
  rw [hRun] at hFails hMarked
  obtain ⟨path, rfl⟩ := exists_of_findsNoBlock hFails
  refine ⟨_, w, w', page, path, lodged_workshop [], hCourse, hPage, hRun, fun hSame => ?_⟩
  rw [hSame, Option.map_some, hUnmarked] at hMarked
  cases hMarked

end Failing

end PageBlocks.Confinement
