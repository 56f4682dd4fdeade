import Mathlib.Data.List.Nodup
import PageBlocks.Proofs.Extending.Preparing

/-!
# Cycles of templates that extend each other

On a site whose bodies include no other page, preparing a page ends however deep it is allowed to
nest, as long as that is as deep as there are files (`limited_agree`): the pages in progress have
different files. The cycles that it reports are exactly those that it runs into (`Closes`,
`cycle_prepare`): some body calls for the template of a page in progress, its own or that of one in
whose preparation it is nested. What is reported are the templates of the pages in progress,
outermost first, and the repeated one behind them.
-/

set_option autoImplicit false

namespace PageBlocks.Extending

open PageBlocks.Body PageBlocks.Progress PageBlocks.Running PageBlocks.Site PageBlocks.Upkeep

/-! ## Calls that extend -/

/-- A call by which the body of a page extends the page by the template of a name. -/
def Moment.Extends (m : Moment) (p : Nat) (name : Value) : Prop :=
  ∃ s page, m.callee = .directive p s ∧ m.site.pages[p]? = some page
    ∧ page.context.directives.get? s = some .extendPage
    ∧ bindArguments (parameters .extendPage) m.arguments (Table.ofBindings m.named) = .ok [name]

section Calls

variable {directives : Table String Directive} {w : World} {p : Nat} {page : Page}
  {prepare prepare' prepare₁ prepare₂ : Nat → SiteM Unit} {m : Moment} {name : Value}

/-- A call that extends a page does so. -/
theorem outcome_of_extends (h : m.Extends p name) :
    m.outcome (handlerOf prepare p page) = (do
      extend prepare p name
      return done : SiteM Value).run m.site := by
  obtain ⟨s, found, hCallee, hFound, hDirective, hBound⟩ := h
  have hCall : m.outcome (handlerOf prepare p page)
      = (call prepare m.callee m.arguments m.named).run m.site := rfl
  rw [hCall, hCallee, run_call_directive hFound hDirective]
  show (do
    let values ← check (bindArguments (parameters .extendPage) m.arguments
      (Table.ofBindings m.named))
    carryOut prepare p .extendPage values : SiteM Value).run m.site = _
  rw [run_bind_of_ok (run_check hBound m.site)]
  rfl

theorem cycle_outcome (h : m.Extends p name) :
    cycleOf (m.outcome (handlerOf prepare p page)).1
      = cycleOf ((extend prepare p name).run m.site).1 := by
  rw [outcome_of_extends h, run_bind]
  rcases (extend prepare p name).run m.site with ⟨fault | a, w'⟩
  · exact cycleOf_error fault
  · rfl

/-- Every other call prepares no page and reports no cycle. -/
theorem extends_or_stays
    (h : (watch directives (rules directives) w p page prepare₁ prepare₂).Proper m) :
    (∃ name, m.Extends p name)
      ∨ m.outcome (handlerOf prepare p page) = m.outcome (handlerOf prepare' p page)
        ∧ cycleOf (m.outcome (handlerOf prepare p page)).1 = none := by
  have hKept : Kept (terms directives) w m.site := h.holds
  have hCall : ∀ prepare, m.outcome (handlerOf prepare p page)
      = (call prepare m.callee m.arguments m.named).run m.site := fun _ => rfl
  rw [hCall, hCall]
  rcases h.callee with hCallee | ⟨s, ⟨directive, hDirective, hByName⟩, hCallee⟩
  · have hHarmless : m.callee.isHarmless directives = true := hCallee
    exact .inr (call_of_isHarmless hKept hHarmless _ _)
  · have hCalled : m.callee = .directive p s := hCallee
    rw [hCalled]
    cases hFound : m.site.pages[p]? with
    | none =>
      have hFails : ∀ prepare : Nat → SiteM Unit,
          (call prepare (.directive p s) m.arguments m.named).run m.site
            = (.error unknownNumber, m.site) :=
        fun prepare => run_bind_of_error (run_page_error hFound) _
      rw [hFails, hFails]
      exact .inr ⟨rfl, rfl⟩
    | some found =>
      have hContext : found.context.directives = directives :=
        (hKept.pages p found hFound).context
      have hKnown : found.context.directives.get? s = some directive := hContext ▸ hDirective
      rw [run_call_directive hFound hKnown, run_call_directive hFound hKnown]
      cases directive with
      | currentName =>
        have hHome : staysHome .currentName = true := rfl
        rw [callDirective_congr hHome]
        exact .inr ⟨rfl, spares_callDirective rfl _ _ m.site⟩
      | extendPage =>
        cases hBound : bindArguments (parameters .extendPage) m.arguments
            (Table.ofBindings m.named) with
        | error fault =>
          have hFails : ∀ prepare : Nat → SiteM Unit,
              (callDirective prepare p .extendPage m.arguments (Table.ofBindings m.named)).run
              m.site
                = (.error fault, m.site) :=
            fun prepare => run_bind_of_error (run_check_error hBound m.site) _
          have hNone := cycleOf_bindArguments (parameters .extendPage) m.arguments
            (Table.ofBindings m.named)
          rw [hBound] at hNone
          rw [hFails, hFails]
          exact .inr ⟨rfl, (cycleOf_error fault).trans hNone⟩
        | ok values =>
          have hLength := (forall_mem_bindArguments (P := fun _ => True) (fun _ _ _ _ => trivial)
            (fun _ _ => trivial) (fun _ _ => trivial) hBound).1
          obtain ⟨name, rfl⟩ := List.length_eq_one_iff.mp hLength
          exact .inl ⟨name, s, found, hCalled, hFound, hKnown, hBound⟩
      | _ => cases hByName

end Calls

/-! ## Pages in progress -/

section Progress

variable {directives : Table String Directive} {w w' : World} {p : Nat} {page : Page}

/-- A page in progress stays what it is. -/
theorem InProgress.later (h : InProgress directives w p page)
    (hKept : Kept (terms directives) w w') :
    ∃ page', InProgress directives w' p page' ∧ page'.chain = page.chain
      ∧ page'.place = page.place := by
  obtain ⟨page', hFound, hSame⟩ := hKept.course.same h.found
  refine ⟨page', ⟨hKept.now, hFound, ?_⟩, hSame.chain, hSame.place⟩
  rw [hKept.course.files]
  exact h.lined.same hSame

end Progress

/-! ## Preparing ends -/

section Ends

variable {directives : Table String Directive} {w : World} {p : Nat} {page : Page}
  {prepare prepare' : Nat → SiteM Unit}

/-- Two ways of preparing pages run a body alike if they prepare alike whatever page it extends. -/
theorem run_runBody_congr (hReady : Ready directives w p page)
    (hPrepare : Prepares (terms directives) prepare)
    (hAlike : ∀ w' b base, Ready directives w' b base →
      base.chain = page.chain ++ [page.place] → w'.files = w.files →
        (prepare' b).run w' = (prepare b).run w') :
    (runBody prepare' p).run w = (runBody prepare p).run w := by
  obtain ⟨calls, hTold⟩ := told_runBody hReady.kept hReady.found hReady.closed hPrepare prepare'
  refine hTold.agree fun m hMem => ?_
  have hProper := hTold.proper m hMem
  have hKept : Kept (terms directives) w m.site := hProper.holds
  show m.outcome (handlerOf prepare' p page) = m.outcome (handlerOf prepare p page)
  rcases extends_or_stays hProper with ⟨name, hExtends⟩ | ⟨hSame, -⟩
  · rw [outcome_of_extends hExtends, outcome_of_extends hExtends, run_bind, run_bind]
    obtain ⟨now, hNow, hChain, hPlace⟩ := hReady.toInProgress.later hKept
    rw [extend_congr hNow.found fun place b w' hPlaced hNew hBase => ?_]
    obtain ⟨base, hNext, hNextChain, hFiles⟩ := hNow.base hPlaced hNew hBase
    refine hAlike w' b base hNext ?_ (hFiles.trans hKept.course.files)
    rw [hNextChain, hChain, hPlace]
  · exact hSame

/-- How deep preparing pages may nest does not matter, nor what happens beyond that, as long as it
is as deep as there are files. -/
theorem limited_agree {fault fault' : Fault} {levels levels' : Nat}
    (hReady : Ready directives w p page)
    (hLevels : w.files.length ≤ page.chain.length + levels)
    (hLevels' : w.files.length ≤ page.chain.length + levels') :
    (limited fault' levels' p).run w = (limited fault levels p).run w := by
  have hLess := hReady.lined.length_lt
  induction levels generalizing levels' w p page with
  | zero => omega
  | succ levels ih =>
    cases levels' with
    | zero => omega
    | succ levels' =>
      refine run_runBody_congr hReady (prepares_limited fault levels) ?_
      intro w' b base hNext hChain hFiles
      have hLength : base.chain.length = page.chain.length + 1 := by
        rw [hChain, List.length_append, List.length_singleton]
      have hCount : w'.files.length = w.files.length := by rw [hFiles]
      exact ih hNext (by omega) (by omega) hNext.lined.length_lt

theorem prepare_eq_limited {fault : Fault} {levels : Nat} (hReady : Ready directives w p page)
    (hLevels : w.files.length ≤ page.chain.length + levels) :
    (Site.prepare p).run w = (limited fault levels p).run w := by
  rw [run_prepare]
  exact limited_agree hReady hLevels (by unfold depthLimit; omega)

/-- Preparing a page runs its body, and the pages that the body extends are prepared the same
way. -/
theorem prepare_eq_runBody (hReady : Ready directives w p page) :
    (Site.prepare p).run w = (runBody Site.prepare p).run w := by
  have hLimited : (Site.prepare p).run w
      = (limited (.host .tooDeep) (w.files.length + 1) p).run w :=
    prepare_eq_limited hReady (by omega)
  rw [hLimited]
  refine run_runBody_congr hReady prepares_prepare fun w' b base hNext _ hFiles => ?_
  have hCount : w'.files.length = w.files.length := by rw [hFiles]
  exact (prepare_eq_limited hNext (by omega)).symm

end Ends

/-! ## Cycles -/

/-- Preparing a page runs into a cycle: the page's body extends it by the template of a page in
progress, its own or one in whose preparation it is nested, or by that of another page with which
this happens. The lists are the places of the pages in progress around this one and of those in
progress in the end, outermost first, and the last place is the repeated one. -/
inductive Closes : List Place → World → Nat → List Place → Place → Prop
  | own {outer : List Place} {w : World} {p : Nat} {m : Moment} {name : Value} {page : Page}
      {place : Place} (hCall : m ∈ callsOf p w) (hExtends : m.Extends p name)
      (hPage : m.site.pages[p]? = some page) (hPlace : placeFor m.site page name = .ok place)
      (hRepeated : place ∈ outer ++ [page.place]) :
    Closes outer w p (outer ++ [page.place]) place
  | nested {outer inner : List Place} {w w' : World} {p b : Nat} {m : Moment} {name : Value}
      {page : Page} {place repeated : Place} (hCall : m ∈ callsOf p w)
      (hExtends : m.Extends p name) (hPage : m.site.pages[p]? = some page)
      (hPlace : placeFor m.site page name = .ok place) (hNew : place ∉ outer ++ [page.place])
      (hBase : (baseFor page place).run m.site = (.ok b, w'))
      (hCloses : Closes (outer ++ [page.place]) w' b inner repeated) :
    Closes outer w p inner repeated

/-- The texts of a chain of places. -/
def chainTexts (places : List Place) : List String :=
  places.map fun place => (Path.absolute place).print

section Cycles

variable {directives : Table String Directive} {w : World} {p : Nat} {page : Page}

/-- What the record of a page's body tells while the page is prepared. -/
theorem told_callsOf (hReady : Ready directives w p page) :
    Told (watch directives (rules directives) w p page Site.prepare Site.prepare)
      (runBody Site.prepare p) (runBody Site.prepare p) (recordedBody Site.prepare p)
      (fun _ w' => True ∧ Kept (terms directives) w w') w (callsOf p w) := by
  obtain ⟨calls, hTold⟩ := told_runBody hReady.kept hReady.found hReady.closed prepares_prepare
    Site.prepare
  have hCalls : callsOf p w = calls := by
    unfold callsOf
    rw [hTold.recorded]
    rfl
  rw [hCalls]
  exact hTold

/-- Preparing a page reports a cycle if and only if one of the calls that extend it does. -/
theorem cycle_prepare_iff (hReady : Ready directives w p page) (texts : List String) :
    cycleOf ((Site.prepare p).run w).1 = some texts
      ↔ ∃ m ∈ callsOf p w, ∃ name, m.Extends p name
        ∧ cycleOf ((extend Site.prepare p name).run m.site).1 = some texts := by
  have hTold := told_callsOf hReady
  rw [prepare_eq_runBody hReady, hTold.cycle texts]
  constructor
  · rintro ⟨m, hMem, hCycle⟩
    have hOutcome : cycleOf (m.outcome (handlerOf Site.prepare p page)).1 = some texts := hCycle
    rcases @extends_or_stays _ _ _ _ _ Site.prepare _ _ _ (hTold.proper m hMem) with
      ⟨name, hExtends⟩ | ⟨-, hNone⟩
    · exact ⟨m, hMem, name, hExtends, (cycle_outcome hExtends).symm.trans hOutcome⟩
    · rw [hNone] at hOutcome
      cases hOutcome
  · rintro ⟨m, hMem, name, hExtends, hCycle⟩
    exact ⟨m, hMem, (cycle_outcome hExtends).trans hCycle⟩

/-- At the moment of a call of its body a page is in progress as it was. -/
theorem inProgress_of_mem_callsOf {m : Moment} (hReady : Ready directives w p page)
    (hMem : m ∈ callsOf p w) :
    ∃ now, InProgress directives m.site p now ∧ now.chain = page.chain ∧ now.place = page.place
      ∧ m.site.files = w.files := by
  have hKept : Kept (terms directives) w m.site := ((told_callsOf hReady).proper m hMem).holds
  obtain ⟨now, hNow, hChain, hPlace⟩ := hReady.later hKept
  exact ⟨now, hNow, hChain, hPlace, hKept.course.files⟩

/-- Preparing a page reports exactly the cycles that it runs into. -/
theorem cycle_prepare (hReady : Ready directives w p page) (texts : List String) :
    cycleOf ((Site.prepare p).run w).1 = some texts
      ↔ ∃ inProgress repeated, Closes page.chain w p inProgress repeated
        ∧ texts = chainTexts (inProgress ++ [repeated]) := by
  -- the files that are not in progress yet get fewer
  obtain ⟨left, hLeft⟩ : ∃ left, w.files.length = page.chain.length + left :=
    ⟨_, (Nat.add_sub_cancel' hReady.lined.length_lt.le).symm⟩
  induction left generalizing w p page with
  | zero => exact absurd hReady.lined.length_lt (by omega)
  | succ left ih =>
    have hNested :
        ∀ {m : Moment} {place : Place} {b : Nat} {w' : World} {name : Value} {now : Page},
        InProgress directives m.site p now → now.chain = page.chain → m.site.files = w.files →
          placeFor m.site now name = .ok place → place ∉ now.chain ++ [now.place] →
            (baseFor now place).run m.site = (.ok b, w') →
              (cycleOf ((Site.prepare b).run w').1 = some texts ↔ ∃ inProgress repeated,
                Closes (now.chain ++ [now.place]) w' b inProgress repeated
                  ∧ texts = chainTexts (inProgress ++ [repeated])) := by
      intro m place b w' name now hNow hChain hFiles hPlace hNew hBase
      obtain ⟨base, hNext, hNextChain, hSame⟩ := hNow.base hPlace hNew hBase
      have hCount : w'.files.length = base.chain.length + left := by
        rw [hSame, hFiles, hNextChain, hChain, List.length_append, List.length_singleton]
        omega
      rw [← hNextChain]
      exact ih hNext hCount
    rw [cycle_prepare_iff hReady]
    constructor
    · rintro ⟨m, hMem, name, hExtends, hCycle⟩
      obtain ⟨now, hNow, hChain, -, hFiles⟩ := inProgress_of_mem_callsOf hReady hMem
      obtain ⟨place, hPlace, ⟨hRepeated, hTexts⟩ | ⟨hNew, b, w', hBase, hInner⟩⟩ :=
        (cycle_extend hNow.found texts).mp hCycle
      · rw [← hChain]
        exact ⟨_, place, .own hMem hExtends hNow.found hPlace hRepeated, hTexts⟩
      · obtain ⟨inProgress, repeated, hCloses, hTexts⟩ :=
          (hNested hNow hChain hFiles hPlace hNew hBase).mp hInner
        rw [← hChain]
        exact ⟨inProgress, repeated, .nested hMem hExtends hNow.found hPlace hNew hBase hCloses,
          hTexts⟩
    · rintro ⟨inProgress, repeated, hCloses, hTexts⟩
      cases hCloses with
      | @own _ _ _ m name found _ hMem hExtends hFound hPlace hRepeated =>
        obtain ⟨now, hNow, hChain, -, -⟩ := inProgress_of_mem_callsOf hReady hMem
        obtain rfl : now = found := Option.some.inj (hNow.found.symm.trans hFound)
        rw [← hChain] at hRepeated hTexts
        exact ⟨m, hMem, name, hExtends, (cycle_extend hNow.found texts).mpr
          ⟨_, hPlace, .inl ⟨hRepeated, hTexts⟩⟩⟩
      | @nested _ _ _ w' _ b m name found _ _ hMem hExtends hFound hPlace hNew hBase hInner =>
        obtain ⟨now, hNow, hChain, -, hFiles⟩ := inProgress_of_mem_callsOf hReady hMem
        obtain rfl : now = found := Option.some.inj (hNow.found.symm.trans hFound)
        rw [← hChain] at hNew hInner
        have hCycle := (hNested hNow hChain hFiles hPlace hNew hBase).mpr
          ⟨inProgress, repeated, hInner, hTexts⟩
        exact ⟨m, hMem, name, hExtends, (cycle_extend hNow.found texts).mpr
          ⟨_, hPlace, .inr ⟨hNew, b, w', hBase, hCycle⟩⟩⟩

/-- The pages in progress in the end have different files, and the repeated one is among them. -/
theorem Closes.nodup {inProgress : List Place} {repeated : Place}
    (hReady : Ready directives w p page) (h : Closes page.chain w p inProgress repeated) :
    inProgress.Nodup ∧ repeated ∈ inProgress
      ∧ ∀ place ∈ inProgress, w.files.isFileAt place = true := by
  generalize hOuter : page.chain = outer at h
  induction h generalizing page with
  | own hMem hExtends hFound hPlace hRepeated =>
    obtain ⟨now, hNow, hChain, -, hFiles⟩ := inProgress_of_mem_callsOf hReady hMem
    cases Option.some.inj (hNow.found.symm.trans hFound)
    rw [← hOuter, ← hChain] at hRepeated ⊢
    rw [← hFiles]
    exact ⟨hNow.lined.nodup, hRepeated, hNow.lined.exist⟩
  | nested hMem hExtends hFound hPlace hNew hBase hInner ih =>
    obtain ⟨now, hNow, hChain, -, hFiles⟩ := inProgress_of_mem_callsOf hReady hMem
    cases Option.some.inj (hNow.found.symm.trans hFound)
    rw [← hOuter, ← hChain] at hNew
    obtain ⟨base, hNext, hNextChain, hSame⟩ := hNow.base hPlace hNew hBase
    obtain ⟨hNodup, hRepeated, hExist⟩ := ih hNext (by rw [hNextChain, hChain, hOuter])
    refine ⟨hNodup, hRepeated, fun place hPlaced => ?_⟩
    rw [← hFiles, ← hSame]
    exact hExist place hPlaced

end Cycles

/-! ## Names of files -/

/-- A place that a path can name: no component holds a slash. -/
def IsNamed (place : Place) : Prop := place ≠ [] ∧ ∀ part ∈ place, '/' ∉ part.toList

/-- The texts of named places can be told apart. -/
theorem print_absolute_injective {place place' : Place} (h : IsNamed place) (h' : IsNamed place')
    (hPrint : (Path.absolute place).print = (Path.absolute place').print) : place = place' := by
  have hText : ∀ place : Place, (Path.absolute place).print = "/" ++ "/".intercalate place := by
    intro place
    cases place <;> rfl
  have hSplit : ∀ {place : Place}, IsNamed place →
      ("/".intercalate place).toList.splitOn '/' = place.map String.toList := by
    intro place hNamed
    rw [String.toList_intercalate]
    refine List.splitOn_intercalate '/' (fun part hMem => ?_) fun hNil => ?_
    · obtain ⟨name, hName, rfl⟩ := List.mem_map.mp hMem
      exact hNamed.2 name hName
    · exact hNamed.1 (List.map_eq_nil_iff.mp hNil)
  have hSame : "/".intercalate place = "/".intercalate place' := by
    simpa [hText] using hPrint
  have hParts := hSplit h
  rw [hSame, hSplit h'] at hParts
  exact (List.map_injective_iff.mpr (fun _ _ hPart => String.toList_inj.mp hPart) hParts).symm

/-- The texts of different named places are different. -/
theorem nodup_chainTexts {places : List Place} (hNodup : places.Nodup)
    (hNamed : ∀ place ∈ places, IsNamed place) : (chainTexts places).Nodup := by
  unfold chainTexts
  refine List.Nodup.map_on (fun place hMem place' hMem' hPrint => ?_) hNodup
  exact print_absolute_injective (hNamed place hMem) (hNamed place' hMem') hPrint

/-! ## Sites whose templates extend each other -/

/-- A site whose bodies include no other page, with files that paths can name. The pages that were
made so far keep to that, and were nested in the preparation of pages with other files. -/
structure OnlyExtends (directives : Table String Directive) (w : World) : Prop where
  bodies : ∀ place items, bodyAt w.files place = .ok items →
    Item.allKeep (rules directives) items = true
  named : ∀ place ∈ w.files.keys, IsNamed place
  pages : ∀ (p : Nat) (page : Page), w.pages[p]? = some page →
    Suits (terms directives) w.outlines page ∧ Lined w.files page

section Sites

variable {directives : Table String Directive} {w w' w₁ : World} {p : Nat} {place : Place}
  {vars : Bindings} {context : Context}

/-- A step nests no page in the preparation of one with the same file. -/
theorem Step.lined (h : Step w w')
    (hLined : ∀ (p : Nat) (page : Page), w.pages[p]? = some page → Lined w.files page) :
    ∀ (p : Nat) (page : Page), w'.pages[p]? = some page → Lined w'.files page := by
  rw [h.files]
  have hModified : ∀ {f : Page → Page} (q : Nat), (∀ page, SamePage page (f page)) →
      ∀ (p : Nat) (page : Page), (w.pages.modify q f)[p]? = some page → Lined w.files page := by
    intro f q hSame p page hPage
    rw [Array.getElem?_modify] at hPage
    split at hPage
    · obtain ⟨old, hOld, rfl⟩ := Option.map_eq_some_iff.mp hPage
      exact (hLined p old hOld).same (hSame old)
    · exact hLined p page hPage
  cases h with
  | aside _ hPages _ =>
    rw [hPages]
    exact hLined
  | revise q hSame => exact hModified q fun page => (hSame page).toSamePage
  | draft _ _ _ => exact hModified _ fun _ => ⟨rfl, rfl, rfl, rfl⟩
  | adopt q _ hAdopts => exact hModified q fun page => (hAdopts page).toSamePage
  | @push q parent new hParent hMade owner =>
    intro p page hPage
    rw [Array.getElem?_push] at hPage
    split at hPage
    · cases hPage
      rcases hMade.chain with hAlone | ⟨hChain, hOther⟩
      · exact lined_of_chain_nil hAlone hMade.file
      · exact (hLined q parent hParent).extended hChain hOther hMade.file
    · exact hLined p page hPage

theorem Course.lined (h : Course w w')
    (hLined : ∀ (p : Nat) (page : Page), w.pages[p]? = some page → Lined w.files page) :
    ∀ (p : Nat) (page : Page), w'.pages[p]? = some page → Lined w'.files page := by
  induction h with
  | refl => exact hLined
  | tail _ hStep ih => exact Step.lined hStep ih

/-- A page that is made for a template is to be prepared. -/
theorem OnlyExtends.ready (hSite : OnlyExtends directives w)
    (hContext : context.directives = directives)
    (hVars : BindingsFit (Value.isHarmless directives) vars) (hFile : w.files.isFileAt place = true)
    (hNew : (newPage place vars context []).run w = (.ok p, w₁)) :
    ∃ page, Ready directives w₁ p page ∧ page.chain = [] ∧ w₁.files = w.files
      ∧ ∀ (q : Nat) (page : Page), w₁.pages[q]? = some page → Lined w₁.files page := by
  obtain ⟨id, -, rfl, rfl⟩ := run_newPage_eq_ok hNew
  have hSize : w.outlines.size < (w.outlines.push (Outline.start id)).size := by
    rw [Array.size_push]
    exact Nat.lt_succ_self _
  have hPages : ∀ (q : Nat) (page : Page), (w.pages.push
      { place, vars, context, id, outline := w.outlines.size })[q]? = some page →
        Suits (terms directives) (w.outlines.push (Outline.start id)) page
          ∧ Lined w.files page := by
    intro q page hPage
    rw [Array.getElem?_push] at hPage
    split at hPage
    · cases hPage
      exact ⟨⟨hContext, hVars, hSize⟩, lined_of_chain_nil rfl hFile⟩
    · obtain ⟨hSuits, hLined⟩ := hSite.pages q page hPage
      exact ⟨hSuits.mono (Nat.le_of_lt hSize), hLined⟩
  refine ⟨_, ⟨⟨?_, Array.getElem?_push_size, lined_of_chain_nil rfl hFile⟩, rfl⟩, rfl, rfl,
    fun q page hPage => (hPages q page hPage).2⟩
  exact Kept.refl hSite.bodies fun q page hPage => (hPages q page hPage).1

/-- Preparing a page of a site whose bodies extend templates and include none, in loops or branches
and by whatever names, comes to an end: going as deep as there are files is enough, however that is
limited and whatever would happen beyond it, and every page that was made is nested in the
preparation of fewer pages than there are files. Preparing the page or rendering it fails with a
cycle if and only if it runs into one, and the chain of the cycle names the templates in progress,
outermost first and each of them once, followed by the repeated one. -/
theorem preparing_ends_and_reports_cycles (hSite : OnlyExtends directives w)
    (hContext : context.directives = directives)
    (hVars : BindingsFit (Value.isHarmless directives) vars)
    (hFile : w.files.isFileAt place = true)
    (hNew : (newPage place vars context []).run w = (.ok p, w₁)) :
    (∀ fault levels, w.files.length ≤ levels →
        (Site.prepare p).run w₁ = (limited fault levels p).run w₁)
      ∧ (∀ (q : Nat) (page : Page), ((Site.prepare p).run w₁).2.pages[q]? = some page →
        page.chain.length < w.files.length)
      ∧ (∀ texts, cycleOf ((Site.prepare p).run w₁).1 = some texts
        ↔ ∃ inProgress repeated, Closes [] w₁ p inProgress repeated
          ∧ texts = chainTexts (inProgress ++ [repeated]))
      ∧ (∀ texts, cycleOf ((renderPage Site.prepare p).run w₁).1 = some texts
        ↔ cycleOf ((Site.prepare p).run w₁).1 = some texts)
      ∧ ∀ inProgress repeated, Closes [] w₁ p inProgress repeated →
        repeated ∈ inProgress ∧ (chainTexts inProgress).Nodup := by
  obtain ⟨page, hReady, hChain, hFiles, hLined⟩ := hSite.ready hContext hVars hFile hNew
  refine ⟨fun fault levels hLevels => ?_, fun q found hFound => ?_, fun texts => ?_,
    fun texts => ?_,
    fun inProgress repeated hCloses => ?_⟩
  · refine prepare_eq_limited hReady ?_
    rw [hFiles, hChain]
    exact hLevels.trans (Nat.le_add_left _ _)
  · have hEnds := prepares_prepare w₁ w₁ p hReady.kept ⟨page, hReady.found, hReady.closed⟩
    have hCourse : Course w₁ ((Site.prepare p).run w₁).2 := by
      rcases hRun : (Site.prepare p).run w₁ with ⟨fault | a, w'⟩
      · exact (hEnds.of_run_error hRun).course
      · exact (hEnds.of_run hRun).course
    have hLength := (Course.lined hCourse hLined q found hFound).length_lt
    rwa [hCourse.files, hFiles] at hLength
  · have hCycle := cycle_prepare hReady texts
    rwa [hChain] at hCycle
  · -- what is rendered after preparing reports no cycle
    have hSame : cycleOf ((renderPage Site.prepare p).run w₁).1
        = cycleOf ((Site.prepare p).run w₁).1 := by
      unfold renderPage
      rw [run_bind]
      rcases (Site.prepare p).run w₁ with ⟨fault | a, w'⟩
      · exact cycleOf_error fault
      · exact spares_renderBlock p _ w'
    rw [hSame]
  · rw [← hChain] at hCloses
    obtain ⟨hNodup, hRepeated, hExist⟩ := hCloses.nodup hReady
    refine ⟨hRepeated, nodup_chainTexts hNodup fun place hMem => ?_⟩
    refine hSite.named place (mem_keys_of_isFileAt ?_)
    rw [← hFiles]
    exact hExist place hMem

/-- A site of three templates: the first one extends the second, which extends the third by a name
of a namespace, which extends the second by a way around. -/
def ring : World where
  files := [
    (["v", "a"], .items [.text "A", .emit (.call (.name "extend") [.literal (.text "b")] [])]),
    (["v", "b"], .items [.emit (.call (.name "begin") [.literal (.text "main")] []),
      .emit (.call (.name "extend") [.literal (.text "parts:c")] [])]),
    (["w", "c"], .items [.emit (.call (.name "extend") [.literal (.text "../v/b")] [])])]
  vault := { now := ⟨0⟩ }
  settings := startSettings
    { paths := [Path.absolute ["v"]], namespaces := [("parts", [Path.absolute ["w"]])] }
    .script Cache.defaultLifetime

theorem onlyExtends_of_all (hPages : w.pages = #[])
    (h : (w.files.all fun file => match file.2 with
      | .items items => Item.allKeep (rules directives) items
      | .text _ => false) = true)
    (hNamed : (w.files.all fun file =>
      !file.1.isEmpty && file.1.all fun part => !part.toList.contains '/') = true) :
    OnlyExtends directives w := by
  refine ⟨fun place items hItems => ?_, fun place hMem => ?_, fun p page hPage => ?_⟩
  · unfold bodyAt at hItems
    split at hItems
    · rename_i found hFound
      cases hItems
      exact List.all_eq_true.mp h _ (Table.mem_of_get?_eq_some hFound)
    · rename_i s hFound
      have hText := List.all_eq_true.mp h _ (Table.mem_of_get?_eq_some hFound)
      cases hText
    · cases hItems
  · obtain ⟨file, hFile, rfl⟩ := List.mem_map.mp hMem
    have hOne := List.all_eq_true.mp hNamed file hFile
    simp only [Bool.and_eq_true, Bool.not_eq_true', List.isEmpty_eq_false_iff, List.all_eq_true,
      List.contains_eq_mem, decide_eq_false_iff_not] at hOne
    exact hOne
  · rw [hPages] at hPage
    cases hPage

/-- The cycle of that site, which the page that is asked for is not part of. -/
theorem ring_reports_its_cycle :
    ∃ w₁, (newPage ["v", "a"] [] ring.settings []).run ring = (.ok 0, w₁)
      ∧ cycleOf ((Site.prepare 0).run w₁).1 = some ["/v/a", "/v/b", "/w/c", "/v/b"]
      ∧ (∀ fault levels, ring.files.length ≤ levels →
          (Site.prepare 0).run w₁ = (limited fault levels 0).run w₁)
      ∧ (∀ (q : Nat) (page : Page), ((Site.prepare 0).run w₁).2.pages[q]? = some page →
          page.chain.length < ring.files.length)
      ∧ (∀ texts, cycleOf ((Site.prepare 0).run w₁).1 = some texts
          ↔ ∃ inProgress repeated, Closes [] w₁ 0 inProgress repeated
            ∧ texts = chainTexts (inProgress ++ [repeated]))
      ∧ (∀ texts, cycleOf ((renderPage Site.prepare 0).run w₁).1 = some texts
          ↔ cycleOf ((Site.prepare 0).run w₁).1 = some texts)
      ∧ ∀ inProgress repeated, Closes [] w₁ 0 inProgress repeated →
          repeated ∈ inProgress ∧ (chainTexts inProgress).Nodup := by
  have hSite : OnlyExtends Directive.builtIn ring :=
    onlyExtends_of_all rfl (by decide +kernel) (by decide +kernel)
  have hMade : ((newPage ["v", "a"] [] ring.settings []).run ring).1.toOption = some 0 := by
    decide +kernel
  have hCycle : cycleOf ((Site.prepare 0).run
      ((newPage ["v", "a"] [] ring.settings []).run ring).2).1
        = some ["/v/a", "/v/b", "/w/c", "/v/b"] := by decide +kernel
  rcases hNew : (newPage ["v", "a"] [] ring.settings []).run ring with ⟨fault | p, w₁⟩
  · rw [hNew] at hMade
    cases hMade
  · rw [hNew] at hMade hCycle
    obtain rfl : p = 0 := Option.some.inj hMade
    exact ⟨w₁, rfl, hCycle, preparing_ends_and_reports_cycles hSite rfl bindingsFit_nil rfl hNew⟩

end Sites

end PageBlocks.Extending
