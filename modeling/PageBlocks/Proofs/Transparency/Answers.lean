import PageBlocks.Proofs.Policy.Histories
import PageBlocks.Proofs.Transparency.Calls
import PageBlocks.Proofs.Transparency.Sources

/-!
# What a page gives

What the body of a page gives depends on the files, the settings, the template, the variables and
the extra search directories, and on nothing that happened before (`run_originAnew`): it is what the
first page of the site gives (`drawn`). Fragments are computed alike on two sites that differ in
their caches and pages only (`inStep_resolve`).
-/

set_option autoImplicit false

namespace PageBlocks.Transparency

open PageBlocks.Body PageBlocks.Cache PageBlocks.Deferral PageBlocks.Policy PageBlocks.Running
  PageBlocks.Site PageBlocks.Storage PageBlocks.Upkeep

/-! ## Two sites -/

/-- A site, and another one that differs from it in the pages and in what is cached, and has no
cache. -/
structure Twin (w u : World) : Prop where
  files : u.files = w.files
  globals : u.globals = w.globals
  settings : u.settings = { w.settings with cache := none }
  now : u.vault.now = w.vault.now
  responses : u.responses = w.responses
  counters : u.counters = w.counters

/-! ## Fragments -/

section Fragments

theorem inStep_count (counter : Nat) : InStep Twin id (count counter) (count counter) := by
  unfold count
  refine inStep_get_bind fun w u hTwin => ?_
  rw [hTwin.counters]
  exact ends_set_bind (ends_pure ⟨_, rfl,
    ⟨hTwin.files, hTwin.globals, hTwin.settings, hTwin.now, hTwin.responses, rfl⟩⟩)

theorem inStep_nextResponse (url : String) :
    InStep Twin id (nextResponse url) (nextResponse url) := by
  unfold nextResponse
  refine InStep.bind (g := id) (inStep_modify fun w u hTwin => ?_) fun _ => ?_
  · exact ⟨hTwin.files, hTwin.globals, hTwin.settings, hTwin.now, hTwin.responses, hTwin.counters⟩
  refine inStep_get_bind fun w u hTwin => ?_
  rw [hTwin.responses]
  match w.responses.get? url with
  | none => exact ends_throw ⟨_, _, rfl, hTwin⟩
  | some [] => exact ends_throw ⟨_, _, rfl, hTwin⟩
  | some [last] => exact ends_pure ⟨_, rfl, hTwin⟩
  | some (next :: more :: rest) =>
    exact ends_set_bind (ends_pure ⟨_, rfl,
      ⟨hTwin.files, hTwin.globals, hTwin.settings, hTwin.now, rfl, hTwin.counters⟩⟩)

theorem inStep_fetchFrom (redirects : Nat) (address : Address) :
    InStep Twin id (fetchFrom redirects address) (fetchFrom redirects address) := by
  induction redirects generalizing address with
  | zero => exact inStep_throw _ _
  | succ more ih =>
    unfold fetchFrom
    refine (inStep_nextResponse _).bind fun response => ?_
    dsimp only [id_eq]
    split
    · exact inStep_check_bind fun target => ih target
    · split
      · exact inStep_pure rfl
      · exact inStep_throw _ _

theorem inStep_fetch (url : Value) : InStep Twin id (fetch url) (fetch url) := by
  unfold fetch
  split
  · split
    · exact inStep_fetchFrom _ _
    · exact inStep_throw _ _
  · exact inStep_throw _ _

theorem inStep_now : InStep Twin id surroundings.now surroundings.now :=
  inStep_get_bind fun _ u hTwin => ends_pure ⟨u, by rw [hTwin.now]; rfl, hTwin⟩

theorem inStep_timeIn (format : String) :
    InStep Twin id (Fragment.timeIn surroundings format : SiteM Value)
      (Fragment.timeIn surroundings format) := by
  unfold Fragment.timeIn
  split
  · exact inStep_throw _ _
  · exact inStep_now.bind fun now => inStep_pure rfl

theorem inStep_variableOr (vars : Bindings) (name default : Value) :
    InStep Twin id (Fragment.variableOr vars name default : SiteM Value)
      (Fragment.variableOr vars name default) := by
  unfold Fragment.variableOr
  split
  · exact inStep_pure rfl
  · exact inStep_throw _ _

theorem inStep_alone (arguments : List Value) {x y : SiteM Value} (h : InStep Twin id x y) :
    InStep Twin id (Fragment.alone arguments x) (Fragment.alone arguments y) := by
  unfold Fragment.alone
  split
  · exact h
  · exact inStep_throw _ _

theorem inStep_compute (request : Bindings) (arguments : List Value) (kind : Fragment.Kind) :
    InStep Twin id (kind.compute surroundings request arguments : SiteM Value)
      (kind.compute surroundings request arguments) := by
  cases kind with
  | binding =>
    match arguments with
    | [name] => exact inStep_variableOr _ _ _
    | [name, default] => exact inStep_variableOr _ _ _
    | [] | _ :: _ :: _ :: _ => exact inStep_throw _ _
  | clock =>
    unfold Fragment.Kind.compute
    dsimp only
    split
    · exact inStep_timeIn _
    · exact inStep_timeIn _
    · exact inStep_throw _ _
  | fetch =>
    match arguments with
    | [url] => exact (inStep_fetch url).map fun _ => rfl
    | [] | _ :: _ :: _ => exact inStep_throw _ _
  | constant value => exact inStep_alone arguments (inStep_pure rfl)
  | nothing => exact inStep_alone arguments (inStep_pure rfl)
  | joined => exact inStep_pure rfl
  | counter number =>
    exact inStep_alone arguments ((inStep_count number).bind fun n => inStep_pure rfl)
  | arguments => exact inStep_pure rfl
  | greeting =>
    match arguments with
    | [name] => exact inStep_pure rfl
    | [name, mark] => exact inStep_pure rfl
    | [] | _ :: _ :: _ :: _ => exact inStep_throw _ _
  | vars =>
    unfold Fragment.Kind.compute
    dsimp only
    split
    · exact inStep_pure rfl
    · exact inStep_throw _ _
  | failing => exact inStep_throw _ _

theorem inStep_invoke (registry : Fragment.Registry) (request : Bindings) (payload : List Char) :
    InStep Twin id (registry.invoke surroundings request payload : SiteM String)
      (registry.invoke surroundings request payload) := by
  unfold Fragment.Registry.invoke Fragment.invokeBy
  split
  · exact inStep_throw _ _
  · split
    · exact inStep_throw _ _
    · exact (inStep_compute request _ _).bind fun value => inStep_pure rfl

/-- The fragments of a text are computed alike on both sites. -/
theorem inStep_resolve (registry : Fragment.Registry) (request : Bindings) (text : String) :
    InStep Twin id (registry.resolve surroundings request text : SiteM String)
      (registry.resolve surroundings request text) := by
  unfold Fragment.Registry.resolve Fragment.resolveBy Fragment.replaceTags
  dsimp only
  have hFold : ∀ (parts : List (List Char × List Char)) (start : String),
      InStep Twin id
        (parts.foldlM (fun done part => do
          let shown ← registry.invoke surroundings request part.1
          return done ++ shown ++ String.ofList part.2) start : SiteM String)
        (parts.foldlM (fun done part => do
          let shown ← registry.invoke surroundings request part.1
          return done ++ shown ++ String.ofList part.2) start) := by
    intro parts
    induction parts with
    | nil => exact fun _ => inStep_pure rfl
    | cons part rest ih =>
      intro start
      rw [List.foldlM_cons]
      have hPart : InStep Twin id (do
          let shown ← registry.invoke surroundings request part.1
          return start ++ shown ++ String.ofList part.2 : SiteM String) (do
          let shown ← registry.invoke surroundings request part.1
          return start ++ shown ++ String.ofList part.2) :=
        (inStep_invoke registry request part.1).bind fun shown => inStep_pure rfl
      exact hPart.bind fun done => ih done
  exact hFold _ _

theorem inStep_handOut (fragments : Fragment.Registry) (request : Bindings) (dynamic : Bool)
    (text : String) :
    InStep Twin id (handOut fragments request dynamic text)
      (handOut fragments request dynamic text) := by
  unfold handOut
  split
  · exact inStep_resolve fragments request text
  · exact inStep_pure rfl

end Fragments

/-! ## What a request asks for -/

/-- What a request asks for: a template with variables, and where else its body looks for
templates. -/
structure Wish where
  place : Place
  vars : Bindings
  paths : List String

/-- What a request asks for. -/
def wishAt (w : World) (name vars : Value) (paths : List String) (useGlobals : Bool) :
    Except Fault Wish := do
  let place ← placeAt w.files w.settings.locator name (paths.map Path.ofText)
  let request ← requestOf w vars useGlobals
  return ⟨place, request, paths⟩

/-- The identity of the page that is asked for. -/
def Wish.id (wish : Wish) : Except Fault String :=
  Identity.page (Path.absolute wish.place).print wish.vars

/-- The page that is asked for, newly made. -/
def Wish.page (w : World) (wish : Wish) (id : String) : Page :=
  requested w wish.place wish.vars wish.paths id

theorem pageId_eq_bind (w : World) (name vars : Value) (paths : List String) (useGlobals : Bool) :
    pageId w name vars paths useGlobals = wishAt w name vars paths useGlobals >>= Wish.id := by
  unfold pageId wishAt requestOf
  cases placeAt w.files w.settings.locator name (paths.map Path.ofText) with
  | error fault => rfl
  | ok place => cases Bindings.ofRequest vars <;> rfl

section Wishes

variable {w : World} {name vars : Value} {paths : List String} {useGlobals : Bool} {wish : Wish}
  {id : String}

/-- Rendering goes on from the site with the page that is asked for. -/
theorem run_render_of_wish (hWish : wishAt w name vars paths useGlobals = .ok wish)
    (hId : wish.id = .ok id) :
    (render Site.prepare name vars paths useGlobals).run w
      = ((match w.settings.cache with
          | some cache => originCached cache w.pages.size
          | none => originAnew w.pages.size) >>= conclude wish.vars).run
          (opened w (wish.page w id)) := by
  unfold wishAt at hWish
  obtain ⟨place, hPlace, hWish⟩ := bind_eq_ok hWish
  obtain ⟨request, hRequest, hWish⟩ := bind_eq_ok hWish
  cases hWish
  unfold requestOf at hRequest
  cases hGiven : Bindings.ofRequest vars with
  | error fault =>
    rw [hGiven] at hRequest
    cases hRequest
  | ok given =>
    rw [hGiven] at hRequest
    cases hRequest
    have hLocate := run_locate w.settings.locator name (paths.map Path.ofText) w
    rw [hPlace] at hLocate
    unfold render
    rw [run_bind_of_ok (run_get w)]
    dsimp only
    rw [run_bind_of_ok hLocate, run_bind_of_ok (run_check hGiven w),
      run_bind_of_ok (run_newPage_of_ok hId)]
    have hCache : (contextFor w.settings (paths.map Path.ofText)).cache = w.settings.cache := rfl
    rw [hCache]
    cases w.settings.cache with
    | some cache =>
      dsimp only
      rw [renderCached_eq]
      rfl
    | none =>
      dsimp only
      rw [renderAnew_eq]
      rfl

/-- A request that no page can be made for fails and changes nothing. -/
theorem run_render_of_no_page {fault : Fault}
    (h : pageId w name vars paths useGlobals = .error fault) :
    ∃ fault', (render Site.prepare name vars paths useGlobals).run w = (.error fault', w) := by
  unfold pageId at h
  have hLocate := run_locate w.settings.locator name (paths.map Path.ofText) w
  unfold render
  rw [run_bind_of_ok (run_get w)]
  dsimp only
  cases hPlace : placeAt w.files w.settings.locator name (paths.map Path.ofText) with
  | error fault' =>
    rw [hPlace] at hLocate
    exact ⟨fault', run_bind_of_error hLocate _⟩
  | ok place =>
    rw [hPlace] at h hLocate
    rw [run_bind_of_ok hLocate]
    cases hGiven : Bindings.ofRequest vars with
    | error fault' => exact ⟨fault', run_bind_of_error (run_check_error rfl w) _⟩
    | ok given =>
      rw [hGiven] at h
      rw [run_bind_of_ok (run_check rfl w)]
      have hNot : ∀ context, (newPage place
          (if useGlobals then Table.merge w.globals given else given) context []).run w
          = (.error fault, w) := by
        intro context
        unfold newPage
        exact run_bind_of_error (run_check_error h w) _
      exact ⟨fault, run_bind_of_error (hNot _) _⟩

end Wishes

/-! ## What a body gives -/

/-- A site without any pages. -/
def bare (w : World) : World := { w with pages := #[], outlines := #[] }

/-- The page and the output that come of a wish if it is the first one of a site. -/
def drawn (start : World) (wish : Wish) : Option (Page × String) :=
  match wish.id with
  | .error _ => none
  | .ok id =>
    match ((originAnew 0).run (opened (bare start) (wish.page (bare start) id))).1 with
    | .ok (.body page text) => some (page, text)
    | _ => none

/-- The page of an origin behind further pages. -/
def shiftOrigin (k e : Nat) (cache : Option Ref) : Origin → Origin
  | .compiled page text => .compiled page text
  | .final text => .final text
  | .body page text => .body (page.shift k e cache) text

theorem inStep_originAnew {u₀ : World} {k e : Nat} {cache : Option Ref} (p : Nat) :
    InStep (Near u₀ k e cache) (shiftOrigin k e cache) (originAnew p) (originAnew (p + k)) := by
  unfold originAnew
  refine (inStep_renderPage inStep_prepare p).bind fun text => ?_
  exact (inStep_page p).bind fun page => inStep_pure rfl

section Drawing

variable {start u : World} {wish : Wish} {id : String}

/-- What a site has in common with the one it started as. -/
structure Alike (start u : World) : Prop where
  files : u.files = start.files
  globals : u.globals = start.globals
  settings : u.settings = { start.settings with cache := u.settings.cache }

theorem shift_of_fits {vars : Bindings} (h : BindingsFit Value.isData vars) (k : Nat) :
    vars.shift k = vars := by
  have hEntry : ∀ entry ∈ vars, (entry.1.shift k, entry.2.shift k) = entry := fun entry hMem =>
    Prod.ext (shift_of_isData k _ (h entry hMem).1) (shift_of_isData k _ (h entry hMem).2)
  exact (List.map_congr_left hEntry).trans (List.map_id _)

theorem near_opened (hBodies : PlainBodies start.files)
    (hDirectives : start.settings.directives = Directive.builtIn) (hAlike : Alike start u)
    (hVars : BindingsFit Value.isData wish.vars) (id : String) :
    Near (opened u (wish.page u id)) u.pages.size u.outlines.size u.settings.cache
      (opened (bare start) (wish.page (bare start) id)) (opened u (wish.page u id)) := by
  have hEmpty : ∀ (α : Type) (xs : Array α) (p : Nat), xs[p + xs.size]? = none := fun α xs p =>
    Array.getElem?_eq_none (Nat.le_add_left _ _)
  have hNear : Near (opened u (wish.page u id)) u.pages.size u.outlines.size u.settings.cache
      (bare start) u := by
    refine ⟨hAlike.files, hBodies, fun p => ?_, ?_, fun n => ?_, ?_, ?_, ?_, ?_⟩
    · exact hEmpty _ u.pages p
    · exact (Nat.zero_add _).symm
    · exact hEmpty _ u.outlines n
    · exact (Nat.zero_add _).symm
    · intro p page hPage
      cases hPage
    · intro n o hOutline
      cases hOutline
    · exact ⟨rfl, rfl, rfl, rfl, rfl, rfl⟩
  refine hNear.push ?_ hDirectives id
  have hSame := shift_of_fits hVars u.pages.size
  have hSettings : contextFor u.settings (wish.paths.map Path.ofText)
      = { contextFor start.settings (wish.paths.map Path.ofText) with
          cache := u.settings.cache } := by
    unfold contextFor
    rw [hAlike.settings]
  unfold Wish.page requested Page.shift
  dsimp only [bare]
  rw [hSame, hSettings]
  simp

/-- What the body of a page gives depends on what is asked for alone. -/
theorem run_originAnew (hBodies : PlainBodies start.files)
    (hDirectives : start.settings.directives = Directive.builtIn) (hAlike : Alike start u)
    (hVars : BindingsFit Value.isData wish.vars) (hId : wish.id = .ok id) :
    (∀ page text, drawn start wish = some (page, text) →
      ∃ u', (originAnew u.pages.size).run (opened u (wish.page u id))
          = (.ok (.body (page.shift u.pages.size u.outlines.size u.settings.cache) text), u')
        ∧ Still (opened u (wish.page u id)) u')
    ∧ (drawn start wish = none →
      ∃ fault u', (originAnew u.pages.size).run (opened u (wish.page u id)) = (.error fault, u')
        ∧ Still (opened u (wish.page u id)) u') := by
  have hNear := near_opened hBodies hDirectives hAlike hVars id
  have hEnds := inStep_originAnew 0 _ _ hNear
  rw [Nat.zero_add] at hEnds
  have hDrawn : drawn start wish
      = match ((originAnew 0).run (opened (bare start) (wish.page (bare start) id))).1 with
        | .ok (.body page text) => some (page, text)
        | _ => none := by
    unfold drawn
    rw [hId]
  have hOrigin : ∀ origin w', (originAnew 0).run (opened (bare start) (wish.page (bare start) id))
      = (.ok origin, w') → ∃ page text, origin = .body page text := by
    intro origin w' hRun
    unfold originAnew at hRun
    obtain ⟨text, w₁, -, hRest⟩ := run_bind_eq_ok hRun
    obtain ⟨page, w₂, -, hRest⟩ := run_bind_eq_ok hRest
    cases hRest
    exact ⟨page, text, rfl⟩
  rcases hRun : (originAnew 0).run (opened (bare start) (wish.page (bare start) id)) with
    ⟨fault | origin, w'⟩
  · obtain ⟨fault', u', hRun', hNear'⟩ := hEnds.of_run_error hRun
    rw [hRun] at hDrawn
    refine ⟨fun page text hSome => ?_, fun _ => ⟨fault', u', hRun', hNear'.still⟩⟩
    rw [hDrawn] at hSome
    cases hSome
  · obtain ⟨u', hRun', hNear'⟩ := hEnds.of_run hRun
    obtain ⟨page, text, rfl⟩ := hOrigin origin w' hRun
    rw [hRun] at hDrawn
    refine ⟨fun other more hSome => ?_, fun hNone => ?_⟩
    · rw [hDrawn] at hSome
      cases hSome
      exact ⟨u', hRun', hNear'.still⟩
    · rw [hDrawn] at hNone
      cases hNone

end Drawing

end PageBlocks.Transparency
