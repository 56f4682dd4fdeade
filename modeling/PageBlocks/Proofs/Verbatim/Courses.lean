import Mathlib
import PageBlocks.Proofs.Verbatim.Alike

/-!
# Text that looks like a tag

On a site whose bodies defer nothing, texts that look like tags come from variables alone, and
nothing should take them for tags. That is so as long as no page is marked (`course_eq`): however
tags are resolved otherwise, a whole course of requests goes the same way, so no fragment is ever
asked for and every output is handed out as it is, by way of the cache or not.

The only thing that marks a page of such a site is including another page whose output holds an
opening marker, and then text from a variable is executed (`tag_from_variable_executed`). Bodies
that include nothing mark no page (`not_marked_course`).
-/

set_option autoImplicit false

namespace PageBlocks.Verbatim

open PageBlocks.Body PageBlocks.Cache PageBlocks.Deferral PageBlocks.Running PageBlocks.Site
  PageBlocks.Storage PageBlocks.Upkeep

section Course

variable {start w w' : World} {including : Bool} {ids : List String} {resolve : Resolution}

/-! ## Requests for pages -/

/-- A new page has the identity that its place and its variables give it. -/
theorem ends_newPage (place : Place) (vars : Bindings) (context : Context) (chain : List Place)
    (w : World) :
    Ends (newPage place vars context chain) w
      (fun p w' => ∃ page, w'.pages[p]? = some page ∧ page.context = context
        ∧ Identity.page (Path.absolute place).print vars = .ok page.id) fun _ => True := by
  unfold newPage
  cases hId : Identity.page (Path.absolute place).print vars with
  | error fault => exact ends_bind_of_run_error (run_check_error rfl w) trivial
  | ok id =>
    refine ends_bind_of_run (run_check rfl w) (ends_get_bind (ends_set_bind (ends_pure ?_)))
    exact ⟨_, Array.getElem?_push_size, rfl, rfl⟩

/-- A request for a page goes alike however tags are resolved, unless a page is marked. -/
theorem alike_render {name vars : Value} {paths : List String} {useGlobals : Bool}
    (hQuiet : DefersNothing start including) (hLasting : Lasting start including ids w)
    (hSeparate : ∀ cache, start.settings.cache = some cache → Separate cache ids)
    (hVars : vars.isInert start.settings.directives including = true)
    (hId : ∀ id, pageId start name vars paths useGlobals = .ok id → id ∈ ids) :
    Alike start including ids w (renderWith resolveFragments name vars paths useGlobals)
      (renderWith resolve name vars paths useGlobals) := by
  unfold renderWith
  have hGet : Goes start including ids w get fun found w' => found = w ∧ w' = w :=
    ends_of_run (run_get w) ⟨⟨rfl, rfl⟩, hLasting, id⟩
  refine Alike.bind hGet ?_
  rintro found w₁ ⟨rfl, rfl⟩ -
  dsimp only
  have hLocate : Goes start including ids w₁
      (locate w₁.settings.locator name (paths.map Path.ofText)) fun place w' =>
        placeAt start.files start.settings.locator name (paths.map Path.ofText) = .ok place
          ∧ w' = w₁ := by
    have hRun := run_locate w₁.settings.locator name (paths.map Path.ofText) w₁
    rw [hLasting.files, hLasting.locator] at hRun
    rw [hLasting.locator]
    cases hPlace : placeAt start.files start.settings.locator name (paths.map Path.ofText) with
    | ok place => exact ends_of_run (hRun.trans (by rw [hPlace])) ⟨⟨rfl, rfl⟩, hLasting, id⟩
    | error fault => exact ends_of_run_error (hRun.trans (by rw [hPlace])) ⟨hLasting, id⟩
  refine Alike.bind hLocate ?_
  rintro place w₂ ⟨hPlace, rfl⟩ -
  have hCheck : Goes start including ids w₂ (check (Bindings.ofRequest vars)) fun given w' =>
      Bindings.ofRequest vars = .ok given ∧ w' = w₂ := by
    cases hGiven : Bindings.ofRequest vars with
    | ok given => exact ends_of_run (run_check rfl w₂) ⟨⟨rfl, rfl⟩, hLasting, id⟩
    | error fault => exact ends_of_run_error (run_check_error rfl w₂) ⟨hLasting, id⟩
  refine Alike.bind hCheck ?_
  rintro given w₃ ⟨hGiven, rfl⟩ -
  generalize hRequest : (if useGlobals then Table.merge w₃.globals given else given) = request
  have hFit : BindingsFit (Value.isInert start.settings.directives including) request := by
    have hOwn := closed_isInert.ofRequest hVars hGiven
    rw [← hRequest]
    split
    · rw [hLasting.globals]
      exact hQuiet.globals.merge hOwn
    · exact hOwn
  have hNew : Upholds (Kept (terms start.settings including) w₃)
      (newPage place request (contextFor w₃.settings (paths.map Path.ofText)) []) fun _ => True :=
    upholds_newPage sound_terms hFit hLasting.directives hLasting.cache
  have hPage : Goes start including ids w₃
      (newPage place request (contextFor w₃.settings (paths.map Path.ofText)) []) fun p w' =>
        ∃ page, w'.pages[p]? = some page ∧ page.id ∈ ids
          ∧ page.context.cache = start.settings.cache := by
    have hGoes := goes_of_upholds hLasting hNew
    have hMade := ends_newPage place request (contextFor w₃.settings (paths.map Path.ofText)) [] w₃
    rcases hRun : (newPage place request (contextFor w₃.settings (paths.map Path.ofText)) []).run
      w₃ with ⟨fault | p, w'⟩
    · exact ends_of_run_error hRun (hGoes.of_run_error hRun)
    · obtain ⟨page, hPage, hContext, hIdentity⟩ := hMade.of_run hRun
      refine ends_of_run hRun ⟨⟨page, hPage, hId page.id ?_, ?_⟩, (hGoes.of_run hRun).2⟩
      · unfold pageId
        rw [hPlace, hGiven]
        rw [← hRequest, hLasting.globals] at hIdentity
        exact hIdentity
      · rw [hContext]
        exact hLasting.cache
  refine Alike.bind hPage ?_
  rintro p w₄ ⟨page, hPage, hMember, hContext⟩ hLasting₄
  have hCacheOf : (contextFor w₃.settings (paths.map Path.ofText)).cache = start.settings.cache :=
    hLasting.cache
  rw [hCacheOf]
  cases hCache : start.settings.cache with
  | some cache => exact alike_renderCached hQuiet hLasting₄ hPage hMember hContext hCache hSeparate
  | none => exact alike_renderAnew hQuiet hLasting₄ hPage hMember hContext hSeparate

/-! ## Courses of requests -/

/-- A request in the course of a site whose bodies defer nothing: one for a page, with any data for
variables, one that registers a kind of fragment, or one that moves the clock or takes entries out
of the cache. -/
inductive IsVisit (settings : Context) (including : Bool) : Request → Prop where
  | render {name : Value} {vars : Option Value} {paths : List String} {useGlobals : Bool}
      (h : (vars.getD .null).isInert settings.directives including = true) :
      IsVisit settings including (.render name vars paths useGlobals)
  | addFragment (name : String) (kind : Fragment.Kind) :
      IsVisit settings including (.addFragment name kind)
  | advance (micros : Int) : IsVisit settings including (.cache (.advance micros))
  | delete (key : String) : IsVisit settings including (.cache (.delete key))
  | clear : IsVisit settings including (.cache .clear)

theorem goes_cache {request : Cache.Request} (hLasting : Lasting start including ids w)
    (hRoutine : IsRoutine (.cache request)) :
    Goes start including ids w (perform (.cache request)) fun _ _ => True := by
  have hVault : Goes start including ids w (onVault (Cache.perform w.settings.cache request))
      fun v w' => v = .null ∧ w'.pages = w.pages := by
    refine goes_onVault hLasting ?_
    rw [← hLasting.cache]
    exact ends_perform w.vault hRoutine
  exact ends_get_bind (Ends.mono hVault (fun _ _ hEnd => ⟨trivial, hEnd.2⟩) fun _ => id)

theorem goes_addFragment (name : String) (kind : Fragment.Kind)
    (hLasting : Lasting start including ids w) :
    Goes start including ids w (perform (.addFragment name kind)) fun _ _ => True := by
  refine ends_bind_of_run (a := ()) rfl (ends_pure ⟨trivial, ?_⟩)
  exact ⟨⟨hLasting.files, hLasting.globals, hLasting.locator, hLasting.directives, hLasting.cache,
    ⟨hLasting.tended.pages, hLasting.tended.outlines, hLasting.tended.marks, hLasting.tended.modes⟩,
    hLasting.blank⟩, id⟩

theorem alike_perform (resolve : Resolution) {r : Request} (hQuiet : DefersNothing start including)
    (hLasting : Lasting start including ids w)
    (hSeparate : ∀ cache, start.settings.cache = some cache → Separate cache ids)
    (hVisit : IsVisit start.settings including r)
    (hId : ∀ id, pageIdOf start r = some id → id ∈ ids) :
    Alike start including ids w (performWith resolveFragments r) (performWith resolve r) := by
  cases hVisit with
  | @render name vars paths useGlobals hVars =>
    refine Alike.map (alike_render hQuiet hLasting hSeparate hVars fun id hFound => hId id ?_)
    rw [pageIdOf, hFound]
    rfl
  | addFragment name kind => exact (goes_addFragment name kind hLasting).alike_self
  | advance micros => exact (goes_cache hLasting (.advance micros)).alike_self
  | delete key => exact (goes_cache hLasting (.delete key)).alike_self
  | clear => exact (goes_cache hLasting .clear).alike_self

/-- A site before the first request: nothing has been made yet, and the cache holds no compiled
output of the pages that will be asked for. -/
structure Fresh (start : World) (ids : List String) : Prop where
  pages : start.pages = #[]
  outlines : start.outlines = #[]
  blank : ∀ cache, start.settings.cache = some cache → ∀ id ∈ ids, ∀ text,
    ¬ Stored cache start.vault (slot cache (Identity.compiled id)) text

theorem lasting_start (hFresh : Fresh start ids) : Lasting start including ids start := by
  have hPages : ∀ (p : Nat) (page : Page), start.pages[p]? ≠ some page := by
    intro p page h
    rw [hFresh.pages] at h
    cases h
  refine ⟨rfl, rfl, rfl, rfl, rfl, ⟨?_, ?_, ?_, .inr ?_⟩, .inr hFresh.blank⟩
  · exact fun p page h => absurd h (hPages p page)
  · intro n o h
    rw [hFresh.outlines] at h
    cases h
  · rintro ⟨p, page, h, -⟩
    exact absurd h (hPages p page)
  · exact fun p page h => absurd h (hPages p page)

theorem courseWith_cons (resolve : Resolution) (w : World) (r : Request) (rest : List Request) :
    courseWith resolve w (r :: rest)
      = (((performWith resolve r).run w).1
          :: (courseWith resolve ((performWith resolve r).run w).2 rest).1,
        (courseWith resolve ((performWith resolve r).run w).2 rest).2) := rfl

theorem course_of_lasting {history : List Request} (hQuiet : DefersNothing start including)
    (hSeparate : ∀ cache, start.settings.cache = some cache → Separate cache ids)
    (hLasting : Lasting start including ids w)
    (hVisits : ∀ r ∈ history, IsVisit start.settings including r)
    (hIds : ∀ r ∈ history, ∀ id, pageIdOf start r = some id → id ∈ ids) :
    Onward start including ids w (course w history).2
      ∧ (Marked (course w history).2
        ∨ ∀ resolve, courseWith resolve w history = course w history) := by
  induction history generalizing w with
  | nil => exact ⟨⟨hLasting, id⟩, .inr fun _ => rfl⟩
  | cons r rest ih =>
    rw [List.forall_mem_cons] at hVisits hIds
    have hAlike := fun resolve : Resolution =>
      alike_perform resolve hQuiet hLasting hSeparate hVisits.1 hIds.1
    have hOnward := (hAlike resolveFragments).onward
    obtain ⟨hFollows, hRest⟩ := ih hOnward.lasting hVisits.2 hIds.2
    refine ⟨hOnward.trans hFollows, ?_⟩
    rcases hRest with hMarked | hRest
    · exact .inl hMarked
    · -- a mark that the first request left would still be there
      by_cases hMarked : Marked ((performWith resolveFragments r).run w).2
      · exact .inl (hFollows.marked hMarked)
      · refine .inr fun resolve => ?_
        have hSame := (hAlike resolve).same.resolve_left hMarked
        rw [courseWith_cons, hSame, hRest resolve]
        rfl

/-- Bodies that include nothing mark no page, whatever their variables hold. -/
theorem not_marked_course {history : List Request} (hQuiet : DefersNothing start false)
    (hVisits : ∀ r ∈ history, IsVisit start.settings false r)
    (hFresh : Fresh start (history.filterMap (pageIdOf start)))
    (hSeparate : ∀ cache, start.settings.cache = some cache →
      Separate cache (history.filterMap (pageIdOf start))) :
    ¬ Marked (course start history).2 := by
  have hIds : ∀ r ∈ history, ∀ id, pageIdOf start r = some id →
      id ∈ history.filterMap (pageIdOf start) :=
    fun r hMem _ hId => List.mem_filterMap.mpr ⟨r, hMem, hId⟩
  have hCourse := course_of_lasting hQuiet hSeparate (lasting_start hFresh) hVisits hIds
  exact fun hIs => Bool.noConfusion (hCourse.1.lasting.tended.marks hIs)

/-- Requests to a site whose bodies defer nothing take the same course with any other way of
resolving tags, say one that leaves every text as it is, or one that fails: no fragment is asked
for. If bodies include other pages, no output of these may have marked the page around it. -/
theorem course_eq {history : List Request} (hQuiet : DefersNothing start including)
    (hVisits : ∀ r ∈ history, IsVisit start.settings including r)
    (hFresh : Fresh start (history.filterMap (pageIdOf start)))
    (hSeparate : ∀ cache, start.settings.cache = some cache →
      Separate cache (history.filterMap (pageIdOf start)))
    (hMarked : including = true → ¬ Marked (course start history).2) (resolve : Resolution) :
    courseWith resolve start history = course start history := by
  have hUnmarked : ¬ Marked (course start history).2 := by
    cases including with
    | true => exact hMarked rfl
    | false => exact not_marked_course hQuiet hVisits hFresh hSeparate
  have hIds : ∀ r ∈ history, ∀ id, pageIdOf start r = some id →
      id ∈ history.filterMap (pageIdOf start) :=
    fun r hMem _ hId => List.mem_filterMap.mpr ⟨r, hMem, hId⟩
  have hCourse := course_of_lasting hQuiet hSeparate (lasting_start hFresh) hVisits hIds
  exact hCourse.2.resolve_left hUnmarked resolve

end Course

/-! ## A page that prints a variable -/

/-- A page that prints a variable, and one that includes it. -/
def echoFiles : FileTree Source :=
  [(["v", "part"], .items [.text "[", .emit (.name "text"), .text "]"]),
    (["v", "page"], .items [.text "<", .emit (.call (.name "incl") [.literal (.text "part")] []),
      .text ">"])]

/-- A site with these pages, a cache, and a kind of fragment that no body asks for. -/
def echoSite : World :=
  let settings := startSettings { paths := [Path.ofText "/v"] } .script (.int 3600)
  { files := echoFiles
    vault := { now := ⟨0⟩, shelves := [[]] }
    settings :=
      { settings with
        cache := some (.shelf 0)
        fragments := [("boom", .constant (.text "ran"))] } }

/-- A complete tag for that kind of fragment. -/
def boomTag : String := "\x02defer:WyJib29tIixbXV0=\x03"

/-- A request for a page with the tag as a variable. -/
def askWithTag (name : String) : Request :=
  .render (.text name) (some (.map [(.text "text", .text boomTag)])) [] true

theorem defersNothing_echoSite : DefersNothing echoSite true := by
  refine ⟨forall_bodyAt_of_items fun entry hMem => ?_, bindingsFit_nil⟩
  simp only [echoSite, echoFiles, List.mem_cons, List.not_mem_nil, or_false] at hMem
  rcases hMem with rfl | rfl
  · exact ⟨_, rfl, by decide +kernel⟩
  · exact ⟨_, rfl, by decide +kernel⟩

/-- Two requests for the page that prints the variable, and time that passes between them. -/
def echoes : List Request := [askWithTag "part", .cache (.advance 1), askWithTag "part"]

theorem not_marked_of_all {w : World} (h : (w.pages.all fun page => !page.deferred) = true) :
    ¬ Marked w := by
  rintro ⟨p, page, hPage, hDeferred⟩
  have hOne := Array.all_eq_true_iff_forall_mem.mp h page (Array.mem_of_getElem? hPage)
  rw [hDeferred] at hOne
  cases hOne

theorem course_eq_of_echoes :
    courseWith (fun _ _ text => return text) echoSite echoes = course echoSite echoes := by
  refine course_eq defersNothing_echoSite ?_ ⟨rfl, rfl, ?_⟩ ?_ ?_ _
  · intro r hMem
    simp only [echoes, List.mem_cons, List.not_mem_nil, or_false] at hMem
    rcases hMem with rfl | rfl | rfl
    · exact .render rfl
    · exact .advance 1
    · exact .render rfl
  · intro cache hCache id _ text hStored
    cases hCache
    obtain ⟨entry, hMem, -⟩ := hStored
    exact absurd hMem List.not_mem_nil
  · intro cache hCache
    cases hCache
    have hApart : ∀ id ∈ echoes.filterMap (pageIdOf echoSite),
        ∀ other ∈ echoes.filterMap (pageIdOf echoSite), id ≠ Identity.compiled other := by
      unfold echoes askWithTag Identity.compiled
      simp only [List.filterMap_cons, pageIdOf, pageId, Identity.page]
      rw [Identity.digest_eq]
      decide +kernel
    exact hApart
  · exact fun _ => not_marked_of_all (by decide +kernel)

/-- The text of an answer. -/
def textOf : Except Fault Value → Option String
  | .ok (.text s) => some s
  | _ => none

/-- What stands between the markers of the tag. -/
def boomPayload : List Char := "WyJib29tIixbXV0=".toList

theorem invoke_boomPayload {registry : Fragment.Registry} (request : Bindings)
    (h : registry.get? "boom" = some (.constant (.text "ran"))) :
    registry.invoke surroundings request boomPayload = return "ran" := by
  have hDecoded : Fragment.decode boomPayload = .ok ("boom", []) := by cbv
  unfold Fragment.Registry.invoke Fragment.invokeBy
  rw [hDecoded]
  simp only [h]
  rfl

/-- Resolve tags with the payload of this one read off in advance. -/
def resolveBoom : Resolution := fun context request text =>
  Fragment.replaceTags (fun payload =>
    match context.fragments.get? "boom" with
    | some (.constant (.text s)) =>
      if s = "ran" ∧ payload = boomPayload then return "ran"
      else context.fragments.invoke surroundings request payload
    | _ => context.fragments.invoke surroundings request payload) text

theorem resolveBoom_eq : resolveBoom = resolveFragments := by
  funext context request text
  unfold resolveBoom resolveFragments Fragment.Registry.resolve Fragment.resolveBy
  refine congrArg (fun f => Fragment.replaceTags f text) (funext fun payload => ?_)
  split
  · rename_i s hFound
    split
    · rename_i hHere
      rw [hHere.1] at hFound
      rw [hHere.2]
      exact (invoke_boomPayload request hFound).symm
    · rfl
  · rfl

/-- On the page that includes the other one, the tag from the variable is taken for one of the
page's own, and the fragment runs. -/
theorem tag_from_variable_executed : DefersNothing echoSite true
    ∧ (course echoSite [askWithTag "page"]).1.map textOf = [some "<[ran]>"]
      ∧ (courseWith (fun _ _ text => return text) echoSite [askWithTag "page"]).1.map textOf
        = [some ("<[" ++ boomTag ++ "]>")] := by
  refine ⟨defersNothing_echoSite, ?_, by decide +kernel⟩
  rw [course, ← resolveBoom_eq]
  decide +kernel

end PageBlocks.Verbatim
