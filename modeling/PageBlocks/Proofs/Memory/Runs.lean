import PageBlocks.Proofs.Confinement.Calls
import PageBlocks.Proofs.Memory.Events
import PageBlocks.Proofs.Policy.Histories

/-!
# Runs as courses of events

On a site with one cache, everything that answering requests does to the caches is a course of
events (`goes_after`): pages look entries up and store texts, whatever their bodies are,
and the clock goes forward. Bodies may pass requests on if these are as gentle.
-/

set_option autoImplicit false

namespace PageBlocks.Memory

open PageBlocks.Body PageBlocks.Cache PageBlocks.Confinement PageBlocks.Guards PageBlocks.Policy
  PageBlocks.Running PageBlocks.Site PageBlocks.Storage PageBlocks.Time PageBlocks.Upkeep

/-! ## Sites with one cache -/

/-- A request that uses the cache by way of pages only, or lets time pass. -/
inductive IsGentle : Request → Prop where
  | render (name : Value) (vars : Option Value) (paths : List String) (useGlobals : Bool) :
    IsGentle (.render name vars paths useGlobals)
  | advance (micros : Nat) : IsGentle (.cache (.advance micros))
  | writeFile (path : String) (source : Source) : IsGentle (.writeFile path source)
  | deleteFile (path : String) : IsGentle (.deleteFile path)
  | addGlobal (name value : Value) : IsGentle (.addGlobal name value)

/-- Settings with a cache, and with directives that pass on gentle requests at most. -/
structure Fits (cache : Ref) (settings : Context) : Prop where
  cache : settings.cache = some cache
  gentle : ∀ name r, settings.directives.get? name = some (.request r) → IsGentle r

/-- A site with one cache. -/
structure Single (cache : Ref) (w : World) : Prop where
  settings : Fits cache w.settings
  pages : ∀ (p : Nat) (page : Page), w.pages[p]? = some page → Fits cache page.context

/-- The caches went through events. -/
def Eventful (cache : Ref) (v v' : Vault) : Prop := ∃ events, v' = course cache v events

section Courses

variable {cache : Ref} {v v' v'' : Vault} {w w' w'' : World} {p : Nat}

theorem Eventful.refl (v : Vault) : Eventful cache v v := ⟨[], rfl⟩

theorem Eventful.trans (h : Eventful cache v v') (h' : Eventful cache v' v'') :
    Eventful cache v v'' := by
  obtain ⟨events, rfl⟩ := h
  obtain ⟨more, rfl⟩ := h'
  exact ⟨events ++ more, (course_append more).symm⟩

theorem Eventful.event (event : Event) (v : Vault) : Eventful cache v (event.after cache v) :=
  ⟨[event], rfl⟩

/-- A site with one cache went on, and its caches went through events. -/
structure Goes (cache : Ref) (w w' : World) : Prop where
  single : Single cache w → Single cache w'
  vault : Eventful cache w.vault w'.vault

theorem Goes.refl (w : World) : Goes cache w w := ⟨id, .refl _⟩

theorem Goes.trans (h : Goes cache w w') (h' : Goes cache w' w'') : Goes cache w w'' :=
  ⟨fun hSingle => h'.single (h.single hSingle), h.vault.trans h'.vault⟩

theorem Goes.of_same (hPages : w'.pages = w.pages) (hSettings : w'.settings = w.settings)
    (hVault : Eventful cache w.vault w'.vault) : Goes cache w w' := by
  refine ⟨fun hSingle => ⟨?_, ?_⟩, hVault⟩
  · rw [hSettings]
    exact hSingle.settings
  · rw [hPages]
    exact hSingle.pages

/-- Changing pages keeps the cache if it keeps their contexts. -/
theorem Goes.modify {f : Page → Page} {outlines : Array Outline}
    (hContext : ∀ page, (f page).context = page.context) :
    Goes cache w { w with pages := w.pages.modify p f, outlines } := by
  refine ⟨fun hSingle => ⟨hSingle.settings, fun q page hPage => ?_⟩, .refl _⟩
  dsimp only at hPage
  rw [Array.getElem?_modify] at hPage
  split at hPage
  · obtain ⟨old, hOld, rfl⟩ := Option.map_eq_some_iff.mp hPage
    rw [hContext]
    exact hSingle.pages _ old hOld
  · exact hSingle.pages q page hPage

theorem Goes.push {page : Page} {outlines : Array Outline} (hFits : Fits cache page.context) :
    Goes cache w { w with pages := w.pages.push page, outlines } := by
  refine ⟨fun hSingle => ⟨hSingle.settings, fun q other hPage => ?_⟩, .refl _⟩
  dsimp only at hPage
  rw [Array.getElem?_push] at hPage
  split at hPage
  · cases hPage
    exact hFits
  · exact hSingle.pages q other hPage

/-- A gentle request that is not for a page. -/
theorem goes_answer {r : Request} (hGentle : IsGentle r) (hAsks : asksForPage r = false)
    (hSingle : Single cache w) (prepare : Nat → SiteM Unit) :
    Goes cache w ((answer prepare r).run w).2 := by
  cases hGentle with
  | render name vars paths useGlobals => cases hAsks
  | advance micros =>
    have hRun : ((answer prepare (.cache (.advance micros))).run w).2
        = { w with vault := (Event.wait micros).after cache w.vault } := by
      unfold answer
      dsimp only
      rw [run_bind_of_ok (run_get w), hSingle.settings.cache]
      rfl
    rw [hRun]
    exact .of_same rfl rfl (.event (.wait micros) w.vault)
  | writeFile path source => exact .of_same rfl rfl (.refl _)
  | deleteFile path => exact .of_same rfl rfl (.refl _)
  | addGlobal name value =>
    unfold answer
    dsimp only
    split
    · exact .refl w
    · exact .of_same rfl rfl (.refl _)

/-- Runs on a site with one cache. -/
def onSingle (cache : Ref) : Limits where
  ready := Single cache
  pages _ _ := True
  free _ _ := True
  context := Fits cache
  through := Eventful cache
  goes := Goes cache
  refl := Goes.refl
  trans := Goes.trans
  ready_of_goes hReady h := h.single hReady
  pages_of_goes _ _ h := h
  free_of_goes _ _ h := h
  pages_of_free h := h
  settings h := h.settings
  contexts h hPage := h.pages _ _ hPage
  located _ h := ⟨h.cache, h.gentle⟩
  through_refl := Eventful.refl
  through_trans := Eventful.trans
  lookup {settings other} h hCache key v := by
    obtain rfl : cache = other := Option.some.inj (h.cache.symm.trans hCache)
    exact .event (.look key) v
  put {settings other} h hCache key content lifetime v := by
    obtain rfl : cache = other := Option.some.inj (h.cache.symm.trans hCache)
    exact .event (.store key content lifetime) v
  aside _ hPages _ hSettings hVault := .of_same hPages hSettings hVault
  work _ _ hWorked := .modify fun page => (hWorked page).context
  turn _ _ hSame _ := .modify fun page => (hSame page).context
  draft _ _ _ _ _ := .modify fun _ => rfl
  push _ hContext _ owner := ⟨.push hContext, trivial⟩
  passOn hReady hContext hKnown hAsks prepare :=
    goes_answer (hContext.gentle _ _ hKnown) hAsks hReady prepare

/-! ## Pages and requests -/

theorem prepares_onSingle (cache : Ref) (depth : Nat) :
    (onSingle cache).Prepares (prepareFrom depth) :=
  (onSingle cache).prepares_of_free (fun _ => trivial) depth

/-- Preparing a page leads the caches through events. -/
theorem goes_prepare (hSingle : Single cache w) (depth p : Nat) :
    Goes cache w ((prepareFrom depth p).run w).2 :=
  prepares_onSingle cache depth hSingle trivial

theorem passes_block (hSingle : Single cache w) (o : Outline) (depth : Nat) (default : Value)
    (i : Nat) : Passes (onSingle cache) (o.renderFrom depth (some ⟨cache, default⟩) i) := by
  refine passes_renderFrom o (fun m hMemo => ?_) depth i
  cases hMemo
  exact ⟨w.settings, hSingle.settings, hSingle.settings.cache⟩

/-- Rendering a block leads the caches through events. -/
theorem goes_block (hSingle : Single cache w) (o : Outline) (depth : Nat) (default : Value)
    (i : Nat) :
    Goes cache w ((onVault (o.renderFrom depth (some ⟨cache, default⟩) i)).run w).2 := by
  have hUpholds : Upholds (Goes cache w)
      (onVault (o.renderFrom depth (some ⟨cache, default⟩) i)) fun _ => True :=
    upholds_onVault (L := onSingle cache) hSingle (passes_block hSingle o depth default i)
  exact hUpholds.run (Goes.refl w)

/-- Whatever a body calls, the caches go through events. -/
theorem goes_call (hSingle : Single cache w) (depth : Nat) (callee : Value)
    (arguments : List Value) (named : List (String × Value)) :
    Goes cache w ((call (prepareFrom depth) callee arguments named).run w).2 :=
  (upholds_call (prepares_onSingle cache depth) hSingle (fun _ _ => trivial) arguments
    named).run (Goes.refl w)

theorem goes_perform (hSingle : Single cache w) {r : Request} (hGentle : IsGentle r) :
    Goes cache w ((perform r).run w).2 := by
  cases hGentle with
  | render name vars paths useGlobals =>
    exact (upholds_text (upholds_render (Limits.prepares_site (prepares_onSingle cache)) hSingle
      name _ paths useGlobals)).run (Goes.refl w)
  | advance micros => exact goes_answer (.advance micros) rfl hSingle _
  | writeFile path source => exact goes_answer (.writeFile path source) rfl hSingle _
  | deleteFile path => exact goes_answer (.deleteFile path) rfl hSingle _
  | addGlobal name value => exact goes_answer (.addGlobal name value) rfl hSingle _

/-- Over gentle requests, the caches go through events. -/
theorem goes_after (hSingle : Single cache w) {history : List Request}
    (hGentle : ∀ r ∈ history, IsGentle r) : Goes cache w (after w history) := by
  induction history generalizing w with
  | nil => exact Goes.refl w
  | cons r rest ih =>
    rw [List.forall_mem_cons] at hGentle
    have hFirst := goes_perform hSingle hGentle.1
    exact hFirst.trans (ih (hFirst.single hSingle) hGentle.2)

end Courses

end PageBlocks.Memory
