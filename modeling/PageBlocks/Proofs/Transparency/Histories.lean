import PageBlocks.Proofs.Transparency.Requests

/-!
# Caching does not show

A site with a shelf for a cache answers a sequence of requests for pages as the same site does
without a cache, while time passes between them in any way (`answers_uncached`). The two sites go
through the requests side by side (`Paired`): the shelf holds for each page what its body gives, and
a request of one of them is served by both.

Pages are known to the cache by a text that is made of the path of the template and the variables as
JSON, so requests that have one text must ask for one thing (`Telling`). The keys of a map with
whole numbers are texts in JSON, and the extra search directories are not in the text: requests that
differ in such things only get each other's pages (`number_and_text_share`).
-/

set_option autoImplicit false

namespace PageBlocks.Transparency

open PageBlocks.Body PageBlocks.Cache PageBlocks.Deferral PageBlocks.Number PageBlocks.Policy
  PageBlocks.Running PageBlocks.Site PageBlocks.Storage PageBlocks.Upkeep

/-! ## Requests of visitors -/

theorem closed_isData : Closed Value.isData := by
  refine ⟨rfl, rfl, fun _ => rfl, fun _ _ _ => rfl, fun _ => rfl, fun _ _ => rfl, fun items => ?_,
    fun items h => ?_, fun entries => ?_, fun _ _ _ _ => rfl, fun _ _ => rfl, fun _ _ => rfl⟩
  · exact everyItem_iff
  · exact everyItem_iff.mp h
  · exact everyEntry_iff

/-- What visitors do: they ask for pages, with variables that are data, and time passes. -/
inductive IsVisit : Request → Prop where
  | render (name : Value) {vars : Option Value} (paths : List String) (useGlobals : Bool)
    (hVars : (vars.getD .null).isData = true) : IsVisit (.render name vars paths useGlobals)
  | advance (micros : Int) : IsVisit (.cache (.advance micros))

/-- A site before the first request, with an empty shelf for a cache, the built-in directives, a
lifetime that entries can be given, and data for literals and global variables. -/
structure IsFresh (start : World) (n : Nat) : Prop where
  cache : start.settings.cache = some (.shelf n)
  lifetime : ∃ seconds, lifetimeSeconds start.settings.lifetime = .ok seconds
  directives : start.settings.directives = Directive.builtIn
  bound : n < start.vault.shelves.length
  empty : start.vault.shelf n = []
  pages : start.pages = #[]
  outlines : start.outlines = #[]
  items : PlainItems start.files
  globals : BindingsFit Value.isData start.globals

/-- A site with its cache switched off. -/
def uncached (w : World) : World := { w with settings := { w.settings with cache := none } }

/-- What a request asks for, if it asks for a page. -/
def wishOf (w : World) : Request → Option Wish
  | .render name vars paths useGlobals =>
    (wishAt w name (vars.getD .null) paths useGlobals).toOption
  | _ => none

/-- The text of a page tells what is asked for: requests that have one text ask for the same
template with the same variables and the same extra search directories. -/
def Telling (start : World) (history : List Request) : Prop :=
  ∀ r ∈ history, ∀ r' ∈ history, ∀ text, pageTextOf start r = some text →
    pageTextOf start r' = some text → wishOf start r = wishOf start r'

section Histories

variable {start w w' u : World} {n : Nat} {ids : List String} {wishes : List Wish} {wish : Wish}
  {id : String} {name vars : Value} {paths : List String} {useGlobals : Bool}

/-- What is asked for depends on the files, the settings and the global variables. -/
theorem wishAt_congr (h : Alike start w) (name vars : Value) (paths : List String)
    (useGlobals : Bool) : wishAt w name vars paths useGlobals
      = wishAt start name vars paths useGlobals := by
  unfold wishAt requestOf
  rw [h.files, h.globals, h.settings]

/-- The variables that a page is asked for with are data. -/
theorem fits_of_wish (hGlobals : BindingsFit Value.isData start.globals)
    (hVars : vars.isData = true) (hWish : wishAt start name vars paths useGlobals = .ok wish) :
    BindingsFit Value.isData wish.vars := by
  have hRequest := requestOf_of_wish hWish
  unfold requestOf at hRequest
  cases hGiven : Bindings.ofRequest vars with
  | error fault =>
    rw [hGiven] at hRequest
    cases hRequest
  | ok given =>
    have hFits := closed_isData.ofRequest hVars hGiven
    rw [hGiven] at hRequest
    have hSame : (if useGlobals then Table.merge start.globals given else given) = wish.vars :=
      Except.ok.inj hRequest
    rw [← hSame]
    split
    · exact hGlobals.merge hFits
    · exact hFits

/-- What the shelf holds for a page is what its body gives, also after a request for another one. -/
theorem Holds.fed (hApart : Apart ids) {other : Wish} {otherId : String}
    (hSame : otherId = id → other = wish) (hId : id ∈ ids) (hOther : otherId ∈ ids)
    (h : Holds start n other otherId w) (hFed : Fed start n wish id w w') :
    Holds start n other otherId w' := by
  intro dynamic text second hEntry
  rcases hFed _ _ hEntry with hOld | ⟨page, more, second', hDrawn, hContent, hKey⟩
  · exact h dynamic text second hOld
  · rw [text_eq_of_ofContent hContent]
    -- the keys of two pages differ, and so do the two keys of a page
    cases dynamic <;> cases hDynamic : page.isDynamic <;> rw [hDynamic] at hKey
    · cases hSame hKey
      exact ⟨page, hDrawn, hDynamic⟩
    · exact absurd hKey (hApart.final _ hOther _ hId)
    · exact absurd hKey.symm (hApart.final _ hId _ hOther)
    · cases hSame (hApart.compiled _ hOther _ hId hKey)
      exact ⟨page, hDrawn, hDynamic⟩

/-! ## Side by side -/

/-- A site in the course of some requests for pages, beside the same site without a cache. -/
structure Paired (start : World) (n : Nat) (ids : List String) (wishes : List Wish) (w u : World) :
    Prop where
  governed : Governed n start.settings.lifetime ids w
  alike : Alike start w
  twin : Twin w u
  holds : ∀ wish ∈ wishes, ∀ id, wish.id = .ok id → Holds start n wish id w

/-- The pages that are asked for have keys of their own. -/
structure Known (ids : List String) (wishes : List Wish) : Prop where
  apart : Apart ids
  mem : ∀ wish ∈ wishes, ∀ id, wish.id = .ok id → id ∈ ids
  inj : ∀ wish ∈ wishes, ∀ other ∈ wishes, ∀ id, wish.id = .ok id → other.id = .ok id → other = wish

theorem paired_start (hFresh : IsFresh start n) (ids : List String) (wishes : List Wish) :
    Paired start n ids wishes start (uncached start) := by
  refine ⟨governed_of_empty hFresh.cache hFresh.directives hFresh.bound hFresh.empty hFresh.pages
    hFresh.outlines ids, ⟨rfl, rfl, rfl⟩, ⟨rfl, rfl, rfl, rfl, rfl, rfl⟩, ?_⟩
  intro wish _ id _ dynamic text second hEntry
  rw [hFresh.empty] at hEntry
  cases hEntry

/-- Time passes on both sites. -/
theorem paired_advance (h : Paired start n ids wishes w u) (micros : Int) :
    ((perform (.cache (.advance micros))).run w).1 = ((perform (.cache (.advance micros))).run u).1
      ∧ Paired start n ids wishes ((perform (.cache (.advance micros))).run w).2
        ((perform (.cache (.advance micros))).run u).2 := by
  have hRun : (perform (.cache (.advance micros))).run w
      = (.ok .null, { w with vault := { w.vault with now := w.vault.now.addMicros micros } }) := by
    rw [run_perform_cache h.governed.cache]
    rfl
  have hTwin : (perform (.cache (.advance micros))).run u
      = (.ok .null, { u with vault := { u.vault with now := u.vault.now.addMicros micros } }) := by
    have hGoes : (perform (.cache (.advance micros))).run u
        = (onVault (Cache.perform u.settings.cache (.advance micros))).run u := rfl
    have hNone : u.settings.cache = none := by rw [h.twin.settings]
    rw [hGoes, hNone]
    rfl
  rw [hRun, hTwin]
  obtain ⟨hGoverned, hAlike, hPair, hHolds⟩ := h
  refine ⟨rfl, ⟨hGoverned.cache, hGoverned.lifetime, hGoverned.directives,
    ⟨hGoverned.tidied.bound, hGoverned.tidied.shelf⟩, (hGoverned.level_vault _).tended,
    hGoverned.single⟩, ⟨hAlike.files, hAlike.globals, hAlike.settings⟩,
    ⟨hPair.files, hPair.globals, hPair.settings, ?_, hPair.responses, hPair.counters⟩, hHolds⟩
  dsimp only
  rw [hPair.now]

/-- Both sites serve a request for a page. -/
theorem serves_both (hFresh : IsFresh start n) (hKnown : Known ids wishes)
    (h : Paired start n ids wishes w u)
    (hWish : wishAt start name vars paths useGlobals = .ok wish) (hMem : wish ∈ wishes)
    (hId : wish.id = .ok id) (hVars : vars.isData = true) :
    Serves start wish (render Site.prepare name vars paths useGlobals) w (Fed start n wish id w)
      ∧ Serves start wish (render Site.prepare name vars paths useGlobals) u fun _ => True := by
  have hAlike := h.alike.twin h.twin
  have hFits := fits_of_wish hFresh.globals hVars hWish
  have hCached : wishAt w name vars paths useGlobals = .ok wish :=
    (wishAt_congr h.alike name vars paths useGlobals).trans hWish
  have hPlain : wishAt u name vars paths useGlobals = .ok wish :=
    (wishAt_congr hAlike name vars paths useGlobals).trans hWish
  have hNone : u.settings.cache = none := by rw [h.twin.settings]
  obtain ⟨seconds, hUsable⟩ := hFresh.lifetime
  refine ⟨?_, serves_plain hFresh.items.bodies hFresh.directives hFresh.cache hAlike hNone hPlain
    hId hFits⟩
  rcases live_or_missed h.governed.tidied id with hMissed | ⟨dynamic, text, second, hEntry, hLive⟩
  · exact serves_of_missed h.governed hFresh.items.bodies hFresh.directives hFresh.cache hUsable
      h.alike hCached hId hFits hMissed
  · exact serves_of_live h.governed h.alike hCached hId (hKnown.mem wish hMem id hId)
      (h.holds wish hMem id hId) hEntry hLive

/-- Handing out leaves the caches alone. -/
theorem aside_handOut (fragments : Fragment.Registry) (request : Bindings) (dynamic : Bool)
    (text : String) (w : World) : Aside w ((handOut fragments request dynamic text).run w).2 := by
  unfold handOut
  split
  · exact (staysAside_resolve fragments request text).run w
  · exact Aside.refl w

/-- What a page hands out is the same on both sites. -/
theorem twin_handOut (hTwin : Twin w u) (fragments : Fragment.Registry) (request : Bindings)
    (dynamic : Bool) (text : String) :
    ((handOut fragments request dynamic text).run w).1.toOption
        = ((handOut fragments request dynamic text).run u).1.toOption
      ∧ Twin ((handOut fragments request dynamic text).run w).2
        ((handOut fragments request dynamic text).run u).2 := by
  have hEnds := inStep_handOut fragments request dynamic text w u hTwin
  rcases hRun : (handOut fragments request dynamic text).run w with ⟨fault | answer, w'⟩
  · obtain ⟨fault', u', hRun', hAfter⟩ := hEnds.of_run_error hRun
    rw [hRun']
    exact ⟨rfl, hAfter⟩
  · obtain ⟨u', hRun', hAfter⟩ := hEnds.of_run hRun
    rw [hRun']
    exact ⟨rfl, hAfter⟩

/-- A request that both sites serve is answered alike on both. -/
theorem answered_alike {x : SiteM String} {post post' : World → Prop} (hTwin : Twin w u)
    (hCached : Serves start wish x w post) (hPlain : Serves start wish x u post') :
    (x.run w).1.toOption = (x.run u).1.toOption ∧ Twin (x.run w).2 (x.run u).2
      ∧ ∃ w', post w' ∧ Calm w w' ∧ Aside w' (x.run w).2 := by
  cases hDrawn : drawn start wish with
  | none =>
    obtain ⟨fault, w', hRun, hCalm, hPost⟩ := hCached.refused hDrawn
    obtain ⟨fault', u', hRun', hCalm', -⟩ := hPlain.refused hDrawn
    rw [hRun, hRun']
    exact ⟨rfl, hTwin.calm hCalm hCalm', w', hPost, hCalm, .refl w'⟩
  | some found =>
    obtain ⟨page, text⟩ := found
    obtain ⟨w', hRun, hCalm, hPost⟩ := hCached.given page text hDrawn
    obtain ⟨u', hRun', hCalm', -⟩ := hPlain.given page text hDrawn
    obtain ⟨hSame, hAfter⟩ := twin_handOut (hTwin.calm hCalm hCalm') start.settings.fragments
      wish.vars page.isDynamic text
    rw [hRun, hRun']
    exact ⟨hSame, hAfter, w', hPost, hCalm, aside_handOut _ _ _ _ w'⟩

theorem Alike.aside (h : Alike start w) (hAside : Aside w w') : Alike start w' := by
  refine ⟨hAside.files.trans h.files, hAside.globals.trans h.globals, ?_⟩
  rw [hAside.settings]
  exact h.settings

theorem run_perform_render_eq (w : World) (name : Value) (vars : Option Value) (paths : List String)
    (useGlobals : Bool) :
    (perform (.render name vars paths useGlobals)).run w
      = (Value.text <$> ((render Site.prepare name (vars.getD .null) paths useGlobals).run w).1,
        ((render Site.prepare name (vars.getD .null) paths useGlobals).run w).2) := by
  rw [run_perform_render, run_map]
  rcases (render Site.prepare name (vars.getD .null) paths useGlobals).run w with
    ⟨fault | text, w'⟩ <;> rfl

/-- A request for a page is answered alike on both sites, and they go on side by side. -/
theorem paired_render {vars : Option Value} (hFresh : IsFresh start n) (hKnown : Known ids wishes)
    (hVars : (vars.getD .null).isData = true)
    (hWishes : ∀ wish, wishOf start (.render name vars paths useGlobals) = some wish →
      wish ∈ wishes)
    (h : Paired start n ids wishes w u) :
    ((perform (.render name vars paths useGlobals)).run w).1.toOption
        = ((perform (.render name vars paths useGlobals)).run u).1.toOption
      ∧ Paired start n ids wishes ((perform (.render name vars paths useGlobals)).run w).2
        ((perform (.render name vars paths useGlobals)).run u).2 := by
  have hAlike := h.alike.twin h.twin
  have hCongr : ∀ {other}, Alike start other →
      pageId other name (vars.getD .null) paths useGlobals
        = wishAt start name (vars.getD .null) paths useGlobals >>= Wish.id := by
    intro other hOther
    rw [pageId_eq_bind, wishAt_congr hOther]
  rw [run_perform_render_eq, run_perform_render_eq]
  dsimp only
  rw [toOption_map, toOption_map]
  cases hPage : wishAt start name (vars.getD .null) paths useGlobals >>= Wish.id with
  | error fault =>
    -- no page can be made on either site
    obtain ⟨_, hRun⟩ := run_render_of_no_page ((hCongr h.alike).trans hPage)
    obtain ⟨_, hRun'⟩ := run_render_of_no_page ((hCongr hAlike).trans hPage)
    rw [hRun, hRun']
    exact ⟨rfl, h⟩
  | ok id =>
    obtain ⟨wish, hWish, hId⟩ := bind_eq_ok hPage
    have hMem : wish ∈ wishes := by
      refine hWishes wish ?_
      unfold wishOf
      dsimp only
      rw [hWish]
      rfl
    obtain ⟨hCached, hPlain⟩ := serves_both hFresh hKnown h hWish hMem hId hVars
    obtain ⟨hSame, hTwin, w', hFed, hCalm, hAside⟩ := answered_alike h.twin hCached hPlain
    have hReached : Reached n start.settings.lifetime ids w
        ((perform (.render name vars paths useGlobals)).run w).2 := by
      refine reached_perform h.governed fun other hOther => ?_
      have hOther := pageId_of_pageIdOf hOther
      rw [hCongr h.alike, hPage] at hOther
      cases hOther
      exact hKnown.mem wish hMem id hId
    rw [run_perform_render_eq] at hReached
    refine ⟨by rw [hSame], h.governed.reached hKnown.apart hReached,
      (h.alike.calm hCalm).aside hAside, hTwin, fun other hOther otherId hOtherId => ?_⟩
    have hKept : Holds start n other otherId w' := by
      refine Holds.fed hKnown.apart (fun hHere => ?_) (hKnown.mem wish hMem id hId)
        (hKnown.mem other hOther otherId hOtherId) (h.holds other hOther otherId hOtherId) hFed
      subst hHere
      exact hKnown.inj wish hMem other hOther _ hId hOtherId
    unfold Holds
    rw [hAside.vault]
    exact hKept

/-- Whatever visitors do, both sites answer alike. -/
theorem answers_alike {history : List Request} (hFresh : IsFresh start n)
    (hKnown : Known ids wishes) (hVisits : ∀ r ∈ history, IsVisit r)
    (hWishes : ∀ r ∈ history, ∀ wish, wishOf start r = some wish → wish ∈ wishes)
    (h : Paired start n ids wishes w u) :
    (answers w history).map Except.toOption = (answers u history).map Except.toOption := by
  induction history generalizing w u with
  | nil => rfl
  | cons r rest ih =>
    rw [List.forall_mem_cons] at hVisits hWishes
    have hStep : ((perform r).run w).1.toOption = ((perform r).run u).1.toOption
        ∧ Paired start n ids wishes ((perform r).run w).2 ((perform r).run u).2 := by
      obtain ⟨hVisit, -⟩ := hVisits
      cases hVisit with
      | render name paths useGlobals hVars =>
        exact paired_render hFresh hKnown hVars hWishes.1 h
      | advance micros =>
        obtain ⟨hSame, hNext⟩ := paired_advance h micros
        exact ⟨by rw [hSame], hNext⟩
    rw [answers, answers, List.map_cons, List.map_cons, hStep.1,
      ih hVisits.2 hWishes.2 hStep.2]

/-! ## Texts that tell what is asked for -/

/-- A request for a page has the text of that page. -/
theorem exists_text_of_wish {r : Request} (hWish : wishOf start r = some wish)
    (hId : wish.id = .ok id) :
    ∃ text, pageTextOf start r = some text ∧ Identity.digest text = id := by
  cases r with
  | render name vars paths useGlobals =>
    unfold wishOf at hWish
    dsimp only at hWish
    have hPage : pageId start name (vars.getD .null) paths useGlobals = .ok id := by
      rw [pageId_eq_bind]
      cases hAsked : wishAt start name (vars.getD .null) paths useGlobals with
      | error fault =>
        rw [hAsked] at hWish
        cases hWish
      | ok asked =>
        rw [hAsked] at hWish
        cases hWish
        exact hId
    have hFound := pageIdOf_of_pageId hPage
    rw [pageIdOf_eq, Option.map_eq_some_iff] at hFound
    exact hFound
  | _ => cases hWish

/-- If digests do not collide and texts tell what is asked for, the pages of a history are known
apart. -/
theorem known_of_telling {history : List Request}
    (hDistinct : Distinct (history.filterMap (pageTextOf start)))
    (hTelling : Telling start history) :
    Known ((history.filterMap (pageTextOf start)).map Identity.digest)
      (history.filterMap (wishOf start)) := by
  have hText : ∀ {r text}, r ∈ history → pageTextOf start r = some text →
      text ∈ history.filterMap (pageTextOf start) :=
    fun hMem hFound => List.mem_filterMap.mpr ⟨_, hMem, hFound⟩
  refine ⟨apart_of_distinct (fun text hMem => ?_) hDistinct, ?_, ?_⟩
  · obtain ⟨r, -, hFound⟩ := List.mem_filterMap.mp hMem
    exact head?_pageTextOf hFound
  · intro wish hMem id hId
    obtain ⟨r, hHere, hWish⟩ := List.mem_filterMap.mp hMem
    obtain ⟨text, hFound, rfl⟩ := exists_text_of_wish hWish hId
    exact List.mem_map_of_mem (hText hHere hFound)
  · intro wish hMem other hOther id hId hOtherId
    obtain ⟨r, hHere, hWish⟩ := List.mem_filterMap.mp hMem
    obtain ⟨r', hThere, hWish'⟩ := List.mem_filterMap.mp hOther
    obtain ⟨text, hFound, hDigest⟩ := exists_text_of_wish hWish hId
    obtain ⟨text', hFound', hDigest'⟩ := exists_text_of_wish hWish' hOtherId
    have hTexts : text = text' :=
      hDistinct text (List.mem_append_left _ (hText hHere hFound)) text'
        (List.mem_append_left _ (hText hThere hFound')) (hDigest.trans hDigest'.symm)
    subst hTexts
    rw [hTelling r hHere r' hThere text hFound hFound', hWish'] at hWish
    exact Option.some.inj hWish

/-- Caching does not show: a site with a shelf answers what visitors ask for as it does without a
cache, if the texts of the pages tell what is asked for and digests do not collide on them. -/
theorem answers_uncached {history : List Request} (hFresh : IsFresh start n)
    (hVisits : ∀ r ∈ history, IsVisit r)
    (hDistinct : Distinct (history.filterMap (pageTextOf start)))
    (hTelling : Telling start history) :
    (answers start history).map Except.toOption
      = (answers (uncached start) history).map Except.toOption :=
  answers_alike hFresh (known_of_telling hDistinct hTelling) hVisits
    (fun r hMem _ hWish => List.mem_filterMap.mpr ⟨r, hMem, hWish⟩) (paired_start hFresh _ _)

end Histories

/-! ## A page that prints a variable -/

/-- A site with a page that prints a variable; its cache is a shelf. -/
def printSite : World :=
  { noticeSite 600 with files := [(["v", "page"], .items [.emit (.name "d")])] }

/-- A request for that page with a value for the variable. -/
def askWith (d : Value) : Request :=
  .render (.text "page") (some (.map [(.text "d", d)])) [] true

theorem isFresh_printSite : IsFresh printSite 0 := by
  have hBodies : PlainItems printSite.files := by
    intro place items hFound
    cases List.mem_singleton.mp (Table.mem_of_get?_eq_some hFound)
    rfl
  exact ⟨rfl, ⟨_, rfl⟩, rfl, Nat.one_pos, rfl, rfl, rfl, hBodies, bindingsFit_nil⟩

/-- Two values in turn, and time that passes. -/
def prints : List Request :=
  [askWith (.text "a"), askWith (.text "b"), .cache (.advance 1), askWith (.text "a")]

theorem answers_of_prints :
    (answers printSite prints).map Except.toOption
      = (answers (uncached printSite) prints).map Except.toOption := by
  have hNe : pageTextOf printSite (askWith (.text "a"))
      ≠ pageTextOf printSite (askWith (.text "b")) := by
    decide +kernel
  have hAsked : ∀ r ∈ prints, ∀ text, pageTextOf printSite r = some text →
      r = askWith (.text "a") ∨ r = askWith (.text "b") := by
    simp only [prints, List.forall_mem_cons]
    exact ⟨fun _ _ => .inl trivial, fun _ _ => .inr trivial, nofun, fun _ _ => .inl trivial,
      List.forall_mem_nil _⟩
  refine answers_uncached isFresh_printSite ?_ ?_ ?_
  · simp only [prints, List.forall_mem_cons]
    exact ⟨.render _ [] true rfl, .render _ [] true rfl, .advance 1, .render _ [] true rfl,
      List.forall_mem_nil _⟩
  · unfold Distinct
    rw [Identity.digest_eq]
    decide +kernel
  · intro r hMem r' hMem' text hText hText'
    rw [← hText'] at hText
    rcases hAsked r hMem text (hText.trans hText') with rfl | rfl <;>
      rcases hAsked r' hMem' text hText' with rfl | rfl
    · rfl
    · exact absurd hText hNe
    · exact absurd hText.symm hNe
    · rfl

/-- In JSON the keys of a map are texts, so a map with a number for a key has the text of the one
with that number as a text: the second request gets what the first one was answered. -/
theorem number_and_text_share :
    IsFresh printSite 0
    ∧ (∀ r ∈ [askWith (.map [(.int 1, .text "a")]), askWith (.map [(.text "1", .text "a")])],
      IsVisit r)
    ∧ (answers printSite [askWith (.map [(.int 1, .text "a")]),
        askWith (.map [(.text "1", .text "a")])]).map Except.toOption
      ≠ (answers (uncached printSite) [askWith (.map [(.int 1, .text "a")]),
        askWith (.map [(.text "1", .text "a")])]).map Except.toOption := by
  refine ⟨isFresh_printSite, ?_, fun hSame => ?_⟩
  · simp only [List.forall_mem_cons]
    exact ⟨.render _ [] true rfl, .render _ [] true rfl, List.forall_mem_nil _⟩
  · have hPrinted := congrArg (List.map (Option.map Value.print)) hSame
    -- the two sites are evaluated apart from each other
    have hCached : ((answers printSite [askWith (.map [(.int 1, .text "a")]),
        askWith (.map [(.text "1", .text "a")])]).map Except.toOption).map (Option.map Value.print)
          = [some "\x7b1: 'a'\x7d", some "\x7b1: 'a'\x7d"] := by decide +kernel
    have hUncached : ((answers (uncached printSite) [askWith (.map [(.int 1, .text "a")]),
        askWith (.map [(.text "1", .text "a")])]).map Except.toOption).map (Option.map Value.print)
          = [some "\x7b1: 'a'\x7d", some "\x7b'1': 'a'\x7d"] := by decide +kernel
    rw [hCached, hUncached] at hPrinted
    exact absurd hPrinted (by decide)

end PageBlocks.Transparency
