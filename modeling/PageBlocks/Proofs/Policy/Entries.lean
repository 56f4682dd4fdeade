import PageBlocks.Proofs.Policy.Rendering

/-!
# What a request for a page does to its entries

A request for a page leaves the entries of other pages alone, and of its own at most one
(`ends_render`, `Governed.render`). A live entry answers it (`run_render_of_live`). Output of a body
is stored under one key (`run_render_of_body`), and nothing is if the body fails or switches caching
off (`stores_nothing`).
-/

set_option autoImplicit false

namespace PageBlocks.Policy

open PageBlocks.Cache PageBlocks.Deferral PageBlocks.Running PageBlocks.Site PageBlocks.Storage
  PageBlocks.Upkeep

/-! ## Pages with keys of their own -/

/-- The keys of some pages are all different. -/
structure Apart (ids : List String) : Prop where
  final : ∀ id ∈ ids, ∀ other ∈ ids, id ≠ Identity.compiled other
  compiled : ∀ id ∈ ids, ∀ other ∈ ids, Identity.compiled id = Identity.compiled other → id = other

/-- A key of a page. -/
def IsKeyOf (id key : String) : Prop := key = id ∨ key = Identity.compiled id

theorem Apart.ne {ids : List String} (h : Apart ids) {id other key : String} (hId : id ∈ ids)
    (hOther : other ∈ ids) (hNe : other ≠ id) (hKey : IsKeyOf id key) :
    key ≠ other ∧ key ≠ Identity.compiled other := by
  rcases hKey with rfl | rfl
  · exact ⟨hNe.symm, h.final _ hId other hOther⟩
  · exact ⟨(h.final other hOther id hId).symm, fun hSame =>
      hNe (h.compiled id hId other hOther hSame).symm⟩

section Entries

variable {n : Nat} {lifetime : Value} {ids : List String} {w w' : World} {name vars : Value}
  {paths : List String} {useGlobals : Bool}

/-! ## Making an answer -/

theorem Level.of_aside (hTended : Tended (terms (some (.shelf n))) w) (h : Aside w w') :
    Level n w w' := by
  have hMarked : Marked w ↔ Marked w' := by
    unfold Marked
    rw [h.pages]
  refine ⟨h.settings, h.globals, h.files, ⟨?_, ?_, fun hIs => ?_, ?_⟩⟩
  · rw [h.pages]
    exact hTended.pages
  · rw [h.outlines]
    exact hTended.outlines
  · exact hTended.marks (hMarked.mpr hIs)
  · rw [h.pages]
    exact hTended.modes.imp_left hMarked.mp

/-- Storing the output of a page goes to the key that its mode asks for, or fails if the lifetime
cannot be added to the time. -/
theorem ends_store {page : Page} (text : String) (hTended : Tended (terms (some (.shelf n))) w) :
    Ends (store (.shelf n) page text) w
      (fun _ w' => Level n w w' ∧ (page.mode = .disabled ∧ w'.vault = w.vault
        ∨ page.mode ≠ .disabled ∧ ∃ second,
          expirySecond w.vault.now page.context.lifetime = .ok second
            ∧ w'.vault = stored n (if page.isDynamic then Identity.compiled page.id else page.id)
              text page.context.lifetime second w.vault))
      fun w' => Level n w w' ∧ page.mode ≠ .disabled
        ∧ (∃ fault, expirySecond w.vault.now page.context.lifetime = .error fault)
        ∧ ∃ deposit, w'.vault = { w.vault with deposits := deposit :: w.vault.deposits } := by
  have hLevel : ∀ v, Level n w { w with vault := v } :=
    fun v => ⟨rfl, rfl, rfl, ⟨hTended.pages, hTended.outlines, hTended.marks, hTended.modes⟩⟩
  unfold store
  split
  · rename_i hDisabled
    exact ends_pure ⟨⟨rfl, rfl, rfl, hTended⟩, .inl ⟨hDisabled, rfl⟩⟩
  · rename_i hEnabled
    dsimp only
    generalize (if page.isDynamic = true then Identity.compiled page.id else page.id) = key
    cases hSecond : expirySecond w.vault.now page.context.lifetime with
    | ok second =>
      refine ends_of_run (run_onVault (run_put_shelf text hSecond)) ⟨hLevel _, .inr ?_⟩
      exact ⟨hEnabled, second, rfl, rfl⟩
    | error fault =>
      have hRun : ((Ref.shelf n).put key text (some page.context.lifetime)).run w.vault = _ :=
        run_put_shelf_error text hSecond
      have hFails : (onVault ((Ref.shelf n).put key text (some page.context.lifetime))).run w
          = (.error fault, { w with vault := { w.vault with
              deposits := ⟨key, text, some page.context.lifetime⟩ :: w.vault.deposits } }) := by
        unfold onVault
        rw [run_bind_of_ok (run_get w), hRun]
        rfl
      exact ends_of_run_error hFails ⟨hLevel _, hEnabled, ⟨fault, rfl⟩, _, rfl⟩

theorem Beside.vault (h : Beside w w') : w'.vault = w.vault := by
  obtain ⟨pages, outlines, rfl⟩ := h
  rfl

theorem evicted_now (n : Nat) (id : String) (v : Vault) : (evicted n id v).now = v.now := rfl

/-- Making an answer of what was found: of the entries of the page at most one is there then, and
the entries of other pages are as they were. -/
theorem ends_conclude {id : String} {request : Bindings} {origin : Origin}
    (h : Governed n lifetime ids w) (hLevel : Level n w w') (hFound : Found n id w origin w') :
    Ends (conclude request origin) w'
      (fun _ w'' => Level n w w'' ∧ Visited n lifetime id w.vault w''.vault)
      fun w'' => Level n w w'' ∧ Visited n lifetime id w.vault w''.vault := by
  have hAside : ∀ {w₁ : World} (context : Context) (text : String), Level n w w₁ →
      Visited n lifetime id w.vault w₁.vault →
        Ends (resolveFragments context request text) w₁
          (fun _ w'' => Level n w w'' ∧ Visited n lifetime id w.vault w''.vault)
          fun w'' => Level n w w'' ∧ Visited n lifetime id w.vault w''.vault := by
    intro w₁ context text hLevel₁ hVisited
    have hNext : ∀ w'', Aside w₁ w'' →
        Level n w w'' ∧ Visited n lifetime id w.vault w''.vault := by
      intro w'' hSame
      refine ⟨hLevel₁.trans (.of_aside hLevel₁.tended hSame), ?_⟩
      rw [hSame.vault]
      exact hVisited
    exact Ends.mono (staysAside_resolve context.fragments request text w₁)
      (fun _ w'' => hNext w'') hNext
  cases hFound with
  | compiled hEntry hFragments hBeside =>
    exact hAside _ _ hLevel (hBeside.vault ▸ .served)
  | final hEntry hBeside => exact ends_pure ⟨hLevel, hBeside.vault ▸ .served⟩
  | @body page text _ hMissed hVault hSame hContext =>
    obtain ⟨locator, hContext⟩ := hContext
    have hCache : page.context.cache = some (.shelf n) := by
      rw [hContext]
      exact h.cache
    have hLifetime : page.context.lifetime = lifetime := by
      rw [hContext]
      exact h.lifetime
    unfold conclude
    dsimp only
    rw [hCache]
    dsimp only
    refine Ends.bind (Ends.mono (ends_store text hLevel.tended) (fun _ _ hEnd => hEnd) ?_) ?_
    · rintro w'' ⟨hNext, -, -, deposit, hAfter⟩
      refine ⟨hLevel.trans hNext, ?_⟩
      rw [hAfter, hVault]
      exact .refused hMissed deposit
    · rintro _ w₁ ⟨hNext, hStored⟩
      have hVisited : Visited n lifetime id w.vault w₁.vault := by
        rcases hStored with ⟨-, hAfter⟩ | ⟨-, second, hSecond, hAfter⟩
        · rw [hAfter, hVault]
          exact .evicted hMissed
        · rw [hLifetime, hVault, evicted_now] at hSecond
          rw [hAfter, hVault, hLifetime, hSame]
          refine .stored hMissed ?_ text hSecond
          split
          · exact .inr rfl
          · exact .inl rfl
      split
      · exact hAside _ _ (hLevel.trans hNext) hVisited
      · exact ends_pure ⟨hLevel.trans hNext, hVisited⟩

/-! ## Rendering -/

/-- A site after a request: of its entries, only those of one of the pages were touched. -/
structure Reached (n : Nat) (lifetime : Value) (ids : List String) (w w' : World) : Prop where
  level : Level n w w'
  visited : w'.vault = w.vault ∨ ∃ id ∈ ids, Visited n lifetime id w.vault w'.vault

/-- A request for a page touches the entries of that page alone. -/
theorem ends_render (h : Governed n lifetime ids w)
    (hId : ∀ id, pageId w name vars paths useGlobals = .ok id → id ∈ ids) :
    Ends (render Site.prepare name vars paths useGlobals) w
      (fun _ w' => Reached n lifetime ids w w') fun w' => Reached n lifetime ids w w' := by
  rw [render_eq]
  refine Ends.bind (Ends.mono (ends_visit h hId) (fun _ _ hEnd => hEnd) ?_) ?_
  · rintro w' (⟨rfl, -⟩ | ⟨hLevel, id, hPage, hMissed, hVault⟩)
    · exact ⟨Level.refl h, .inl rfl⟩
    · refine ⟨hLevel, .inr ⟨id, hId id hPage, ?_⟩⟩
      rw [hVault]
      exact .evicted hMissed
  · rintro ⟨request, origin⟩ w' ⟨hLevel, -, id, hPage, hFound⟩
    have hReached : ∀ w'', Level n w w'' ∧ Visited n lifetime id w.vault w''.vault →
        Reached n lifetime ids w w'' :=
      fun w'' hEnd => ⟨hEnd.1, .inr ⟨id, hId id hPage, hEnd.2⟩⟩
    exact Ends.mono (ends_conclude h hLevel hFound) (fun _ w'' => hReached w'') hReached

/-- What a request for a page leaves behind is again such a site. -/
theorem Governed.reached (h : Governed n lifetime ids w) (hApart : Apart ids)
    (hReached : Reached n lifetime ids w w') : Governed n lifetime ids w' := by
  obtain ⟨hLevel, hVisited⟩ := hReached
  have hSettings := hLevel.settings
  refine ⟨hSettings ▸ h.cache, hSettings ▸ h.lifetime, hSettings ▸ h.directives, ?_, hLevel.tended,
    ?_⟩
  · rcases hVisited with hSame | ⟨id, -, hVisited⟩
    · rw [hSame]
      exact h.tidied
    · exact hVisited.tidied h.tidied
  · intro other hOther
    rcases hVisited with hSame | ⟨id, hMem, hVisited⟩
    · rw [hSame]
      exact h.single other hOther
    · by_cases hHere : other = id
      · subst hHere
        exact hVisited.single h.tidied (h.single other hOther) (hApart.final _ hOther _ hOther)
      · have hFinal := hApart.ne hOther hMem (Ne.symm hHere) (.inl rfl)
        have hCompiled := hApart.ne hOther hMem (Ne.symm hHere) (.inr rfl)
        rw [hVisited.untouched h.tidied hFinal.1 hFinal.2,
          hVisited.untouched h.tidied hCompiled.1 hCompiled.2]
        exact h.single other hOther

/-- A live entry of a page stays, whichever page is asked for. -/
theorem Reached.keeps (hReached : Reached n lifetime ids w w') (h : Governed n lifetime ids w)
    (hApart : Apart ids) {id key : String} (hId : id ∈ ids) (hKey : IsKeyOf id key)
    (hLive : (w.vault.shelf n).has w.vault.now key = true) :
    (w'.vault.shelf n).get? key = (w.vault.shelf n).get? key := by
  rcases hReached.visited with hSame | ⟨other, hOther, hVisited⟩
  · rw [hSame]
  · by_cases hHere : other = id
    · subst hHere
      rw [hVisited.keeps_own hKey hLive]
    · have hNe := hApart.ne hId hOther hHere hKey
      exact hVisited.untouched h.tidied hNe.1 hNe.2

theorem Reached.now (hReached : Reached n lifetime ids w w') : w'.vault.now = w.vault.now := by
  rcases hReached.visited with hSame | ⟨_, _, hVisited⟩
  · rw [hSame]
  · exact hVisited.now

/-! ## Live entries -/

theorem Missed.not_has {v : Vault} {id key : String} (h : Missed n id v) (hKey : IsKeyOf id key) :
    (v.shelf n).has v.now key = false := by
  rcases hKey with rfl | rfl
  · exact h.final
  · exact h.compiled

/-- A live entry is where the output of its page is found. -/
theorem found_of_live (h : Governed n lifetime ids w) {id key : String}
    (hPage : pageId w name vars paths useGlobals = .ok id) (hId : id ∈ ids) (hKey : IsKeyOf id key)
    (hLive : (w.vault.shelf n).has w.vault.now key = true) :
    ∃ found w', (visit name vars paths useGlobals).run w = (.ok found, w')
      ∧ requestOf w vars useGlobals = .ok found.1 ∧ Found n id w found.2 w'
        ∧ ∀ page text, found.2 ≠ .body page text := by
  have hOne : ∀ other, pageId w name vars paths useGlobals = .ok other → other = id := by
    intro other hOther
    rw [hPage] at hOther
    exact (Except.ok.inj hOther).symm
  have hNot : ¬ Missed n id w.vault := by
    intro hMissed
    rw [hMissed.not_has hKey] at hLive
    cases hLive
  have hEnds := ends_visit h fun other hOther => hOne other hOther ▸ hId
  rcases hRun : (visit name vars paths useGlobals).run w with ⟨fault | found, w'⟩
  · rcases hEnds.of_run_error hRun with ⟨-, hNone⟩ | ⟨-, other, hOther, hMissed, -⟩
    · exact absurd hPage (hNone id)
    · rw [hOne other hOther] at hMissed
      exact absurd hMissed hNot
  · obtain ⟨-, hRequest, other, hOther, hFound⟩ := hEnds.of_run hRun
    rw [hOne other hOther] at hFound
    refine ⟨found, w', rfl, hRequest, hFound, fun page text hBody => ?_⟩
    rw [hBody] at hFound
    cases hFound with
    | body hMissed => exact hNot hMissed

/-- What a page hands out of its output: static output is an answer as it is, and the fragments of
dynamic output are computed for the request. -/
def handOut (fragments : Fragment.Registry) (request : Bindings) (dynamic : Bool) (text : String) :
    SiteM String :=
  if dynamic then fragments.resolve surroundings request text else return text

/-- A live entry answers a request for its page: nothing else happens but that a page is made. -/
theorem run_render_of_live (h : Governed n lifetime ids w) {id text : String} {dynamic : Bool}
    {second : Number.Binary64}
    (hPage : pageId w name vars paths useGlobals = .ok id) (hId : id ∈ ids)
    (hEntry : (w.vault.shelf n).get? (if dynamic then Identity.compiled id else id)
      = some (Entry.ofContent text second))
    (hLive : (Entry.ofContent text second).isExpired w.vault.now = false) :
    ∃ request w', requestOf w vars useGlobals = .ok request ∧ Beside w w'
      ∧ (render Site.prepare name vars paths useGlobals).run w
        = (handOut w.settings.fragments request dynamic text).run w' := by
  have hKey : IsKeyOf id (if dynamic then Identity.compiled id else id) := by
    cases dynamic with
    | true => exact .inr rfl
    | false => exact .inl rfl
  have hHas := has_eq_true_iff.mpr ⟨_, hEntry, hLive⟩
  obtain ⟨⟨request, origin⟩, w', hRun, hRequest, hFound, hNoBody⟩ :=
    found_of_live h hPage hId hKey hHas
  have hSingle := h.single id hId
  have hRender : (render Site.prepare name vars paths useGlobals).run w
      = (conclude request origin).run w' := by
    rw [render_eq, run_bind_of_ok hRun]
  cases hFound with
  | @compiled page other _ _ hOther hFragments hBeside =>
    refine ⟨request, w', hRequest, hBeside, ?_⟩
    cases dynamic with
    | true =>
      rw [if_pos rfl, hOther, Option.some.injEq] at hEntry
      have hText : other = text := text_eq_of_ofContent hEntry
      rw [hRender, ← hFragments, ← hText]
      rfl
    | false =>
      rw [if_neg Bool.false_ne_true] at hEntry
      rw [hEntry, hOther] at hSingle
      rcases hSingle with hNone | hNone <;> cases hNone
  | @final other _ _ hOther hBeside =>
    refine ⟨request, w', hRequest, hBeside, ?_⟩
    cases dynamic with
    | true =>
      rw [if_pos rfl] at hEntry
      rw [hEntry, hOther] at hSingle
      rcases hSingle with hNone | hNone <;> cases hNone
    | false =>
      rw [if_neg Bool.false_ne_true, hOther, Option.some.injEq] at hEntry
      have hText : other = text := text_eq_of_ofContent hEntry
      rw [hRender, ← hText]
      rfl
  | @body page other => exact absurd rfl (hNoBody page other)

/-! ## Output of a body -/

/-- Output of a body is stored under the key that the mode of its page asks for, and static output
is the answer. -/
theorem run_render_of_body (h : Governed n lifetime ids w)
    (hId : ∀ id, pageId w name vars paths useGlobals = .ok id → id ∈ ids) {request : Bindings}
    {page : Page} {text : String} {second : Number.Binary64}
    (hVisit : (visit name vars paths useGlobals).run w = (.ok (request, .body page text), w'))
    (hMode : page.mode ≠ .disabled) (hSecond : expirySecond w.vault.now lifetime = .ok second) :
    (((render Site.prepare name vars paths useGlobals).run w).2.vault.shelf n).get?
        (if page.isDynamic then Identity.compiled page.id else page.id)
      = some (Entry.ofContent text second)
      ∧ (page.isDynamic = false →
        ((render Site.prepare name vars paths useGlobals).run w).1 = .ok text) := by
  obtain ⟨hLevel, -, id, hPage, hFound⟩ := (ends_visit h hId).of_run hVisit
  have hRender : (render Site.prepare name vars paths useGlobals).run w
      = (conclude request (.body page text)).run w' := by
    rw [render_eq, run_bind_of_ok hVisit]
  rw [hRender]
  cases hFound with
  | body hMissed hVault hSame hContext =>
  obtain ⟨locator, hContext⟩ := hContext
  have hCache : page.context.cache = some (.shelf n) := by
    rw [hContext]
    exact h.cache
  have hNow : expirySecond w'.vault.now page.context.lifetime = .ok second := by
    rw [hVault, evicted_now, hContext]
    exact h.lifetime ▸ hSecond
  -- the rest of the run keeps what the first step stored
  have hStore : Ends (store (.shelf n) page text) w'
      (fun _ w'' => Level n w' w'' ∧ (w''.vault.shelf n).get?
          (if page.isDynamic then Identity.compiled page.id else page.id)
        = some (Entry.ofContent text second)) fun _ => False := by
    refine Ends.mono (ends_store text hLevel.tended) ?_ ?_
    · rintro _ w'' ⟨hNext, ⟨hDisabled, -⟩ | ⟨-, found, hFound, hAfter⟩⟩
      · exact absurd hDisabled hMode
      · rw [hNow] at hFound
        cases hFound
        refine ⟨hNext, ?_⟩
        rw [hAfter, shelf_stored (hVault ▸ h.tidied.evicted id)]
        exact Table.get?_insert_self _ _ _
    · rintro w'' ⟨-, -, ⟨fault, hFault⟩, -⟩
      rw [hNow] at hFault
      cases hFault
  unfold conclude
  dsimp only
  rw [hCache]
  dsimp only
  rcases hRun : (store (.shelf n) page text).run w' with ⟨fault | _, w₁⟩
  · exact (hStore.of_run_error hRun).elim
  · obtain ⟨-, hEntry⟩ := hStore.of_run hRun
    rw [run_bind_of_ok hRun]
    cases hDynamic : page.isDynamic with
    | false =>
      rw [hDynamic] at hEntry
      exact ⟨hEntry, fun _ => rfl⟩
    | true =>
      rw [hDynamic] at hEntry
      refine ⟨?_, nofun⟩
      have hAside := (staysAside_resolve page.context.fragments request text).run w₁
      rw [if_pos rfl, resolveFragments, hAside.vault]
      exact hEntry

/-- A site whose cache holds nothing that it did not hold; nothing was handed to the cache
either. -/
structure Unfed (n : Nat) (w w' : World) : Prop where
  deposits : w'.vault.deposits = w.vault.deposits
  entries : ∀ key entry, (w'.vault.shelf n).get? key = some entry →
    (w.vault.shelf n).get? key = some entry

theorem unfed_of_evicted {id : String} (h : Tidied n w.vault)
    (hVault : w'.vault = evicted n id w.vault) :
    Unfed n w w' := by
  refine ⟨by rw [hVault]; rfl, fun key entry hFound => ?_⟩
  rw [hVault] at hFound
  by_cases hKey : IsKeyOf id key
  · rw [get?_evicted h hKey] at hFound
    cases hFound
  · rw [get?_evicted_of_ne h (fun hSame => hKey (.inl hSame))
      fun hSame => hKey (.inr hSame)] at hFound
    exact hFound

/-- A request whose first half fails stores nothing. -/
theorem unfed_of_visit_error (h : Governed n lifetime ids w)
    (hId : ∀ id, pageId w name vars paths useGlobals = .ok id → id ∈ ids) {fault : Fault}
    (hVisit : (visit name vars paths useGlobals).run w = (.error fault, w')) :
    Unfed n w ((render Site.prepare name vars paths useGlobals).run w).2 := by
  have hRender : (render Site.prepare name vars paths useGlobals).run w = (.error fault, w') := by
    rw [render_eq]
    exact run_bind_of_error hVisit _
  rw [hRender]
  rcases (ends_visit h hId).of_run_error hVisit with ⟨rfl, -⟩ | ⟨-, id, -, hFailed⟩
  · exact ⟨rfl, fun _ _ hFound => hFound⟩
  · exact unfed_of_evicted h.tidied hFailed.vault

/-- A body that leaves its page with caching switched off has its output not stored. -/
theorem unfed_of_disabled (h : Governed n lifetime ids w)
    (hId : ∀ id, pageId w name vars paths useGlobals = .ok id → id ∈ ids) {request : Bindings}
    {page : Page} {text : String}
    (hVisit : (visit name vars paths useGlobals).run w = (.ok (request, .body page text), w'))
    (hMode : page.mode = .disabled) :
    Unfed n w ((render Site.prepare name vars paths useGlobals).run w).2 := by
  obtain ⟨hLevel, -, id, hPage, hFound⟩ := (ends_visit h hId).of_run hVisit
  have hRender : (render Site.prepare name vars paths useGlobals).run w
      = (handOut page.context.fragments request page.isDynamic text).run w' := by
    rw [render_eq, run_bind_of_ok hVisit]
    unfold conclude store
    dsimp only
    cases page.context.cache with
    | some cache =>
      dsimp only
      rw [if_pos hMode]
      rfl
    | none => rfl
  cases hFound with
  | body hMissed hVault hSame hContext =>
  refine unfed_of_evicted h.tidied (?_ : _ = evicted n id w.vault)
  rw [hRender, ← hVault]
  unfold handOut
  split
  · exact ((staysAside_resolve page.context.fragments request text).run w').vault
  · rfl

end Entries

end PageBlocks.Policy
