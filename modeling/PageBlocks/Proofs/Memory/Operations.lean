import PageBlocks.Proofs.Memory.Runs

/-!
# Operations that remember their texts

A cacheable block, a template that is included by way of the cache and an address that is fetched
by way of the cache each have a key (`Memoised.term`). If the cache has a text under it, the
operation gives that and does nothing else (`run_of_found`). If not, it looks the key up in vain,
computes its text, stores it and gives it (`recomputes_of_missed`). While the text is computed, the
caches go through events of their own: children may be cacheable, and so may be all that an included
template does.
-/

set_option autoImplicit false

namespace PageBlocks.Memory

open PageBlocks.Cache PageBlocks.Confinement PageBlocks.Deferral PageBlocks.Policy
  PageBlocks.Running PageBlocks.Site PageBlocks.Storage PageBlocks.Time PageBlocks.Upkeep

/-! ## Operations -/

/-- An operation that remembers its text: a cacheable block, a template that is included by way of
the cache, and a text that is fetched by way of the cache. -/
inductive Memoised where
  | block (o : Outline) (depth i : Nat) (default : Value)
  | cachedInclude (p : Nat) (name vars lifetime : Value)
  | cachedFetch (p : Nat) (url lifetime : Value)

/-- Carry an operation out. -/
def Memoised.run (cache : Ref) (prepare : Nat → SiteM Unit) : Memoised → SiteM String
  | block o depth i default => onVault (o.renderFrom (depth + 1) (some ⟨cache, default⟩) i)
  | cachedInclude p name vars lifetime => Site.cachedInclude prepare p name vars lifetime
  | cachedFetch p url lifetime => Site.cachedFetch p url lifetime

/-- The key under which an operation remembers its text, and for how long. -/
def Memoised.term (w : World) : Memoised → Option (String × Value)
  | block o _ i default =>
    match o.block? i with
    | some b => if b.kind = .cacheable then some (b.id, lifetimeOr b.lifetime default) else none
    | none => none
  | cachedInclude p name vars lifetime =>
    match (relatedPage p name vars).run w with
    | (.ok other, w₁) => (w₁.pages[other]?).map fun page => (page.id, lifetime)
    | (.error _, _) => none
  | cachedFetch p url lifetime =>
    (w.pages[p]?).map fun page => (Identity.fetch page.id url.print, lifetime)

/-- What an operation does to the caches that finds no text: it looks for the key in vain, things
happen while the text is computed, and then the text is stored. -/
structure Recomputes (cache : Ref) (key text : String) (lifetime : Value) (v u v' : Vault) :
    Prop where
  missed : entry cache key v = .ok none
  computed : ∃ events, u = course cache v (.look key :: events)
  stored : (cache.put key text (some lifetime)).run u = (.ok (), v')

section Operations

variable {cache : Ref} {key text : String} {lifetime : Value} {v v' u : Vault} {w w' : World}
  {p : Nat} {prepare : Nat → SiteM Unit}

/-! ## Hits -/

/-- An entry that is found stays where it is. -/
theorem afterFetch_of_found (h : entry cache key v = .ok (some text)) :
    afterFetch cache key v = v := by
  cases cache with
  | shelf n =>
    have hKept : ((v.shelf n).get v.now key).2 = v.shelf n := by
      unfold entry reading Shelf.get at h
      unfold Shelf.get
      dsimp only at h
      split at h
      · split at h
        · cases h
        · rename_i hLive
          simp only [*]
          rfl
      · cases h
    rw [afterFetch, hKept, setShelf_shelf]
  | folder name => rfl

theorem run_lookup_of_found (h : entry cache key v = .ok (some text)) :
    (cache.lookup key).run v = (.ok (some text), v) := by
  rw [Storage.run_lookup, h, afterFetch_of_found h]

/-- What is in the cache is not computed. -/
theorem run_remembered_of_found (compute : SiteM String)
    (h : entry cache key w.vault = .ok (some text)) :
    (remembered cache key lifetime compute).run w = (.ok text, w) := by
  unfold remembered
  rw [run_bind_of_ok (run_onVault (run_lookup_of_found h))]
  rfl

theorem beside_newPage {place : Place} {vars : Bindings} {settings : Context} {chain : List Place}
    {b : Nat} (hRun : (newPage place vars settings chain).run w = (.ok b, w')) : Beside w w' := by
  obtain ⟨id, -, -, rfl⟩ := Progress.run_newPage_eq_ok hRun
  exact ⟨_, _, rfl⟩

theorem exists_page_of_related {name vars : Value} {other : Nat}
    (hRun : (relatedPage p name vars).run w = (.ok other, w')) :
    ∃ page, w.pages[p]? = some page := by
  cases hPage : w.pages[p]? with
  | some page => exact ⟨page, rfl⟩
  | none =>
    unfold relatedPage at hRun
    rw [run_bind_of_error (run_page_error hPage)] at hRun
    cases hRun

theorem beside_relatedPage {name vars : Value} {other : Nat}
    (hRun : (relatedPage p name vars).run w = (.ok other, w')) : Beside w w' := by
  obtain ⟨page, hPage⟩ := exists_page_of_related hRun
  unfold relatedPage at hRun
  rw [run_bind_of_ok (run_page hPage)] at hRun
  obtain ⟨place, w₁, hPlace, hRest⟩ := run_bind_eq_ok hRun
  obtain ⟨more, w₂, hMore, hNew⟩ := run_bind_eq_ok hRest
  obtain rfl : w = w₁ := by
    have hLocated := run_locate page.context.locator name [page.path.parent] w
    exact congrArg Prod.snd (hLocated.symm.trans hPlace)
  obtain ⟨-, rfl⟩ := eq_of_run_check hMore
  exact beside_newPage hNew

theorem beside_track (text : String) (w : World) :
    ∃ w', (track p text).run w = (.ok text, w') ∧ Beside w w' := by
  unfold track
  split
  · exact ⟨_, rfl, _, _, rfl⟩
  · exact ⟨_, rfl, Beside.refl w⟩

theorem run_requireCache {page : Page} (h : page.context.cache = some cache) (w : World) :
    (requireCache page).run w = (.ok cache, w) := by
  unfold requireCache
  rw [h]
  rfl

/-- The output of a cacheable block goes by way of the cache. -/
theorem renderFrom_cacheable {o : Outline} {i : Nat} {b : Block} (hBlock : o.block? i = some b)
    (hKind : b.kind = .cacheable) (depth : Nat) (memo : Memo) :
    o.renderFrom (depth + 1) (some memo) i
      = Outline.remembered memo b (Outline.compose (o.renderFrom depth (some memo)) o b) := by
  rw [Outline.renderFrom, hBlock]
  dsimp only
  rw [hKind]

theorem exists_block_of_term {o : Outline} {depth i : Nat} {default : Value}
    (h : (Memoised.block o depth i default).term w = some (key, lifetime)) :
    ∃ b, o.block? i = some b ∧ b.kind = .cacheable ∧ b.id = key
      ∧ lifetimeOr b.lifetime default = lifetime := by
  dsimp only [Memoised.term] at h
  split at h
  · rename_i b hBlock
    split at h
    · rename_i hKind
      cases h
      exact ⟨b, hBlock, hKind, rfl, rfl⟩
    · cases h
  · cases h

theorem exists_page_of_term {name vars own : Value}
    (h : (Memoised.cachedInclude p name vars own).term w = some (key, lifetime)) :
    ∃ other w₁ included, (relatedPage p name vars).run w = (.ok other, w₁)
      ∧ w₁.pages[other]? = some included ∧ included.id = key ∧ own = lifetime := by
  dsimp only [Memoised.term] at h
  split at h
  · rename_i other w₁ hRelated
    obtain ⟨included, hIncluded, hTerm⟩ := Option.map_eq_some_iff.mp h
    cases hTerm
    exact ⟨other, w₁, included, hRelated, hIncluded, rfl, rfl⟩
  · cases h

/-- An operation that finds its text gives it and does nothing else, but for a page that is made and
never prepared. -/
theorem run_of_found (hSingle : Single cache w) (op : Memoised)
    (hTerm : op.term w = some (key, lifetime))
    (h : entry cache key w.vault = .ok (some text)) (prepare : Nat → SiteM Unit) :
    ∃ w', (op.run cache prepare).run w = (.ok text, w') ∧ Beside w w' := by
  cases op with
  | block o depth i default =>
    obtain ⟨b, hBlock, hKind, hId, -⟩ := exists_block_of_term hTerm
    subst hId
    refine ⟨w, ?_, Beside.refl w⟩
    rw [Memoised.run, renderFrom_cacheable hBlock hKind]
    refine run_onVault ?_
    unfold Outline.remembered
    rw [run_bind_of_ok (run_lookup_of_found h)]
    rfl
  | cachedInclude p name vars own =>
    obtain ⟨other, w₁, included, hRelated, hIncluded, hId, -⟩ := exists_page_of_term hTerm
    obtain ⟨page, hPage⟩ := exists_page_of_related hRelated
    have hBeside := beside_relatedPage hRelated
    have hFragment : (rememberedFragment prepare p name vars own).run w = (.ok text, w₁) := by
      unfold rememberedFragment
      rw [run_bind_of_ok (run_page hPage),
        run_bind_of_ok (run_requireCache (hSingle.pages p page hPage).cache w),
        run_bind_of_ok hRelated, run_bind_of_ok (run_page hIncluded), hId]
      exact run_remembered_of_found _ (by rw [hBeside.vault]; exact h)
    obtain ⟨w', hTracked, hAlso⟩ := beside_track text w₁
    refine ⟨w', ?_, hBeside.trans hAlso⟩
    rw [Memoised.run, cachedInclude_eq, run_bind_of_ok hFragment]
    exact hTracked
  | cachedFetch p url own =>
    obtain ⟨page, hPage, hTerm⟩ := Option.map_eq_some_iff.mp hTerm
    obtain ⟨rfl, rfl⟩ := Prod.mk.inj hTerm
    refine ⟨w, ?_, Beside.refl w⟩
    rw [Memoised.run]
    unfold Site.cachedFetch
    rw [run_bind_of_ok (run_page hPage),
      run_bind_of_ok (run_requireCache (hSingle.pages p page hPage).cache w)]
    exact run_remembered_of_found _ h

/-! ## Misses -/

theorem run_onVault_eq_ok {α : Type} {x : VaultM α} {a : α}
    (hRun : (onVault x).run w = (.ok a, w')) :
    ∃ v, x.run w.vault = (.ok a, v) ∧ w' = { w with vault := v } := by
  unfold onVault at hRun
  rw [run_bind_of_ok (run_get w)] at hRun
  rcases hGives : x.run w.vault with ⟨fault | b, v⟩
  · rw [hGives] at hRun
    cases hRun
  · rw [hGives] at hRun
    cases hRun
    exact ⟨v, rfl, rfl⟩

theorem run_lookup_of_missed (h : entry cache key v = .ok none) :
    (cache.lookup key).run v = (.ok none, (Event.look key).after cache v) := by
  rw [Event.after, Storage.run_lookup, h]

/-- A cacheable block that is not in the cache gives and stores what composing its content with its
children gives, and fails if that fails. -/
theorem run_block_of_missed {o : Outline} {i : Nat} {b : Block} (hBlock : o.block? i = some b)
    (hKind : b.kind = .cacheable) (depth : Nat) (default : Value)
    (h : entry cache b.id v = .ok none) :
    (o.renderFrom (depth + 1) (some ⟨cache, default⟩) i).run v = (do
      let text ← Outline.compose (o.renderFrom depth (some ⟨cache, default⟩)) o b
      cache.put b.id text (some (lifetimeOr b.lifetime default))
      return text : VaultM String).run ((Event.look b.id).after cache v) := by
  rw [renderFrom_cacheable hBlock hKind]
  unfold Outline.remembered
  rw [run_bind_of_ok (run_lookup_of_missed h)]
  dsimp only
  unfold lifetimeOr
  cases b.lifetime <;> rfl

/-- A text that is computed, stored and given. -/
theorem recomputes_of_run {x : VaultM String} (hMissed : entry cache key v = .ok none)
    (hPasses : Passes (onSingle cache) x)
    (hRun : (do
      let text ← x
      cache.put key text (some lifetime)
      return text : VaultM String).run ((Event.look key).after cache v) = (.ok text, v')) :
    ∃ u, Recomputes cache key text lifetime v u v' := by
  obtain ⟨found, u, hComputed, hRest⟩ := run_bind_eq_ok hRun
  obtain ⟨_, v₁, hStored, hGiven⟩ := run_bind_eq_ok hRest
  cases hGiven
  obtain ⟨events, hEvents⟩ := hPasses ((Event.look key).after cache v)
  rw [hComputed] at hEvents
  exact ⟨u, hMissed, ⟨events, hEvents⟩, hStored⟩

theorem recomputes_of_run_remembered {compute : SiteM String} (hSingle : Single cache w)
    (hMissed : entry cache key w.vault = .ok none)
    (hCompute : ∀ w₁, Single cache w₁ → Goes cache w₁ (compute.run w₁).2)
    (hRun : (remembered cache key lifetime compute).run w = (.ok text, w')) :
    ∃ u, Recomputes cache key text lifetime w.vault u w'.vault := by
  unfold remembered at hRun
  rw [run_bind_of_ok (run_onVault (run_lookup_of_missed hMissed))] at hRun
  obtain ⟨found, w₁, hComputed, hRest⟩ := run_bind_eq_ok hRun
  obtain ⟨_, w₂, hPut, hGiven⟩ := run_bind_eq_ok hRest
  cases hGiven
  obtain ⟨v', hStored, rfl⟩ := run_onVault_eq_ok hPut
  have hGoes := hCompute { w with vault := (Event.look key).after cache w.vault }
    ⟨hSingle.settings, hSingle.pages⟩
  rw [hComputed] at hGoes
  obtain ⟨events, hEvents⟩ := hGoes.vault
  exact ⟨w₁.vault, hMissed, ⟨events, hEvents⟩, hStored⟩

theorem vault_track {w₁ w₂ : World} {given : String}
    (hRun : (track p given).run w₁ = (.ok text, w₂)) : text = given ∧ w₂.vault = w₁.vault := by
  obtain ⟨w', hTracked, hBeside⟩ := beside_track given w₁
  rw [hTracked] at hRun
  cases hRun
  exact ⟨rfl, hBeside.vault⟩

/-- An operation that finds nothing computes its text and stores it. -/
theorem recomputes_of_missed (hSingle : Single cache w) (op : Memoised)
    (hTerm : op.term w = some (key, lifetime)) (hMissed : entry cache key w.vault = .ok none)
    (hPrepare : (onSingle cache).Prepares prepare)
    (hRun : (op.run cache prepare).run w = (.ok text, w')) :
    ∃ u, Recomputes cache key text lifetime w.vault u w'.vault := by
  cases op with
  | block o depth i default =>
    obtain ⟨b, hBlock, hKind, rfl, rfl⟩ := exists_block_of_term hTerm
    obtain ⟨v', hGives, rfl⟩ :=
      run_onVault_eq_ok (x := o.renderFrom (depth + 1) (some ⟨cache, default⟩) i) hRun
    rw [run_block_of_missed hBlock hKind depth default hMissed] at hGives
    exact recomputes_of_run hMissed (passes_compose o b (passes_block hSingle o depth default))
      hGives
  | cachedInclude p name vars own =>
    obtain ⟨other, w₁, included, hRelated, hIncluded, rfl, rfl⟩ := exists_page_of_term hTerm
    obtain ⟨page, hPage⟩ := exists_page_of_related hRelated
    rw [Memoised.run, cachedInclude_eq] at hRun
    obtain ⟨given, w₂, hFragment, hTracked⟩ := run_bind_eq_ok hRun
    obtain ⟨rfl, hVault⟩ := vault_track hTracked
    unfold rememberedFragment at hFragment
    rw [run_bind_of_ok (run_page hPage),
      run_bind_of_ok (run_requireCache (hSingle.pages p page hPage).cache w),
      run_bind_of_ok hRelated, run_bind_of_ok (run_page hIncluded)] at hFragment
    have hMakes : Ends (relatedPage p name vars) w (fun _ w' => True ∧ Goes cache w w')
        (Goes cache w) := ends_relatedPage (L := onSingle cache) hSingle p name vars (Goes.refl w)
    have hRenders : ∀ w₂, Single cache w₂ →
        Upholds (Goes cache w₂) (renderPage prepare other) fun _ => True :=
      fun w₂ hSingle₂ _ hGoes => ends_renderPage hPrepare hSingle₂ hGoes trivial
    have hSame : w₁.vault = w.vault := (beside_relatedPage hRelated).vault
    rw [hVault, ← hSame]
    rw [← hSame] at hMissed
    exact recomputes_of_run_remembered ((hMakes.of_run hRelated).2.single hSingle) hMissed
      (fun w₂ hSingle₂ => (hRenders w₂ hSingle₂).run (Goes.refl w₂)) hFragment
  | cachedFetch p url own =>
    obtain ⟨page, hPage, hTerm⟩ := Option.map_eq_some_iff.mp hTerm
    obtain ⟨rfl, rfl⟩ := Prod.mk.inj hTerm
    rw [Memoised.run] at hRun
    unfold Site.cachedFetch at hRun
    rw [run_bind_of_ok (run_page hPage),
      run_bind_of_ok (run_requireCache (hSingle.pages p page hPage).cache w)] at hRun
    refine recomputes_of_run_remembered hSingle hMissed (fun w₁ hSingle₁ => ?_) hRun
    have hAside := (staysAside_fetch url).run w₁
    refine Goes.of_same hAside.pages hAside.settings ?_
    rw [hAside.vault]
    exact Eventful.refl _

end Operations

end PageBlocks.Memory
