import PageBlocks.Proofs.Memory.Operations

/-!
# Texts are computed again on a miss only

An operation that remembers its text finds it until the lifetime of the entry is over or something
else is stored in its place. So if two operations compute the text of one key, the second one after
the first one has ended, and nothing else is stored there, then the lifetime of what the first one
stored is over when the second one stores (`Recomputes.over`, `computed_on_miss_only`).

A lifetime of whole seconds that is over has passed. In a folder that is exact. The second at which
an entry on a shelf expires is a double; up to `2 ^ 32` seconds that is exact to the microsecond and
up to `2 ^ 53` it is exact for clocks that show whole seconds. Beyond that the sum is rounded, and
an entry may be gone a second early (`computed_early`).
-/

set_option autoImplicit false

namespace PageBlocks.Memory

open PageBlocks.Body PageBlocks.Cache PageBlocks.Number PageBlocks.Policy PageBlocks.Running
  PageBlocks.Site PageBlocks.Storage PageBlocks.Time

section Misses

variable {cache : Ref} {key text text' : String} {lifetime lifetime' : Value}
  {v v' v'' u u' : Vault} {w w' : World} {events : List Event}

/-! ## Between two computations -/

theorem length_shelves_after (event : Event) (v : Vault) :
    (event.after cache v).shelves.length = v.shelves.length := by
  cases event with
  | look key =>
    rw [Event.after, Storage.run_lookup]
    cases cache with
    | shelf n => exact List.length_set
    | folder name => rfl
  | store key content lifetime =>
    rw [Event.after]
    cases cache with
    | shelf n =>
      cases hSecond : expirySecond v.now lifetime with
      | error fault => rw [run_put_shelf_error content hSecond]
      | ok second =>
        rw [run_put_shelf content hSecond]
        exact List.length_set
    | folder name =>
      rw [run_put_inFolder]
      rfl
  | wait micros => rfl

/-- Shelves stay. -/
theorem Present.course (h : Present cache v) (events : List Event) :
    Present cache (course cache v events) := by
  induction events generalizing v with
  | nil => exact h
  | cons event rest ih =>
    refine ih ?_
    cases cache with
    | shelf n =>
      have hBound : n < v.shelves.length := h
      rw [← @length_shelves_after (.shelf n) event v] at hBound
      exact hBound
    | folder name => trivial

/-- Storing takes no time. -/
theorem Recomputes.now_eq (h : Recomputes cache key text lifetime v u v') : u.now = v'.now := by
  have hNow := @now_put cache key text lifetime u
  rw [h.stored] at hNow
  exact hNow.symm

/-- What is computed again was stored so long ago that its lifetime is over, unless something was
stored in its place. -/
theorem Recomputes.over (hPresent : Present cache v)
    (h : Recomputes cache key text lifetime v u v')
    (hSpared : ∀ event ∈ events, event.replaces cache key = false)
    (h' : Recomputes cache key text' lifetime' (course cache v' events) u' v'') :
    Over cache u.now lifetime u'.now := by
  obtain ⟨before, rfl⟩ := h.computed
  obtain ⟨after, rfl⟩ := h'.computed
  refine Over.later (?_ : Over cache _ lifetime (course cache v' events).now) (now_le_course _ _)
  by_contra hLive
  have hFound := run_lookup_course (hPresent.course _) h.stored hSpared hLive
  rw [run_lookup_of_missed h'.missed] at hFound
  cases hFound

/-- An entry is there, with its text, until its lifetime is over or something is stored in its
place. -/
theorem entry_course (hPresent : Present cache v)
    (hRun : (cache.put key text (some lifetime)).run v = (.ok (), v'))
    (hSpared : ∀ event ∈ events, event.replaces cache key = false)
    (hLive : ¬ Over cache v.now lifetime (course cache v' events).now) :
    entry cache key (course cache v' events) = .ok (some text) := by
  have hFound := run_lookup_course hPresent hRun hSpared hLive
  rw [Storage.run_lookup] at hFound
  exact congrArg Prod.fst hFound

/-! ## Runs of a site -/

/-- An operation does not find its text and gives one. -/
structure Memoised.Misses (cache : Ref) (op : Memoised) (depth : Nat) (key text : String)
    (lifetime : Value) (w w' : World) : Prop where
  term : op.term w = some (key, lifetime)
  missed : entry cache key w.vault = .ok none
  gives : (op.run cache (prepareFrom depth)).run w = (.ok text, w')

theorem Memoised.Misses.recomputes (hSingle : Single cache w) {op : Memoised} {depth : Nat}
    (h : op.Misses cache depth key text lifetime w w') :
    ∃ u, Recomputes cache key text lifetime w.vault u w'.vault :=
  recomputes_of_missed hSingle op h.term h.missed (prepares_onSingle cache depth) h.gives

/-- On a site with one cache, an operation that remembers its text computes it on a miss only.

- A stored text is there until its lifetime is over or something is stored in its place.
- An operation whose text is there gives that text, whatever preparing pages may do: a page that it
  makes is never prepared. No body runs, nothing is fetched, and the caches stay as they are.
- A cacheable block whose text is not there gives and stores what composing its content with its
  children gives.
- If an operation misses, and a later one misses under the same key although nothing was stored
  there after the first one had ended, both compute and store their texts, and when the second one
  stores, the lifetime of what the first one stored is over.
- Preparing pages, what their bodies call, rendering blocks and gentle requests keep that one cache,
  and lead the caches through events. -/
theorem computed_on_miss_only (hSingle : Single cache w) (hPresent : Present cache w.vault) :
    (∀ key text lifetime v' events,
      (cache.put key text (some lifetime)).run w.vault = (.ok (), v') →
      (∀ event ∈ events, event.replaces cache key = false) →
      ¬ Over cache w.vault.now lifetime (course cache v' events).now →
        entry cache key (course cache v' events) = .ok (some text))
    ∧ (∀ (op : Memoised) key text lifetime, op.term w = some (key, lifetime) →
      entry cache key w.vault = .ok (some text) →
        ∀ prepare, ∃ w', (op.run cache prepare).run w = (.ok text, w') ∧ Beside w w')
    ∧ (∀ (o : Outline) i b depth default, o.block? i = some b → b.kind = .cacheable →
      entry cache b.id w.vault = .ok none →
        (o.renderFrom (depth + 1) (some ⟨cache, default⟩) i).run w.vault = (do
          let text ← Outline.compose (o.renderFrom depth (some ⟨cache, default⟩)) o b
          cache.put b.id text (some (lifetimeOr b.lifetime default))
          return text : VaultM String).run ((Event.look b.id).after cache w.vault))
    ∧ (∀ (op op' : Memoised) depth depth' key text text' lifetime lifetime' w₁ w₂ w₃ events,
      op.Misses cache depth key text lifetime w w₁ →
      Single cache w₂ → w₂.vault = course cache w₁.vault events →
      (∀ event ∈ events, event.replaces cache key = false) →
      op'.Misses cache depth' key text' lifetime' w₂ w₃ →
        ∃ u u', Recomputes cache key text lifetime w.vault u w₁.vault
          ∧ Recomputes cache key text' lifetime' w₂.vault u' w₃.vault
          ∧ Over cache u.now lifetime u'.now
          ∧ ∀ seconds, lifetime = .int seconds → Elapsed cache u.now seconds u'.now)
    ∧ (∀ depth p, Goes cache w ((prepareFrom depth p).run w).2)
    ∧ (∀ depth callee arguments named,
      Goes cache w ((call (prepareFrom depth) callee arguments named).run w).2)
    ∧ (∀ (o : Outline) depth default i,
      Goes cache w ((onVault (o.renderFrom depth (some ⟨cache, default⟩) i)).run w).2)
    ∧ ∀ history, (∀ r ∈ history, IsGentle r) → Goes cache w (after w history) := by
  refine ⟨?stays, ?found, ?anew, ?apart, ?pages, ?calls, ?blocks, ?requests⟩
  case stays => exact fun _ _ _ _ _ hRun hSpared hLive => entry_course hPresent hRun hSpared hLive
  case found =>
    exact fun op _ _ _ hTerm hFound prepare => run_of_found hSingle op hTerm hFound prepare
  case anew =>
    exact fun _ _ _ depth default hBlock hKind hMissed =>
      run_block_of_missed hBlock hKind depth default hMissed
  case apart =>
    intro op op' depth depth' key text text' lifetime lifetime' w₁ w₂ w₃ events hFirst hSingle₂
      hCourse hSpared hSecond
    obtain ⟨u, hFirstAnew⟩ := hFirst.recomputes hSingle
    obtain ⟨u', hSecondAnew⟩ := hSecond.recomputes hSingle₂
    have hOver : Over cache u.now lifetime u'.now :=
      hFirstAnew.over hPresent hSpared (hCourse ▸ hSecondAnew)
    refine ⟨u, u', hFirstAnew, hSecondAnew, hOver, ?_⟩
    rintro seconds rfl
    exact hOver.elapsed
  case pages => exact goes_prepare hSingle
  case calls => exact goes_call hSingle
  case blocks => exact goes_block hSingle
  case requests => exact fun _ hGentle => goes_after hSingle hGentle

theorem misses_of_toOption {op : Memoised} {depth : Nat} (hTerm : op.term w = some (key, lifetime))
    (hMissed : (entry cache key w.vault).toOption = some none)
    (hGives : ((op.run cache (prepareFrom depth)).run w).1.toOption = some text) :
    op.Misses cache depth key text lifetime w ((op.run cache (prepareFrom depth)).run w).2 :=
  ⟨hTerm, eq_ok_of_toOption hMissed, Prod.ext (eq_ok_of_toOption hGives) rfl⟩

end Misses

/-- A site with an empty shelf, one second after the epoch. -/
def shelfSite : World where
  vault := { now := Instant.ofSeconds 1, shelves := [[]] }
  settings := { cache := some (.shelf 0) }

/-- A cacheable block whose text lives for some seconds. -/
def notice (seconds : Int) : Memoised :=
  .block { blocks := [{
    owner := "page"
    name := .text "x"
    id := "x"
    kind := .cacheable
    lifetime := .int seconds
    content := "A" }] } 0 0 .null

/-- The site after the block was asked for. -/
def noticed (seconds : Int) (w : World) : World :=
  (((notice seconds).run (.shelf 0) (prepareFrom 0)).run w).2

/-- A site some seconds later. -/
def later (w : World) (seconds : Nat) : World :=
  { w with vault := course (.shelf 0) w.vault [.wait (seconds * Instant.perSecond)] }

theorem single_shelfSite : Single (.shelf 0) shelfSite where
  settings := ⟨rfl, fun _ _ hKnown => by cases hKnown⟩
  pages _ _ hPage := by cases hPage

theorem single_later {w : World} (h : Single (.shelf 0) w) (seconds : Nat) :
    Single (.shelf 0) (later w seconds) :=
  ⟨h.settings, h.pages⟩

theorem spared_wait (cache : Ref) (key : String) (micros : Nat) :
    ∀ event ∈ [Event.wait micros], event.replaces cache key = false :=
  List.forall_mem_singleton.mpr rfl

/-- The text of the block lives for ten minutes, and is computed again after these. -/
theorem computed_after_ten_minutes : ∃ u u',
    Recomputes (.shelf 0) "x" "A" (.int 600) shelfSite.vault u (noticed 600 shelfSite).vault
      ∧ Recomputes (.shelf 0) "x" "A" (.int 600) (later (noticed 600 shelfSite) 600).vault u'
        (noticed 600 (later (noticed 600 shelfSite) 600)).vault
      ∧ u.now.micros + 600 * Instant.perSecond ≤ u'.now.micros := by
  have hFirst : (notice 600).Misses (.shelf 0) 0 "x" "A" (.int 600) shelfSite
      (noticed 600 shelfSite) :=
    misses_of_toOption rfl (by decide +kernel) (by decide +kernel)
  have hSecond : (notice 600).Misses (.shelf 0) 0 "x" "A" (.int 600)
      (later (noticed 600 shelfSite) 600) (noticed 600 (later (noticed 600 shelfSite) 600)) :=
    misses_of_toOption rfl (by decide +kernel) (by decide +kernel)
  have hSingle : Single (.shelf 0) (noticed 600 shelfSite) :=
    ⟨single_shelfSite.settings, single_shelfSite.pages⟩
  obtain ⟨u, u', hAnew, hAgain, -, hElapsed⟩ :=
    (computed_on_miss_only single_shelfSite Nat.one_pos).2.2.2.1 (notice 600) (notice 600) 0 0 "x"
      "A" "A" (.int 600) (.int 600) _ _ _ _ hFirst (single_later hSingle 600) rfl
      (spared_wait _ _ _) hSecond
  have hMeasured : Measured u.now 600 u'.now := by
    rw [hAnew.now_eq, hAgain.now_eq]
    exact .fine (by decide +kernel) (by decide +kernel) (by decide +kernel)
  exact ⟨u, u', hAnew, hAgain, hElapsed 600 rfl hMeasured⟩

/-- A lifetime of `2 ^ 53` seconds that begins with the first second ends one second early, as the
sum is rounded: the block is computed again, and stored again, before its lifetime is over. -/
theorem computed_early : ∃ (w w₁ w₂ w₃ : World) (op : Memoised) (micros : Nat) (u u' : Vault),
    Single (.shelf 0) w ∧ Present (.shelf 0) w.vault
      ∧ op.Misses (.shelf 0) 0 "x" "A" (.int (2 ^ 53)) w w₁
      ∧ Single (.shelf 0) w₂ ∧ w₂.vault = course (.shelf 0) w₁.vault [.wait micros]
      ∧ op.Misses (.shelf 0) 0 "x" "A" (.int (2 ^ 53)) w₂ w₃
      ∧ Recomputes (.shelf 0) "x" "A" (.int (2 ^ 53)) w.vault u w₁.vault
      ∧ Recomputes (.shelf 0) "x" "A" (.int (2 ^ 53)) w₂.vault u' w₃.vault
      ∧ u'.now.micros < u.now.micros + 2 ^ 53 * Instant.perSecond := by
  have hFirst : (notice (2 ^ 53)).Misses (.shelf 0) 0 "x" "A" (.int (2 ^ 53)) shelfSite
      (noticed (2 ^ 53) shelfSite) :=
    misses_of_toOption rfl (by decide +kernel) (by decide +kernel)
  have hSecond : (notice (2 ^ 53)).Misses (.shelf 0) 0 "x" "A" (.int (2 ^ 53))
      (later (noticed (2 ^ 53) shelfSite) (2 ^ 53 - 1))
      (noticed (2 ^ 53) (later (noticed (2 ^ 53) shelfSite) (2 ^ 53 - 1))) :=
    misses_of_toOption rfl (by decide +kernel) (by decide +kernel)
  have hSingle : Single (.shelf 0) (noticed (2 ^ 53) shelfSite) :=
    ⟨single_shelfSite.settings, single_shelfSite.pages⟩
  have hClock :
      (noticed (2 ^ 53) (later (noticed (2 ^ 53) shelfSite) (2 ^ 53 - 1))).vault.now.micros
        < (noticed (2 ^ 53) shelfSite).vault.now.micros + 2 ^ 53 * Instant.perSecond := by
    decide +kernel
  obtain ⟨u, hAnew⟩ := hFirst.recomputes single_shelfSite
  obtain ⟨u', hAgain⟩ := hSecond.recomputes (single_later hSingle (2 ^ 53 - 1))
  rw [← hAnew.now_eq, ← hAgain.now_eq] at hClock
  exact ⟨_, _, _, _, _, _, u, u', single_shelfSite, Nat.one_pos, hFirst, single_later hSingle _,
    rfl, hSecond, hAnew, hAgain, hClock⟩

end PageBlocks.Memory
