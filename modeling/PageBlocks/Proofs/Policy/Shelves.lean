import PageBlocks.Proofs.Stock
import PageBlocks.Proofs.WholeSeconds
import PageBlocks.Page.Identity

/-!
# The two entries of a page on a shelf

A shelf that only pages use is orderly: no key is bound twice, and every entry can be read. A page
looks for its compiled output first and for its final output then. What that does to the shelf, and
what storing one of the two does, is listed once (`Visited`): if neither is live, both are gone
before anything is stored. So at most one of them is there at any time (`Visited.single`), and a
live entry of another page stays (`Visited.keeps`).
-/

set_option autoImplicit false

namespace PageBlocks.Policy

open PageBlocks.Cache PageBlocks.Number PageBlocks.Running PageBlocks.Storage PageBlocks.Text
  PageBlocks.Time

/-! ## Orderly shelves -/

/-- A shelf as storing leaves it. -/
structure Orderly (shelf : Shelf) : Prop where
  keys : shelf.keys.Nodup
  readable : ∀ key entry, shelf.get? key = some entry →
    ∃ text second, entry = Entry.ofContent text second

namespace Orderly

variable {shelf : Shelf}

theorem erase (h : Orderly shelf) (key : String) : Orderly (Table.erase shelf key) := by
  refine ⟨Table.nodup_keys_erase h.keys, fun other entry hFound => ?_⟩
  by_cases hSame : other = key
  · subst hSame
    rw [Table.get?_erase_self h.keys] at hFound
    cases hFound
  · rw [Table.get?_erase_of_ne shelf hSame] at hFound
    exact h.readable other entry hFound

theorem insert (h : Orderly shelf) (key text : String) (second : Binary64) :
    Orderly (Table.insert shelf key (Entry.ofContent text second)) := by
  refine ⟨Table.nodup_keys_insert h.keys _, fun other entry hFound => ?_⟩
  by_cases hSame : other = key
  · subst hSame
    rw [Table.get?_insert_self] at hFound
    exact ⟨text, second, (Option.some.inj hFound).symm⟩
  · rw [Table.get?_insert_of_ne shelf _ hSame] at hFound
    exact h.readable other entry hFound

end Orderly

theorem orderly_nil : Orderly [] := ⟨List.nodup_nil, fun _ _ => nofun⟩

/-- An entry that was stored has its content. -/
theorem content_ofContent (text : String) (second : Binary64) (key : String) :
    (Entry.ofContent text second).content key = .ok text := by
  have hText := Utf8.toText?_ofText text
  unfold Entry.content Entry.ofContent
  dsimp only
  rw [if_pos rfl, hText]

theorem text_eq_of_ofContent {text other : String} {second second' : Binary64}
    (h : Entry.ofContent text second = Entry.ofContent other second') : text = other := by
  have hContents := congrArg (fun entry : Entry => entry.content "") h
  rw [content_ofContent, content_ofContent] at hContents
  exact Except.ok.inj hContents

theorem has_eq_true_iff {shelf : Shelf} {now : Instant} {key : String} :
    shelf.has now key = true
      ↔ ∃ entry, shelf.get? key = some entry ∧ entry.isExpired now = false := by
  unfold Shelf.has
  cases shelf.get? key with
  | none => exact ⟨nofun, fun ⟨_, h, _⟩ => nomatch h⟩
  | some entry =>
    constructor
    · intro h
      exact ⟨entry, rfl, by simpa using h⟩
    · rintro ⟨other, hSame, hLive⟩
      cases hSame
      simpa using hLive

/-! ## Looking up and storing -/

variable {n : Nat} {v v' : Vault} {key id : String}

theorem setShelf_shelf (v : Vault) (n : Nat) : v.setShelf n (v.shelf n) = v := by
  have hSame : v.shelves.set n (v.shelf n) = v.shelves := by
    refine List.ext_getElem? fun i => ?_
    rw [List.getElem?_set]
    split
    · rename_i hHere
      subst hHere
      split
      · rename_i hBound
        rw [Vault.shelf, List.getD_eq_getElem?_getD, List.getElem?_eq_getElem hBound,
          Option.getD_some]
      · rename_i hBound
        rw [List.getElem?_eq_none (Nat.le_of_not_lt hBound)]
    · rfl
  rw [Vault.setShelf, hSame]

/-- The caches without an entry of a shelf. -/
def without (n : Nat) (key : String) (v : Vault) : Vault := v.setShelf n ((v.shelf n).erase key)

theorem run_lookup_of_live {text : String} {second : Binary64}
    (hFound : (v.shelf n).get? key = some (Entry.ofContent text second))
    (hLive : (Entry.ofContent text second).isExpired v.now = false) :
    ((Ref.shelf n).lookup key).run v = (.ok (some text), v) := by
  have hGet : (v.shelf n).get v.now key = (.ok text, v.shelf n) := by
    unfold Shelf.get
    rw [hFound]
    dsimp only
    rw [hLive, if_neg Bool.false_ne_true, content_ofContent]
  rw [run_lookup, entry, reading, afterFetch, hGet, setShelf_shelf]
  rfl

/-- Looking for an entry that is not live removes it if it is there. -/
theorem run_lookup_of_missed (h : (v.shelf n).has v.now key = false) :
    ((Ref.shelf n).lookup key).run v = (.ok none, without n key v) := by
  rw [run_lookup, entry, reading, afterFetch, without]
  unfold Shelf.has at h
  unfold Shelf.get
  cases hFound : (v.shelf n).get? key with
  | none =>
    have hSame : Table.erase (v.shelf n) key = v.shelf n := Table.erase_of_get?_eq_none hFound
    rw [hSame]
    rfl
  | some entry =>
    rw [hFound] at h
    have hExpired : entry.isExpired v.now = true := by
      rw [← Bool.not_eq_false']
      exact h
    dsimp only
    rw [if_pos hExpired]
    rfl

/-- The caches after something was stored on a shelf. -/
def stored (n : Nat) (key content : String) (lifetime : Value) (second : Binary64) (v : Vault) :
    Vault :=
  { v with deposits := ⟨key, content, some lifetime⟩ :: v.deposits }.setShelf n
    ((v.shelf n).insert key (Entry.ofContent content second))

/-- A lifetime that cannot be added to the time is refused after the request was noted. -/
theorem run_put_shelf_error {lifetime : Value} {fault : Fault} (content : String)
    (h : expirySecond v.now lifetime = .error fault) :
    ((Ref.shelf n).put key content (some lifetime)).run v
      = (.error fault, { v with deposits := ⟨key, content, some lifetime⟩ :: v.deposits }) := by
  unfold Ref.put
  rw [run_bind_of_ok (run_note _ v), run_bind_of_ok (run_get _)]
  have hPut : (v.shelf n).put v.now key content lifetime = .error fault := by
    simp only [Shelf.put, h]
    rfl
  have hRefused : (liftM ((v.shelf n).put v.now key content lifetime) : VaultM Shelf).run
      { v with deposits := ⟨key, content, some lifetime⟩ :: v.deposits }
        = (.error fault, { v with deposits := ⟨key, content, some lifetime⟩ :: v.deposits }) := by
    rw [hPut]
    rfl
  exact run_bind_of_error hRefused _

/-! ## Lifetimes -/

theorem addMicros_ofSeconds (s : Int) (seconds : Nat) :
    (Instant.ofSeconds s).addMicros (seconds * Instant.perSecond : Nat)
      = Instant.ofSeconds (s + seconds) := by
  show Instant.mk (s * Instant.perSecond + _) = Instant.mk _
  rw [Int.natCast_mul, ← Int.add_mul]

/-- An entry that expires at a whole second is live up to that second. -/
theorem isExpired_eq_false_iff {text : String} {second : Binary64} {limit s : Int}
    (hSecond : Binary64.Is second limit) (hBound : s.natAbs ≤ Binary64.wholeLimit) :
    (Entry.ofContent text second).isExpired (Instant.ofSeconds s) = false ↔ s < limit := by
  have hLe := hSecond.le_iff (Binary64.is_toSeconds hBound)
  show Binary64.le second (Instant.ofSeconds s).toSeconds = false ↔ s < limit
  rw [← Bool.not_eq_true, hLe, Int.not_le]

/-- A lifetime of up to `2 ^ 53` seconds is added to the second that the clock shows. -/
theorem expirySecond_int (stored : Instant) {ttl : Int} (h : ttl.natAbs ≤ Binary64.wholeLimit) :
    expirySecond stored (.int ttl) = .ok (stored.toSeconds.add (Binary64.ofInt ttl)) := by
  obtain ⟨negative, m, e, hFinite, -⟩ := Binary64.is_ofInt h
  unfold expirySecond lifetimeSeconds
  dsimp only
  rw [hFinite]
  rfl

/-- Up to `2 ^ 53` seconds an entry expires when its lifetime is over. -/
theorem expirySecond_whole {t ttl : Int} (hTime : t.natAbs ≤ Binary64.wholeLimit)
    (hTtl : ttl.natAbs ≤ Binary64.wholeLimit) (hSum : (t + ttl).natAbs ≤ Binary64.wholeLimit) :
    ∃ second, expirySecond (Instant.ofSeconds t) (.int ttl) = .ok second
      ∧ Binary64.Is second (t + ttl) :=
  ⟨_, expirySecond_int _ hTtl, (Binary64.is_toSeconds hTime).add (Binary64.is_ofInt hTtl) hSum⟩

/-! ## What a request for a page does to a shelf -/

/-- The caches without the two entries of a page. -/
def evicted (n : Nat) (id : String) (v : Vault) : Vault :=
  without n id (without n (Identity.compiled id) v)

/-- Whether no entry of a page is live. -/
structure Missed (n : Nat) (id : String) (v : Vault) : Prop where
  compiled : (v.shelf n).has v.now (Identity.compiled id) = false
  final : (v.shelf n).has v.now id = false

/-- The caches after a request for a page: they are as they were if one of its entries was live, and
otherwise both are gone, and at most one came in. -/
inductive Visited (n : Nat) (lifetime : Value) (id : String) (v : Vault) : Vault → Prop
  | served : Visited n lifetime id v v
  | evicted (h : Missed n id v) : Visited n lifetime id v (evicted n id v)
  | refused (h : Missed n id v) (deposit : Deposit) :
    Visited n lifetime id v
      { evicted n id v with deposits := deposit :: (Policy.evicted n id v).deposits }
  | stored (h : Missed n id v) {key : String} (hKey : key = id ∨ key = Identity.compiled id)
    (content : String) {second : Binary64} (hSecond : expirySecond v.now lifetime = .ok second) :
    Visited n lifetime id v (Policy.stored n key content lifetime second (Policy.evicted n id v))

/-- The caches have a shelf, and it is orderly. -/
structure Tidied (n : Nat) (v : Vault) : Prop where
  bound : n < v.shelves.length
  shelf : Orderly (v.shelf n)

theorem length_setShelf (v : Vault) (n : Nat) (shelf : Shelf) :
    (v.setShelf n shelf).shelves.length = v.shelves.length :=
  List.length_set

theorem shelf_without (h : Tidied n v) : (without n key v).shelf n = (v.shelf n).erase key := by
  rw [without, shelf_setShelf, if_pos h.bound]

theorem Tidied.without (h : Tidied n v) (key : String) : Tidied n (without n key v) := by
  refine ⟨?_, ?_⟩
  · rw [Policy.without, length_setShelf]
    exact h.bound
  · rw [shelf_without h]
    exact h.shelf.erase key

theorem Tidied.evicted (h : Tidied n v) (id : String) : Tidied n (evicted n id v) :=
  (h.without _).without _

theorem get?_without_self (h : Tidied n v) : ((without n key v).shelf n).get? key = none := by
  rw [shelf_without h]
  exact Table.get?_erase_self h.shelf.keys

theorem get?_without_of_ne (h : Tidied n v) {other : String} (hNe : other ≠ key) :
    ((without n key v).shelf n).get? other = (v.shelf n).get? other := by
  rw [shelf_without h]
  exact Table.get?_erase_of_ne _ hNe

theorem get?_evicted_of_ne (h : Tidied n v) (hFinal : key ≠ id)
    (hCompiled : key ≠ Identity.compiled id) :
    ((evicted n id v).shelf n).get? key = (v.shelf n).get? key := by
  rw [evicted, get?_without_of_ne (h.without _) hFinal, get?_without_of_ne h hCompiled]

/-- Neither entry of the page is left. -/
theorem get?_evicted (h : Tidied n v) (hKey : key = id ∨ key = Identity.compiled id) :
    ((evicted n id v).shelf n).get? key = none := by
  by_cases hFinal : key = id
  · subst hFinal
    exact get?_without_self (h.without _)
  · rw [evicted, get?_without_of_ne (h.without _) hFinal, hKey.resolve_left hFinal]
    exact get?_without_self h

theorem shelf_stored {content : String} {lifetime : Value} {second : Binary64} (h : Tidied n v) :
    (stored n key content lifetime second v).shelf n
      = (v.shelf n).insert key (Entry.ofContent content second) := by
  rw [stored, shelf_setShelf]
  exact if_pos h.bound

theorem without_of_get?_eq_none (h : (v.shelf n).get? key = none) : without n key v = v := by
  have hSame : Table.erase (v.shelf n) key = v.shelf n := Table.erase_of_get?_eq_none h
  rw [without, hSame, setShelf_shelf]

/-- What is not live does not become so when something is removed. -/
theorem has_without (h : Tidied n v) {other : String} {now : Instant}
    (hMissed : (v.shelf n).has now other = false) :
    ((without n key v).shelf n).has now other = false := by
  unfold Shelf.has at hMissed ⊢
  by_cases hSame : other = key
  · subst hSame
    rw [get?_without_self h]
  · rw [get?_without_of_ne h hSame]
    exact hMissed

/-- Looking for both entries of a page in vain removes both. -/
theorem run_lookups_of_missed (h : Tidied n v) (hMissed : Missed n id v) :
    ((Ref.shelf n).lookup (Identity.compiled id)).run v
        = (.ok none, without n (Identity.compiled id) v)
      ∧ ((Ref.shelf n).lookup id).run (without n (Identity.compiled id) v)
        = (.ok none, evicted n id v) :=
  ⟨run_lookup_of_missed hMissed.compiled, run_lookup_of_missed (has_without h hMissed.final)⟩

/-- A live final entry is found without removing anything, as there is no compiled output then. -/
theorem run_lookups_of_final (hSingle : (v.shelf n).get? id = none
      ∨ (v.shelf n).get? (Identity.compiled id) = none) {text : String} {second : Binary64}
    (hFound : (v.shelf n).get? id = some (Entry.ofContent text second))
    (hLive : (Entry.ofContent text second).isExpired v.now = false) :
    ((Ref.shelf n).lookup (Identity.compiled id)).run v = (.ok none, v)
      ∧ ((Ref.shelf n).lookup id).run v = (.ok (some text), v) := by
  have hNone : (v.shelf n).get? (Identity.compiled id) = none := by
    refine hSingle.resolve_left fun hAbsent => ?_
    rw [hAbsent] at hFound
    cases hFound
  have hMissed : (v.shelf n).has v.now (Identity.compiled id) = false := by
    unfold Shelf.has
    rw [hNone]
  have hRun := run_lookup_of_missed hMissed
  rw [without_of_get?_eq_none hNone] at hRun
  exact ⟨hRun, run_lookup_of_live hFound hLive⟩

/-- A live entry has a content that can be looked up. -/
theorem Tidied.exists_of_has (h : Tidied n v) (hHas : (v.shelf n).has v.now key = true) :
    ∃ text second, (v.shelf n).get? key = some (Entry.ofContent text second)
      ∧ (Entry.ofContent text second).isExpired v.now = false := by
  obtain ⟨entry, hFound, hLive⟩ := has_eq_true_iff.mp hHas
  obtain ⟨text, second, rfl⟩ := h.shelf.readable key entry hFound
  exact ⟨text, second, hFound, hLive⟩

namespace Visited

variable {lifetime : Value} (hVisited : Visited n lifetime id v v')

include hVisited

theorem now : v'.now = v.now := by
  cases hVisited <;> rfl

theorem tidied (h : Tidied n v) : Tidied n v' := by
  cases hVisited with
  | served => exact h
  | evicted _ => exact h.evicted id
  | refused _ deposit => exact ⟨(h.evicted id).bound, (h.evicted id).shelf⟩
  | stored _ hKey content hSecond =>
    have hAfter := h.evicted id
    refine ⟨?_, ?_⟩
    · rw [Policy.stored, length_setShelf]
      exact hAfter.bound
    · rw [shelf_stored hAfter]
      exact hAfter.shelf.insert _ _ _

/-- An entry under another key is as it was. -/
theorem untouched (h : Tidied n v) (hFinal : key ≠ id) (hCompiled : key ≠ Identity.compiled id) :
    (v'.shelf n).get? key = (v.shelf n).get? key := by
  have hEvicted := get?_evicted_of_ne h hFinal hCompiled
  cases hVisited with
  | served => rfl
  | evicted _ => exact hEvicted
  | refused _ deposit => exact hEvicted
  | @stored _ other hKey content second hSecond =>
    have hOther : key ≠ other := by
      rcases hKey with rfl | rfl
      · exact hFinal
      · exact hCompiled
    rw [shelf_stored (h.evicted id)]
    exact (Table.get?_insert_of_ne _ _ hOther).trans hEvicted

/-- Of the two entries of the page, at most one is there afterwards if that was so before. -/
theorem single (h : Tidied n v)
    (hSingle : (v.shelf n).get? id = none ∨ (v.shelf n).get? (Identity.compiled id) = none)
    (hApart : id ≠ Identity.compiled id) :
    (v'.shelf n).get? id = none ∨ (v'.shelf n).get? (Identity.compiled id) = none := by
  have hFinal : ((Policy.evicted n id v).shelf n).get? id = none := get?_evicted h (.inl rfl)
  have hCompiled : ((Policy.evicted n id v).shelf n).get? (Identity.compiled id) = none :=
    get?_evicted h (.inr rfl)
  cases hVisited with
  | served => exact hSingle
  | evicted _ => exact .inl hFinal
  | refused _ deposit => exact .inl hFinal
  | stored _ hKey content hSecond =>
    rw [shelf_stored (h.evicted id)]
    rcases hKey with rfl | rfl
    · exact .inr ((Table.get?_insert_of_ne _ _ hApart.symm).trans hCompiled)
    · exact .inl ((Table.get?_insert_of_ne _ _ hApart).trans hFinal)

/-- A live entry of the page itself stays, because the page is served from it. -/
theorem keeps_own (hKey : key = id ∨ key = Identity.compiled id)
    (hLive : (v.shelf n).has v.now key = true) : v' = v := by
  have hNot : ¬ Missed n id v := by
    rintro ⟨hCompiled, hFinal⟩
    rcases hKey with rfl | rfl
    · rw [hFinal] at hLive
      cases hLive
    · rw [hCompiled] at hLive
      cases hLive
  cases hVisited with
  | served => rfl
  | evicted h => exact absurd h hNot
  | refused h _ => exact absurd h hNot
  | stored h _ _ _ => exact absurd h hNot

end Visited

end PageBlocks.Policy
