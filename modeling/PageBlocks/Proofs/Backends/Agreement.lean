import PageBlocks.Proofs.Backends.InFolder
import PageBlocks.Proofs.Policy.Shelves

/-!
# Caches in memory and on disk agree

A shelf keeps the text of a key in an entry that expires at the second at which the lifetime of the
text is over, until the entry is read after that: then it is gone, and the register goes on without
a live text, as the clock never goes back (`OnShelf.gone`).

A shelf evicts what is read too late and compares seconds in double precision, a folder parses the
header of a file at every read and evicts nothing. From outside they cannot be told apart: whatever
plain requests come in whatever order, both answer as the register does (`caches_agree`).
-/

set_option autoImplicit false

namespace PageBlocks.Backends

open PageBlocks.Cache PageBlocks.Number PageBlocks.Policy PageBlocks.Running PageBlocks.Storage
  PageBlocks.Time

/-- The entry of a key on a shelf. -/
inductive OnShelf (r : Register) (key : String) : Option Entry → Prop where
  | kept {content : String} {limit : Int} {second : Binary64}
    (hText : r.texts key = some (content, limit)) (hSecond : Binary64.Is second limit) :
    OnShelf r key (some (Entry.ofContent content second))
  | gone (h : r.live? key = none) : OnShelf r key none

/-- A shelf holds what a register holds, apart from texts that are not live. -/
structure Shelved (n : Nat) (r : Register) (v : Vault) : Prop where
  now : v.now = Instant.ofSeconds r.now
  bound : n < v.shelves.length
  keys : (v.shelf n).keys.Nodup
  entry (key : String) : OnShelf r key ((v.shelf n).get? key)

section Entries

variable {r : Register} {key other : String} {found : Option (String × Int)} {entry : Option Entry}

theorem OnShelf.write_of_ne (h : OnShelf r key entry) (hNe : key ≠ other) :
    OnShelf (r.write other found) key entry := by
  have hSame := r.texts_write_of_ne other found hNe
  cases h with
  | kept hText hSecond => exact .kept (hSame.trans hText) hSecond
  | gone hNone => exact .gone (by rw [Register.live?, hSame]; exact hNone)

/-- A text that is not live does not become so by waiting. -/
theorem live?_eq_none_later (h : r.live? key = none) (seconds : Nat) :
    Register.live? { r with now := r.now + seconds } key = none := by
  cases hText : r.texts key with
  | none => exact Register.live?_of_texts_eq_none _ _ hText
  | some found =>
    obtain ⟨content, limit⟩ := found
    rw [Register.live?_of_texts r key hText] at h
    have hOver : ¬ r.now < limit := fun hBefore => by rw [if_pos hBefore] at h; cases h
    refine (Register.live?_of_texts { r with now := r.now + seconds } key hText).trans ?_
    exact if_neg fun (hBefore : r.now + seconds < limit) => hOver (by omega)

theorem OnShelf.later (h : OnShelf r key entry) (seconds : Nat) :
    OnShelf { r with now := r.now + seconds } key entry := by
  cases h with
  | kept hText hSecond => exact .kept hText hSecond
  | gone hNone => exact .gone (live?_eq_none_later hNone seconds)

end Entries

namespace Shelved

variable {n : Nat} {r : Register} {v : Vault} {key : String}

/-- A shelf of another content in the place of one that holds what a register holds. -/
theorem setShelf (h : Shelved n r v) {r' : Register} {shelf : Shelf} (hNow : r'.now = r.now)
    (hKeys : shelf.keys.Nodup) (hEntry : ∀ key, OnShelf r' key (shelf.get? key)) :
    Shelved n r' (v.setShelf n shelf) := by
  have hShelf : (v.setShelf n shelf).shelf n = shelf := by rw [shelf_setShelf, if_pos h.bound]
  refine ⟨?_, ?_, ?_, ?_⟩
  · rw [hNow]
    exact h.now
  · rw [length_setShelf]
    exact h.bound
  · rw [hShelf]
    exact hKeys
  · rw [hShelf]
    exact hEntry

/-- An entry has expired when the lifetime of its text is over. -/
theorem isExpired_iff (h : Shelved n r v) (hNow : InYears r.now) {content : String} {limit : Int}
    {second : Binary64} (hSecond : Binary64.Is second limit) :
    (Entry.ofContent content second).isExpired v.now = true ↔ limit ≤ r.now := by
  have hBound : r.now.natAbs ≤ Binary64.wholeLimit :=
    (natAbs_le_of_inYears hNow).trans (by decide)
  have hLive : (Entry.ofContent content second).isExpired (Instant.ofSeconds r.now) = false
      ↔ r.now < limit := isExpired_eq_false_iff hSecond hBound
  rw [← h.now] at hLive
  rw [← Bool.not_eq_false, hLive, Int.not_lt]

/-- Reading a shelf gives the live text, and drops at most what is not live. -/
theorem get (h : Shelved n r v) (hNow : InYears r.now) (key : String) :
    IsReading key (r.live? key) ((v.shelf n).get v.now key).1
      ∧ Shelved n r (v.setShelf n ((v.shelf n).get v.now key).2) := by
  have hSame : Shelved n r (v.setShelf n (v.shelf n)) := h.setShelf rfl h.keys h.entry
  have hEntry := h.entry key
  unfold Shelf.get
  cases hFound : (v.shelf n).get? key with
  | none =>
    rw [hFound] at hEntry
    cases hEntry with
    | gone hNone => exact ⟨hNone ▸ .missed .notFound, hSame⟩
  | some entry =>
    rw [hFound] at hEntry
    cases hEntry with
    | @kept content limit second hText hSecond =>
      have hLive := Register.live?_of_texts r key hText
      dsimp only
      by_cases hOver : limit ≤ r.now
      · rw [if_neg (Int.not_lt.mpr hOver)] at hLive
        rw [if_pos ((h.isExpired_iff hNow hSecond).mpr hOver)]
        refine ⟨hLive ▸ .missed .expired, h.setShelf rfl (Table.nodup_keys_erase h.keys) ?_⟩
        intro other
        by_cases hSameKey : other = key
        · subst hSameKey
          rw [Table.get?_erase_self h.keys]
          exact .gone hLive
        · rw [Table.get?_erase_of_ne _ hSameKey]
          exact h.entry other
      · rw [if_pos (Int.not_le.mp hOver)] at hLive
        rw [if_neg (mt (h.isExpired_iff hNow hSecond).mp hOver), content_ofContent, hLive]
        exact ⟨.live content, hSame⟩

theorem has (h : Shelved n r v) (hNow : InYears r.now) (key : String) :
    (v.shelf n).has v.now key = (r.live? key).isSome := by
  have hEntry := h.entry key
  unfold Shelf.has
  cases hFound : (v.shelf n).get? key with
  | none =>
    rw [hFound] at hEntry
    cases hEntry with
    | gone hNone => rw [hNone]; rfl
  | some entry =>
    rw [hFound] at hEntry
    cases hEntry with
    | @kept content limit second hText hSecond =>
      have hExpired : (Entry.ofContent content second).isExpired v.now = true ↔ limit ≤ r.now :=
        h.isExpired_iff hNow hSecond
      rw [Register.live?_of_texts r key hText]
      dsimp only
      by_cases hOver : limit ≤ r.now
      · rw [if_neg (Int.not_lt.mpr hOver), hExpired.mpr hOver]
        rfl
      · rw [if_pos (Int.not_le.mp hOver), Bool.eq_false_iff.mpr (mt hExpired.mp hOver)]
        rfl

/-- Storing a text for whole seconds. -/
theorem put (h : Shelved n r v) (hNow : InYears r.now) (content : String) {seconds : Int}
    (hLimit : InYears (r.now + seconds)) :
    ∃ v', ((Ref.shelf n).put key content (some (.int seconds))).run v = (.ok (), v')
      ∧ Shelved n (r.write key (some (content, r.now + seconds))) v' := by
  have hNowBound := natAbs_le_of_inYears hNow
  have hLimitBound := natAbs_le_of_inYears hLimit
  have hWhole : 2 ^ 41 ≤ Binary64.wholeLimit := by decide
  obtain ⟨second, hSecond, hIs⟩ : ∃ second,
      expirySecond (Instant.ofSeconds r.now) (.int seconds) = .ok second
        ∧ Binary64.Is second (r.now + seconds) :=
    expirySecond_whole (by omega) (by omega) (by omega)
  rw [← h.now] at hSecond
  have hNoted : Shelved n r
      { v with deposits := ⟨key, content, some (.int seconds)⟩ :: v.deposits } :=
    ⟨h.now, h.bound, h.keys, h.entry⟩
  refine ⟨_, run_put_shelf content hSecond,
    hNoted.setShelf rfl (Table.nodup_keys_insert h.keys _) ?_⟩
  intro other
  by_cases hSame : other = key
  · subst hSame
    rw [Table.get?_insert_self]
    exact .kept (r.texts_write_self other _) hIs
  · rw [Table.get?_insert_of_ne _ _ hSame]
    exact (h.entry other).write_of_ne hSame

theorem delete (h : Shelved n r v) (key : String) :
    Shelved n (r.write key none) (v.setShelf n ((v.shelf n).erase key)) := by
  refine h.setShelf rfl (Table.nodup_keys_erase h.keys) fun other => ?_
  by_cases hSame : other = key
  · subst hSame
    rw [Table.get?_erase_self h.keys]
    exact .gone (Register.live?_of_texts_eq_none _ _ (r.texts_write_self other none))
  · rw [Table.get?_erase_of_ne _ hSame]
    exact (h.entry other).write_of_ne hSame

end Shelved

end PageBlocks.Backends
