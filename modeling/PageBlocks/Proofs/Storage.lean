import PageBlocks.Cache.Vault
import PageBlocks.Proofs.Publishing

/-!
# What caches keep

Looking an entry up and storing one change a cache in a single spot: under the key itself on a
shelf, and under the digest of the key in a folder (`slot`). Whatever is stored under a key with
another spot is there as before (`Keeps`), so a lookup of it gives what it gave (`entry_congr`).
-/

set_option autoImplicit false

namespace PageBlocks.Storage

open PageBlocks.Cache PageBlocks.Publishing PageBlocks.Running PageBlocks.Time

/-! ## Entries -/

/-- The spot in a cache where the entry of a key is. -/
def slot : Ref → String → String
  | .shelf _, key => key
  | .folder _, key => Folder.fileName key

/-- What a lookup makes of reading an entry: a fault of the entry is a miss. -/
def settle : Except Fault String → Except Fault (Option String)
  | .ok content => .ok (some content)
  | .error (.cache _ _) => .ok none
  | .error fault => .error fault

/-- What reading the entry of a key gives. -/
def reading (cache : Ref) (key : String) (v : Vault) : Except Fault String :=
  match cache with
  | .shelf n => ((v.shelf n).get v.now key).1
  | .folder name => (v.folder name).get v.now key

/-- What a lookup of a key gives. -/
def entry (cache : Ref) (key : String) (v : Vault) : Except Fault (Option String) :=
  settle (reading cache key v)

/-- Whether a spot of a cache is as it was. -/
def Untouched (cache : Ref) (spot : String) (v v' : Vault) : Prop :=
  match cache with
  | .shelf n => (v'.shelf n).get? spot = (v.shelf n).get? spot
  | .folder name => (v'.folder name).get? spot = (v.folder name).get? spot

/-- The caches after something that took no time and changed some spots of a cache at most. -/
structure Keeps (cache : Ref) (changed : String → Prop) (v v' : Vault) : Prop where
  now : v'.now = v.now
  untouched : ∀ spot, ¬ changed spot → Untouched cache spot v v'

namespace Keeps

variable {cache : Ref} {changed more : String → Prop} {v v' v'' : Vault}

theorem refl (cache : Ref) (changed : String → Prop) (v : Vault) : Keeps cache changed v v := by
  refine ⟨rfl, fun spot _ => ?_⟩
  cases cache <;> rfl

theorem trans (h : Keeps cache changed v v') (h' : Keeps cache more v' v'') :
    Keeps cache (fun spot => changed spot ∨ more spot) v v'' := by
  refine ⟨h'.now.trans h.now, fun spot hSpot => ?_⟩
  have hFirst := h.untouched spot fun hChanged => hSpot (Or.inl hChanged)
  have hSecond := h'.untouched spot fun hChanged => hSpot (Or.inr hChanged)
  cases cache with
  | shelf n => exact Eq.trans hSecond hFirst
  | folder name => exact Eq.trans hSecond hFirst

theorem mono (h : Keeps cache changed v v') (hMore : ∀ spot, changed spot → more spot) :
    Keeps cache more v v' :=
  ⟨h.now, fun spot hSpot => h.untouched spot fun hChanged => hSpot (hMore spot hChanged)⟩

end Keeps

/-- What is under a key depends on its spot and on the time alone. -/
theorem reading_congr {cache : Ref} {key : String} {v v' : Vault} (hNow : v'.now = v.now)
    (h : Untouched cache (slot cache key) v v') : reading cache key v' = reading cache key v := by
  cases cache with
  | shelf n =>
    have hFound : (v'.shelf n).get? key = (v.shelf n).get? key := h
    simp only [reading, Shelf.get, hFound, hNow]
    split
    · split <;> rfl
    · rfl
  | folder name =>
    have hFile : (v'.folder name).file? key = (v.folder name).file? key := by
      have hFound : (v'.folder name).get? (Folder.fileName key)
        = (v.folder name).get? (Folder.fileName key) := h
      simp only [Folder.file?, hFound]
    simp only [reading, Folder.get, hFile, hNow]

theorem entry_congr {cache : Ref} {key : String} {v v' : Vault} {changed : String → Prop}
    (h : Keeps cache changed v v') (hSpot : ¬ changed (slot cache key)) :
    entry cache key v' = entry cache key v := by
  rw [entry, reading_congr h.now (h.untouched _ hSpot), entry]

/-! ## Looking up -/

/-- The shelf after another one was put in its place: a shelf that is not there stays away. -/
theorem shelf_setShelf (v : Vault) (n : Nat) (shelf : Shelf) :
    (v.setShelf n shelf).shelf n = if n < v.shelves.length then shelf else v.shelf n := by
  simp only [Vault.shelf, Vault.setShelf, List.getD_eq_getElem?_getD, List.getElem?_set]
  by_cases h : n < v.shelves.length
  · simp [h]
  · simp [h]

theorem folder_setFolder (v : Vault) (name : String) (folder : Folder) :
    (v.setFolder name folder).folder name = folder := by
  simp only [Vault.folder, Vault.setFolder, Table.get?_insert_self, Option.getD_some]

theorem untouched_setShelf {v : Vault} {n : Nat} {shelf : Shelf} {spot : String}
    (h : shelf.get? spot = (v.shelf n).get? spot) :
    Untouched (.shelf n) spot v (v.setShelf n shelf) := by
  rw [Untouched, shelf_setShelf]
  split
  · exact h
  · rfl

/-- The caches after reading an entry. -/
def afterFetch (cache : Ref) (key : String) (v : Vault) : Vault :=
  match cache with
  | .shelf n => v.setShelf n ((v.shelf n).get v.now key).2
  | .folder _ => v

theorem run_fetch (cache : Ref) (key : String) (v : Vault) :
    (cache.fetch key).run v = (reading cache key v, afterFetch cache key v) := by
  cases cache <;> rfl

/-- A lookup gives the entry. -/
theorem run_lookup (cache : Ref) (key : String) (v : Vault) :
    (cache.lookup key).run v = (entry cache key v, afterFetch cache key v) := by
  rw [Ref.lookup, run_tryCatch, run_map, run_fetch, entry]
  cases reading cache key v with
  | ok content => rfl
  | error fault => cases fault <;> rfl

/-- Reading an entry changes its own spot at most. -/
theorem keeps_afterFetch (cache : Ref) (key : String) (v : Vault) :
    Keeps cache (· = slot cache key) v (afterFetch cache key v) := by
  cases cache with
  | shelf n =>
    refine ⟨rfl, fun spot hSpot => untouched_setShelf ?_⟩
    unfold Shelf.get
    split
    · split
      · exact Table.get?_erase_of_ne _ hSpot
      · rfl
    · rfl
  | folder name => exact Keeps.refl _ _ _

/-! ## Storing -/

/-- Whether a cache takes an entry with a lifetime under a key. -/
def Accepts (cache : Ref) (key : String) (lifetime : Value) (v : Vault) : Prop :=
  match cache with
  | .shelf _ => ∃ second, expirySecond v.now lifetime = .ok second
  | .folder name => (∃ instant, expiryInstant v.now lifetime = .ok instant)
    ∧ (v.folder name).get? (Folder.fileName key) ≠ some .directory

/-- Whether a cache takes an entry depends on its spot and on the time alone. -/
theorem accepts_congr {cache : Ref} {key : String} {lifetime : Value} {v v' : Vault}
    {changed : String → Prop} (h : Keeps cache changed v v')
    (hSpot : ¬ changed (slot cache key)) (hAccepts : Accepts cache key lifetime v) :
    Accepts cache key lifetime v' := by
  have hUntouched := h.untouched _ hSpot
  cases cache with
  | shelf n =>
    simp only [Accepts, h.now]
    exact hAccepts
  | folder name =>
    have hFound : (v'.folder name).get? (Folder.fileName key)
      = (v.folder name).get? (Folder.fileName key) := hUntouched
    simp only [Accepts, h.now, hFound]
    exact hAccepts

/-- Reading an entry does not keep a cache from taking a new one. -/
theorem accepts_afterFetch {cache : Ref} {key : String} {lifetime : Value} {v : Vault}
    (h : Accepts cache key lifetime v) : Accepts cache key lifetime (afterFetch cache key v) := by
  cases cache with
  | shelf n => exact h
  | folder name => exact h

theorem run_note (deposit : Deposit) (v : Vault) :
    (Ref.note deposit).run v = (.ok (), { v with deposits := deposit :: v.deposits }) := rfl

/-- A shelf that takes an entry has it afterwards. -/
theorem run_put_shelf {n : Nat} {key : String} {lifetime : Value} {v : Vault}
    {second : Number.Binary64} (content : String)
    (hSecond : expirySecond v.now lifetime = .ok second) :
    ((Ref.shelf n).put key content (some lifetime)).run v
      = (.ok (), { v with deposits := ⟨key, content, some lifetime⟩ :: v.deposits }.setShelf n
          ((v.shelf n).insert key (Entry.ofContent content second))) := by
  unfold Ref.put
  rw [run_bind_of_ok (run_note _ v), run_bind_of_ok (run_get _)]
  have hPut : (v.shelf n).put v.now key content lifetime
      = .ok ((v.shelf n).insert key (Entry.ofContent content second)) := by
    simp only [Shelf.put, hSecond]
    rfl
  have hStored : (liftM ((v.shelf n).put v.now key content lifetime) : VaultM Shelf).run
      { v with deposits := ⟨key, content, some lifetime⟩ :: v.deposits }
        = (.ok ((v.shelf n).insert key (Entry.ofContent content second)),
          { v with deposits := ⟨key, content, some lifetime⟩ :: v.deposits }) := by
    rw [hPut]
    rfl
  exact (run_bind_of_ok hStored _).trans rfl

/-- What a change of a folder did to it stays, and all other caches are as they were. -/
theorem run_inFolder (name : String) (change : Folder.Change Unit) (v : Vault) :
    (Ref.inFolder name change).run v
      = ((change.run (v.folder name)).1, v.setFolder name (change.run (v.folder name)).2) := by
  unfold Ref.inFolder
  rw [run_bind_of_ok (run_get v)]
  rcases change.run (v.folder name) with ⟨fault | done, after⟩ <;> rfl

theorem run_delete_folder (name key : String) (v : Vault) :
    ((Ref.folder name).delete key).run v
      = (((Folder.delete key).run (v.folder name)).1,
        v.setFolder name ((Folder.delete key).run (v.folder name)).2) :=
  run_inFolder name (Folder.delete key) v

/-- What storing in a folder comes to, after the request was noted. -/
theorem run_put_inFolder (name key content : String) (lifetime : Option Value) (v : Vault) :
    ((Ref.folder name).put key content lifetime).run v
      = (((Folder.put true (v.folder name).unusedDraw v.now key content
            (lifetime.getD defaultLifetime)).run (v.folder name)).1,
        { v with deposits := ⟨key, content, lifetime⟩ :: v.deposits }.setFolder name
          ((Folder.put true (v.folder name).unusedDraw v.now key content
            (lifetime.getD defaultLifetime)).run (v.folder name)).2) := by
  unfold Ref.put
  rw [run_bind_of_ok (run_note _ v), run_bind_of_ok (run_get _)]
  exact run_inFolder name _ _

/-- A folder that takes an entry has its file afterwards. -/
theorem run_put_folder {name key : String} {lifetime : Value} {v : Vault} {instant : Instant}
    (content : String) (hInstant : expiryInstant v.now lifetime = .ok instant)
    (hFile : (v.folder name).get? (Folder.fileName key) ≠ some .directory) :
    ((Ref.folder name).put key content (some lifetime)).run v
      = (.ok (), { v with deposits := ⟨key, content, some lifetime⟩ :: v.deposits }.setFolder name
          ((v.folder name).insert (Folder.fileName key)
            (.file (Folder.fileBytes instant content)))) := by
  have hFree : Folder.refusal true (v.folder name) (Folder.fileName key) = none := by
    unfold Folder.refusal
    rw [if_pos rfl]
    split
    · rename_i hFound
      exact absurd hFound hFile
    · rfl
  have hStored := run_put_of_expiry true content hInstant
    (get?_hiddenName_unusedDraw (v.folder name) key)
  rw [hFree] at hStored
  rw [run_put_inFolder, Option.getD_some, hStored]

/-- A cache that takes an entry changes its own spot alone. -/
theorem run_put {cache : Ref} {key : String} {lifetime : Value} {v : Vault} (content : String)
    (h : Accepts cache key lifetime v) :
    ∃ v', (cache.put key content (some lifetime)).run v = (.ok (), v')
      ∧ Keeps cache (· = slot cache key) v v' := by
  cases cache with
  | shelf n =>
    obtain ⟨second, hSecond⟩ := h
    refine ⟨_, run_put_shelf content hSecond, rfl, fun spot hSpot => ?_⟩
    exact untouched_setShelf (v := { v with deposits := _ })
      (Table.get?_insert_of_ne (v.shelf n) _ hSpot)
  | folder name =>
    obtain ⟨⟨instant, hInstant⟩, hFile⟩ := h
    refine ⟨_, run_put_folder content hInstant hFile, rfl, fun spot hSpot => ?_⟩
    rw [Untouched, folder_setFolder]
    exact Table.get?_insert_of_ne (v.folder name) _ hSpot

end PageBlocks.Storage
