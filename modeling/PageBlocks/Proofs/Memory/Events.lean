import PageBlocks.Proofs.Backends.InFolder
import PageBlocks.Proofs.Nearness

/-!
# What becomes of an entry

While pages are answered, three things happen to the caches: an entry is looked up, a text is
stored, and time passes (`Event`). An entry that was stored is there, and is found with its text,
until its lifetime is over or something else is stored in its place, whatever else happens
(`run_lookup_course`). Looking an expired entry up removes it from a shelf, but what has expired
stays expired, as clocks do not go back (`Over.later`).
-/

set_option autoImplicit false

namespace PageBlocks.Cache

open PageBlocks.Number PageBlocks.Time

theorem hasExpired_mono {second : Binary64} {t t' : Instant} (hLe : t.micros ≤ t'.micros)
    (h : hasExpired second t.toSeconds = true) : hasExpired second t'.toSeconds = true :=
  Binary64.le_of_le_of_le h (Binary64.toSeconds_mono hLe)

end PageBlocks.Cache

namespace PageBlocks.Memory

open PageBlocks.Backends PageBlocks.Cache PageBlocks.Number PageBlocks.Policy PageBlocks.Publishing
  PageBlocks.Running PageBlocks.Storage PageBlocks.Time

/-! ## Events -/

/-- What happens to the caches while pages are answered. -/
inductive Event where
  | look (key : String)
  | store (key content : String) (lifetime : Value)
  | wait (micros : Nat)

/-- The caches after an event. -/
def Event.after (cache : Ref) (v : Vault) : Event → Vault
  | look key => ((cache.lookup key).run v).2
  | store key content lifetime => ((cache.put key content (some lifetime)).run v).2
  | wait micros => { v with now := v.now.addMicros micros }

/-- The caches after events. -/
def course (cache : Ref) (v : Vault) (events : List Event) : Vault :=
  events.foldl (Event.after cache) v

/-- Whether an event stores something in the place of a key. -/
def Event.replaces (cache : Ref) (key : String) : Event → Bool
  | store other _ _ => slot cache other == slot cache key
  | _ => false

/-- A shelf is one of those that there are. -/
def Present : Ref → Vault → Prop
  | .shelf n, v => n < v.shelves.length
  | .folder _, _ => True

/-! ## Lifetimes -/

/-- Whether the lifetime of an entry that was stored at an instant is over at another one: on a
shelf, the sum of the seconds is a double; in a folder, it is exact. -/
def Over (cache : Ref) (stored : Instant) (lifetime : Value) (now : Instant) : Prop :=
  match cache with
  | .shelf _ => ∃ second, expirySecond stored lifetime = .ok second
    ∧ hasExpired second now.toSeconds = true
  | .folder _ => ∃ instant, expiryInstant stored lifetime = .ok instant
    ∧ instant.micros ≤ now.micros

variable {cache : Ref} {stored now now' : Instant} {key text : String} {lifetime : Value}
  {v v' : Vault} {events : List Event}

theorem Over.later (h : Over cache stored lifetime now) (hLe : now.micros ≤ now'.micros) :
    Over cache stored lifetime now' := by
  cases cache with
  | shelf n =>
    obtain ⟨second, hSecond, hExpired⟩ := h
    exact ⟨second, hSecond, hasExpired_mono hLe hExpired⟩
  | folder name =>
    obtain ⟨instant, hInstant, hPast⟩ := h
    exact ⟨instant, hInstant, hPast.trans hLe⟩

/-- What the seconds of a shelf measure as numbers do: microseconds of up to thirty-two bits of
seconds, and whole seconds of up to fifty-three bits. -/
inductive Measured (stored : Instant) (seconds : Int) (now : Instant) : Prop where
  | fine (hStored : stored.micros.natAbs ≤ Binary64.fineLimit)
    (hSum : (stored.micros + seconds * Instant.perSecond).natAbs ≤ Binary64.fineLimit)
    (hNow : now.micros.natAbs ≤ Binary64.fineLimit)
  | whole (s s' : Int) (hStored : stored = Instant.ofSeconds s) (hNow : now = Instant.ofSeconds s')
    (hTime : s.natAbs ≤ Binary64.wholeLimit) (hSeconds : seconds.natAbs ≤ Binary64.wholeLimit)
    (hSum : (s + seconds).natAbs ≤ Binary64.wholeLimit) (hLater : s'.natAbs ≤ Binary64.wholeLimit)

/-- A number of seconds has passed; for a shelf, if its seconds measure that. -/
def Elapsed (cache : Ref) (stored : Instant) (seconds : Int) (now : Instant) : Prop :=
  match cache with
  | .shelf _ => Measured stored seconds now →
    stored.micros + seconds * Instant.perSecond ≤ now.micros
  | .folder _ => stored.micros + seconds * Instant.perSecond ≤ now.micros

theorem elapsed_of_hasExpired {seconds : Int} {second : Binary64}
    (hSecond : expirySecond stored (.int seconds) = .ok second)
    (hExpired : hasExpired second now.toSeconds = true) (hMeasured : Measured stored seconds now) :
    stored.micros + seconds * Instant.perSecond ≤ now.micros := by
  cases hMeasured with
  | fine hStored hSum hNow =>
    have hSeconds : seconds.natAbs ≤ Binary64.wholeLimit := by
      unfold Binary64.wholeLimit
      unfold Binary64.fineLimit Instant.perSecond at hStored hSum
      omega
    rw [expirySecond_int _ hSeconds] at hSecond
    cases hSecond
    exact Binary64.le_of_le_toSeconds hStored hSum hNow (Binary64.is_ofInt hSeconds) hExpired
  | whole s s' hStored hNow hTime hSeconds hSum hLater =>
    subst hStored hNow
    obtain ⟨exact, hExact, hIs⟩ := expirySecond_whole hTime hSeconds hSum
    rw [hExact] at hSecond
    cases hSecond
    have hPast : s + seconds ≤ s' := (hIs.le_iff (Binary64.is_toSeconds hLater)).mp hExpired
    unfold Instant.ofSeconds
    dsimp only
    rw [← Int.add_mul]
    exact Int.mul_le_mul_of_nonneg_right hPast (Int.natCast_nonneg _)

/-- When a lifetime of whole seconds is over, these seconds have passed. -/
theorem Over.elapsed {seconds : Int} (h : Over cache stored (.int seconds) now) :
    Elapsed cache stored seconds now := by
  cases cache with
  | shelf n =>
    obtain ⟨second, hSecond, hExpired⟩ := h
    exact elapsed_of_hasExpired hSecond hExpired
  | folder name =>
    obtain ⟨instant, hInstant, hPast⟩ := h
    have hSum : (if -(longestDays : Int) ≤ Int.fdiv (seconds * Instant.perSecond) Instant.perDay
        ∧ Int.fdiv (seconds * Instant.perSecond) Instant.perDay ≤ longestDays
        ∧ (stored.addMicros (seconds * Instant.perSecond)).inCalendar
      then .ok (stored.addMicros (seconds * Instant.perSecond))
      else .error (.host .outOfRange)) = (.ok instant : Except Fault Instant) := hInstant
    split at hSum
    · cases hSum
      exact hPast
    · cases hSum

/-! ## Entries -/

/-- A cache has the entry of a text that was stored at an instant. -/
def Bears (cache : Ref) (key text : String) (stored : Instant) (lifetime : Value) (v : Vault) :
    Prop :=
  match cache with
  | .shelf n => ∃ second, expirySecond stored lifetime = .ok second
    ∧ (v.shelf n).get? key = some (Entry.ofContent text second)
  | .folder name => ∃ instant, expiryInstant stored lifetime = .ok instant
    ∧ (v.folder name).get? (Folder.fileName key) = some (.file (Folder.fileBytes instant text))

/-- Whether a cache has the entry depends on its spot alone. -/
theorem Bears.congr (h : Bears cache key text stored lifetime v)
    (hSame : Untouched cache (slot cache key) v v') :
    Bears cache key text stored lifetime v' := by
  cases cache with
  | shelf n =>
    obtain ⟨second, hSecond, hFound⟩ := h
    exact ⟨second, hSecond, Eq.trans hSame hFound⟩
  | folder name =>
    obtain ⟨instant, hInstant, hFound⟩ := h
    exact ⟨instant, hInstant, Eq.trans hSame hFound⟩

/-- What was stored is there. -/
theorem bears_of_run_put (hPresent : Present cache v)
    (hRun : (cache.put key text (some lifetime)).run v = (.ok (), v')) :
    Bears cache key text v.now lifetime v' ∧ v'.now = v.now := by
  cases cache with
  | shelf n =>
    cases hSecond : expirySecond v.now lifetime with
    | error fault =>
      rw [run_put_shelf_error text hSecond] at hRun
      cases hRun
    | ok second =>
      rw [run_put_shelf text hSecond] at hRun
      cases hRun
      refine ⟨⟨second, hSecond, ?_⟩, rfl⟩
      have hBound : n < v.shelves.length := hPresent
      rw [shelf_setShelf, if_pos hBound, Table.get?_insert_self]
  | folder name =>
    rw [run_put_inFolder, Option.getD_some] at hRun
    rcases run_put_cases true v.now text lifetime (get?_hiddenName_unusedDraw (v.folder name) key)
      with ⟨fault, hRefused⟩ | ⟨instant, hInstant, -, hStored⟩
    · rw [hRefused] at hRun
      cases hRun
    · rw [hStored] at hRun
      cases hRun
      refine ⟨⟨instant, hInstant, ?_⟩, rfl⟩
      rw [folder_setFolder, Table.get?_insert_self]

/-- As long as its lifetime is not over, an entry is found, and the caches stay as they are. -/
theorem Bears.run_lookup (h : Bears cache key text stored lifetime v)
    (hLive : ¬ Over cache stored lifetime v.now) :
    (cache.lookup key).run v = (.ok (some text), v) := by
  cases cache with
  | shelf n =>
    obtain ⟨second, hSecond, hFound⟩ := h
    refine run_lookup_of_live hFound ?_
    rw [← Bool.not_eq_true]
    exact fun hExpired => hLive ⟨second, hSecond, hExpired⟩
  | folder name =>
    obtain ⟨instant, hInstant, hFound⟩ := h
    have hContent : Folder.content v.now key (Folder.fileBytes instant text) = .ok text := by
      rw [content_fileBytes (inCalendar_of_expiryInstant hInstant)]
      exact if_neg fun hPast => hLive ⟨instant, hInstant, hPast⟩
    rw [Storage.run_lookup, entry, reading, get_of_file hFound, hContent]
    rfl

/-! ## Courses of events -/

/-- Storing leaves all other spots alone, whether it fails or not. -/
theorem untouched_put {spot content : String} (hOther : slot cache key ≠ spot) (v : Vault) :
    Untouched cache spot v ((cache.put key content (some lifetime)).run v).2 := by
  cases cache with
  | shelf n =>
    cases hSecond : expirySecond v.now lifetime with
    | error fault =>
      rw [run_put_shelf_error content hSecond]
      exact rfl
    | ok second =>
      rw [run_put_shelf content hSecond]
      exact untouched_setShelf (v := { v with deposits := _ })
        (Table.get?_insert_of_ne (v.shelf n) _ hOther.symm)
  | folder name =>
    rw [run_put_inFolder, Option.getD_some]
    rcases run_put_cases true v.now content lifetime
      (get?_hiddenName_unusedDraw (v.folder name) key) with ⟨fault, hRefused⟩ | ⟨_, _, -, hStored⟩
    · rw [hRefused, Untouched, folder_setFolder]
    · rw [hStored, Untouched, folder_setFolder]
      exact Table.get?_insert_of_ne (v.folder name) _ hOther.symm

theorem now_put (key content : String) (lifetime : Value) (v : Vault) :
    ((cache.put key content (some lifetime)).run v).2.now = v.now := by
  cases cache with
  | shelf n =>
    cases hSecond : expirySecond v.now lifetime with
    | error fault => rw [run_put_shelf_error content hSecond]
    | ok second =>
      rw [run_put_shelf content hSecond]
      rfl
  | folder name =>
    rw [run_put_inFolder]
    rfl

/-- No event takes the clock back. -/
theorem now_le_after (event : Event) (v : Vault) :
    v.now.micros ≤ (event.after cache v).now.micros := by
  cases event with
  | look key =>
    rw [Event.after, Storage.run_lookup]
    exact (congrArg Instant.micros (keeps_afterFetch cache key v).now).ge
  | store key content lifetime =>
    rw [Event.after, now_put]
  | wait micros => exact Int.le_add_of_nonneg_right (Int.natCast_nonneg micros)

theorem now_le_course (events : List Event) (v : Vault) :
    v.now.micros ≤ (course cache v events).now.micros := by
  induction events generalizing v with
  | nil => exact le_rfl
  | cons event rest ih => exact (now_le_after event v).trans (ih _)

theorem course_append (more : List Event) :
    course cache v (events ++ more) = course cache (course cache v events) more :=
  List.foldl_append

/-- An entry whose lifetime is not over survives whatever stores nothing in its place. -/
theorem Bears.after (h : Bears cache key text stored lifetime v) {event : Event}
    (hSpared : event.replaces cache key = false)
    (hLive : ¬ Over cache stored lifetime (event.after cache v).now) :
    Bears cache key text stored lifetime (event.after cache v) := by
  cases event with
  | look other =>
    by_cases hSame : slot cache other = slot cache key
    · cases cache with
      | shelf n =>
        -- the entry itself is looked up, and it is live
        obtain rfl : other = key := hSame
        rw [Event.after, h.run_lookup fun hOver => hLive (Over.later hOver (now_le_after _ v))]
        exact h
      | folder name =>
        rw [Event.after, Storage.run_lookup]
        exact h
    · rw [Event.after, Storage.run_lookup]
      exact h.congr ((keeps_afterFetch cache other v).untouched _ fun hHere => hSame hHere.symm)
  | store other content more => exact h.congr (untouched_put (ne_of_beq_false hSpared) v)
  | wait micros =>
    cases cache with
    | shelf n => exact h
    | folder name => exact h

theorem Bears.course (h : Bears cache key text stored lifetime v)
    (hSpared : ∀ event ∈ events, event.replaces cache key = false)
    (hLive : ¬ Over cache stored lifetime (course cache v events).now) :
    Bears cache key text stored lifetime (course cache v events) := by
  induction events generalizing v with
  | nil => exact h
  | cons event rest ih =>
    rw [List.forall_mem_cons] at hSpared
    have hHere : ¬ Over cache stored lifetime (event.after cache v).now :=
      fun hOver => hLive (Over.later hOver (now_le_course rest _))
    exact ih (h.after hSpared.1 hHere) hSpared.2 hLive

/-- What was stored is found until its lifetime is over or something is stored in its place. -/
theorem run_lookup_course (hPresent : Present cache v)
    (hRun : (cache.put key text (some lifetime)).run v = (.ok (), v'))
    (hSpared : ∀ event ∈ events, event.replaces cache key = false)
    (hLive : ¬ Over cache v.now lifetime (course cache v' events).now) :
    (cache.lookup key).run (course cache v' events) = (.ok (some text), course cache v' events) :=
  ((bears_of_run_put hPresent hRun).1.course hSpared hLive).run_lookup hLive

end PageBlocks.Memory
