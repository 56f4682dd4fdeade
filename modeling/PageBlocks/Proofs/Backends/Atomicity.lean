import Mathlib.Tactic.Ring
import PageBlocks.Cache.Request
import PageBlocks.Proofs.Storage

/-!
# Storing in a folder changes one file or nothing

A folder that was only ever stored in, deleted from and cleared holds the files of keys and no
others, whichever of these failed on the way (`HoldsEntries.history`). Storing in it succeeds unless
the expiry is refused or the file is refused its name. If it fails, the folder is as it was, and if
it succeeds, one file is new (`put_all_or_nothing`). The hidden names are drawn by chance, so the
draw is a variable throughout.
-/

set_option autoImplicit false

namespace PageBlocks.Backends

open PageBlocks.Cache PageBlocks.Publishing PageBlocks.Running PageBlocks.Storage PageBlocks.Time

/-! ## Histories of folders -/

/-- What is done to a folder. A file that is stored is given a hidden name by a draw, and may not be
allowed to take the name of its key. -/
inductive Deed where
  | put (allowed : Bool) (draw : String) (now : Instant) (key content : String) (lifetime : Value)
  | delete (key : String)
  | clear

/-- How a deed is carried out. -/
def Deed.change : Deed → Folder.Change Unit
  | .put allowed draw now key content lifetime => Folder.put allowed draw now key content lifetime
  | .delete key => Folder.delete key
  | .clear => modify Folder.clear

/-- The folder that is left by deeds, those that fail included. -/
def history (deeds : List Deed) (folder : Folder) : Folder :=
  deeds.foldl (fun folder deed => (deed.change.run folder).2) folder

/-- Whether all there is in a folder are files of keys. -/
def HoldsEntries (folder : Folder) : Prop :=
  ∀ item ∈ folder, ∃ key data, item = (Folder.fileName key, .file data)

variable {folder : Folder}

theorem holdsEntries_nil : HoldsEntries [] := nofun

namespace HoldsEntries

/-- There is no file on its way in a folder of entries. -/
theorem get?_hiddenName (h : HoldsEntries folder) (key draw : String) :
    Table.get? folder (Folder.hiddenName key draw) = none := by
  cases hFound : Table.get? folder (Folder.hiddenName key draw) with
  | none => rfl
  | some item =>
    obtain ⟨other, data, hEntry⟩ := h _ (Table.mem_of_get?_eq_some hFound)
    exact absurd (congrArg Prod.fst hEntry).symm (fileName_ne_hiddenName other key draw)

/-- There are no directories, so only the surroundings keep a file from its name. -/
theorem refusal_eq (h : HoldsEntries folder) (allowed : Bool) (name : String) :
    Folder.refusal allowed folder name
      = if allowed then none else some (.host .renameRefused) := by
  have hFile : Table.get? folder name ≠ some .directory := by
    intro hFound
    obtain ⟨key, data, hEntry⟩ := h _ (Table.mem_of_get?_eq_some hFound)
    cases congrArg Prod.snd hEntry
  unfold Folder.refusal
  cases allowed with
  | false => rfl
  | true =>
    rw [if_pos rfl, if_pos rfl]
    split
    · rename_i hFound
      exact absurd hFound hFile
    · rfl

theorem insert (h : HoldsEntries folder) (key : String) (data : Text.Bytes) :
    HoldsEntries (Table.insert folder (Folder.fileName key) (.file data)) := by
  intro item hMem
  rcases Table.eq_or_mem_of_mem_insert hMem with hNew | hOld
  · exact ⟨key, data, hNew⟩
  · exact h item hOld

/-- A deed leaves entries and nothing else, whether it succeeds or fails. -/
theorem change (h : HoldsEntries folder) (deed : Deed) :
    HoldsEntries (deed.change.run folder).2 := by
  cases deed with
  | put allowed draw now key content lifetime =>
    rcases run_put_cases allowed now content lifetime (h.get?_hiddenName key draw) with
      ⟨fault, hRun⟩ | ⟨expiry, -, -, hRun⟩
    · rw [Deed.change, hRun]
      exact h
    · rw [Deed.change, hRun]
      exact h.insert key _
  | delete key =>
    rw [Deed.change, Folder.delete, run_remove]
    split
    · exact h
    · exact fun item hMem => h item (Table.mem_of_mem_erase hMem)
  | clear =>
    intro item hMem
    exact h item ((List.mem_filter.mp hMem).1)

/-- So does a history, by induction on its deeds. -/
theorem history (h : HoldsEntries folder) (deeds : List Deed) :
    HoldsEntries (Backends.history deeds folder) := by
  induction deeds generalizing folder with
  | nil => exact h
  | cons deed rest ih => exact ih (h.change deed)

end HoldsEntries

/-! ## Requests -/

/-- Whether a request leaves the files of a folder to the cache. -/
inductive IsRegular : Request → Prop
  | put (key content : String) (lifetime : Option Value) : IsRegular (.put key content lifetime)
  | putRefused (key content : String) : IsRegular (.putRefused key content)
  | delete (key : String) : IsRegular (.delete key)
  | clear : IsRegular .clear
  | get (key : String) : IsRegular (.get key)
  | has (key : String) : IsRegular (.has key)
  | lookup (key : String) : IsRegular (.lookup key)
  | advance (micros : Int) : IsRegular (.advance micros)
  | size : IsRegular .size
  | dump : IsRegular .dump

variable {v w : Vault} {name : String}

/-- A computation that has nothing to show for it leaves what it leaves without showing that. -/
theorem run_then_null (x : VaultM Unit) (v : Vault) :
    (x >>= fun _ => pure Value.null).run v
      = ((fun _ => Value.null) <$> (x.run v).1, (x.run v).2) := by
  rw [run_bind]
  rcases x.run v with ⟨fault | done, after⟩ <;> rfl

/-- Storing by a request changes the folder as storing does. -/
theorem run_perform_put (name key content : String) (lifetime : Option Value) (v : Vault) :
    ∃ w, ((Ref.folder name).perform (.put key content lifetime)).run v
        = ((fun _ => Value.null) <$> ((Folder.put true (v.folder name).unusedDraw v.now key content
            (lifetime.getD defaultLifetime)).run (v.folder name)).1, w)
      ∧ w.now = v.now
      ∧ w.folder name = ((Folder.put true (v.folder name).unusedDraw v.now key content
            (lifetime.getD defaultLifetime)).run (v.folder name)).2 := by
  have hRun := run_then_null ((Ref.folder name).put key content lifetime) v
  rw [run_put_inFolder] at hRun
  exact ⟨_, hRun, rfl, folder_setFolder _ name _⟩

/-- So does storing by a request when the surroundings refuse the file its name. -/
theorem run_perform_putRefused (name key content : String) (v : Vault) :
    ∃ w, ((Ref.folder name).perform (.putRefused key content)).run v
        = ((fun _ => Value.null) <$> ((Folder.put false (v.folder name).unusedDraw v.now key content
            defaultLifetime).run (v.folder name)).1, w)
      ∧ w.now = v.now
      ∧ w.folder name = ((Folder.put false (v.folder name).unusedDraw v.now key content
            defaultLifetime).run (v.folder name)).2 := by
  have hRun := run_then_null (Ref.inFolder name (Folder.put false (v.folder name).unusedDraw v.now
    key content defaultLifetime)) { v with deposits := ⟨key, content, none⟩ :: v.deposits }
  rw [run_inFolder] at hRun
  exact ⟨_, hRun, rfl, folder_setFolder _ name _⟩

/-- What a regular request leaves is the folder after some deeds. -/
theorem exists_deeds_of_regular {request : Request} (h : IsRegular request) (name : String)
    (v : Vault) :
    ∃ deeds, ((((Ref.folder name).perform request).run v).2).folder name
      = history deeds (v.folder name) := by
  cases h with
  | put key content lifetime =>
    obtain ⟨w, hRun, -, hFolder⟩ := run_perform_put name key content lifetime v
    rw [hRun, hFolder]
    exact ⟨[.put _ _ _ key content _], rfl⟩
  | putRefused key content =>
    obtain ⟨w, hRun, -, hFolder⟩ := run_perform_putRefused name key content v
    rw [hRun, hFolder]
    exact ⟨[.put _ _ _ key content _], rfl⟩
  | delete key =>
    have hRun := run_then_null ((Ref.folder name).delete key) v
    rw [run_delete_folder] at hRun
    refine ⟨[.delete key], ?_⟩
    exact (congrArg (fun ending => Vault.folder (Prod.snd ending) name) hRun).trans
      (folder_setFolder v name _)
  | clear => exact ⟨[.clear], folder_setFolder v name _⟩
  | get key =>
    refine ⟨[], ?_⟩
    show (((Value.text <$> (Ref.folder name).fetch key : VaultM Value).run v).2).folder name = _
    rw [run_map, run_fetch]
    cases reading (.folder name) key v <;> rfl
  | has key =>
    refine ⟨[], ?_⟩
    show (((Value.bool <$> (Ref.folder name).has key : VaultM Value).run v).2).folder name = _
    have hRun : ((Ref.folder name).has key).run v = ((v.folder name).has v.now key, v) := rfl
    rw [run_map, hRun]
    cases (v.folder name).has v.now key <;> rfl
  | lookup key =>
    refine ⟨[], ?_⟩
    unfold Ref.perform
    dsimp only
    rw [run_bind, run_lookup]
    rcases entry (.folder name) key v with fault | found
    · rfl
    · cases found <;> rfl
  | advance micros => exact ⟨[], rfl⟩
  | size => exact ⟨[], rfl⟩
  | dump => exact ⟨[], rfl⟩

/-- What is asked about the entry of a key. -/
def questions (key : String) : List Request := [.has key, .get key, .lookup key]

/-- What is answered about entries depends on the folder and on the time alone. -/
theorem answers_congr (hFolder : w.folder name = v.folder name) (hNow : w.now = v.now)
    (key : String) {question : Request} (h : question ∈ questions key) :
    (((Ref.folder name).perform question).run w).1
      = (((Ref.folder name).perform question).run v).1 := by
  have hReading : reading (.folder name) key w = reading (.folder name) key v :=
    reading_congr hNow (congrArg (Table.get? · (slot (.folder name) key)) hFolder)
  simp only [questions, List.mem_cons, List.not_mem_nil, or_false] at h
  rcases h with rfl | rfl | rfl
  · have hRun : ∀ u : Vault, ((Ref.folder name).has key).run u
        = ((u.folder name).has u.now key, u) := fun _ => rfl
    simp only [Ref.perform, run_map, hRun, hFolder, hNow]
    cases (v.folder name).has v.now key <;> rfl
  · simp only [Ref.perform, run_map, run_fetch, hReading]
    cases reading (.folder name) key v <;> rfl
  · simp only [Ref.perform, run_bind, run_lookup, entry, hReading]
    rcases settle (reading (.folder name) key v) with fault | found
    · rfl
    · cases found <;> rfl

/-! ## Storing -/

/-- A lifetime between two instants of the calendar is not too long. -/
theorem days_of_inCalendar {now : Instant} {micros : Int} (hNow : now.inCalendar = true)
    (hExpiry : (now.addMicros micros).inCalendar = true) :
    -(longestDays : Int) ≤ Int.fdiv micros Instant.perDay
      ∧ Int.fdiv micros Instant.perDay ≤ longestDays := by
  simp only [Instant.inCalendar, Bool.and_eq_true, decide_eq_true_eq] at hNow hExpiry
  simp only [Instant.first, Instant.pastLast, Instant.addMicros, Instant.epochDay,
    Instant.perDay] at hNow hExpiry
  rw [Int.fdiv_eq_ediv_of_nonneg _ (by decide)]
  simp only [longestDays, Instant.perDay]
  omega

/-- The expiry of an entry is refused just if it is not within the calendar. -/
theorem expiryInstant_eq_error_iff {now : Instant} {lifetime : Value} {micros : Int}
    (hNow : now.inCalendar = true) (hMicros : lifetimeMicros lifetime = .ok micros) :
    expiryInstant now lifetime = .error (.host .outOfRange)
      ↔ (now.addMicros micros).inCalendar = false := by
  have hOpened : expiryInstant now lifetime
      = if -(longestDays : Int) ≤ Int.fdiv micros Instant.perDay
          ∧ Int.fdiv micros Instant.perDay ≤ longestDays ∧ (now.addMicros micros).inCalendar
        then .ok (now.addMicros micros) else .error (.host .outOfRange) := by
    unfold expiryInstant
    rw [hMicros]
    show (if _ then _ else _) = _
    split <;> rfl
  rw [hOpened]
  cases hCalendar : (now.addMicros micros).inCalendar with
  | true =>
    obtain ⟨hLow, hHigh⟩ := days_of_inCalendar hNow hCalendar
    rw [if_pos ⟨hLow, hHigh, rfl⟩]
    exact ⟨nofun, nofun⟩
  | false =>
    rw [if_neg fun h => Bool.false_ne_true h.2.2]
    exact ⟨fun _ => rfl, fun _ => rfl⟩

/-- How storing can end in a folder: either it fails, because the expiry is refused or the file its
name, and leaves the folder, or one file holds the content and all other names stand for what they
stood for. -/
def EndsWhole (before : Folder) (allowed : Bool) (now : Instant) (key content : String)
    (lifetime : Value) (ending : Except Fault Unit × Folder) : Prop :=
  (∃ fault, ending = (.error fault, before)
    ∧ (expiryInstant now lifetime = .error fault
      ∨ (∃ expiry, expiryInstant now lifetime = .ok expiry)
        ∧ allowed = false ∧ fault = .host .renameRefused))
  ∨ ∃ expiry, expiryInstant now lifetime = .ok expiry ∧ allowed = true ∧ ending.1 = .ok ()
    ∧ Table.get? ending.2 (Folder.fileName key) = some (.file (Folder.fileBytes expiry content))
    ∧ ∀ name, name ≠ Folder.fileName key → Table.get? ending.2 name = Table.get? before name

/-- Storing ends whole in a folder of entries. -/
theorem endsWhole_put (h : HoldsEntries folder) (allowed : Bool) (draw : String) (now : Instant)
    (key content : String) (lifetime : Value) :
    EndsWhole folder allowed now key content lifetime
      ((Folder.put allowed draw now key content lifetime).run folder) := by
  cases hExpiry : expiryInstant now lifetime with
  | error fault =>
    rw [run_put_of_expiry_error hExpiry]
    exact .inl ⟨fault, rfl, .inl hExpiry⟩
  | ok expiry =>
    rw [run_put_of_expiry allowed content hExpiry (h.get?_hiddenName key draw), h.refusal_eq]
    cases allowed with
    | false => exact .inl ⟨_, rfl, .inr ⟨⟨expiry, hExpiry⟩, rfl, rfl⟩⟩
    | true =>
      refine .inr ⟨expiry, hExpiry, rfl, rfl, Table.get?_insert_self _ _ _, fun name hName => ?_⟩
      exact Table.get?_insert_of_ne folder _ hName

/-- What fails to be stored in a folder of entries leaves the folder. -/
theorem snd_run_put_of_error (h : HoldsEntries folder) {allowed : Bool} {draw : String}
    {now : Instant} {key content : String} {lifetime : Value} {fault : Fault}
    (hFails : (fun _ => Value.null) <$> ((Folder.put allowed draw now key content lifetime).run
      folder).1 = .error fault) :
    ((Folder.put allowed draw now key content lifetime).run folder).2 = folder := by
  rcases run_put_cases allowed now content lifetime (h.get?_hiddenName key draw) with
    ⟨other, hRun⟩ | ⟨expiry, -, -, hRun⟩
  · rw [hRun]
  · rw [hRun] at hFails
    cases hFails

/-- A failing request to store leaves the folder and all answers about entries. -/
theorem unchanged_of_failing (h : HoldsEntries (v.folder name)) {request : Request} {fault : Fault}
    {key content : String}
    (hRequest : (∃ lifetime, request = .put key content lifetime)
      ∨ request = .putRefused key content)
    (hRun : ((Ref.folder name).perform request).run v = (.error fault, w)) :
    w.folder name = v.folder name
      ∧ ∀ other, ∀ question ∈ questions other,
        (((Ref.folder name).perform question).run w).1
          = (((Ref.folder name).perform question).run v).1 := by
  have hEnd : w.now = v.now ∧ w.folder name = v.folder name := by
    rcases hRequest with ⟨lifetime, rfl⟩ | rfl
    · obtain ⟨u, hPut, hNow, hFolder⟩ := run_perform_put name key content lifetime v
      obtain ⟨hFails, rfl⟩ := Prod.mk.inj (hPut.symm.trans hRun)
      exact ⟨hNow, hFolder.trans (snd_run_put_of_error h hFails)⟩
    · obtain ⟨u, hPut, hNow, hFolder⟩ := run_perform_putRefused name key content v
      obtain ⟨hFails, rfl⟩ := Prod.mk.inj (hPut.symm.trans hRun)
      exact ⟨hNow, hFolder.trans (snd_run_put_of_error h hFails)⟩
  exact ⟨hEnd.2, fun other question hMem => answers_congr hEnd.2 hEnd.1 other hMem⟩

/-- In a folder with any history, of deeds some of which may have failed, storing ends whole and
leaves no file under a hidden name; the expiry is refused just outside of the calendar. In a vault
with such a folder, every regular request leads to such a folder again, and a request to store that
fails changes neither the folder nor what is answered about any entry. -/
theorem put_all_or_nothing (deeds : List Deed) (allowed : Bool) (draw : String) (now : Instant)
    (key content : String) (lifetime : Value) :
    EndsWhole (history deeds []) allowed now key content lifetime
        ((Folder.put allowed draw now key content lifetime).run (history deeds []))
      ∧ (∀ other otherDraw, Table.get?
          ((Folder.put allowed draw now key content lifetime).run (history deeds [])).2
          (Folder.hiddenName other otherDraw) = none)
      ∧ (∀ micros, now.inCalendar = true → lifetimeMicros lifetime = .ok micros →
        (expiryInstant now lifetime = .error (.host .outOfRange)
          ↔ (now.addMicros micros).inCalendar = false))
      ∧ ∀ (v : Vault) (name : String), v.folder name = history deeds [] →
        (∀ request, IsRegular request → ∃ more,
          ((((Ref.folder name).perform request).run v).2).folder name = history more [])
        ∧ ∀ request fault w,
          (∃ given, request = .put key content given) ∨ request = .putRefused key content →
          ((Ref.folder name).perform request).run v = (.error fault, w) →
          w.folder name = v.folder name
            ∧ ∀ other, ∀ question ∈ questions other,
              (((Ref.folder name).perform question).run w).1
                = (((Ref.folder name).perform question).run v).1 := by
  have hEntries : HoldsEntries (history deeds []) := holdsEntries_nil.history deeds
  have hStored := hEntries.change (.put allowed draw now key content lifetime)
  refine ⟨endsWhole_put hEntries allowed draw now key content lifetime,
    fun other otherDraw => hStored.get?_hiddenName other otherDraw,
    fun micros hNow hMicros => expiryInstant_eq_error_iff hNow hMicros,
    fun v name hFolder => ⟨fun request hRegular => ?_, fun request fault w hRequest hRun => ?_⟩⟩
  · obtain ⟨more, hMore⟩ := exists_deeds_of_regular hRegular name v
    refine ⟨deeds ++ more, ?_⟩
    rw [hMore, hFolder, history, history, history, List.foldl_append]
  · exact unchanged_of_failing (hFolder ▸ hEntries) hRequest hRun

/-- Deeds of which one is refused its expiry and one the name of its file. -/
def mishaps : List Deed :=
  [.put true "a" ⟨0⟩ "k" "one" (.int 60), .put true "b" ⟨9⟩ "k" "two" (.int (10 ^ 12)),
    .put false "c" ⟨9⟩ "k" "three" (.int 60)]

/-- A vault with the folder that the mishaps leave. -/
def mishapsVault : Vault where
  now := ⟨9⟩
  folders := [("c", history mishaps [])]

theorem folder_mishapsVault : mishapsVault.folder "c" = history mishaps [] := by
  simp [mishapsVault, Vault.folder, Table.get?]

theorem put_all_or_nothing_after_mishaps :
    history mishaps [] = [(Folder.fileName "k", .file (Folder.fileBytes ⟨60000000⟩ "one"))]
      ∧ expiryInstant ⟨9⟩ (.int (10 ^ 12)) = .error (.host .outOfRange)
      ∧ ∃ w, ((Ref.folder "c").perform (.putRefused "k" "four")).run mishapsVault
          = (.error (.host .renameRefused), w)
        ∧ w.folder "c" = history mishaps []
        ∧ (((Ref.folder "c").perform (.get "k")).run w).1
          = (((Ref.folder "c").perform (.get "k")).run mishapsVault).1 := by
  obtain ⟨-, -, hYears, hVault⟩ :=
    put_all_or_nothing mishaps false "d" ⟨9⟩ "k" "four" (.int (10 ^ 12))
  obtain ⟨-, hFails⟩ := hVault mishapsVault "c" folder_mishapsVault
  obtain ⟨w, hRun, -, -⟩ := run_perform_putRefused "c" "k" "four" mishapsVault
  rw [run_put_of_expiry false "four" (show expiryInstant _ _ = .ok ⟨3600000009⟩ from rfl)
    (get?_hiddenName_unusedDraw _ "k")] at hRun
  obtain ⟨hFolder, hSame⟩ := hFails _ _ w (.inr rfl) hRun
  have hGet := hSame "k" (.get "k") (List.mem_cons_of_mem _ List.mem_cons_self)
  exact ⟨by decide +kernel, (hYears (10 ^ 12 * 10 ^ 6) (by decide) rfl).mpr (by decide),
    w, hRun, hFolder.trans folder_mishapsVault, hGet⟩

end PageBlocks.Backends
