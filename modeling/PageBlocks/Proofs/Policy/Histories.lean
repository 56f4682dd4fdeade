import PageBlocks.Proofs.KeyTexts
import PageBlocks.Proofs.Policy.Entries

/-!
# The cache policy over whole histories

Requests for pages, file edits, new kinds of fragments, deletions of cache entries and a clock that
moves on by whole seconds, in any order, keep the entries of pages apart (`governed_after`). What a
body gave is handed out to later requests for its page, until its lifetime is over or the entry is
deleted, and no body runs for them (`policy_of_history`).

The time at which an entry expires is a double. Up to `2 ^ 53` seconds that is the exact sum of the
time and the lifetime; beyond that an entry may expire a second early (`expired_early`).
-/

set_option autoImplicit false

namespace PageBlocks.Policy

open PageBlocks.Body PageBlocks.Cache PageBlocks.Deferral PageBlocks.Number PageBlocks.Running
  PageBlocks.Site PageBlocks.Storage PageBlocks.Time PageBlocks.Upkeep

/-! ## Histories -/

/-- The site after requests. -/
def after (w : World) (history : List Request) : World :=
  history.foldl (fun w r => ((perform r).run w).2) w

/-- A request in the course of a site whose cache only pages write to. -/
inductive IsStep : Request → Prop where
  | render (name : Value) (vars : Option Value) (paths : List String) (useGlobals : Bool) :
    IsStep (.render name vars paths useGlobals)
  /-- The clock moves on. -/
  | advance (seconds : Nat) : IsStep (.cache (.advance (seconds * Instant.perSecond : Nat)))
  | writeFile (path : String) (source : Source) : IsStep (.writeFile path source)
  | deleteFile (path : String) : IsStep (.deleteFile path)
  | addFragment (name : String) (kind : Fragment.Kind) : IsStep (.addFragment name kind)
  | delete (key : String) : IsStep (.cache (.delete key))

/-- A site before the first request, with an empty shelf for a cache. -/
structure IsNew (start : World) (n : Nat) (ttl : Int) : Prop where
  cache : start.settings.cache = some (.shelf n)
  lifetime : start.settings.lifetime = .int ttl
  directives : start.settings.directives = Directive.builtIn
  bound : n < start.vault.shelves.length
  empty : start.vault.shelf n = []
  pages : start.pages = #[]
  outlines : start.outlines = #[]
  clock : ∃ t, start.vault.now = Instant.ofSeconds t

/-! ## The texts behind the keys of a history -/

/-- The text whose digest is the identity of a page that is asked for. -/
def pageText (w : World) (name vars : Value) (paths : List String) (useGlobals : Bool) :
    Except Fault (List Char) := do
  let place ← placeAt w.files w.settings.locator name (paths.map Path.ofText)
  let request ← requestOf w vars useGlobals
  Identity.pageText (Path.absolute place).print request

/-- The text of the page that a request asks for, if it asks for one. -/
def pageTextOf (w : World) : Request → Option (List Char)
  | .render name vars paths useGlobals =>
    (pageText w name (vars.getD .null) paths useGlobals).toOption
  | _ => none

/-- The texts of all pages that a history asks for. -/
def pageTexts : World → List Request → List (List Char)
  | _, [] => []
  | w, r :: rest => (pageTextOf w r).toList ++ pageTexts ((perform r).run w).2 rest

/-- No two of the texts behind the keys of pages have one digest. -/
def Distinct (texts : List (List Char)) : Prop :=
  ∀ a ∈ texts ++ texts.map (fun text => Identity.compiledText (Identity.digest text)),
    ∀ b ∈ texts ++ texts.map (fun text => Identity.compiledText (Identity.digest text)),
      Identity.digest a = Identity.digest b → a = b

theorem pageId_eq (w : World) (name vars : Value) (paths : List String) (useGlobals : Bool) :
    pageId w name vars paths useGlobals
      = Identity.digest <$> pageText w name vars paths useGlobals := by
  unfold pageId pageText requestOf
  cases placeAt w.files w.settings.locator name (paths.map Path.ofText) with
  | error fault => rfl
  | ok place =>
    cases Bindings.ofRequest vars with
    | error fault => rfl
    | ok given => rfl

theorem pageIdOf_of_pageId {w : World} {name : Value} {vars : Option Value} {paths : List String}
    {useGlobals : Bool} {id : String}
    (h : pageId w name (vars.getD .null) paths useGlobals = .ok id) :
    pageIdOf w (.render name vars paths useGlobals) = some id := by
  rw [pageIdOf, h]
  rfl

theorem pageIdOf_eq (w : World) (r : Request) :
    pageIdOf w r = (pageTextOf w r).map Identity.digest := by
  cases r with
  | render name vars paths useGlobals =>
    unfold pageIdOf pageTextOf
    dsimp only
    rw [pageId_eq]
    cases pageText w name (vars.getD .null) paths useGlobals <;> rfl
  | _ => rfl

/-- Which page a request asks for depends on the files, the settings and the global variables. -/
theorem pageTextOf_congr {w w' : World} (hFiles : w'.files = w.files)
    (hSettings : w'.settings = w.settings) (hGlobals : w'.globals = w.globals) (r : Request) :
    pageTextOf w' r = pageTextOf w r := by
  cases r with
  | render name vars paths useGlobals =>
    unfold pageTextOf pageText requestOf
    rw [hFiles, hSettings, hGlobals]
  | _ => rfl

/-- The text of a page starts with the slash of its path. -/
theorem head?_pageText {w : World} {name vars : Value} {paths : List String} {useGlobals : Bool}
    {text : List Char} (h : pageText w name vars paths useGlobals = .ok text) :
    text.head? = some '/' := by
  unfold pageText at h
  obtain ⟨place, -, h⟩ := bind_eq_ok h
  obtain ⟨request, -, h⟩ := bind_eq_ok h
  have hPage : Identity.page (Path.absolute place).print request = .ok (Identity.digest text) := by
    unfold Identity.page
    rw [h]
    rfl
  obtain ⟨other, hOther, -, hSlash⟩ := KeyTexts.exists_pageText hPage
  rw [h] at hOther
  cases hOther
  exact hSlash

theorem head?_pageTextOf {w : World} {r : Request} {text : List Char}
    (h : pageTextOf w r = some text) : text.head? = some '/' := by
  cases r with
  | render name vars paths useGlobals =>
    unfold pageTextOf at h
    dsimp only at h
    cases hText : pageText w name (vars.getD .null) paths useGlobals with
    | error fault =>
      rw [hText] at h
      cases h
    | ok found =>
      rw [hText] at h
      cases h
      exact head?_pageText hText
  | _ => cases h

theorem head?_of_mem_pageTexts {w : World} {history : List Request} {text : List Char}
    (h : text ∈ pageTexts w history) : text.head? = some '/' := by
  induction history generalizing w with
  | nil => cases h
  | cons r rest ih =>
    rcases List.mem_append.mp h with hHere | hRest
    · exact head?_pageTextOf (Option.mem_toList.mp hHere)
    · exact ih hRest

theorem pageTexts_append (w : World) (history later : List Request) :
    pageTexts w (history ++ later) = pageTexts w history ++ pageTexts (after w history) later := by
  induction history generalizing w with
  | nil => rfl
  | cons r rest ih =>
    rw [List.cons_append, pageTexts, ih, pageTexts, List.append_assoc]
    rfl

/-- With a single page, there are two keys to compare. -/
theorem distinct_of_forall_eq {texts : List (List Char)} {text : List Char}
    (hAll : ∀ other ∈ texts, other = text)
    (hNe : Identity.digest text
      ≠ Identity.digest (Identity.compiledText (Identity.digest text))) : Distinct texts := by
  have hKeys : ∀ a ∈ texts ++ texts.map fun text => Identity.compiledText (Identity.digest text),
      a = text ∨ a = Identity.compiledText (Identity.digest text) := by
    intro a hMem
    rcases List.mem_append.mp hMem with hPage | hCompiled
    · exact .inl (hAll a hPage)
    · obtain ⟨other, hOther, rfl⟩ := List.mem_map.mp hCompiled
      rw [hAll other hOther]
      exact .inr rfl
  intro a hA b hB hSame
  rcases hKeys a hA with hFirst | hFirst <;> rcases hKeys b hB with hSecond | hSecond
  · rw [hFirst, hSecond]
  · rw [hFirst, hSecond] at hSame
    exact absurd hSame hNe
  · rw [hFirst, hSecond] at hSame
    exact absurd hSame.symm hNe
  · rw [hFirst, hSecond]

/-- If digests do not collide on the texts of a history, the keys of its pages are all different. -/
theorem apart_of_distinct {texts : List (List Char)}
    (hSlash : ∀ text ∈ texts, text.head? = some '/') (h : Distinct texts) :
    Apart (texts.map Identity.digest) := by
  have hCompiled : ∀ text ∈ texts, Identity.compiledText (Identity.digest text)
      ∈ texts ++ texts.map fun text => Identity.compiledText (Identity.digest text) :=
    fun text hMem => List.mem_append_right _ (List.mem_map_of_mem hMem)
  constructor
  · intro id hId other hOther hSame
    obtain ⟨a, hA, rfl⟩ := List.mem_map.mp hId
    obtain ⟨b, hB, rfl⟩ := List.mem_map.mp hOther
    have hTexts : a = Identity.compiledText (Identity.digest b) :=
      h _ (List.mem_append_left _ hA) _ (hCompiled b hB) hSame
    have hFirst := hSlash a hA
    -- an identity starts with a digit, and the text of a page with a slash
    rw [hTexts, Identity.compiledText, List.head?_append] at hFirst
    have hDigest : Token.isId (Identity.digest b).toList = true := Token.isId_digest b
    cases hHead : (Identity.digest b).toList.head? with
    | none =>
      rw [List.head?_eq_none_iff] at hHead
      rw [hHead] at hDigest
      cases hDigest
    | some c =>
      rw [hHead] at hFirst
      have hDigit := KeyTexts.isDigit_head?_of_isId hDigest hHead
      cases hFirst
      cases hDigit
  · intro id hId other hOther hSame
    obtain ⟨a, hA, rfl⟩ := List.mem_map.mp hId
    obtain ⟨b, hB, rfl⟩ := List.mem_map.mp hOther
    have hTexts := h _ (hCompiled a hA) _ (hCompiled b hB) hSame
    exact String.toList_inj.mp (List.append_cancel_right hTexts)

section Histories

variable {start w : World} {n : Nat} {lifetime : Value} {ttl : Int} {ids : List String}
  {history : List Request} {r : Request}

/-! ## Steps -/

/-- A site after a step: live entries of pages are as they were unless they were deleted, and the
clock has moved on by whole seconds. -/
structure Stepped (n : Nat) (lifetime : Value) (ids : List String) (r : Request) (w w' : World) :
    Prop where
  governed : Governed n lifetime ids w'
  keeps : ∀ id ∈ ids, ∀ key, IsKeyOf id key → r ≠ .cache (.delete key) →
    (w.vault.shelf n).has w.vault.now key = true →
      (w'.vault.shelf n).get? key = (w.vault.shelf n).get? key
  clock : ∃ seconds : Nat, w'.vault.now = w.vault.now.addMicros (seconds * Instant.perSecond : Nat)

theorem addMicros_zero (now : Instant) : now = now.addMicros (0 * Instant.perSecond : Nat) := by
  show now = ⟨now.micros + ((0 * Instant.perSecond : Nat) : Int)⟩
  rw [Nat.zero_mul, Int.natCast_zero, Int.add_zero]

theorem addMicros_addMicros (now : Instant) (a b : Nat) :
    (now.addMicros (a * Instant.perSecond : Nat)).addMicros (b * Instant.perSecond : Nat)
      = now.addMicros ((a + b) * Instant.perSecond : Nat) := by
  show Instant.mk (now.micros + _ + _) = Instant.mk (now.micros + _)
  rw [Int.add_assoc, ← Int.natCast_add, Nat.add_mul]

theorem ofSeconds_inj {s s' : Int} (h : Instant.ofSeconds s = Instant.ofSeconds s') : s = s' := by
  have hMicros : s * 1000000 = s' * 1000000 := congrArg Instant.micros h
  omega

/-- What leaves the caches and the pages alone is a step. -/
theorem Stepped.of_same {w' : World} (h : Governed n lifetime ids w)
    (hCache : w'.settings.cache = w.settings.cache)
    (hLifetime : w'.settings.lifetime = w.settings.lifetime)
    (hDirectives : w'.settings.directives = w.settings.directives) (hPages : w'.pages = w.pages)
    (hOutlines : w'.outlines = w.outlines) (hVault : w'.vault = w.vault) :
    Stepped n lifetime ids r w w' := by
  have hMarked : Marked w' ↔ Marked w := by
    unfold Marked
    rw [hPages]
  refine ⟨⟨hCache.trans h.cache, hLifetime.trans h.lifetime, hDirectives.trans h.directives,
    hVault ▸ h.tidied, ⟨?_, ?_, fun hIs => ?_, ?_⟩, hVault ▸ h.single⟩, ?_, 0, ?_⟩
  · rw [hPages]
    exact h.tended.pages
  · rw [hOutlines]
    exact h.tended.outlines
  · exact h.tended.marks (hMarked.mp hIs)
  · rw [hPages]
    exact h.tended.modes.imp_left hMarked.mpr
  · intro _ _ key _ _ _
    rw [hVault]
  · rw [hVault]
    exact addMicros_zero w.vault.now

theorem run_perform_cache (hCache : w.settings.cache = some (.shelf n)) (request : Cache.Request) :
    (perform (.cache request)).run w
      = (onVault ((Ref.shelf n).perform request)).run w := by
  have hRun : (perform (.cache request)).run w
      = (onVault (Cache.perform w.settings.cache request)).run w := rfl
  rw [hRun, hCache]
  rfl

theorem stepped_delete (h : Governed n lifetime ids w) (key : String) :
    Stepped n lifetime ids (.cache (.delete key)) w
      ((perform (.cache (.delete key))).run w).2 := by
  have hRun : ((perform (.cache (.delete key))).run w).2
      = { w with vault := without n key w.vault } := by
    rw [run_perform_cache h.cache]
    rfl
  rw [hRun]
  refine ⟨⟨h.cache, h.lifetime, h.directives, h.tidied.without key,
    (h.level_vault _).tended, fun id hId => ?_⟩, ?_, 0, addMicros_zero _⟩
  · have hStill : ∀ other, (w.vault.shelf n).get? other = none →
        ((without n key w.vault).shelf n).get? other = none := by
      intro other hNone
      by_cases hSame : other = key
      · rw [hSame]
        exact get?_without_self h.tidied
      · rw [get?_without_of_ne h.tidied hSame, hNone]
    exact (h.single id hId).imp (hStill _) (hStill _)
  · intro id _ other _ hSpared _
    have hNe : other ≠ key := by
      rintro rfl
      exact hSpared rfl
    exact get?_without_of_ne h.tidied hNe

theorem stepped_advance (h : Governed n lifetime ids w) (seconds : Nat) :
    Stepped n lifetime ids r w
      ((perform (.cache (.advance (seconds * Instant.perSecond : Nat)))).run w).2 := by
  have hRun : ((perform (.cache (.advance (seconds * Instant.perSecond : Nat)))).run w).2
      = { w with vault := { w.vault with
            now := w.vault.now.addMicros (seconds * Instant.perSecond : Nat) } } := by
    rw [run_perform_cache h.cache]
    rfl
  rw [hRun]
  exact ⟨⟨h.cache, h.lifetime, h.directives, ⟨h.tidied.bound, h.tidied.shelf⟩,
    (h.level_vault _).tended, h.single⟩, fun _ _ _ _ _ _ => rfl, seconds, rfl⟩

theorem run_perform_render (w : World) (name : Value) (vars : Option Value) (paths : List String)
    (useGlobals : Bool) :
    (perform (.render name vars paths useGlobals)).run w
      = (Value.text <$> render Site.prepare name (vars.getD .null) paths useGlobals).run w := rfl

/-- A request for a page touches the entries of that page alone. -/
theorem reached_perform {name : Value} {vars : Option Value} {paths : List String}
    {useGlobals : Bool} (h : Governed n lifetime ids w)
    (hId : ∀ id, pageIdOf w (.render name vars paths useGlobals) = some id → id ∈ ids) :
    Reached n lifetime ids w ((perform (.render name vars paths useGlobals)).run w).2 := by
  have hEnds := ends_render h fun id hSome => hId id (pageIdOf_of_pageId hSome)
  rw [run_perform_render, run_map]
  rcases hRun : (render Site.prepare name (vars.getD .null) paths useGlobals).run w with
    ⟨fault | text, w'⟩
  · exact hEnds.of_run_error hRun
  · exact hEnds.of_run hRun

/-- Every request in the course of such a site is a step. -/
theorem stepped_perform (h : Governed n lifetime ids w) (hApart : Apart ids) (hStep : IsStep r)
    (hId : ∀ id, pageIdOf w r = some id → id ∈ ids) :
    Stepped n lifetime ids r w ((perform r).run w).2 := by
  cases hStep with
  | render name vars paths useGlobals =>
    have hReached := reached_perform h hId
    refine ⟨h.reached hApart hReached, ?_, 0, hReached.now.trans (addMicros_zero _)⟩
    intro id hMem key hKey _ hLive
    exact hReached.keeps h hApart hMem hKey hLive
  | advance seconds => exact stepped_advance h seconds
  | writeFile path source => exact .of_same h rfl rfl rfl rfl rfl rfl
  | deleteFile path => exact .of_same h rfl rfl rfl rfl rfl rfl
  | addFragment name kind => exact .of_same h rfl rfl rfl rfl rfl rfl
  | delete key => exact stepped_delete h key

/-! ## Runs -/

theorem after_append (w : World) (history later : List Request) :
    after w (history ++ later) = after (after w history) later :=
  List.foldl_append

theorem id_mem_of_pageIdOf {rest : List Request}
    (hIds : ∀ text ∈ pageTexts w (r :: rest), Identity.digest text ∈ ids) :
    ∀ id, pageIdOf w r = some id → id ∈ ids := by
  intro id hSome
  rw [pageIdOf_eq, Option.map_eq_some_iff] at hSome
  obtain ⟨text, hText, rfl⟩ := hSome
  exact hIds text (List.mem_append_left _ (Option.mem_toList.mpr hText))

/-- The entries of pages stay apart, and the clock moves on by whole seconds. -/
theorem governed_after (h : Governed n lifetime ids w) (hApart : Apart ids)
    (hSteps : ∀ r ∈ history, IsStep r)
    (hIds : ∀ text ∈ pageTexts w history, Identity.digest text ∈ ids) :
    Governed n lifetime ids (after w history) ∧ ∃ seconds : Nat, (after w history).vault.now
      = w.vault.now.addMicros (seconds * Instant.perSecond : Nat) := by
  induction history generalizing w with
  | nil => exact ⟨h, 0, addMicros_zero _⟩
  | cons r rest ih =>
    rw [List.forall_mem_cons] at hSteps
    have hStepped := stepped_perform h hApart hSteps.1 (id_mem_of_pageIdOf hIds)
    obtain ⟨hEnd, more, hMore⟩ := ih hStepped.governed hSteps.2 fun text hMem =>
      hIds text (List.mem_append_right _ hMem)
    obtain ⟨seconds, hClock⟩ := hStepped.clock
    refine ⟨hEnd, seconds + more, ?_⟩
    rw [hClock, addMicros_addMicros] at hMore
    exact hMore

/-! ## Lasting entries -/

/-- An entry of a page lasts until it is deleted or its lifetime is over, whichever pages are asked
for. -/
theorem lasts_after {id key text : String} {second : Binary64} {limit s s' : Int}
    (h : Governed n lifetime ids w) (hApart : Apart ids) (hSteps : ∀ r ∈ history, IsStep r)
    (hIds : ∀ text ∈ pageTexts w history, Identity.digest text ∈ ids) (hId : id ∈ ids)
    (hKey : IsKeyOf id key) (hSpared : Request.cache (.delete key) ∉ history)
    (hSecond : Binary64.Is second limit) (hNow : w.vault.now = Instant.ofSeconds s)
    (hLater : (after w history).vault.now = Instant.ofSeconds s') (hBefore : s' < limit)
    (hLow : -(Binary64.wholeLimit : Int) ≤ s) (hHigh : limit ≤ Binary64.wholeLimit)
    (hEntry : (w.vault.shelf n).get? key = some (Entry.ofContent text second)) :
    ((after w history).vault.shelf n).get? key = some (Entry.ofContent text second) := by
  induction history generalizing w s with
  | nil => exact hEntry
  | cons r rest ih =>
    -- the clock shows no later time now than in the end
    obtain ⟨-, seconds, hClock⟩ := governed_after h hApart hSteps hIds
    rw [hNow, addMicros_ofSeconds, hLater] at hClock
    have hTime := ofSeconds_inj hClock
    have hLive : (w.vault.shelf n).has w.vault.now key = true := by
      refine has_eq_true_iff.mpr ⟨_, hEntry, ?_⟩
      rw [hNow, isExpired_eq_false_iff hSecond (by omega)]
      omega
    rw [List.forall_mem_cons] at hSteps
    have hStepped := stepped_perform h hApart hSteps.1 (id_mem_of_pageIdOf hIds)
    obtain ⟨more, hMore⟩ := hStepped.clock
    rw [hNow, addMicros_ofSeconds] at hMore
    rw [List.mem_cons, not_or] at hSpared
    refine ih hStepped.governed hSteps.2 ?_ hSpared.2 hMore hLater (by omega) ?_
    · exact fun text hMem => hIds text (List.mem_append_right _ hMem)
    · rw [hStepped.keeps id hId key hKey (fun hSame => hSpared.1 hSame.symm) hLive]
      exact hEntry

/-! ## The policy -/

/-- The body of the page that a request asks for ran; it left its page like this and gave a text. -/
def Ran (w : World) (r : Request) (page : Page) (text : String) : Prop :=
  ∃ name vars paths useGlobals request w', r = .render name vars paths useGlobals
    ∧ (visit name (vars.getD .null) paths useGlobals).run w = (.ok (request, .body page text), w')

/-- No output is found for a request: there is no page for it, or its body fails. -/
def Fails (w : World) (r : Request) : Prop :=
  ∃ name vars paths useGlobals fault w', r = .render name vars paths useGlobals
    ∧ (visit name (vars.getD .null) paths useGlobals).run w = (.error fault, w')

/-- The variables of a request for a page. -/
def IsCalledWith (w : World) (r : Request) (request : Bindings) : Prop :=
  ∃ name vars paths useGlobals, r = .render name vars paths useGlobals
    ∧ requestOf w (vars.getD .null) useGlobals = .ok request

/-- A request is answered with what a body gave, and no body runs for it. Static output is handed
out as it is, and the fragments of dynamic output are computed for the request, as they are
registered now. -/
structure Recalled (w : World) (r : Request) (page : Page) (text : String) : Prop where
  executed : ((perform r).run w).2.executed = w.executed
  answer : ∃ request w', IsCalledWith w r request ∧ Beside w w' ∧ (perform r).run w
    = (Value.text <$> handOut w.settings.fragments request page.isDynamic text).run w'

/-- What a body gave at some time and was stored is what later requests for its page get, until its
lifetime is over or the entry is deleted. -/
def Recalls (start : World) (ttl : Int) (history : List Request) (t : Int) : Prop :=
  ∀ (earlier later : List Request) (r r' : Request) (id : String) (page : Page) (text : String)
    (t' : Int), history = earlier ++ r :: (later ++ [r']) →
    (after start earlier).vault.now = Instant.ofSeconds t →
    pageIdOf (after start earlier) r = some id →
    Ran (after start earlier) r page text → page.mode ≠ .disabled →
    (∀ key, IsKeyOf id key → Request.cache (.delete key) ∉ later) →
    (after start (earlier ++ r :: later)).vault.now = Instant.ofSeconds t' → t' < t + ttl →
    pageIdOf (after start (earlier ++ r :: later)) r' = some id →
      (page.isDynamic = false → ((perform r).run (after start earlier)).1 = .ok (.text text))
      ∧ Recalled (after start (earlier ++ r :: later)) r' page text

/-- A site without pages keeps to the terms of its pages. -/
theorem tended_of_no_pages (cache : Option Ref) (hNoPages : w.pages = #[])
    (hNoOutlines : w.outlines = #[]) : Tended (terms cache) w := by
  have hPages : ∀ (p : Nat) (page : Page), w.pages[p]? ≠ some page := by
    intro p page h
    rw [hNoPages] at h
    cases h
  refine ⟨fun p page h => absurd h (hPages p page), fun i o h => ?_, ?_,
    .inr fun p page h => absurd h (hPages p page)⟩
  · rw [hNoOutlines] at h
    cases h
  · rintro ⟨p, page, h, -⟩
    exact absurd h (hPages p page)

/-- Before the first request there is nothing to keep apart. -/
theorem governed_of_empty (hCache : w.settings.cache = some (.shelf n))
    (hDirectives : w.settings.directives = Directive.builtIn)
    (hBound : n < w.vault.shelves.length) (hEmpty : w.vault.shelf n = [])
    (hNoPages : w.pages = #[]) (hNoOutlines : w.outlines = #[]) (ids : List String) :
    Governed n w.settings.lifetime ids w := by
  refine ⟨hCache, rfl, hDirectives, ⟨hBound, hEmpty ▸ orderly_nil⟩,
    tended_of_no_pages _ hNoPages hNoOutlines, fun id _ => .inl ?_⟩
  rw [hEmpty]
  rfl

theorem governed_start (hNew : IsNew start n ttl) (ids : List String) :
    Governed n (.int ttl) ids start := by
  have hStart := governed_of_empty hNew.cache hNew.directives hNew.bound hNew.empty hNew.pages
    hNew.outlines ids
  rwa [hNew.lifetime] at hStart

theorem pageId_of_pageIdOf {name : Value} {vars : Option Value} {paths : List String}
    {useGlobals : Bool} {id : String}
    (h : pageIdOf w (.render name vars paths useGlobals) = some id) :
    pageId w name (vars.getD .null) paths useGlobals = .ok id := by
  unfold pageIdOf at h
  dsimp only at h
  cases hPage : pageId w name (vars.getD .null) paths useGlobals with
  | ok found =>
    rw [hPage] at h
    cases h
    rfl
  | error fault =>
    rw [hPage] at h
    cases h

theorem exists_render_of_pageIdOf {id : String} (h : pageIdOf w r = some id) :
    ∃ name vars paths useGlobals, r = .render name vars paths useGlobals := by
  cases r with
  | render name vars paths useGlobals => exact ⟨name, vars, paths, useGlobals, rfl⟩
  | _ => cases h

/-- A live entry answers a request, and no body runs. -/
theorem recalled_of_live (h : Governed n lifetime ids w) {id text : String} {page : Page}
    {second : Binary64} (hPage : pageIdOf w r = some id) (hId : id ∈ ids)
    (hEntry : (w.vault.shelf n).get? (if page.isDynamic then Identity.compiled id else id)
      = some (Entry.ofContent text second))
    (hLive : (Entry.ofContent text second).isExpired w.vault.now = false) :
    Recalled w r page text := by
  obtain ⟨name, vars, paths, useGlobals, rfl⟩ := exists_render_of_pageIdOf hPage
  obtain ⟨request, w', hRequest, hBeside, hRun⟩ :=
    run_render_of_live h (pageId_of_pageIdOf hPage) hId hEntry hLive
  have hAnswer : (perform (.render name vars paths useGlobals)).run w
      = (Value.text <$> handOut w.settings.fragments request page.isDynamic text).run w' := by
    rw [run_perform_render, run_map, hRun, run_map]
  refine ⟨?_, request, w', ⟨name, vars, paths, useGlobals, rfl, hRequest⟩, hBeside, hAnswer⟩
  have hExecuted : w'.executed = w.executed := by
    obtain ⟨pages, outlines, rfl⟩ := hBeside
    rfl
  have hAside :
      StaysAside (Value.text <$> handOut w.settings.fragments request page.isDynamic text) := by
    refine StaysAside.map ?_
    unfold handOut
    split
    · exact staysAside_resolve _ _ _
    · exact staysAside_pure _
  rw [hAnswer, (hAside.run w').executed, hExecuted]

/-- What a body gave is in the cache after the request, under the key that the mode of its page asks
for. -/
theorem entry_of_ran (h : Governed n lifetime ids w)
    (hIds : ∀ id, pageIdOf w r = some id → id ∈ ids)
    {id text : String} {page : Page} {second : Binary64} (hPage : pageIdOf w r = some id)
    (hRan : Ran w r page text) (hMode : page.mode ≠ .disabled)
    (hSecond : expirySecond w.vault.now lifetime = .ok second) :
    (((perform r).run w).2.vault.shelf n).get?
        (if page.isDynamic then Identity.compiled id else id) = some (Entry.ofContent text second)
      ∧ (page.isDynamic = false → ((perform r).run w).1 = .ok (.text text)) := by
  obtain ⟨name, vars, paths, useGlobals, request, w', rfl, hVisit⟩ := hRan
  have hMember : ∀ id, pageId w name (vars.getD .null) paths useGlobals = .ok id → id ∈ ids :=
    fun id hSome => hIds id (pageIdOf_of_pageId hSome)
  obtain ⟨-, -, other, hOther, hFound⟩ := (ends_visit h hMember).of_run hVisit
  have hSame : page.id = id := by
    rw [pageId_of_pageIdOf hPage] at hOther
    cases hOther
    cases hFound with
    | body _ _ hSame _ => exact hSame
  obtain ⟨hEntry, hAnswer⟩ := run_render_of_body h hMember hVisit hMode hSecond
  rw [hSame] at hEntry
  rw [run_perform_render, run_map]
  rcases hRun : (render Site.prepare name (vars.getD .null) paths useGlobals).run w with
    ⟨fault | shown, w''⟩
  · rw [hRun] at hEntry hAnswer
    exact ⟨hEntry, fun hStatic => nomatch hAnswer hStatic⟩
  · rw [hRun] at hEntry hAnswer
    refine ⟨hEntry, fun hStatic => ?_⟩
    have hShown : shown = text := Except.ok.inj (hAnswer hStatic)
    rw [hShown]

/-- A request that stores nothing: no output was found for it, or the body switched caching off. -/
theorem unfed_perform (h : Governed n lifetime ids w)
    (hIds : ∀ id, pageIdOf w r = some id → id ∈ ids)
    (hNothing : Fails w r ∨ ∃ page text, Ran w r page text ∧ page.mode = .disabled) :
    Unfed n w ((perform r).run w).2 := by
  have hMap : ∀ {name : Value} {vars : Option Value} {paths : List String} {useGlobals : Bool},
      r = .render name vars paths useGlobals → ((perform r).run w).2
        = ((render Site.prepare name (vars.getD .null) paths useGlobals).run w).2 := by
    rintro name vars paths useGlobals rfl
    rw [run_perform_render, run_map]
    rcases (render Site.prepare name (vars.getD .null) paths useGlobals).run w with ⟨fault | _, w'⟩
      <;> rfl
  have hMember : ∀ {name : Value} {vars : Option Value} {paths : List String} {useGlobals : Bool},
      r = .render name vars paths useGlobals →
        ∀ id, pageId w name (vars.getD .null) paths useGlobals = .ok id → id ∈ ids := by
    rintro name vars paths useGlobals rfl id hSome
    exact hIds id (pageIdOf_of_pageId hSome)
  rcases hNothing with hFails | ⟨page, text, hRan, hMode⟩
  · obtain ⟨name, vars, paths, useGlobals, fault, w', hRender, hVisit⟩ := hFails
    rw [hMap hRender]
    exact unfed_of_visit_error h (hMember hRender) hVisit
  · obtain ⟨name, vars, paths, useGlobals, request, w', hRender, hVisit⟩ := hRan
    rw [hMap hRender]
    exact unfed_of_disabled h (hMember hRender) hVisit hMode

/-- What a body gave is recalled if the double that its entry expires at is the exact sum. -/
theorem recalls_of_governed {t : Int} (h : Governed n (.int ttl) ids start) (hApart : Apart ids)
    (hSteps : ∀ r ∈ history, IsStep r)
    (hIds : ∀ text ∈ pageTexts start history, Identity.digest text ∈ ids) (hLow : -(2 ^ 53) ≤ t)
    (hTtl : ttl ≤ 2 ^ 53) (hHigh : t + ttl ≤ 2 ^ 53) : Recalls start ttl history t := by
  intro earlier later r r' id page text t' hSplit hNow hPage hRan hMode hSpared hLater hBefore
    hAgain
  subst hSplit
  have hLimit : (Binary64.wholeLimit : Int) = 2 ^ 53 := by decide
  simp only [List.forall_mem_append, List.forall_mem_cons] at hSteps
  obtain ⟨hEarlier, hStep, hRest, -⟩ := hSteps
  simp only [pageTexts_append, pageTexts, List.forall_mem_append] at hIds
  obtain ⟨hIdsEarlier, hIdsHere, hIdsLater, hIdsLast, -⟩ := hIds
  have hSite : after start (earlier ++ r :: later)
      = after ((perform r).run (after start earlier)).2 later :=
    after_append start earlier (r :: later)
  rw [hSite] at hLater hAgain ⊢
  obtain ⟨hGoverned, -⟩ := governed_after h hApart hEarlier hIdsEarlier
  generalize after start earlier = w at *
  have hMember : ∀ id, pageIdOf w r = some id → id ∈ ids := by
    intro other hOther
    rw [pageIdOf_eq, Option.map_eq_some_iff] at hOther
    obtain ⟨found, hFound, rfl⟩ := hOther
    exact hIdsHere found (Option.mem_toList.mpr hFound)
  have hId := hMember id hPage
  have hStepped := stepped_perform hGoverned hApart hStep hMember
  obtain ⟨more, hMore⟩ := hStepped.clock
  rw [hNow, addMicros_ofSeconds] at hMore
  obtain ⟨hEnd, seconds, hClock⟩ := governed_after hStepped.governed hApart hRest hIdsLater
  rw [hMore, addMicros_ofSeconds, hLater] at hClock
  have hTime := ofSeconds_inj hClock
  -- the request came before the end of the lifetime, so all sums are small
  have hExpiry : ∃ second, expirySecond (Instant.ofSeconds t) (.int ttl) = .ok second
      ∧ Binary64.Is second (t + ttl) := expirySecond_whole (by omega) (by omega) (by omega)
  obtain ⟨second, hSecond, hIs⟩ := hExpiry
  rw [← hNow] at hSecond
  obtain ⟨hEntry, hAnswer⟩ := entry_of_ran hGoverned hMember hPage hRan hMode hSecond
  refine ⟨hAnswer, ?_⟩
  have hKey : IsKeyOf id (if page.isDynamic then Identity.compiled id else id) := by
    split
    · exact .inr rfl
    · exact .inl rfl
  have hLasts := lasts_after hStepped.governed hApart hRest hIdsLater hId hKey (hSpared _ hKey) hIs
    hMore hLater hBefore (by omega) (by omega) hEntry
  refine recalled_of_live hEnd hAgain hId hLasts ?_
  rw [hLater, isExpired_eq_false_iff hIs (by omega)]
  exact hBefore

/-- The policy of the cache over any history of a site. Of the two entries of a page at most one is
live. What a body gave is recalled for later requests, as long as no sum of a time and the lifetime
is too large for a double to hold exactly. A request whose body fails or switches caching off stores
nothing. -/
theorem policy_of_history (hNew : IsNew start n ttl) (hSteps : ∀ r ∈ history, IsStep r)
    (hDistinct : Distinct (pageTexts start history)) :
    (∀ text ∈ pageTexts start history,
      ¬ (((after start history).vault.shelf n).has (after start history).vault.now
            (Identity.digest text) = true
        ∧ ((after start history).vault.shelf n).has (after start history).vault.now
            (Identity.compiled (Identity.digest text)) = true))
    ∧ (∀ t, -(2 ^ 53) ≤ t → ttl ≤ 2 ^ 53 → t + ttl ≤ 2 ^ 53 → Recalls start ttl history t)
    ∧ ∀ earlier r, history = earlier ++ [r] →
      Fails (after start earlier) r
          ∨ (∃ page text, Ran (after start earlier) r page text ∧ page.mode = .disabled) →
        Unfed n (after start earlier) (after start history) := by
  have hApart := apart_of_distinct (fun text hMem => head?_of_mem_pageTexts hMem) hDistinct
  have hIds : ∀ text ∈ pageTexts start history,
      Identity.digest text ∈ (pageTexts start history).map Identity.digest :=
    fun text hMem => List.mem_map_of_mem hMem
  generalize (pageTexts start history).map Identity.digest = ids at hApart hIds
  have hStart := governed_start hNew ids
  refine ⟨?_, fun t hLow hTtl hHigh => ?_, ?_⟩
  · rintro text hMem ⟨hFinal, hCompiled⟩
    obtain ⟨hEnd, -⟩ := governed_after hStart hApart hSteps hIds
    obtain ⟨_, hFirst, -⟩ := has_eq_true_iff.mp hFinal
    obtain ⟨_, hSecond, -⟩ := has_eq_true_iff.mp hCompiled
    rcases hEnd.single _ (hIds text hMem) with hNone | hNone
    · rw [hNone] at hFirst
      cases hFirst
    · rw [hNone] at hSecond
      cases hSecond
  · exact recalls_of_governed hStart hApart hSteps hIds hLow hTtl hHigh
  · intro earlier r hSplit hNothing
    subst hSplit
    rw [pageTexts_append] at hIds
    rw [List.forall_mem_append] at hSteps
    obtain ⟨hBefore, -⟩ := governed_after hStart hApart hSteps.1 fun text hMem =>
      hIds text (List.mem_append_left _ hMem)
    have hHere : ∀ text ∈ pageTexts (after start earlier) [r], Identity.digest text ∈ ids :=
      fun text hMem => hIds text (List.mem_append_right _ hMem)
    rw [after_append]
    exact unfed_perform hBefore (id_mem_of_pageIdOf hHere) hNothing

end Histories

/-! ## Notices -/

/-- A page that is the same for everyone, and one that is looked through for tags on each
request. -/
def noticeFiles : FileTree Source :=
  [(["v", "page"], .items [.text "A"]),
    (["v", "news"], .items [.emit (.call (.name "opt")
      [.literal (.text "cachemode"), .literal (.text "dynamic")] []), .text "B"])]

/-- A site with these pages; the clock shows one second after the start of 1970. -/
def noticeSite (ttl : Int) : World :=
  { files := noticeFiles
    vault := { now := Instant.ofSeconds 1, shelves := [[]] }
    settings :=
      { startSettings { paths := [Path.ofText "/v"] } .script (.int ttl) with
        cache := some (.shelf 0) } }

theorem isNew_noticeSite (ttl : Int) : IsNew (noticeSite ttl) 0 ttl :=
  ⟨rfl, rfl, rfl, Nat.one_pos, rfl, rfl, rfl, 1, rfl⟩

/-- What the body of the page of a request leaves and gives, if it runs. -/
def bodyOutput (w : World) (name : String) : Option (Page × String) :=
  match ((visit (.text name) .null [] true).run w).1 with
  | .ok (_, .body page text) => some (page, text)
  | _ => none

theorem ran_of_bodyOutput {w : World} {name : String} {page : Page} {text : String}
    (h : bodyOutput w name = some (page, text)) : Ran w (ask name) page text := by
  unfold bodyOutput at h
  rcases hRun : (visit (.text name) .null [] true).run w with ⟨fault | ⟨request, origin⟩, w'⟩
  · rw [hRun] at h
    cases h
  · rw [hRun] at h
    cases origin with
    | body page' text' =>
      cases h
      exact ⟨_, _, _, _, request, w', rfl, hRun⟩
    | compiled _ _ => cases h
    | final _ => cases h

theorem exists_ran {w : World} {name text : String} {isDynamic : Bool}
    (h : (bodyOutput w name).any (fun output => output.1.isDynamic == isDynamic
      && output.2 == text && output.1.mode != .disabled) = true) :
    ∃ page, Ran w (ask name) page text ∧ page.isDynamic = isDynamic ∧ page.mode ≠ .disabled := by
  rw [Option.any_eq_true] at h
  obtain ⟨⟨page, shown⟩, hOutput, hPage⟩ := h
  rw [Bool.and_eq_true, Bool.and_eq_true, beq_iff_eq, beq_iff_eq, bne_iff_ne] at hPage
  obtain ⟨⟨hDynamic, rfl⟩, hMode⟩ := hPage
  exact ⟨page, ran_of_bodyOutput hOutput, hDynamic, hMode⟩

/-- The two keys of a page are checked to be different. -/
theorem exists_text {w : World} {r : Request} (h : (pageTextOf w r).any (fun text =>
      Identity.digest text
        != Identity.digest (Identity.compiledText (Identity.digest text))) = true) :
    ∃ text, pageTextOf w r = some text
      ∧ Identity.digest text ≠ Identity.digest (Identity.compiledText (Identity.digest text)) := by
  rw [Option.any_eq_true] at h
  obtain ⟨text, hText, hNe⟩ := h
  exact ⟨text, hText, bne_iff_ne.mp hNe⟩

theorem pageIdOf_of_text {w : World} {r : Request} {text : List Char}
    (h : pageTextOf w r = some text) : pageIdOf w r = some (Identity.digest text) := by
  rw [pageIdOf_eq, h]
  rfl

/-- Two requests for a page, and none in between. -/
theorem distinct_of_twice {start : World} {r : Request} {later : List Request} {text : List Char}
    (hText : pageTextOf start r = some text)
    (hLater : ∀ w, pageTexts w later = [])
    (hAgain : pageTextOf (after start (r :: later)) r = some text)
    (hFresh : Identity.digest text
      ≠ Identity.digest (Identity.compiledText (Identity.digest text))) :
    Distinct (pageTexts start (r :: (later ++ [r]))) := by
  have hAll : ∀ other ∈ pageTexts start (r :: (later ++ [r])), other = text := by
    intro other hMem
    rw [← List.cons_append, pageTexts_append, pageTexts, hLater, pageTexts, pageTexts, hText,
      hAgain] at hMem
    simpa using hMem
  exact distinct_of_forall_eq hAll hFresh

/-- What the body of the first request gave is recalled for the last one. -/
theorem Recalls.first {start : World} {ttl t t' : Int} {later : List Request} {r r' : Request}
    {id text : String} {page : Page} (h : Recalls start ttl (r :: (later ++ [r'])) t)
    (hNow : start.vault.now = Instant.ofSeconds t) (hId : pageIdOf start r = some id)
    (hRan : Ran start r page text) (hMode : page.mode ≠ .disabled)
    (hSpared : ∀ key, IsKeyOf id key → Request.cache (.delete key) ∉ later)
    (hLater : (after start (r :: later)).vault.now = Instant.ofSeconds t') (hBefore : t' < t + ttl)
    (hAgain : pageIdOf (after start (r :: later)) r' = some id) :
    Recalled (after start (r :: later)) r' page text :=
  (h [] later r r' id page text t' rfl hNow hId hRan hMode hSpared hLater hBefore hAgain).2

/-- An edit of the template of the dynamic page, and time that passes. -/
def newsDays : List Request :=
  [.writeFile "/v/news" (.items [.text "gone"]), .cache (.advance (5 * Instant.perSecond : Nat))]

/-- The site with another template for the dynamic page. -/
def edited (w : World) : World :=
  { w with files := w.files.insert (Path.ofText "/v/news").parts (.items [.text "gone"]) }

theorem after_newsDays {w : World} {n : Nat} (hCache : w.settings.cache = some (.shelf n)) :
    after w newsDays = { edited w with
      vault := { w.vault with now := w.vault.now.addMicros (5 * Instant.perSecond : Nat) } } := by
  show ((perform (.cache (.advance _))).run (edited w)).2 = _
  rw [run_perform_cache (w := edited w) hCache]
  rfl

/-- A request changes neither the files nor the settings nor the clock, so the page that is asked
for after these days is the one that the edited site has. -/
theorem pageTextOf_newsDays {start : World} {n : Nat} {ttl t : Int} {text : List Char}
    (hNew : IsNew start n ttl) (hText : pageTextOf start (ask "news") = some text)
    (hNow : start.vault.now = Instant.ofSeconds t) :
    pageTextOf (after start (ask "news" :: newsDays)) (ask "news")
        = pageTextOf (edited start) (ask "news")
      ∧ (after start (ask "news" :: newsDays)).vault.now = Instant.ofSeconds (t + 5) := by
  have hReached : Reached n (.int ttl) [Identity.digest text] start
      (after start [ask "news"]) := by
    refine reached_perform (governed_start hNew _) fun id hSome => ?_
    rw [← ask, pageIdOf_eq, hText] at hSome
    cases hSome
    exact List.mem_singleton_self _
  have hCache : (after start [ask "news"]).settings.cache = some (.shelf n) := by
    rw [hReached.level.settings, hNew.cache]
  have hAfter : after start (ask "news" :: newsDays) = after (after start [ask "news"]) newsDays :=
    after_append start [ask "news"] newsDays
  rw [after_newsDays hCache] at hAfter
  constructor
  · refine pageTextOf_congr ?_ ?_ ?_ (ask "news")
    · rw [hAfter]
      unfold edited
      rw [hReached.level.files]
    · rw [hAfter]
      exact hReached.level.settings
    · rw [hAfter]
      exact hReached.level.globals
  · rw [hAfter]
    dsimp only
    rw [hReached.now, hNow, addMicros_ofSeconds]
    rfl

/-- The output of a dynamic page is recalled although its template has become another one. -/
theorem policy_of_newsDays : ∃ page, page.isDynamic = true
    ∧ Recalled (after (noticeSite 600) (ask "news" :: newsDays)) (ask "news") page "B" := by
  obtain ⟨page, hRan, hDynamic, hMode⟩ : ∃ page, Ran (noticeSite 600) (ask "news") page "B"
      ∧ page.isDynamic = true ∧ page.mode ≠ .disabled := exists_ran (by decide +kernel)
  obtain ⟨text, hText, hFresh⟩ := exists_text (w := noticeSite 600) (r := ask "news") (by
    rw [Identity.digest_eq]
    decide +kernel)
  obtain ⟨hAgain, hClock⟩ := pageTextOf_newsDays (isNew_noticeSite 600) hText rfl
  have hEdited : pageTextOf (edited (noticeSite 600)) (ask "news") = some text := by
    rw [← hText]
    decide +kernel
  rw [hEdited] at hAgain
  have hSteps : ∀ r ∈ ask "news" :: (newsDays ++ [ask "news"]), IsStep r := by
    simp only [newsDays, List.cons_append, List.nil_append, List.forall_mem_cons]
    exact ⟨.render _ _ _ _, .writeFile _ _, .advance 5, .render _ _ _ _, List.forall_mem_nil _⟩
  have hSpared : ∀ key, IsKeyOf (Identity.digest text) key →
      Request.cache (.delete key) ∉ newsDays := by
    rintro key - (_ | ⟨_, _ | ⟨_, h⟩⟩)
    cases h
  have hRecalls : Recalls (noticeSite 600) 600 (ask "news" :: (newsDays ++ [ask "news"])) 1 :=
    (policy_of_history (isNew_noticeSite 600) hSteps
      (distinct_of_twice hText (fun _ => rfl) hAgain hFresh)).2.1 1 (by decide) (by decide)
      (by decide)
  exact ⟨page, hDynamic, hRecalls.first rfl (pageIdOf_of_text hText) hRan hMode hSpared hClock
    (by decide) (pageIdOf_of_text hAgain)⟩

/-- All but the last second of a lifetime of `2 ^ 53` seconds. -/
def longWait : List Request := [.cache (.advance (9007199254740991 * Instant.perSecond : Nat))]

/-- Beyond `2 ^ 53` seconds the time at which an entry expires is rounded: this one is gone a second
before its lifetime is over, and the body of its page runs again. -/
theorem expired_early : IsNew (noticeSite (2 ^ 53)) 0 (2 ^ 53)
    ∧ (∀ r ∈ ask "page" :: (longWait ++ [ask "page"]), IsStep r)
    ∧ Distinct (pageTexts (noticeSite (2 ^ 53)) (ask "page" :: (longWait ++ [ask "page"])))
    ∧ ¬ Recalls (noticeSite (2 ^ 53)) (2 ^ 53) (ask "page" :: (longWait ++ [ask "page"])) 1 := by
  obtain ⟨page, hRan, -, hMode⟩ : ∃ page, Ran (noticeSite (2 ^ 53)) (ask "page") page "A"
      ∧ page.isDynamic = false ∧ page.mode ≠ .disabled := exists_ran (by decide +kernel)
  obtain ⟨text, hText, hFresh⟩ := exists_text (w := noticeSite (2 ^ 53)) (r := ask "page") (by
    rw [Identity.digest_eq]
    decide +kernel)
  have hAgain : pageTextOf (after (noticeSite (2 ^ 53)) (ask "page" :: longWait)) (ask "page")
      = some text := by
    rw [← hText]
    decide +kernel
  have hClock : (after (noticeSite (2 ^ 53)) (ask "page" :: longWait)).vault.now
      = Instant.ofSeconds (2 ^ 53) := by decide +kernel
  have hTwice : ((perform (ask "page")).run
        (after (noticeSite (2 ^ 53)) (ask "page" :: longWait))).2.executed
      ≠ (after (noticeSite (2 ^ 53)) (ask "page" :: longWait)).executed := by decide +kernel
  have hSpared : ∀ key, IsKeyOf (Identity.digest text) key →
      Request.cache (.delete key) ∉ longWait := by
    rintro key - (_ | ⟨_, h⟩)
    cases h
  have hSteps : ∀ r ∈ ask "page" :: (longWait ++ [ask "page"]), IsStep r := by
    simp only [longWait, List.cons_append, List.nil_append, List.forall_mem_cons]
    exact ⟨.render _ _ _ _, .advance 9007199254740991, .render _ _ _ _, List.forall_mem_nil _⟩
  refine ⟨isNew_noticeSite (2 ^ 53), hSteps,
    distinct_of_twice hText (fun _ => rfl) hAgain hFresh, fun hRecalls => hTwice ?_⟩
  exact (hRecalls.first rfl (pageIdOf_of_text hText) hRan hMode hSpared hClock (by decide)
    (pageIdOf_of_text hAgain)).executed

end PageBlocks.Policy
