import PageBlocks.Proofs.Confinement.Calls

/-!
# What runs leave alone

A request that is not for a page leaves all pages alone (`upholds_samePages_answer`). A run on pages
that do not share an outline leaves that outline alone, and the pages that stand on it
(`apartFrom`). A run on pages other than one leaves that page alone; if it may work on that page
too, it still leaves alone how the page is cached (`watching`). And whatever pages a run is on, no
page becomes another one, and no page loses its outline and no name its block (`everywhere`).
-/

set_option autoImplicit false

namespace PageBlocks.Confinement

open PageBlocks.Cache PageBlocks.Deferral PageBlocks.Guards PageBlocks.Running PageBlocks.Site
  PageBlocks.Upkeep
open PageBlocks.Progress (SamePage exists_same_of_modify getElem?_push_of_eq_some)

/-! ## Requests that are not for pages -/

/-- A site with the pages and the outlines of another one. -/
structure SamePages (w₀ w : World) : Prop where
  pages : w.pages = w₀.pages
  outlines : w.outlines = w₀.outlines

section Requests

variable {w₀ : World} {α : Type}

theorem upholds_samePages_modify {f : World → World}
    (h : ∀ w, (f w).pages = w.pages ∧ (f w).outlines = w.outlines) :
    Upholds (SamePages w₀) (modify f) fun _ => True := fun w hSame =>
  ends_modify ⟨trivial, (h w).1.trans hSame.pages, (h w).2.trans hSame.outlines⟩

theorem upholds_samePages_onVault (x : VaultM α) :
    Upholds (SamePages w₀) (onVault x) fun _ => True := by
  unfold onVault
  refine Upholds.bind_get fun w hSame => ends_set_bind ?_
  exact upholds_check (I := SamePages w₀) (fun _ _ => trivial) _ ⟨hSame.pages, hSame.outlines⟩

theorem upholds_samePages_locate (locator : Locator) (name : Value) (extra : List Path) :
    Upholds (SamePages w₀) (locate locator name extra) fun _ => True := by
  intro w hSame
  have hRun := run_locate locator name extra w
  cases hPlace : placeAt w.files locator name extra with
  | ok place => exact ends_of_run (hRun.trans (by rw [hPlace])) ⟨trivial, hSame⟩
  | error fault => exact ends_of_run_error (hRun.trans (by rw [hPlace])) hSame

theorem upholds_samePages_chosenCache (choice : CacheChoice) :
    Upholds (SamePages w₀) (chosenCache choice) fun _ => True := by
  cases choice with
  | shelf => exact Upholds.bind_get fun w hSame =>
      ends_set_bind (ends_pure ⟨trivial, hSame.pages, hSame.outlines⟩)
  | folder => exact Upholds.bind_get fun w hSame => ends_pure ⟨trivial, hSame⟩

theorem upholds_samePages_updateSettings (f : Context → Context) :
    Upholds (SamePages w₀) (updateSettings f) fun _ => True :=
  upholds_samePages_modify fun _ => ⟨rfl, rfl⟩

theorem upholds_samePages_newCounter :
    Upholds (SamePages w₀) newCounter fun _ => True :=
  Upholds.bind_get fun _ hSame => ends_set_bind (ends_pure ⟨trivial, hSame.pages, hSame.outlines⟩)

theorem upholds_samePages_identityOf (name : Value) (vars : Option Value) :
    Upholds (SamePages w₀) (identityOf name vars) fun _ => True := by
  unfold identityOf
  refine Upholds.bind_get fun w hSame => ?_
  refine Ends.bind (upholds_samePages_locate _ _ _ w hSame) fun place w₁ hPlace => ?_
  have hRest : Upholds (SamePages w₀) (do
      let given ← check (Bindings.ofMap (vars.getD .null))
      check (Identity.page (Path.absolute place).print given)) fun _ => True :=
    Upholds.bind_check fun given _ => upholds_check fun _ _ => trivial
  exact hRest w₁ hPlace.2

/-- A request that is not for a page leaves all pages alone. -/
theorem upholds_samePages_answer {r : Request} (h : asksForPage r = false)
    (prepare : Nat → SiteM Unit) : Upholds (SamePages w₀) (answer prepare r) fun _ => True := by
  have hReads : ∀ f : World → SiteM Value, (∀ w, Upholds (SamePages w₀) (f w) fun _ => True) →
      Upholds (SamePages w₀) (get >>= f) fun _ => True :=
    fun f hNext => Upholds.bind_get fun w hSame => hNext w w hSame
  have hModifies : ∀ f : World → World, (∀ w, (f w).pages = w.pages ∧ (f w).outlines = w.outlines) →
      ∀ v : Value, Upholds (SamePages w₀) (do
        modify f
        return v) fun _ => True :=
    fun f hSame v => (upholds_samePages_modify hSame).seq fun _ => upholds_pure trivial
  cases r with
  | render name vars paths useGlobals => cases h
  | locate name paths =>
    refine hReads _ fun w => (upholds_samePages_locate _ _ _).seq fun place => upholds_pure trivial
  | addGlobal name value =>
    rw [answer]
    dsimp only
    split
    · refine (upholds_throw _).seq fun _ => hModifies _ (fun _ => ?_) _
      exact ⟨rfl, rfl⟩
    · refine hModifies _ (fun _ => ?_) _
      exact ⟨rfl, rfl⟩
  | globals =>
    exact hReads _ fun w => Upholds.bind_check fun sorted _ => upholds_pure trivial
  | addNamespace name paths =>
    refine hReads _ fun w => Upholds.bind_check fun locator _ => ?_
    exact (upholds_samePages_updateSettings _).seq fun _ => upholds_pure trivial
  | addDirective name directive =>
    refine Upholds.seq ?_ fun _ => upholds_pure trivial
    exact upholds_samePages_newCounter.seq fun number => upholds_samePages_updateSettings _
  | directiveNames => exact hReads _ fun w => upholds_pure trivial
  | addFragment name kind =>
    refine Upholds.seq ?_ fun _ => upholds_pure trivial
    exact upholds_samePages_newCounter.seq fun number => upholds_samePages_updateSettings _
  | fragmentNames => exact hReads _ fun w => upholds_pure trivial
  | encodeTag kind arguments =>
    exact hReads _ fun w => Upholds.bind_check fun tag _ => upholds_pure trivial
  | installCache choice lifetime =>
    refine (upholds_samePages_chosenCache choice).seq fun cache => ?_
    refine (upholds_samePages_updateSettings _).seq fun _ => ?_
    exact (upholds_samePages_updateSettings _).seq fun _ => upholds_pure trivial
  | installMarkup transforms =>
    exact (upholds_samePages_updateSettings _).seq fun _ => upholds_pure trivial
  | setCache choice lifetime =>
    cases choice with
    | some choice =>
      refine (upholds_samePages_chosenCache choice).seq fun cache => ?_
      exact (upholds_samePages_updateSettings _).seq fun _ => upholds_pure trivial
    | none => exact (upholds_samePages_updateSettings _).seq fun _ => upholds_pure trivial
  | lifetime => exact hReads _ fun w => upholds_pure trivial
  | writeFile path source =>
    refine hModifies _ (fun _ => ?_) _
    exact ⟨rfl, rfl⟩
  | deleteFile path =>
    refine hModifies _ (fun _ => ?_) _
    exact ⟨rfl, rfl⟩
  | deposits => exact Upholds.bind_get fun w hSame =>
      ends_set_bind (ends_pure ⟨trivial, hSame.pages, hSame.outlines⟩)
  | fetched => exact hReads _ fun w => upholds_pure trivial
  | identity name vars =>
    exact (upholds_samePages_identityOf name vars).seq fun id => upholds_pure trivial
  | cacheFolder =>
    refine hReads _ fun w => ?_
    split
    · exact upholds_pure trivial
    · exact upholds_pure trivial
  | onEntry name vars entry request =>
    refine (upholds_samePages_identityOf name vars).seq fun id => ?_
    exact hReads _ fun w => upholds_samePages_onVault _
  | cache request => exact hReads _ fun w => upholds_samePages_onVault _

theorem samePages_answer {r : Request} (h : asksForPage r = false) (prepare : Nat → SiteM Unit)
    (w : World) : SamePages w ((answer prepare r).run w).2 :=
  (upholds_samePages_answer h prepare).run ⟨rfl, rfl⟩

end Requests

/-! ## An outline -/

/-- An outline and the pages that stand on it are as they were. -/
structure Untouched (n : Nat) (w w' : World) : Prop where
  outlines : w.outlines.size ≤ w'.outlines.size
  bound : w.pages.size ≤ w'.pages.size
  outline : w'.outlines[n]? = w.outlines[n]?
  pages : ∀ (p : Nat) (page : Page), page.outline = n →
    (w'.pages[p]? = some page ↔ w.pages[p]? = some page)

section Outlines

variable {n p : Nat} {w w' w'' : World}

theorem Untouched.refl (n : Nat) (w : World) : Untouched n w w :=
  ⟨Nat.le_refl _, Nat.le_refl _, rfl, fun _ _ _ => Iff.rfl⟩

theorem Untouched.trans (h : Untouched n w w') (h' : Untouched n w' w'') : Untouched n w w'' :=
  ⟨Nat.le_trans h.outlines h'.outlines, Nat.le_trans h.bound h'.bound,
    h'.outline.trans h.outline, fun p page hOn => (h'.pages p page hOn).trans (h.pages p page hOn)⟩

/-- A page that stands on another outline becomes one that does so as well. -/
theorem getElem?_modify_iff {f : Page → Page}
    (hOld : ∀ page, w.pages[p]? = some page → page.outline ≠ n)
    (hNew : ∀ page, w.pages[p]? = some page → (f page).outline ≠ n) (q : Nat) (page : Page)
    (hOn : page.outline = n) :
    (w.pages.modify p f)[q]? = some page ↔ w.pages[q]? = some page := by
  rw [Array.getElem?_modify]
  split
  · rename_i hSame
    subst hSame
    constructor
    · intro hFound
      obtain ⟨old, hFoundOld, rfl⟩ := Option.map_eq_some_iff.mp hFound
      exact absurd hOn (hNew old hFoundOld)
    · exact fun hFound => absurd hOn (hOld page hFound)
  · exact Iff.rfl

theorem Untouched.modify {f : Page → Page}
    (hOld : ∀ page, w.pages[p]? = some page → page.outline ≠ n)
    (hNew : ∀ page, w.pages[p]? = some page → (f page).outline ≠ n) :
    Untouched n w { w with pages := w.pages.modify p f } :=
  ⟨Nat.le_refl _, Nat.le_of_eq Array.size_modify.symm, rfl, getElem?_modify_iff hOld hNew⟩

/-- Runs on pages that do not stand on an outline. -/
def apartFrom (n : Nat) : Limits where
  ready w := n < w.outlines.size
  pages w p := ∀ page, w.pages[p]? = some page → page.outline ≠ n
  free w p := ∀ page, w.pages[p]? = some page → page.outline ≠ n
  context _ := True
  through _ _ := True
  goes := Untouched n
  refl := Untouched.refl n
  trans := Untouched.trans
  ready_of_goes hReady h := Nat.lt_of_lt_of_le hReady h.outlines
  pages_of_goes _ h hPages page hPage hOn := hPages page ((h.pages _ page hOn).mp hPage) hOn
  free_of_goes _ h hPages page hPage hOn := hPages page ((h.pages _ page hOn).mp hPage) hOn
  pages_of_free h := h
  settings _ := trivial
  contexts _ _ := trivial
  located _ _ := trivial
  through_refl _ := trivial
  through_trans _ _ := trivial
  lookup _ _ _ _ := trivial
  put _ _ _ _ _ _ := trivial
  aside _ hPages hOutlines _ _ := by
    refine ⟨Nat.le_of_eq (congrArg _ hOutlines.symm), Nat.le_of_eq (congrArg _ hPages.symm), ?_, ?_⟩
    · rw [hOutlines]
    · intro p page _
      rw [hPages]
  work _ hPages hWorked := by
    refine Untouched.modify hPages fun page hPage => ?_
    rw [(hWorked page).outline]
    exact hPages page hPage
  turn _ hFree _ hOutline := by
    refine Untouched.modify hFree fun page hPage => ?_
    rcases hOutline with hOwn | ⟨base, prepared, hBase, hFound, hTaken⟩
    · rw [hOwn]
      exact hFree page hPage
    · rw [hTaken]
      exact hBase prepared hFound
  draft {w p page} _ hPages hPage d _ := by
    have hOther : page.outline ≠ n := hPages page hPage
    have hModified := Untouched.modify (n := n) (w := w) (p := p)
      (f := fun page => { page with stack := d.stack, captures := d.captures }) hPages hPages
    refine ⟨Nat.le_of_eq Array.size_modify.symm, hModified.bound, ?_, hModified.pages⟩
    dsimp only
    rw [Array.getElem?_modify, if_neg hOther]
  push {w page} hReady _ hOutline owner := by
    have hNe : n ≠ w.outlines.size := Nat.ne_of_lt hReady
    have hNewPage : page.outline ≠ n := hOutline ▸ hNe.symm
    refine ⟨⟨?_, ?_, ?_, fun q other hOn => ?_⟩, fun other hOther => ?_⟩
    · dsimp only
      rw [Array.size_push]
      exact Nat.le_succ _
    · dsimp only
      rw [Array.size_push]
      exact Nat.le_succ _
    · dsimp only
      rw [Array.getElem?_push, if_neg hNe]
    · dsimp only
      rw [Array.getElem?_push]
      split
      · rename_i hHere
        subst hHere
        constructor
        · intro hFound
          cases hFound
          exact absurd hOn hNewPage
        · intro hFound
          have hBound := (Array.getElem?_eq_some_iff.mp hFound).1
          exact absurd hBound (Nat.lt_irrefl _)
      · exact Iff.rfl
    · dsimp only at hOther
      rw [Array.getElem?_push_size] at hOther
      cases hOther
      exact hNewPage
  passOn {w _ _ _} _ _ _ hAsks prepare := by
    have hSame := samePages_answer hAsks prepare w
    refine ⟨Nat.le_of_eq (congrArg _ hSame.outlines.symm),
      Nat.le_of_eq (congrArg _ hSame.pages.symm), ?_, ?_⟩
    · rw [hSame.outlines]
    · intro p page _
      rw [hSame.pages]

end Outlines

/-! ## Sites in which nothing is missing -/

/-- Every page has an outline that is there. -/
def Lodged (w : World) : Prop :=
  ∀ (p : Nat) (page : Page), w.pages[p]? = some page → page.outline < w.outlines.size

/-- The registries of the outlines lead to blocks as well. -/
structure Sound (w : World) : Prop where
  lodged : Lodged w
  labelled : ∀ (n : Nat) (o : Outline), w.outlines[n]? = some o → o.IsLabelled

/-- A site later on: it has stayed sound, and its pages are what they were. -/
structure Lasts (w w' : World) : Prop where
  sound : Sound w → Sound w'
  pages : ∀ (p : Nat) (page : Page), w.pages[p]? = some page →
    ∃ page', w'.pages[p]? = some page' ∧ SamePage page page'

section Sound

variable {p : Nat} {page : Page} {w w' w'' : World}

theorem Lodged.modify (h : Lodged w) {f : Page → Page} {outlines : Array Outline}
    (hSize : outlines.size = w.outlines.size)
    (hNew : ∀ page, w.pages[p]? = some page → (f page).outline < w.outlines.size) :
    Lodged { w with pages := w.pages.modify p f, outlines } := by
  intro q page hPage
  dsimp only at hPage ⊢
  rw [hSize]
  rw [Array.getElem?_modify] at hPage
  split at hPage
  · rename_i hHere
    obtain ⟨old, hOld, rfl⟩ := Option.map_eq_some_iff.mp hPage
    exact hNew old (hHere ▸ hOld)
  · exact h q page hPage

theorem Lodged.push (h : Lodged w) (hOutline : page.outline = w.outlines.size) (o : Outline) :
    Lodged { w with pages := w.pages.push page, outlines := w.outlines.push o } := by
  intro q other hOther
  dsimp only at hOther ⊢
  rw [Array.size_push]
  rw [Array.getElem?_push] at hOther
  split at hOther
  · cases hOther
    rw [hOutline]
    exact Nat.lt_succ_self _
  · exact Nat.lt_succ_of_lt (h q other hOther)

/-- A site without pages is sound. -/
theorem sound_of_empty (hPages : w.pages = #[]) (hOutlines : w.outlines = #[]) :
    Sound w := by
  refine ⟨fun p page hPage => ?_, fun n o hOutline => ?_⟩
  · rw [hPages] at hPage
    cases hPage
  · rw [hOutlines] at hOutline
    cases hOutline

/-- A site is sound after one more page was made. -/
theorem Sound.push (h : Sound w) (hOutline : page.outline = w.outlines.size) (owner : String) :
    Sound { w with
      pages := w.pages.push page
      outlines := w.outlines.push (Outline.start owner) } := by
  refine ⟨h.lodged.push hOutline _, fun n o hFound => ?_⟩
  dsimp only at hFound
  rw [Array.getElem?_push] at hFound
  split at hFound
  · cases hFound
    exact Outline.isLabelled_start owner
  · exact h.labelled n o hFound

/-- A step of a page's draft leaves the site sound if it keeps the labels. -/
theorem Sound.draft (h : Sound w) {n : Nat} {f : Page → Page} {o : Outline}
    (hSame : ∀ page, (f page).outline = page.outline)
    (hKept : ((w.outlines[n]?).getD {}).IsLabelled → o.IsLabelled) :
    Sound { w with
      pages := w.pages.modify p f
      outlines := w.outlines.modify n fun _ => o } := by
  refine ⟨h.lodged.modify Array.size_modify fun page hPage => ?_, fun m other hFound => ?_⟩
  · rw [hSame]
    exact h.lodged p page hPage
  · dsimp only at hFound
    rw [Array.getElem?_modify] at hFound
    split at hFound
    · obtain ⟨old, hOld, rfl⟩ := Option.map_eq_some_iff.mp hFound
      rename_i hHere
      subst hHere
      rw [hOld] at hKept
      exact hKept (h.labelled n old hOld)
    · exact h.labelled m other hFound

theorem Lasts.refl (w : World) : Lasts w w := ⟨id, fun _ page h => ⟨page, h, SamePage.refl page⟩⟩

theorem Lasts.trans (h : Lasts w w') (h' : Lasts w' w'') : Lasts w w'' := by
  refine ⟨fun hSound => h'.sound (h.sound hSound), fun p page hPage => ?_⟩
  obtain ⟨page₁, hPage₁, hSame₁⟩ := h.pages p page hPage
  obtain ⟨page₂, hPage₂, hSame₂⟩ := h'.pages p page₁ hPage₁
  exact ⟨page₂, hPage₂, hSame₁.trans hSame₂⟩

theorem Lasts.of_samePages (hPages : w'.pages = w.pages) (hOutlines : w'.outlines = w.outlines) :
    Lasts w w' := by
  refine ⟨fun hSound => ⟨fun q page hPage => ?_, ?_⟩, fun q page hPage => ?_⟩
  · rw [hPages] at hPage
    rw [hOutlines]
    exact hSound.lodged q page hPage
  · rw [hOutlines]
    exact hSound.labelled
  · rw [hPages]
    exact ⟨page, hPage, SamePage.refl page⟩

theorem Lasts.modify {f : Page → Page} {outlines : Array Outline}
    (hSame : ∀ page, SamePage page (f page))
    (hSound : Sound w → Sound { w with pages := w.pages.modify p f, outlines }) :
    Lasts w { w with pages := w.pages.modify p f, outlines } :=
  ⟨hSound, fun _ _ hPage => exists_same_of_modify hSame _ hPage⟩

/-- Runs on whatever pages. -/
def everywhere : Limits where
  ready := Sound
  pages _ _ := True
  free _ _ := True
  context _ := True
  through _ _ := True
  goes := Lasts
  refl := Lasts.refl
  trans := Lasts.trans
  ready_of_goes hReady h := h.sound hReady
  pages_of_goes _ _ h := h
  free_of_goes _ _ h := h
  pages_of_free h := h
  settings _ := trivial
  contexts _ _ := trivial
  located _ _ := trivial
  through_refl _ := trivial
  through_trans _ _ := trivial
  lookup _ _ _ _ := trivial
  put _ _ _ _ _ _ := trivial
  aside _ hPages hOutlines _ _ := .of_samePages hPages hOutlines
  work _ _ hWorked := by
    refine .modify (fun page => (hWorked page).toSamePage) fun hSound => ⟨?_, hSound.labelled⟩
    refine hSound.lodged.modify rfl fun page hPage => ?_
    rw [(hWorked page).outline]
    exact hSound.lodged _ page hPage
  turn _ _ hSame hOutline := by
    refine .modify hSame fun hSound => ⟨?_, hSound.labelled⟩
    refine hSound.lodged.modify rfl fun page hPage => ?_
    rcases hOutline with hOwn | ⟨base, prepared, -, hFound, hTaken⟩
    · rw [hOwn]
      exact hSound.lodged _ page hPage
    · rw [hTaken]
      exact hSound.lodged base prepared hFound
  draft _ _ _ _ hKept :=
    .modify (fun _ => ⟨rfl, rfl, rfl, rfl⟩) fun hSound => hSound.draft (fun _ => rfl) hKept
  push _ _ hOutline owner := by
    refine ⟨⟨fun hSound => hSound.push hOutline owner, fun q page hPage => ?_⟩, trivial⟩
    exact ⟨page, getElem?_push_of_eq_some hPage _, SamePage.refl page⟩
  passOn {w _ _ _} _ _ _ hAsks prepare := by
    have hSame := samePages_answer hAsks prepare w
    exact .of_samePages hSame.pages hSame.outlines

/-- Preparing a page leaves a sound site sound, whatever the bodies are. -/
theorem prepares_everywhere (depth : Nat) : everywhere.Prepares (prepareFrom depth) :=
  everywhere.prepares_of_free (fun _ => trivial) depth

/-- Whatever is asked for, a sound site stays sound. -/
theorem Sound.perform (h : Sound w) (r : Request) : Sound ((perform r).run w).2 := by
  cases hAsks : asksForPage r with
  | false =>
    have hSame := samePages_answer hAsks Site.prepare w
    exact (Lasts.of_samePages hSame.pages hSame.outlines).sound h
  | true =>
    cases r with
    | render name vars paths useGlobals =>
      have hText := upholds_text (upholds_render (Limits.prepares_site prepares_everywhere) h name
        (vars.getD .null) paths useGlobals)
      exact (hText.run (Lasts.refl w)).sound h
    | _ => cases hAsks

end Sound

/-! ## A page -/

/-- What is seen of a page is as it was. -/
structure Unseen {γ : Type} (see : Page → γ) (p : Nat) (w w' : World) : Prop where
  bound : w.pages.size ≤ w'.pages.size
  seen : (w'.pages[p]?).map see = (w.pages[p]?).map see

section Pages

variable {γ : Type} {see : Page → γ} {p q : Nat} {w w' w'' : World}

theorem Unseen.trans (h : Unseen see p w w') (h' : Unseen see p w' w'') : Unseen see p w w'' :=
  ⟨Nat.le_trans h.bound h'.bound, h'.seen.trans h.seen⟩

theorem Unseen.of_pages_eq (h : w'.pages = w.pages) : Unseen see p w w' :=
  ⟨Nat.le_of_eq (congrArg _ h.symm), by rw [h]⟩

theorem Unseen.modify {f : Page → Page} {outlines : Array Outline}
    (h : q ≠ p ∨ ∀ page, see (f page) = see page) :
    Unseen see p w { w with pages := w.pages.modify q f, outlines } := by
  refine ⟨Nat.le_of_eq Array.size_modify.symm, ?_⟩
  dsimp only
  rw [Array.getElem?_modify]
  split
  · rename_i hHere
    have hSee := h.resolve_left fun hNe => hNe hHere
    cases w.pages[p]? with
    | none => rfl
    | some page => exact congrArg some (hSee page)
  · rfl

/-- Runs on pages other than one. They may also work on that one if nothing can be seen of it. -/
def watching {γ : Type} (see : Page → γ) (p : Nat) (own : Prop)
    (hOwn : own → ∀ page page', Worked page page' → see page' = see page) : Limits where
  ready w := p < w.pages.size
  pages _ q := q ≠ p ∨ own
  free _ q := q ≠ p
  context _ := True
  through _ _ := True
  goes := Unseen see p
  refl _ := Unseen.of_pages_eq rfl
  trans := Unseen.trans
  ready_of_goes hReady h := Nat.lt_of_lt_of_le hReady h.bound
  pages_of_goes _ _ h := h
  free_of_goes _ _ h := h
  pages_of_free := .inl
  settings _ := trivial
  contexts _ _ := trivial
  located _ _ := trivial
  through_refl _ := trivial
  through_trans _ _ := trivial
  lookup _ _ _ _ := trivial
  put _ _ _ _ _ _ := trivial
  aside _ hPages _ _ _ := Unseen.of_pages_eq hPages
  work _ hPages hWorked :=
    Unseen.modify (hPages.imp_right fun hTrue page => hOwn hTrue _ _ (hWorked page))
  turn _ hFree _ _ := Unseen.modify (.inl hFree)
  draft _ hPages _ _ _ :=
    Unseen.modify (hPages.imp_right fun hTrue _ => hOwn hTrue _ _ 
      ⟨⟨rfl, rfl, rfl, rfl⟩, rfl, rfl, rfl⟩)
  push {w page} hReady _ _ owner := by
    have hNe : p ≠ w.pages.size := Nat.ne_of_lt hReady
    refine ⟨⟨?_, ?_⟩, hNe.symm⟩
    · dsimp only
      rw [Array.size_push]
      exact Nat.le_succ _
    · dsimp only
      rw [Array.getElem?_push, if_neg hNe]
  passOn {w _ _ _} _ _ _ hAsks prepare :=
    Unseen.of_pages_eq (samePages_answer hAsks prepare w).pages

end Pages

end PageBlocks.Confinement
