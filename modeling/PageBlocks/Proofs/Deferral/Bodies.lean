import PageBlocks.Proofs.Deferral.Calls

/-!
# Preparing pages whose bodies take no text apart

If the bodies of all templates of a site keep to the roles of names, preparing a page is safe, to
whatever depth that nests (`preparesSafely`).
-/

set_option autoImplicit false

namespace PageBlocks.Deferral

open PageBlocks.Body PageBlocks.Running PageBlocks.Site

/-- Whether the bodies of all templates keep to the roles that the directives of the site and some
other names have. -/
def KeepsRoles (start : World) (loose : List String) : Prop :=
  ∀ (place : Place) (items : List Item), bodyAt start.files place = .ok items →
    Item.areTame (roleOf start.settings.directives loose) items = true

/-! ## Scopes -/

theorem role_ne_clean (directive : Directive) : directive.role ≠ .clean := by
  cases directive with
  | markupBlock transforms | transformText transforms =>
    rw [Directive.role]
    split <;> intro hSame <;> cases hSame
  | _ =>
    intro hSame
    cases hSame

/-- When a body starts, names stand for values that fit their roles. -/
theorem scopeFits_scopeOf {start : World} {loose : List String} {tags : Bool} {p : Nat}
    {page : Page} {scope : Scope} (hLaid : PageLaid start.settings page)
    (h : scopeOf p page = .ok scope) :
    ScopeFits start.settings.directives (roleOf start.settings.directives loose) tags p scope := by
  unfold scopeOf at h
  obtain ⟨vars, hVars, h⟩ := bind_eq_ok h
  cases h
  intro entry hMem
  rcases Table.mem_or_mem_of_mem_merge hMem with hMem | hMem
  · rcases Table.mem_or_mem_of_mem_merge hMem with hMem | hMem
    · have hGround : ∀ dialect : Dialect, ∀ entry ∈ ground dialect, entry.2.isClean = true := by
        intro dialect
        cases dialect <;> simp [ground, Value.isClean]
      exact fits_of_isClean _ (hGround _ entry hMem)
    · obtain ⟨binding, hBinding, rfl⟩ := List.mem_map.mp hMem
      rw [hLaid.directives_eq] at hBinding
      obtain ⟨directive, hFound⟩ := Table.exists_get?_of_mem hBinding
      have hRole : roleOf start.settings.directives loose binding.1 = directive.role := by
        rw [roleOf, hFound]
      rw [hRole]
      cases hKind : directive.role with
      | clean => exact absurd hKind (role_ne_clean directive)
      | tame => exact Tame.directive hFound hKind
      | escaping => exact .inr rfl
      | barred => trivial
  · have hClean : Upkeep.BindingsFit Value.isClean page.vars := hLaid.vars
    exact fits_of_isClean _ (Upkeep.fits_of_mem_namedVariables hClean hVars entry hMem)

/-! ## Bodies -/

section Bodies

variable {start : World} {loose : List String} {prepare : Nat → SiteM Unit}

theorem gives_bodyOf {w : World} (page : Page) :
    Gives w (bodyOf page) fun items => bodyAt w.files page.place = .ok items := by
  have hRun := run_bodyOf page w
  cases hBody : bodyAt w.files page.place with
  | ok items => exact ends_of_run (hRun.trans (by rw [hBody])) ⟨rfl, rfl⟩
  | error fault => exact ends_of_run_error (hRun.trans (by rw [hBody])) rfl

/-- Counting bodies that were run changes no page. -/
theorem Held.counted {w : World} {active : List Nat} (h : Held start active w) (executed : Nat) :
    Held start active { w with executed } :=
  ⟨h.files, h.pages, h.outlines, h.found, h.own, h.apart⟩

/-- Running the body of a page is safe if preparing other pages is. -/
theorem preparesSafely_runBody (hRoles : KeepsRoles start loose)
    (hPrepare : PreparesSafely start prepare) : PreparesSafely start (runBody prepare) := by
  intro active p w hActive hHeld
  unfold runBody
  refine Safe.bind (safe_onDraft hHeld hActive keepsLaid_resetCaptures) ?_
  intro _ w₁ hHeld₁ _ _
  have hCount : Safe start active w₁ (modify fun w => { w with executed := w.executed + 1 })
      fun _ _ => True :=
    ends_modify ⟨hHeld₁.counted _, ⟨rfl, rfl, rfl, rfl, rfl, fun _ page h => ⟨page, h, rfl, id⟩⟩,
      trivial⟩
  refine Safe.bind hCount fun _ w₂ hHeld₂ _ _ => ?_
  refine Safe.bind_page hHeld₂ fun page hPage => ?_
  obtain ⟨hLaid, -⟩ := hHeld₂.pages p page hPage
  refine Safe.bind_gives hHeld₂ (gives_bodyOf page) fun items hItems => ?_
  rw [hHeld₂.files] at hItems
  refine Safe.bind_check hHeld₂ fun scope hScope => ?_
  have hServes : Serves start active p (roleOf start.settings.directives loose)
    (handlerOf prepare p page) := serves_handlerOf loose hPrepare hActive
  refine Safe.bind (safe_runAll hServes hActive items (hRoles _ _ hItems) hHeld₂
    (scopeFits_scopeOf hLaid hScope)) ?_
  exact fun _ w₃ hHeld₃ _ _ => safe_onDraft hHeld₃ hActive keepsLaid_finish

theorem preparesSafely_prepareFrom (hRoles : KeepsRoles start loose) (depth : Nat) :
    PreparesSafely start (prepareFrom depth) := by
  induction depth with
  | zero => exact fun active p w hActive hHeld => safe_throw hHeld
  | succ depth ih => exact preparesSafely_runBody hRoles ih

/-- Preparing pages is safe if the bodies of all templates keep to the roles of names. -/
theorem preparesSafely (hRoles : KeepsRoles start loose) : PreparesSafely start Site.prepare :=
  fun active p w hActive hHeld =>
    Safe.bind_get (preparesSafely_prepareFrom hRoles _ active p w hActive hHeld)

end Bodies

end PageBlocks.Deferral
