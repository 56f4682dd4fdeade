import PageBlocks.Proofs.Inheritance.Chain
import PageBlocks.Proofs.Inheritance.Showing

/-!
# What a chain of templates renders

Rendering the first template of a chain gives the text that its bodies compose, read from the
innermost base outwards. Nothing in that text depends on tokens, captures, outlines or on the order
in which blocks are rendered.
-/

set_option autoImplicit false

namespace PageBlocks.Inheritance

open PageBlocks.Body PageBlocks.Running PageBlocks.Site

/-! ## Plain blocks -/

theorem fits_plain (mode : ApplyMode) (blocks : Ledger) (name : String) :
    (Opening.plain mode).fits blocks name = true := rfl

mutual

theorem agrees_of_isPlain {page around : String} {blocks : Ledger} (part : Part)
    (h : part.isPlain = true) : part.agrees page around blocks = true := by
  cases part with
  | text s => rfl
  | block opening name inner =>
    cases opening with
    | cacheable lifetime => cases h
    | plain mode =>
      simp only [Part.agrees, fits_plain, Bool.true_and]
      exact agree_of_arePlain inner h

/-- Plain openings fit every ledger. -/
theorem agree_of_arePlain {page around : String} {blocks : Ledger} (parts : List Part)
    (h : arePlain parts = true) : agree page around parts blocks = true := by
  cases parts with
  | nil => rfl
  | cons part more =>
    simp only [arePlain, Bool.and_eq_true] at h
    simp only [agree, agrees_of_isPlain part h.1, agree_of_arePlain more h.2, Bool.and_self]

end

theorem agreeChain_of_arePlain {layers : List Layer}
    (h : ∀ layer ∈ layers, arePlain layer.parts = true) : agreeChain layers = true := by
  induction layers with
  | nil => rfl
  | cons layer rest ih =>
    have hFirst := h layer List.mem_cons_self
    have hRest := ih fun other hMem => h other (List.mem_cons_of_mem _ hMem)
    cases rest with
    | nil => exact agree_of_arePlain _ hFirst
    | cons next rest =>
      simp only [agreeChain, hRest, agree_of_arePlain _ hFirst, Bool.and_self]

/-- No block of a ledger is cacheable. -/
def Ledger.IsPlain (blocks : Ledger) : Prop := ∀ name, ¬ blocks.IsCacheable name

namespace Ledger.IsPlain

variable {blocks : Ledger}

theorem record (h : blocks.IsPlain) (mode : ApplyMode) (name : String) (new : List Piece) :
    (blocks.record mode name new).IsPlain := by
  rintro other ⟨holding, hHeld, hLifetime⟩
  by_cases hSame : other = name
  · subst hSame
    cases hOld : blocks.get? other with
    | none =>
      simp only [Ledger.record, hOld] at hHeld
      cases hHeld
    | some old =>
      rw [Ledger.get?_record_self mode new hOld] at hHeld
      cases hHeld
      exact h other ⟨old, hOld, hLifetime⟩
  · rw [Ledger.get?_record_of_ne mode new hSame] at hHeld
    exact h other ⟨holding, hHeld, hLifetime⟩

theorem declare (h : blocks.IsPlain) (page around name : String) (mode : ApplyMode) :
    (blocks.declare page around (.plain mode) name).IsPlain := by
  rintro other ⟨holding, hHeld, hLifetime⟩
  unfold Ledger.declare at hHeld
  split at hHeld
  · exact h other ⟨holding, hHeld, hLifetime⟩
  · by_cases hSame : other = name
    · subst hSame
      rw [Table.get?_insert_self] at hHeld
      cases hHeld
      cases hLifetime
    · rw [Table.get?_insert_of_ne _ _ hSame] at hHeld
      exact h other ⟨holding, hHeld, hLifetime⟩

theorem start (page : String) : (Ledger.start page).IsPlain := by
  rintro name ⟨holding, hHeld, hLifetime⟩
  simp only [Ledger.start, Table.get?_cons, Table.get?_nil] at hHeld
  split at hHeld
  · cases hHeld
    cases hLifetime
  · cases hHeld

mutual

theorem read (page around : String) {blocks : Ledger} (part : Part) (h : blocks.IsPlain)
    (hPlain : part.isPlain = true) : (part.read page around blocks).2.IsPlain := by
  cases part with
  | text s => exact h
  | block opening name inner =>
    cases opening with
    | cacheable lifetime => cases hPlain
    | plain mode =>
      exact (readAll page _ inner (h.declare page around name mode) hPlain).record _ _ _

/-- Reading plain parts declares plain blocks. -/
theorem readAll (page around : String) {blocks : Ledger} (parts : List Part) (h : blocks.IsPlain)
    (hPlain : arePlain parts = true) :
    (Inheritance.readAll page around parts blocks).2.IsPlain := by
  cases parts with
  | nil => exact h
  | cons part more =>
    simp only [arePlain, Bool.and_eq_true] at hPlain
    exact readAll page around more (read page around part h hPlain.1) hPlain.2

end

theorem readChain {layers : List Layer} (h : ∀ layer ∈ layers, arePlain layer.parts = true) :
    (Inheritance.readChain layers).IsPlain := by
  induction layers with
  | nil =>
    rintro name ⟨holding, hHeld, -⟩
    cases hHeld
  | cons layer rest ih =>
    have hFirst := h layer List.mem_cons_self
    have hRest := ih fun other hMem => h other (List.mem_cons_of_mem _ hMem)
    cases rest with
    | nil => exact (readAll _ _ layer.parts (start layer.page) hFirst).record _ _ _
    | cons next rest => exact readAll _ _ layer.parts hRest hFirst

end Ledger.IsPlain

/-! ## Rendering a chain -/

section Rendering

variable {w : World} {place : Place} {vars : Bindings} {context : Context}
  {known : List (String × Directive)} {layers : List Layer}

/-- Making and preparing the page of a chain succeeds, and touches no cache. -/
theorem prepare_chain (chain : Chain w.files context vars place layers)
    (runs : Runs context vars known layers) :
    ∃ p w₁ w₂, (newPage place vars context []).run w = (.ok p, w₁)
      ∧ (prepare p).run w₁ = (.ok (), w₂)
      ∧ w₂.vault = w.vault ∧ Prepared w₂ p context (readChain layers) := by
  have hId : ∃ id, Identity.page (Path.absolute place).print vars = .ok id := by
    cases chain with
    | base _ hId => exact ⟨_, hId⟩
    | step _ hId => exact ⟨_, hId⟩
  obtain ⟨id, hId⟩ := hId
  obtain ⟨w₁, hNew, new, hFiles, hVault, -⟩ := run_newPage w context [] hId
  have hDepth : layers.length ≤ depthLimit w₁ := by
    have hLength := chain.length_le
    rw [depthLimit, hFiles]
    omega
  obtain ⟨w₂, hPrepare, frame, prepared⟩ := prepareFrom_chain chain runs (depthLimit w₁) hDepth w₁
    w.pages.size _ hFiles new rfl rfl rfl hId (fun q hMem => by cases hMem)
  have hRun : (prepare w.pages.size).run w₁ = (.ok (), w₂) :=
    (run_bind_of_ok (run_get w₁) _).trans hPrepare
  exact ⟨w.pages.size, w₁, w₂, hNew, hRun, frame.vault.trans hVault, prepared⟩

theorem run_renderBlock {p i : Nat} {page : Page} {o : Outline} {text : String} {v : Cache.Vault}
    (hPage : w.pages[p]? = some page) (hOutline : w.outlines[page.outline]? = some o)
    (hRender : (o.render (memoOf page) i).run w.vault = (.ok text, v)) :
    (renderBlock p i).run w = (.ok text, { w with vault := v }) := by
  unfold renderBlock
  rw [run_bind_of_ok (run_page hPage), run_bind_of_ok (run_outlineOf hPage hOutline)]
  unfold onVault
  rw [run_bind_of_ok (run_get w), hRender]
  rfl

/-- Rendering a template of a chain whose bodies write text and open and close blocks gives the text
that the bodies compose, if the blocks of the page have different identities. -/
theorem render_chain (chain : Chain w.files context vars place layers)
    (hKnows : Knows context vars words)
    (hPlain : ∀ layer ∈ layers, arePlain layer.parts = true)
    (hFresh : ∀ layer ∈ layers, areFresh [root] layer.parts = true)
    (hDistinct : (readChain layers).isDistinct = true) :
    ((do
      let p ← newPage place vars context []
      renderPage prepare p : SiteM String).run w).1
        = .ok ((readChain layers).text fun _ => none) := by
  have runs : Runs context vars words layers :=
    { covers := fun _ hMem => hMem
      knows := hKnows
      fresh := hFresh
      allowed := fun layer hMem => Or.inl (hPlain layer hMem)
      agrees := agreeChain_of_arePlain hPlain }
  obtain ⟨p, w₁, w₂, hNew, hPrepare, -, page, o, hPage, -, hOutline, m⟩ := prepare_chain chain runs
  -- no block is cacheable, so that the caches play no part
  have hNone : (readChain layers).IsPlain := Ledger.IsPlain.readChain hPlain
  have hServed : ∀ name,
      Served (memoOf page) (readChain layers) (fun _ => none) w₂.vault name := by
    intro name holding lifetime hHeld hLifetime
    exact absurd ⟨holding, hHeld, by rw [hLifetime]; rfl⟩ (hNone name)
  have hSeparate : Separate (memoOf page) (readChain layers) :=
    fun _ _ name _ hCacheable => absurd hCacheable (hNone name)
  obtain ⟨v, hRender⟩ := render_run m (Ledger.tells_of_isDistinct hDistinct) hSeparate m.root
    hServed
  rw [run_bind_of_ok hNew]
  unfold renderPage
  rw [run_bind_of_ok hPrepare, run_renderBlock hPage hOutline hRender]
  rfl

end Rendering

/-! ## A chain of two templates -/

namespace Sample

/-- A block inside of a block. -/
def base : List Part :=
  [.text "A", .block (.plain .replace) "x" [.text "1", .block (.plain .replace) "z" [.text "-"]],
    .text "B"]

/-- A body that puts text in front of the inner block and behind the outer one. -/
def child : List Part :=
  [.text "dropped", .block (.plain .prepend) "z" [.text "+"],
    .block (.plain .append) "x" [.text "2"]]

def files : FileTree Source :=
  [(["v", "base"], .items (itemsAll base)),
    (["v", "child"], .items (extending ["lead"] "base" child))]

def settings : Context := startSettings { paths := [Path.ofText "/v"] } .script (.int 3600)

def site : World := { files, vault := { now := ⟨0⟩ }, settings }

/-- The identity of the page of a template without variables. -/
def idOf (place : Place) : String :=
  ((Identity.page (Path.absolute place).print []).toOption).getD ""

def layers : List Layer := [⟨idOf ["v", "child"], child⟩, ⟨idOf ["v", "base"], base⟩]

/-- Which digest an identity is does not matter for the identity to exist. -/
theorem page_eq_idOf {place : Place}
    (h : (Identity.page (Path.absolute place).print []).toOption.isSome = true) :
    Identity.page (Path.absolute place).print [] = .ok (idOf place) := by
  obtain ⟨id, hId⟩ := Option.isSome_iff_exists.mp h
  refine eq_ok_of_toOption ?_
  rw [idOf, hId, Option.getD_some]

theorem chain : Chain files settings [] ["v", "child"] layers := by
  have hBase : bodyAt files ["v", "base"] = .ok (itemsAll base) := rfl
  have hChild : bodyAt files ["v", "child"] = .ok (extending ["lead"] "base" child) := rfl
  have hNext : settings.locator.locate files "base" [(Path.absolute ["v", "child"]).parent]
      = .ok ["v", "base"] := eq_ok_of_toOption (by decide +kernel)
  exact .step hChild (page_eq_idOf (by decide +kernel)) hNext
    (.base hBase (page_eq_idOf (by decide +kernel)))

theorem knows : Knows settings [] words := by
  refine ⟨[], rfl, fun entry hMem => ?_⟩
  simp only [words, opener, List.mem_cons, List.not_mem_nil, or_false] at hMem
  rcases hMem with rfl | rfl | rfl | rfl | rfl <;> exact ⟨rfl, rfl⟩

end Sample

theorem render_chain_of_two :
    ((do
      let p ← newPage ["v", "child"] [] Sample.settings []
      renderPage prepare p : SiteM String).run Sample.site).1 = .ok "A1+-2B" := by
  have hText : (readChain Sample.layers).text (fun _ => none) = "A1+-2B" := by decide +kernel
  have hDistinct : (readChain Sample.layers).isDistinct = true := by
    unfold Ledger.isDistinct Ledger.idOf Sample.layers Sample.idOf Identity.page Identity.block
    rw [Identity.digest_eq]
    decide +kernel
  rw [render_chain (w := Sample.site) Sample.chain Sample.knows (by decide) (by decide) hDistinct,
    hText]

end PageBlocks.Inheritance
