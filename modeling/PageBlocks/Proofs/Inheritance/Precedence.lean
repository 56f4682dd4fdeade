import PageBlocks.Proofs.Inheritance.Composition

/-!
# Overrides and stored texts

A cacheable block is known to the cache by the page that declared it first and by its name. The
templates that extend the one of that page share the entry, whatever they put into the block. So a
block shows what its template put into it only if nothing else is stored for it: the text of a page
is composed as without a cache, except that a block with a live entry shows that entry.
-/

set_option autoImplicit false

namespace PageBlocks.Inheritance

open PageBlocks.Body PageBlocks.Cache PageBlocks.Running PageBlocks.Site PageBlocks.Storage

/-! ## Live entries -/

/-- What a cache has for the blocks of a ledger. -/
def live (cache : Ref) (blocks : Ledger) (v : Vault) (name : String) : Option String :=
  match entry cache (blocks.idOf name) v with
  | .ok found => found
  | .error _ => none

/-- A cache can serve the cacheable blocks of a ledger: looking one up does not fail, what is not
there can be stored, and no two blocks share a spot. -/
structure CanServe (memo : Memo) (blocks : Ledger) (v : Vault) : Prop where
  readable : ∀ name, blocks.IsCacheable name →
    ∃ found, entry memo.cache (blocks.idOf name) v = .ok found
  accepts : ∀ name holding lifetime, blocks.get? name = some holding →
    holding.lifetime? = some lifetime → live memo.cache blocks v name = none →
    Accepts memo.cache (blocks.idOf name) (lifetimeOr memo lifetime) v
  separate : ∀ name other, blocks.IsCacheable name → blocks.IsCacheable other →
    slot memo.cache (blocks.idOf name) = slot memo.cache (blocks.idOf other) → name = other

theorem CanServe.served {memo : Memo} {blocks : Ledger} {v : Vault}
    (serves : CanServe memo blocks v) (name : String) :
    Served (some memo) blocks (live memo.cache blocks v) v name := by
  intro holding lifetime hHeld hLifetime
  refine ⟨?_, fun memo' hMemo => ?_⟩
  · intro hNone
    cases hNone
  cases hMemo
  obtain ⟨found, hFound⟩ := serves.readable name ⟨holding, hHeld, by rw [hLifetime]; rfl⟩
  refine ⟨?_, serves.accepts name holding lifetime hHeld hLifetime⟩
  simp only [live, hFound]

/-! ## Texts with and without stored ones -/

section Texts

variable {blocks : Ledger} {o : Outline} {stored? : String → Option String}

/-- A stored text is what its block shows. -/
theorem textAt_of_stored (m : Mirrors blocks o) {name text : String}
    (hCacheable : blocks.IsCacheable name) (hStored : stored? name = some text) :
    blocks.textAt stored? name = text := by
  obtain ⟨holding, hHeld, hLifetime⟩ := hCacheable
  obtain ⟨i, b, hFind, hBlock, -⟩ := m.pictured name holding hHeld
  have hLt := Outline.lt_of_block?_eq_some hBlock
  obtain ⟨depth, hDepth⟩ : ∃ k, blocks.length = k + 1 :=
    ⟨blocks.length - 1, by have hSize := m.size; omega⟩
  obtain ⟨lifetime, hSome⟩ := Option.isSome_iff_exists.mp hLifetime
  rw [Ledger.textAt, hDepth]
  simp only [Ledger.show, hHeld, hSome, hStored]

/-- Where every stored text is that of its block, nothing shows that it was stored. -/
theorem show_eq_of_agrees (m : Mirrors blocks o)
    (hAgrees : ∀ name text, blocks.IsCacheable name → stored? name = some text →
      text = blocks.textAt (fun _ => none) name) (depth : Nat) :
    ∀ i name, o.find? (.text name) = some i → o.blocks.length ≤ depth + i →
      blocks.show stored? depth name = blocks.show (fun _ => none) depth name := by
  induction depth with
  | zero =>
    intro i name hFind hDepth
    rfl
  | succ depth ih =>
    intro i name hFind hDepth
    obtain ⟨holding, b, hHeld, hBlock, hPictured⟩ := m.found hFind
    have hFill : fillWith (blocks.show stored? depth) holding.pieces
        = fillWith (blocks.show (fun _ => none) depth) holding.pieces := by
      refine fillWith_congr fun child hHole => ?_
      obtain ⟨j, hChild, hFindChild⟩ := hPictured.holes child hHole
      have hAfter := (hPictured.children j hChild).1
      exact ih j child hFindChild (by omega)
    cases hLifetime : holding.lifetime? with
    | none => simp only [Ledger.show, hHeld, hLifetime, hFill]
    | some lifetime =>
      cases hStored : stored? name with
      | none => simp only [Ledger.show, hHeld, hLifetime, hStored, hFill]
      | some text =>
        have hText := hAgrees name text ⟨holding, hHeld, by rw [hLifetime]; rfl⟩ hStored
        have hStable : blocks.textAt (fun _ => none) name
            = blocks.show (fun _ => none) (depth + 1) name :=
          show_stable m blocks.length (depth + 1) i name hFind (by rw [m.size]; omega) hDepth
        rw [← hStable, ← hText]
        simp only [Ledger.show, hHeld, hLifetime, hStored]

/-- A block shows what was put into it if and only if nothing else is stored for it, as long as the
other stored texts are those of their blocks. -/
theorem textAt_eq_iff (m : Mirrors blocks o) {name : String}
    (hCacheable : blocks.IsCacheable name)
    (hOthers : ∀ other text, other ≠ name → blocks.IsCacheable other →
      stored? other = some text → text = blocks.textAt (fun _ => none) other) :
    blocks.textAt stored? name = blocks.textAt (fun _ => none) name
      ↔ ∀ text, stored? name = some text → text = blocks.textAt (fun _ => none) name := by
  constructor
  · intro hSame text hStored
    rw [← hSame, textAt_of_stored m hCacheable hStored]
  · intro hOwn
    obtain ⟨holding, hHeld, -⟩ := hCacheable
    obtain ⟨i, b, hFind, -, -⟩ := m.pictured name holding hHeld
    refine show_eq_of_agrees m ?_ blocks.length i name hFind (by rw [m.size]; omega)
    intro other text hOther hStored
    by_cases hSame : other = name
    · rw [hSame] at hStored ⊢
      exact hOwn text hStored
    · exact hOthers other text hSame hOther hStored

end Texts

/-! ## Rendering a chain with a cache -/

section Rendering

variable {w : World} {place : Place} {vars : Bindings} {context : Context}
  {known : List (String × Directive)} {layers : List Layer} {cache : Ref}

/-- Rendering a block of a prepared page of a chain gives the text that the bodies compose, except
that blocks with a live entry show that entry. -/
theorem render_prepared {p : Nat} (hPrepared : Prepared w p context (readChain layers))
    (hCache : context.cache = some cache) (hDistinct : (readChain layers).isDistinct = true)
    (serves : CanServe ⟨cache, context.lifetime⟩ (readChain layers) w.vault) :
    ((renderBlock p Outline.root).run w).1
        = .ok ((readChain layers).text (live cache (readChain layers) w.vault)) ∧
      ∀ name, (readChain layers).has name = true → ((blockOutput p (.text name)).run w).1
        = .ok ((readChain layers).textAt (live cache (readChain layers) w.vault) name) := by
  obtain ⟨page, o, hPage, hContext, hOutline, m⟩ := hPrepared
  have hMemo : memoOf page = some ⟨cache, context.lifetime⟩ := by
    rw [memoOf, hContext, hCache]
    rfl
  have hSeparate : Separate (memoOf page) (readChain layers) := by
    intro memo hSome a b hA hB hSpot
    rw [hMemo] at hSome
    cases hSome
    exact serves.separate a b hA hB hSpot
  have hServed : ∀ name, Served (memoOf page) (readChain layers)
      (live cache (readChain layers) w.vault) w.vault name := by
    rw [hMemo]
    exact serves.served
  have hBlock : ∀ name i, o.find? (.text name) = some i → ∃ w', (renderBlock p i).run w
      = (.ok ((readChain layers).textAt (live cache (readChain layers) w.vault) name), w') := by
    intro name i hFind
    obtain ⟨v, hRender⟩ := render_run m (Ledger.tells_of_isDistinct hDistinct) hSeparate hFind
      hServed
    exact ⟨_, run_renderBlock hPage hOutline hRender⟩
  constructor
  · obtain ⟨w', hRun⟩ := hBlock root Outline.root m.root
    rw [hRun]
    rfl
  · intro name hName
    obtain ⟨holding, hHeld⟩ := Ledger.get?_eq_some_of_has hName
    obtain ⟨i, b, hFind, -, -⟩ := m.pictured name holding hHeld
    obtain ⟨w', hRun⟩ := hBlock name i hFind
    unfold blockOutput
    simp only [Value.isKey, Bool.not_true, Bool.false_eq_true, if_false]
    rw [run_bind_of_ok (run_outlineOf hPage hOutline), hFind]
    simp only [hRun]

/-- Go on with other caches, as whatever happened in between may have left them. -/
def withVault (v : Vault) : SiteM Unit := modify fun w => { w with vault := v }

theorem run_withVault (v : Vault) (w : World) :
    (withVault v).run w = (.ok (), { w with vault := v }) := rfl

/-- Rendering the first template of a chain, or one of its blocks, with the caches as they are when
its body has run: every block with a live entry shows that entry, and every other one shows what the
bodies put into it. So a cacheable block shows the override of its template if and only if no other
text is stored for it, as long as the other stored texts are those of their blocks. -/
theorem render_overridden (chain : Chain w.files context vars place layers)
    (runs : Runs context vars known layers) (hCache : context.cache = some cache)
    (hDistinct : (readChain layers).isDistinct = true) (v : Vault)
    (serves : CanServe ⟨cache, context.lifetime⟩ (readChain layers) v) :
    ((do
      let p ← newPage place vars context []
      prepare p
      withVault v
      renderBlock p Outline.root : SiteM String).run w).1
        = .ok ((readChain layers).text (live cache (readChain layers) v)) ∧
    ∀ name, (readChain layers).IsCacheable name →
      ((do
        let p ← newPage place vars context []
        prepare p
        withVault v
        blockOutput p (.text name) : SiteM String).run w).1
          = .ok ((readChain layers).textAt (live cache (readChain layers) v) name) ∧
      ((∀ other text, other ≠ name → (readChain layers).IsCacheable other →
          live cache (readChain layers) v other = some text →
          text = (readChain layers).textAt (fun _ => none) other) →
        ((readChain layers).textAt (live cache (readChain layers) v) name
            = (readChain layers).textAt (fun _ => none) name ↔
          ∀ text, live cache (readChain layers) v name = some text →
            text = (readChain layers).textAt (fun _ => none) name)) := by
  obtain ⟨p, w₁, w₂, hNew, hPrepare, -, hPrepared⟩ := prepare_chain chain runs
  have hPrepared' : Prepared { w₂ with vault := v } p context (readChain layers) := hPrepared
  obtain ⟨hPage, hBlocks⟩ := render_prepared hPrepared' hCache hDistinct serves
  obtain ⟨page, o, -, -, -, m⟩ := hPrepared
  constructor
  · rw [run_bind_of_ok hNew, run_bind_of_ok hPrepare, run_bind_of_ok (run_withVault v w₂)]
    exact hPage
  · intro name hCacheable
    refine ⟨?_, textAt_eq_iff m hCacheable⟩
    obtain ⟨holding, hHeld, -⟩ := hCacheable
    rw [run_bind_of_ok hNew, run_bind_of_ok hPrepare, run_bind_of_ok (run_withVault v w₂)]
    exact hBlocks name (Ledger.has_of_get?_eq_some hHeld)

end Rendering

/-! ## A base and a template that overrides its block -/

namespace Overridden

def base : List Part := [.text "A", .block (.cacheable none) "x" [.text "1"], .text "B"]

def child : List Part := [.block (.cacheable none) "x" [.text "2"]]

def files : FileTree Source :=
  [(["v", "base"], .items (itemsAll base)), (["v", "child"], .items (extending [] "base" child))]

def settings : Context := startSettings { paths := [Path.ofText "/v"] } .script (.int 3600)

def site : World := { files, vault := { now := ⟨0⟩ }, settings }

/-- The settings after a cache in memory was installed. -/
def cached : Context :=
  { settings with
    cache := some (.shelf 0)
    directives := Table.merge settings.directives (Directive.forCache (.int 3600)) }

def layers : List Layer := [⟨Sample.idOf ["v", "child"], child⟩, ⟨Sample.idOf ["v", "base"], base⟩]

theorem chain : Chain files cached [] ["v", "child"] layers := by
  have hBase : bodyAt files ["v", "base"] = .ok (itemsAll base) := rfl
  have hChild : bodyAt files ["v", "child"] = .ok (extending [] "base" child) := rfl
  have hNext : cached.locator.locate files "base" [(Path.absolute ["v", "child"]).parent]
      = .ok ["v", "base"] := eq_ok_of_toOption (by decide +kernel)
  exact .step hChild (Sample.page_eq_idOf (by decide +kernel)) hNext
    (.base hBase (Sample.page_eq_idOf (by decide +kernel)))

theorem runs : Runs cached [] (("cache", .cacheableBlock) :: words) layers where
  covers := fun _ hMem => List.mem_cons_of_mem _ hMem
  knows := by
    refine ⟨[], rfl, fun entry hMem => ?_⟩
    simp only [words, opener, List.mem_cons, List.not_mem_nil, or_false] at hMem
    rcases hMem with rfl | rfl | rfl | rfl | rfl | rfl <;> exact ⟨rfl, rfl⟩
  fresh := by decide
  allowed := fun _ _ => Or.inr ⟨List.mem_cons_self, .shelf 0, rfl⟩
  agrees := by decide

/-- A vault with an empty cache in memory. -/
def empty : Vault := { now := ⟨0⟩, shelves := [[]] }

theorem readChain_layers : readChain layers =
    [(root, ⟨Sample.idOf ["v", "base"], none, [.text "A", .hole "x", .text "B"]⟩),
      ("x", ⟨Sample.idOf ["v", "base"], some .null, [.text "2"]⟩)] := rfl

/-- There is one cacheable block, with no lifetime of its own. -/
theorem eq_of_get? {name : String} {holding : Holding} {lifetime : Value}
    (hHeld : (readChain layers).get? name = some holding)
    (hLifetime : holding.lifetime? = some lifetime) : name = "x" ∧ lifetime = .null := by
  have hMem := Table.mem_of_get?_eq_some hHeld
  rw [readChain_layers] at hMem
  simp only [List.mem_cons, List.not_mem_nil, or_false, Prod.mk.injEq] at hMem
  rcases hMem with ⟨-, rfl⟩ | ⟨rfl, rfl⟩
  · cases hLifetime
  · exact ⟨rfl, (Option.some.inj hLifetime).symm⟩

theorem eq_of_isCacheable {name : String} (h : (readChain layers).IsCacheable name) :
    name = "x" := by
  obtain ⟨holding, hHeld, hSome⟩ := h
  obtain ⟨lifetime, hLifetime⟩ := Option.isSome_iff_exists.mp hSome
  exact (eq_of_get? hHeld hLifetime).1

theorem serves : CanServe ⟨.shelf 0, .int 3600⟩ (readChain layers) empty where
  readable := fun _ _ => ⟨none, rfl⟩
  accepts := by
    intro name holding lifetime hHeld hLifetime _
    obtain ⟨-, rfl⟩ := eq_of_get? hHeld hLifetime
    exact ⟨_, rfl⟩
  separate := by
    intro name other hName hOther _
    rw [eq_of_isCacheable hName, eq_of_isCacheable hOther]

end Overridden

/-- With nothing stored, the page shows the override. -/
theorem render_overridden_of_empty :
    ((do
      let p ← newPage ["v", "child"] [] Overridden.cached []
      prepare p
      withVault Overridden.empty
      renderBlock p Outline.root : SiteM String).run Overridden.site).1 = .ok "A2B" := by
  have hText : (readChain Overridden.layers).text
      (live (.shelf 0) (readChain Overridden.layers) Overridden.empty) = "A2B" := rfl
  have hDistinct : (readChain Overridden.layers).isDistinct = true := by
    unfold Ledger.isDistinct Ledger.idOf Overridden.layers Sample.idOf Identity.page Identity.block
    rw [Identity.digest_eq]
    decide +kernel
  have hRender := (render_overridden (w := Overridden.site) Overridden.chain Overridden.runs rfl
    hDistinct Overridden.empty Overridden.serves).1
  rw [hRender, hText]

/-- Rendering the base first stores what it puts into the block, and the template that overrides the
block shows that. -/
theorem override_hidden_by_base :
    ((do
      let _ ← perform (.installCache .shelf none)
      let _ ← perform (.render (.text "base") none [] true)
      Site.render prepare (.text "child") .null [] true : SiteM String).run
        Overridden.site).1.toOption = some "A1B"
      ∧ (readChain Overridden.layers).text (fun _ => none) = "A2B" := by
  decide +kernel

end PageBlocks.Inheritance
