import PageBlocks.Proofs.Inheritance.Items

/-!
# Preparing chains of pages

A body that extends another template is prepared by preparing a page for that template first and
going on with its outline. Along a chain of such bodies, down to one that extends nothing, every
page ends with the outline of the innermost base, and it mirrors the ledger that reading the bodies
of the chain gives (`prepareFrom_chain`). A chain that ends runs through no template twice, so that
preparing it meets no cycle, and it is no longer than there are files (`Chain.length_le`).
-/

set_option autoImplicit false

namespace PageBlocks.Inheritance

open PageBlocks.Body PageBlocks.Running PageBlocks.Site

/-! ## Chains -/

/-- The items of a body that extends another template. Text may stand before that. -/
def extending (lead : List String) (base : String) (parts : List Part) : List Item :=
  lead.map .text ++ invoke "extend" [.text base] :: itemsAll parts

/-- The templates from a place on, each of which extends the next one, down to one that extends
nothing, with the identities that their pages have and with the parts of their bodies. -/
inductive Chain (files : FileTree Source) (context : Context) (vars : Bindings) :
    Place → List Layer → Prop
  | base {place : Place} {id : String} {parts : List Part} :
    bodyAt files place = .ok (itemsAll parts) →
    Identity.page (Path.absolute place).print vars = .ok id →
    Chain files context vars place [⟨id, parts⟩]
  | step {place next : Place} {id name : String} {lead : List String} {parts : List Part}
      {rest : List Layer} :
    bodyAt files place = .ok (extending lead name parts) →
    Identity.page (Path.absolute place).print vars = .ok id →
    context.locator.locate files name [(Path.absolute place).parent] = .ok next →
    Chain files context vars next rest →
    Chain files context vars place (⟨id, parts⟩ :: rest)

/-- The template that the first call of the directive for that names. -/
def extended? (items : List Item) : Option Value :=
  items.findSome? fun
    | .emit (.call (.name word) [.literal v] []) => if word = "extend" then some v else none
    | _ => none

theorem extended?_append_of_none {items more : List Item} (h : extended? items = none) :
    extended? (items ++ more) = extended? more := by
  simp only [extended?, List.findSome?_append] at h ⊢
  rw [h, Option.none_or]

theorem extended?_cons_of_none {item : Item} {items : List Item}
    (h : extended? [item] = none) : extended? (item :: items) = extended? items :=
  (extended?_append_of_none h : extended? ([item] ++ items) = _)

theorem extended?_text (s : String) : extended? [.text s] = none := rfl

theorem extended?_opening (opening : Opening) (name : String) :
    extended? [opening.item name] = none := by
  cases opening with
  | plain mode => cases mode <;> rfl
  | cacheable lifetime => cases lifetime <;> rfl

theorem extended?_closing : extended? [invoke "end" []] = none := rfl

mutual

theorem extended?_items (part : Part) : extended? part.items = none := by
  cases part with
  | text s => exact extended?_text s
  | block opening name inner =>
    rw [Part.items, extended?_cons_of_none (extended?_opening opening name),
      extended?_append_of_none (extended?_itemsAll inner)]
    exact extended?_closing

/-- Parts extend nothing. -/
theorem extended?_itemsAll (parts : List Part) : extended? (itemsAll parts) = none := by
  cases parts with
  | nil => rfl
  | cons part more =>
    rw [itemsAll, extended?_append_of_none (extended?_items part)]
    exact extended?_itemsAll more

end

/-- A body that extends a template tells which one. -/
theorem extended?_extending (lead : List String) (base : String) (parts : List Part) :
    extended? (extending lead base parts) = some (.text base) := by
  have hLead : extended? (lead.map .text) = none := by
    induction lead with
    | nil => rfl
    | cons s lead ih => exact (extended?_cons_of_none (extended?_text s)).trans ih
  rw [extending, extended?_append_of_none hLead]
  rfl

namespace Chain

variable {files : FileTree Source} {context : Context} {vars : Bindings} {place : Place}
  {layers : List Layer}

theorem ne_nil (chain : Chain files context vars place layers) : layers ≠ [] := by
  cases chain <;> exact List.cons_ne_nil _ _

/-- How long the chain of a place is depends on the place alone. -/
theorem length_unique (chain : Chain files context vars place layers) {other : List Layer}
    (chain' : Chain files context vars place other) : layers.length = other.length := by
  induction chain generalizing other with
  | base hBody =>
    cases chain' with
    | base => rfl
    | step hBody' =>
      rw [hBody] at hBody'
      have hSame := congrArg extended? (Except.ok.inj hBody')
      rw [extended?_itemsAll, extended?_extending] at hSame
      cases hSame
  | step hBody _ hNext _ ih =>
    cases chain' with
    | base hBody' =>
      rw [hBody] at hBody'
      have hSame := congrArg extended? (Except.ok.inj hBody')
      rw [extended?_itemsAll, extended?_extending] at hSame
      cases hSame
    | step hBody' _ hNext' chain' =>
      rw [hBody] at hBody'
      have hSame := congrArg extended? (Except.ok.inj hBody')
      rw [extended?_extending, extended?_extending, Option.some.injEq, Value.text.injEq] at hSame
      subst hSame
      rw [hNext] at hNext'
      cases hNext'
      simp only [List.length_cons, ih chain']

/-- The place of a chain has a file. -/
theorem has_place (chain : Chain files context vars place layers) :
    place ∈ files.keys := by
  have hBody : ∃ items, bodyAt files place = .ok items := by
    cases chain with
    | base hBody => exact ⟨_, hBody⟩
    | step hBody => exact ⟨_, hBody⟩
  obtain ⟨items, hItems⟩ := hBody
  cases hFile : files.get? place with
  | none =>
    rw [bodyAt, hFile] at hItems
    cases hItems
  | some source => exact List.mem_map_of_mem (Table.mem_of_get?_eq_some hFile)

/-- A chain runs through different places, each of which has a file. -/
theorem places (chain : Chain files context vars place layers) :
    ∃ places : List Place, places.length = layers.length ∧ places.Nodup
      ∧ (∀ q ∈ places, q ∈ files.keys)
      ∧ ∀ q ∈ places, ∃ rest, Chain files context vars q rest ∧ rest.length ≤ layers.length := by
  induction chain with
  | @base place id parts hBody hId =>
    have chain : Chain files context vars place [⟨id, parts⟩] := .base hBody hId
    refine ⟨[place], rfl, by simp, ?_, ?_⟩
    · intro q hMem
      rw [List.mem_singleton.mp hMem]
      exact chain.has_place
    · intro q hMem
      rw [List.mem_singleton.mp hMem]
      exact ⟨_, chain, Nat.le_refl _⟩
  | @step place next id name lead parts rest hBody hId hNext chain ih =>
    have whole : Chain files context vars place (⟨id, parts⟩ :: rest) := .step hBody hId hNext chain
    obtain ⟨places, hLength, hNodup, hFiles, hShorter⟩ := ih
    have hNew : place ∉ places := by
      intro hMem
      obtain ⟨other, chain', hLe⟩ := hShorter place hMem
      have hSame := whole.length_unique chain'
      rw [List.length_cons] at hSame
      omega
    refine ⟨place :: places, by simp [hLength], List.nodup_cons.mpr ⟨hNew, hNodup⟩, ?_, ?_⟩
    · intro q hMem
      rcases List.mem_cons.mp hMem with rfl | hMem
      · exact whole.has_place
      · exact hFiles q hMem
    · intro q hMem
      rcases List.mem_cons.mp hMem with rfl | hMem
      · exact ⟨_, whole, Nat.le_refl _⟩
      · obtain ⟨other, chain', hLe⟩ := hShorter q hMem
        exact ⟨other, chain', Nat.le_trans hLe (Nat.le_succ _)⟩

/-- A chain is no longer than there are files. -/
theorem length_le (chain : Chain files context vars place layers) :
    layers.length ≤ files.length := by
  obtain ⟨places, hLength, hNodup, hFiles, -⟩ := chain.places
  have hSub : places.length ≤ files.keys.length :=
    hNodup.length_le_of_subset hFiles
  rw [hLength] at hSub
  exact Nat.le_trans hSub (Nat.le_of_eq (List.length_map ..))

end Chain

/-! ## Running a body -/

/-- The words that bodies of a chain of plain blocks use, and the directives that they name. -/
def words : List (String × Directive) :=
  ("end", .closeBlock) :: ("extend", .extendPage)
    :: [opener .replace, opener .prepend, opener .append]

/-- The settings of a page know the words of a list, and no variable of the page hides one. -/
def Knows (context : Context) (vars : Bindings) (known : List (String × Directive)) : Prop :=
  ∃ named, namedVariables context.dialect vars = .ok named ∧ ∀ entry ∈ known,
    context.directives.get? entry.1 = some entry.2 ∧ named.has entry.1 = false

/-- What is known is bound in the scope that a body starts with. -/
theorem scopeOf_means {page : Page} {known : List (String × Directive)} (p : Nat)
    (h : Knows page.context page.vars known) :
    ∃ scope, scopeOf p page = .ok scope
      ∧ ∀ entry ∈ known, Means page.context scope p entry.1 entry.2 := by
  obtain ⟨named, hNamed, hKnown⟩ := h
  refine ⟨_, by simp only [scopeOf, hNamed]; rfl, fun entry hMem => ?_⟩
  obtain ⟨hDirective, hUnbound⟩ := hKnown entry hMem
  refine ⟨?_, hDirective⟩
  have hNoVariable : ∀ value, (entry.1, value) ∉ named := by
    intro value hBound
    obtain ⟨found, hFound⟩ := Table.exists_get?_of_mem hBound
    simp [Table.has, hFound] at hUnbound
  rw [Table.get?_merge_of_not_mem _ _ hNoVariable]
  refine Table.get?_merge_of_mem _ ?_ ?_
  · exact List.mem_map.mpr ⟨_, Table.mem_of_get?_eq_some hDirective, rfl⟩
  · intro other hOther
    obtain ⟨bound, -, hBound⟩ := List.mem_map.mp hOther
    rw [Prod.mk.injEq] at hBound
    rw [← hBound.2, hBound.1]

theorem fluent_of_means {means : String → Directive → Prop}
    (h : ∀ entry ∈ words, means entry.1 entry.2) : Fluent means := by
  refine ⟨fun mode => h _ ?_, h ("end", .closeBlock) List.mem_cons_self⟩
  cases mode <;> simp [words]

section Body

variable (prepare : Nat → SiteM Unit) {w : World} {p : Nat} {page : Page} {d : Draft}

/-- Running a body is running its items on an empty capture, and finishing the draft. -/
theorem runBody_run {items : List Item} {scope : Scope} (drafting : Drafting w p page d)
    (hBody : bodyAt w.files page.place = .ok items) (hScope : scopeOf p page = .ok scope) :
    ∃ w', Drafting w' p page { d with captures := [Capture.empty] } ∧ Frame p w w' ∧
      ∀ w'', (runAll (handlerOf prepare p page) scope items).run w' = (.ok scope, w'') →
        (runBody prepare p).run w = (onDraft p Draft.finish).run w'' := by
  obtain ⟨w₁, hReset, drafting₁, frame₁⟩ :=
    run_onDraft (x := Draft.resetCaptures) drafting (run_modify _ _) rfl
  have drafting₂ : Drafting { w₁ with executed := w₁.executed + 1 } p page
      { d with captures := [Capture.empty] } :=
    ⟨drafting₁.found, drafting₁.outline, drafting₁.path⟩
  refine ⟨_, drafting₂, ⟨frame₁.files, frame₁.vault, frame₁.size, frame₁.others⟩, ?_⟩
  intro w'' hItems
  have hBodyOf : (bodyOf { page with stack := d.stack, captures := [Capture.empty] }).run
      { w₁ with executed := w₁.executed + 1 }
        = (.ok items, { w₁ with executed := w₁.executed + 1 }) := by
    rw [run_bodyOf, ← hBody, ← frame₁.files]
  unfold runBody
  rw [run_bind_of_ok hReset, run_bind_of_ok (run_modify _ _),
    run_bind_of_ok (run_page drafting₂.found)]
  refine (run_bind_of_ok hBodyOf _).trans ?_
  refine (run_bind_of_ok (run_check hScope _) _).trans ?_
  exact run_bind_of_ok hItems _

end Body

/-! ## Finishing a draft -/

section Finishing

variable {d : Draft} {i : Nat} {s : String} {b : Block}

/-- Where the outline comes from another page, finishing drops what stands outside of blocks. -/
theorem run_finish_of_extended (hStack : d.stack = [i]) (hCaptures : d.captures = [.text s])
    (hRoot : d.outline.block? Outline.root = some b) (hExtended : b.extended = true) :
    Draft.finish.run d = (.ok (), d) := by
  unfold Draft.finish
  rw [run_bind_of_ok (run_get d)]
  simp only [hStack, hCaptures, hRoot, hExtended]
  rfl

/-- Where the outline is that of the page itself, what stands outside of blocks goes to the root. -/
theorem run_finish_of_not_extended (hStack : d.stack = [i]) (hCaptures : d.captures = [.text s])
    (hRoot : d.outline.block? Outline.root = some b) (hExtended : b.extended = false) :
    Draft.finish.run d
      = (.ok (), { d with outline := d.outline.update Outline.root fun b => b.merge s }) := by
  unfold Draft.finish
  rw [run_bind_of_ok (run_get d)]
  simp only [hStack, hCaptures, hRoot, hExtended]
  rfl

end Finishing

/-- The outline of a page that declared nothing mirrors the ledger of one. -/
theorem mirrors_start (id : String) : Mirrors (Ledger.start id) (Outline.start id) := by
  have hFind : ∀ name i, (Outline.start id).find? (.text name) = some i →
      name = root ∧ i = Outline.root := by
    intro name i hFind
    simp only [Outline.find?, Outline.start, Table.get?_cons, Table.get?_nil] at hFind
    split at hFind
    · rename_i hSame
      have hName := Table.beq_text_iff.mp hSame
      exact ⟨(Value.text.inj hName).symm, (Option.some.inj hFind).symm⟩
    · cases hFind
  have hRoot : (Outline.start id).find? (.text root) = some Outline.root := by
    simp only [Outline.find?, Outline.start, Table.get?_cons]
    exact if_pos (Table.beq_text_iff.mpr rfl)
  have hBlock : ∀ i b, (Outline.start id).block? i = some b →
      i = Outline.root ∧ b = Block.plain id Outline.rootName := by
    intro i b hBlock
    have hLt := Outline.lt_of_block?_eq_some hBlock
    have hZero : i = 0 := by
      simp only [Outline.start, List.length_singleton] at hLt
      omega
    subst hZero
    exact ⟨rfl, (Option.some.inj hBlock).symm⟩
  refine
    { size := rfl
      root := hRoot
      named := ?_
      listed := ?_
      pictured := ?_ }
  · intro i b h
    obtain ⟨rfl, rfl⟩ := hBlock i b h
    exact ⟨root, rfl, hRoot⟩
  · intro name i h
    obtain ⟨rfl, -⟩ := hFind name i h
    rfl
  · intro name holding hHeld
    obtain ⟨rfl, rfl⟩ : name = root ∧ holding = ⟨id, none, []⟩ := by
      simp only [Ledger.start, Table.get?_cons, Table.get?_nil] at hHeld
      split at hHeld
      · rename_i hSame
        exact ⟨(eq_of_beq hSame).symm, (Option.some.inj hHeld).symm⟩
      · cases hHeld
    refine ⟨Outline.root, Block.plain id Outline.rootName, hRoot, rfl, ?_⟩
    exact
      { called := rfl
        owner := rfl
        id := rfl
        kind := rfl
        lifetime := rfl
        transform := rfl
        content := rfl
        clean := by simp
        holes := by simp
        children := by intro j hMem; cases hMem
        distinct := List.nodup_nil }

/-! ## Preparing -/

/-- A page whose body has not run yet. -/
structure IsNew (w : World) (p : Nat) (page : Page) : Prop where
  found : w.pages[p]? = some page
  outline : w.outlines[page.outline]? = some (Outline.start page.id)
  stack : page.stack = [Outline.root]

/-- A page whose outline mirrors a ledger. -/
def Prepared (w : World) (p : Nat) (context : Context) (blocks : Ledger) : Prop :=
  ∃ page o, w.pages[p]? = some page ∧ page.context = context
    ∧ w.outlines[page.outline]? = some o ∧ Mirrors blocks o

theorem IsNew.drafting {w : World} {p : Nat} {page : Page} (new : IsNew w p page) :
    Drafting w p page
      ⟨page.path.print, Outline.start page.id, [Outline.root], page.captures⟩ := by
  refine ⟨?_, new.outline, rfl⟩
  rw [new.found, ← new.stack]

/-- A draft whose outline mirrors a ledger and that has no open blocks is ready for parts. -/
theorem ready_of_mirrors {blocks : Ledger} {o : Outline} (m : Mirrors blocks o) (path : String) :
    Ready blocks [root] (blocks.ownerOf root) "" Outline.root []
      ⟨path, o, [Outline.root], [Capture.empty]⟩ := by
  refine ⟨m, ⟨[], rfl⟩, ?_, ?_, rfl⟩
  · intro k hMem
    rw [List.mem_singleton.mp hMem]
    exact ⟨root, List.mem_cons_self, m.root⟩
  · obtain ⟨held, b, -, hBlock, -⟩ := m.found m.root
    exact ⟨b, hBlock, (m.owner_eq m.root hBlock).symm⟩

section Preparing

variable (prepare : Nat → SiteM Unit) {w : World} {p : Nat} {page : Page}

/-- A body of parts alone fills the outline of its own page. -/
theorem runBody_base {parts : List Part} {known : List (String × Directive)}
    (new : IsNew w p page) (hBody : bodyAt w.files page.place = .ok (itemsAll parts))
    (hWords : ∀ entry ∈ words, entry ∈ known) (hKnown : Knows page.context page.vars known)
    (hAllowed : arePlain parts = true ∨
      ("cache", .cacheableBlock) ∈ known ∧ ∃ cache, page.context.cache = some cache)
    (hFresh : areFresh [root] parts = true)
    (hAgree : agree page.id page.id parts (Ledger.start page.id) = true) :
    ∃ w', (runBody prepare p).run w = (.ok (), w') ∧ Frame p w w'
      ∧ Prepared w' p page.context (readBase page.id parts) := by
  obtain ⟨scope, hScope, hMeans⟩ := scopeOf_means p hKnown
  obtain ⟨w₁, drafting₁, frame₁, hRun⟩ :=
    runBody_run prepare new.drafting hBody hScope
  have hAllowed' : Allowed page.context (Means page.context scope p) (arePlain parts) := by
    rcases hAllowed with hPlain | ⟨hMem, hCache⟩
    · exact Or.inl hPlain
    · exact Or.inr ⟨hMeans _ hMem, hCache⟩
  have hOwner : (Ledger.start page.id).ownerOf root = page.id := rfl
  obtain ⟨w₂, d, hItems, drafting₂, frame₂, drawn⟩ := itemsAll_run prepare page scope parts
    (fluent_of_means fun entry hMem => hMeans entry (hWords entry hMem)) hAllowed'
    List.mem_cons_self hFresh (hOwner ▸ hAgree)
      (ready_of_mirrors (mirrors_start page.id) page.path.print)
    drafting₁
  -- the root is as it was made: no part opens it
  obtain ⟨b, hBlock, -, -, hFlags⟩ := drawn.grows.kept Outline.root
    (Block.plain page.id Outline.rootName) rfl
  have hFlag := hFlags List.mem_cons_self
  have hFinish := run_finish_of_not_extended drawn.stack drawn.captures hBlock
    (hFlag.2.trans rfl)
  obtain ⟨w₃, hFinished, drafting₃, frame₃⟩ := run_onDraft drafting₂ hFinish rfl
  refine ⟨w₃, (hRun w₂ hItems).trans hFinished, (frame₁.trans frame₂).trans frame₃, ?_⟩
  refine ⟨_, _, drafting₃.found, rfl, drafting₃.outline, ?_⟩
  have hMerge := drawn.mirrors.merge drawn.mirrors.root hBlock drawn.clean fun child hHole => by
    obtain ⟨c, hc, hChild⟩ := drawn.holes child hHole
    rw [hBlock] at hc
    cases hc
    exact hChild
  rw [hFlag.1] at hMerge
  simp only [String.empty_append]
  exact hMerge

/-- Texts in front of the call that extends a template go to the capture. -/
theorem lead_run (scope : Scope) (lead : List String) {d : Draft} {s : String}
    (drafting : Drafting w p page d) (hCaptures : d.captures = [.text s]) :
    ∃ w' t, (runAll (handlerOf prepare p page) scope (lead.map .text)).run w = (.ok scope, w')
      ∧ Drafting w' p page { d with captures := [.text t] } ∧ Frame p w w' := by
  induction lead generalizing w d s with
  | nil =>
    refine ⟨w, s, ?_, ?_, Frame.refl p w⟩
    · rw [List.map_nil, runAll.eq_1]
      rfl
    · rw [← hCaptures]
      exact drafting
  | cons t lead ih =>
    obtain ⟨w₁, hRun, drafting₁, frame₁⟩ := run_onDraft drafting (run_write t hCaptures) rfl
    obtain ⟨w₂, u, hRest, drafting₂, frame₂⟩ := ih drafting₁ rfl
    refine ⟨w₂, u, ?_, drafting₂, frame₁.trans frame₂⟩
    have hFirst : ((Item.text t).run (handlerOf prepare p page) scope).run w
        = (.ok scope, w₁) := by
      rw [Item.run.eq_1]
      exact (run_bind_of_ok hRun _).trans rfl
    rw [List.map_cons, runAll.eq_2, run_bind_of_ok hFirst, hRest]

/-- Making a page. -/
theorem run_newPage {place : Place} {vars : Bindings} {id : String} (w : World)
    (context : Context) (chain : List Place)
    (hId : Identity.page (Path.absolute place).print vars = .ok id) :
    ∃ w', (newPage place vars context chain).run w = (.ok w.pages.size, w')
      ∧ IsNew w' w.pages.size { place, vars, context, id, chain, outline := w.outlines.size }
      ∧ w'.files = w.files ∧ w'.vault = w.vault ∧ w'.pages.size = w.pages.size + 1
      ∧ (∀ q < w.pages.size, w'.pages[q]? = w.pages[q]?)
      ∧ ∀ n < w.outlines.size, w'.outlines[n]? = w.outlines[n]? := by
  unfold newPage
  rw [run_bind_of_ok (run_check hId w), run_bind_of_ok (run_get w)]
  refine ⟨_, rfl, ⟨?_, ?_, rfl⟩, rfl, rfl, ?_, ?_, ?_⟩
  · simp
  · simp
  · simp
  · intro q hLt
    simp [Array.getElem?_push, Nat.ne_of_lt hLt]
  · intro n hLt
    simp [Array.getElem?_push, Nat.ne_of_lt hLt]

/-- The page that goes on with the outline of a prepared page. -/
def adopted (page prepared : Page) (name : Value) : Page :=
  { page with
    vars := Table.merge prepared.vars (page.vars.filter fun entry => entry.1 == entry.1)
    mode := prepared.mode
    deferred := page.deferred || prepared.deferred
    outline := prepared.outline
    stack := [Outline.root]
    captures := [Capture.empty]
    base := some name }

/-- Going on with the outline of a prepared page. -/
theorem run_adopt {b : Nat} {prepared : Page} {o : Outline} (name : Value)
    (hPage : w.pages[p]? = some page) (hFound : w.pages[b]? = some prepared)
    (hOutline : w.outlines[prepared.outline]? = some o) :
    ∃ w', (adopt p b name).run w = (.ok (), w') ∧ Frame p w w'
      ∧ Drafting w' p (adopted page prepared name)
        ⟨page.path.print, marked o Outline.root, [Outline.root], [Capture.empty]⟩ := by
  obtain ⟨w₁, hUpdate, hAdopted, hOutlines, frame₁⟩ :=
    run_updatePage (fun page => adopted page prepared name) hPage
  have drafting₁ : Drafting w₁ p (adopted page prepared name)
      ⟨page.path.print, o, [Outline.root], [Capture.empty]⟩ := by
    refine ⟨hAdopted, ?_, rfl⟩
    rw [hOutlines]
    exact hOutline
  obtain ⟨w₂, hMark, drafting₂, frame₂⟩ :=
    run_onDraft (x := Draft.markExtended Outline.root) drafting₁ (run_modify _ _) rfl
  refine ⟨w₂, ?_, frame₁.trans frame₂, drafting₂⟩
  unfold adopt
  rw [run_bind_of_ok (run_page hFound)]
  exact (run_bind_of_ok hUpdate _).trans hMark

/-- Extending a template whose page can be prepared goes on with the outline of that page. -/
theorem run_extend {name : String} {next : Place} {id : String} {blocks : Ledger}
    (hPage : w.pages[p]? = some page)
    (hNext : page.context.locator.locate w.files name [page.path.parent] = .ok next)
    (hOut : (page.chain ++ [page.place]).contains next = false)
    (hId : Identity.page (Path.absolute next).print page.vars = .ok id)
    (hPrepare : ∀ w' b page', w'.files = w.files → IsNew w' b page' → page'.place = next →
      page'.vars = page.vars → page'.context = page.context → page'.id = id →
      page'.chain = page.chain ++ [page.place] →
      ∃ w'', (prepare b).run w' = (.ok (), w'') ∧ Frame b w' w''
        ∧ Prepared w'' b page.context blocks) :
    ∃ w' base o, (extend prepare p (.text name)).run w = (.ok (), w') ∧ Frame p w w'
      ∧ Mirrors blocks o
      ∧ Drafting w' p (adopted page base (.text name))
        ⟨page.path.print, marked o Outline.root, [Outline.root], [Capture.empty]⟩ := by
  obtain ⟨hLt, -⟩ := Array.getElem?_eq_some_iff.mp hPage
  have hLocate : (locateFrom page (.text name)).run w = (.ok next, w) :=
    (run_locate _ _ _ w).trans (congrArg (·, w) hNext)
  obtain ⟨w₁, hNew, new₁, hFiles₁, hVault₁, hSize₁, hPages₁, hOutlines₁⟩ :=
    run_newPage w page.context (page.chain ++ [page.place]) hId
  -- the new page goes on in the cache mode of the one that extends it
  obtain ⟨w₂, hMode, hFound₂, hOutlines₂, frame₂⟩ :=
    run_updatePage (fun other => { other with mode := page.mode }) new₁.found
  have new₂ : IsNew w₂ w.pages.size _ := ⟨hFound₂, hOutlines₂ ▸ new₁.outline, rfl⟩
  obtain ⟨w₃, hPrepared, frame₃, base, o, hBase, -, hOutline, hMirrors⟩ :=
    hPrepare w₂ _ _ (frame₂.files.trans hFiles₁) new₂ rfl rfl rfl rfl rfl
  have hKept : ∀ q < w.pages.size, w₃.pages[q]? = w.pages[q]? := by
    intro q hq
    have hNe : q ≠ w.pages.size := Nat.ne_of_lt hq
    have hq₁ : q < w₁.pages.size := by omega
    rw [frame₃.others q (Nat.lt_of_lt_of_le hq₁ frame₂.size) hNe, frame₂.others q hq₁ hNe,
      hPages₁ q hq]
  have hBefore : Frame p w w₃ :=
    { files := (frame₃.files.trans frame₂.files).trans hFiles₁
      vault := (frame₃.vault.trans frame₂.vault).trans hVault₁
      size := by
        have h₂ := frame₂.size
        have h₃ := frame₃.size
        omega
      others := fun q hq _ => hKept q hq }
  obtain ⟨w₄, hAdopt, frame₄, drafting₄⟩ := run_adopt (.text name)
    ((hKept p hLt).trans hPage) hBase hOutline
  refine ⟨w₄, base, o, ?_, hBefore.trans frame₄, hMirrors, drafting₄⟩
  unfold extend
  rw [run_bind_of_ok (run_page hPage)]
  simp only
  rw [run_bind_of_ok hLocate, hOut]
  simp only [Bool.false_eq_true, if_false]
  refine (run_bind_of_ok hNew _).trans ?_
  refine (run_bind_of_ok hMode _).trans ?_
  exact (run_bind_of_ok hPrepared _).trans hAdopt

/-- A body that extends a template fills the outline that it goes on with. -/
theorem runBody_step {parts : List Part} {lead : List String} {name : String} {next : Place}
    {id : String} {blocks : Ledger} {known : List (String × Directive)}
    (new : IsNew w p page) (hBody : bodyAt w.files page.place = .ok (extending lead name parts))
    (hWords : ∀ entry ∈ words, entry ∈ known) (hKnown : Knows page.context page.vars known)
    (hAllowed : arePlain parts = true ∨
      ("cache", .cacheableBlock) ∈ known ∧ ∃ cache, page.context.cache = some cache)
    (hFresh : areFresh [root] parts = true)
    (hAgree : agree page.id (blocks.ownerOf root) parts blocks = true)
    (hNext : page.context.locator.locate w.files name [page.path.parent] = .ok next)
    (hOut : (page.chain ++ [page.place]).contains next = false)
    (hId : Identity.page (Path.absolute next).print page.vars = .ok id)
    (hPrepare : ∀ w' b page', w'.files = w.files → IsNew w' b page' → page'.place = next →
      page'.vars = page.vars → page'.context = page.context → page'.id = id →
      page'.chain = page.chain ++ [page.place] →
      ∃ w'', (prepare b).run w' = (.ok (), w'') ∧ Frame b w' w''
        ∧ Prepared w'' b page.context blocks) :
    ∃ w', (runBody prepare p).run w = (.ok (), w') ∧ Frame p w w'
      ∧ Prepared w' p page.context (readOnto blocks page.id parts) := by
  obtain ⟨scope, hScope, hMeans⟩ := scopeOf_means p hKnown
  obtain ⟨w₁, drafting₁, frame₁, hRun⟩ :=
    runBody_run prepare new.drafting hBody hScope
  obtain ⟨w₂, t, hLead, drafting₂, frame₂⟩ :=
    lead_run prepare scope lead drafting₁ rfl
  have hFiles : w₂.files = w.files := frame₂.files.trans frame₁.files
  obtain ⟨w₃, base, o, hExtend, frame₃, hMirrors, drafting₃⟩ :=
    run_extend prepare drafting₂.found (hFiles.symm ▸ hNext) hOut hId
      (fun w' b page' h => hPrepare w' b page' (h.trans hFiles))
  have hEmpty : (Draft.write (.text "")).run
      ⟨page.path.print, marked o Outline.root, [Outline.root], [Capture.empty]⟩
        = (.ok (), ⟨page.path.print, marked o Outline.root, [Outline.root], [Capture.empty]⟩) :=
    rfl
  obtain ⟨w₄, hWrite, drafting₄, frame₄⟩ := run_onDraft drafting₃ hEmpty rfl
  have hAllowed' : Allowed page.context (Means page.context scope p) (arePlain parts) := by
    rcases hAllowed with hPlain | ⟨hMem, hCache⟩
    · exact Or.inl hPlain
    · exact Or.inr ⟨hMeans _ hMem, hCache⟩
  have hMarked : Mirrors blocks (marked o Outline.root) :=
    hMirrors.update_flags _ marked_flags
  have drafting₄' : Drafting w₄ p (adopted page base (.text name)) _ := drafting₄
  obtain ⟨w₅, d, hItems, drafting₅, frame₅, drawn⟩ := itemsAll_run prepare
    (adopted page base (.text name)) scope parts
    (fluent_of_means fun entry hMem => hMeans entry (hWords entry hMem)) hAllowed'
    List.mem_cons_self hFresh hAgree (ready_of_mirrors hMarked page.path.print) drafting₄'
  -- the root stays marked, so that what stands outside of the blocks is dropped
  obtain ⟨held, b, -, hBlock, -⟩ := hMirrors.found hMirrors.root
  have hMarkedBlock : (marked o Outline.root).block? Outline.root
      = some { b with extended := true } := by
    rw [marked, Outline.block?_update_self, hBlock]
    rfl
  obtain ⟨b', hBlock', -, -, hFlags⟩ := drawn.grows.kept Outline.root _ hMarkedBlock
  have hFlag := hFlags List.mem_cons_self
  have hFinish := run_finish_of_extended drawn.stack drawn.captures hBlock' hFlag.2
  obtain ⟨w₆, hFinished, drafting₆, frame₆⟩ := run_onDraft drafting₅ hFinish rfl
  have hCall : (callDirective prepare p .extendPage [.text name] []).run w₂ = (.ok done, w₃) :=
    (run_bind_of_ok hExtend _).trans rfl
  have hInvoke : ((invoke "extend" [.text name]).run (handlerOf prepare p page) scope).run w₂
      = (.ok scope, w₄) := by
    refine (run_invoke prepare [.text name] drafting₂.found
      (hMeans _ (hWords ("extend", .extendPage) (by simp [words])))).trans ?_
    rw [run_bind_of_ok hCall]
    exact (run_bind_of_ok hWrite _).trans rfl
  have hAll : (runAll (handlerOf prepare p page) scope (extending lead name parts)).run w₁
      = (.ok scope, w₅) := by
    rw [extending, runAll_append, run_bind_of_ok hLead, runAll.eq_2, run_bind_of_ok hInvoke]
    exact hItems
  refine ⟨w₆, (hRun w₅ hAll).trans hFinished,
    ((((frame₁.trans frame₂).trans frame₃).trans frame₄).trans frame₅).trans frame₆, ?_⟩
  exact ⟨_, _, drafting₆.found, rfl, drafting₆.outline, drawn.mirrors⟩

end Preparing

/-- The bodies of a chain are well-formed, and its pages can run them. -/
structure Runs (context : Context) (vars : Bindings) (known : List (String × Directive))
    (layers : List Layer) : Prop where
  covers : ∀ entry ∈ words, entry ∈ known
  knows : Knows context vars known
  fresh : ∀ layer ∈ layers, areFresh [root] layer.parts = true
  allowed : ∀ layer ∈ layers, arePlain layer.parts = true ∨
    ("cache", .cacheableBlock) ∈ known ∧ ∃ cache, context.cache = some cache
  agrees : agreeChain layers = true

theorem Runs.tail {context : Context} {vars : Bindings} {known : List (String × Directive)}
    {layer : Layer} {rest : List Layer} (runs : Runs context vars known (layer :: rest))
    (hRest : rest ≠ []) :
    Runs context vars known rest
      ∧ agree layer.page ((readChain rest).ownerOf root) layer.parts (readChain rest) = true := by
  have hAgree := runs.agrees
  rw [agreeChain.eq_3 _ _ hRest, Bool.and_eq_true] at hAgree
  exact
    ⟨{ covers := runs.covers
       knows := runs.knows
       fresh := fun other hMem => runs.fresh other (List.mem_cons_of_mem _ hMem)
       allowed := fun other hMem => runs.allowed other (List.mem_cons_of_mem _ hMem)
       agrees := hAgree.1 }, hAgree.2⟩

/-- Preparing the first page of a chain makes its outline mirror what the chain composes. The
places that lead to the page start longer chains, so the page is none of them. -/
theorem prepareFrom_chain {files : FileTree Source} {context : Context} {vars : Bindings}
    {known : List (String × Directive)} {place : Place} {layers : List Layer}
    (chain : Chain files context vars place layers) (runs : Runs context vars known layers) :
    ∀ depth, layers.length ≤ depth → ∀ w p page, w.files = files → IsNew w p page →
      page.place = place → page.vars = vars → page.context = context →
      Identity.page (Path.absolute place).print vars = .ok page.id →
      (∀ q ∈ page.chain, ∃ longer, Chain files context vars q longer
        ∧ layers.length < longer.length) →
      ∃ w', (prepareFrom depth p).run w = (.ok (), w') ∧ Frame p w w'
        ∧ Prepared w' p context (readChain layers) := by
  induction chain with
  | @base place id parts hBody hId =>
    intro depth hDepth w p page hFiles new hPlace hVars hContext hPageId _
    obtain ⟨depth, rfl⟩ : ∃ k, depth = k + 1 := ⟨depth - 1, by simp at hDepth; omega⟩
    rw [hId, Except.ok.injEq] at hPageId
    subst hFiles hPlace hVars hContext hPageId
    exact runBody_base (prepareFrom depth) new hBody runs.covers runs.knows
      (runs.allowed _ List.mem_cons_self) (runs.fresh _ List.mem_cons_self) runs.agrees
  | @step place next id name lead parts rest hBody hId hNext chain ih =>
    intro depth hDepth w p page hFiles new hPlace hVars hContext hPageId hVisited
    obtain ⟨depth, rfl⟩ : ∃ k, depth = k + 1 := ⟨depth - 1, by simp at hDepth; omega⟩
    rw [hId, Except.ok.injEq] at hPageId
    subst hFiles hPlace hVars hContext hPageId
    have whole : Chain w.files page.context page.vars page.place (⟨page.id, parts⟩ :: rest) :=
      .step hBody hId hNext chain
    obtain ⟨runsRest, hAgree⟩ := runs.tail chain.ne_nil
    -- the place of the page itself starts a chain that is longer than the one of its base
    have hLonger : ∀ q ∈ page.chain ++ [page.place], ∃ longer,
        Chain w.files page.context page.vars q longer ∧ rest.length < longer.length := by
      intro q hMem
      rcases List.mem_append.mp hMem with hMem | hMem
      · obtain ⟨longer, chain', hLt⟩ := hVisited q hMem
        exact ⟨longer, chain', Nat.lt_trans (Nat.lt_succ_self _) hLt⟩
      · rw [List.mem_singleton.mp hMem]
        exact ⟨_, whole, Nat.lt_succ_self _⟩
    have hOut : (page.chain ++ [page.place]).contains next = false := by
      rw [Bool.eq_false_iff]
      intro hContains
      obtain ⟨longer, chain', hLt⟩ := hLonger next (List.contains_iff_mem.mp hContains)
      rw [chain.length_unique chain'] at hLt
      exact Nat.lt_irrefl _ hLt
    have hBaseId : ∃ id, Identity.page (Path.absolute next).print page.vars = .ok id := by
      cases chain with
      | base _ hBaseId => exact ⟨_, hBaseId⟩
      | step _ hBaseId => exact ⟨_, hBaseId⟩
    obtain ⟨baseId, hBaseId⟩ := hBaseId
    have hDepthRest : rest.length ≤ depth := Nat.le_of_succ_le_succ hDepth
    have hChain : readChain (⟨page.id, parts⟩ :: rest) = readOnto (readChain rest) page.id parts :=
      readChain.eq_3 _ _ chain.ne_nil
    rw [hChain]
    refine runBody_step (prepareFrom depth) new hBody runs.covers runs.knows
      (runs.allowed _ List.mem_cons_self) (runs.fresh _ List.mem_cons_self) hAgree hNext hOut
      hBaseId ?_
    intro w' b page' hFiles' new' hPlace' hVars' hContext' hId' hChain'
    refine ih runsRest depth hDepthRest w' b page' hFiles' new' hPlace' hVars' hContext' ?_ ?_
    · rw [hBaseId, hId']
    · rw [hChain']
      exact hLonger

end PageBlocks.Inheritance
