import PageBlocks.Proofs.Inheritance.Mirror
import PageBlocks.Proofs.Storage
import PageBlocks.Proofs.Trees

/-!
# Rendering what an outline mirrors

Rendering a block of an outline that mirrors a ledger gives the text that the ledger has for the
block (`render_run`). Cacheable blocks show what is stored for them when rendering starts, if
anything is: what rendering itself stores stands under the identities of blocks that were rendered
already, and a block is rendered once at most, since it is the child of one other block only
(`Below.disjoint`).
-/

set_option autoImplicit false

namespace PageBlocks.Inheritance

open PageBlocks.Cache PageBlocks.Outline PageBlocks.Running PageBlocks.Storage

/-! ## The tree of blocks -/

section Tree

variable {blocks : Ledger} {o : Outline}

/-- Children have their parent's number, and come after it. -/
theorem Mirrors.isForest (m : Mirrors blocks o) : o.IsForest := by
  intro i j b hBlock hChild
  obtain ⟨name, held, -, -, hPictured⟩ := m.holding hBlock
  exact hPictured.children j hChild

end Tree

/-! ## What is stored -/

/-- The lifetime that the output of a cacheable block is stored with. -/
def lifetimeOr (memo : Memo) (lifetime : Value) : Value :=
  match lifetime with
  | .null => memo.lifetime
  | lifetime => lifetime

section Stored

variable (memo : Option Memo) (blocks : Ledger) (o : Outline) (stored? : String → Option String)

/-- Whether a name is that of a cacheable block. -/
def Ledger.IsCacheable (name : String) : Prop :=
  ∃ holding, blocks.get? name = some holding ∧ holding.lifetime?.isSome = true

/-- The spots in the cache that belong to the cacheable blocks at or below a block. -/
def Spots (i : Nat) (spot : String) : Prop :=
  ∃ k name m, Below o i k ∧ o.find? (.text name) = some k ∧ blocks.IsCacheable name
    ∧ memo = some m ∧ spot = slot m.cache (blocks.idOf name)

/-- The caches after something that changed some spots of the cache in use at most. -/
def KeepsOf (changed : String → Prop) (v v' : Vault) : Prop :=
  ∀ m, memo = some m → Keeps m.cache changed v v'

/-- A cacheable block that shows `stored?` of its name: that is what the cache has for it, and if
it has nothing, it takes the output of the block. -/
def Served (v : Vault) (name : String) : Prop :=
  ∀ holding lifetime, blocks.get? name = some holding → holding.lifetime? = some lifetime →
    (memo = none → stored? name = none) ∧
    ∀ m, memo = some m → entry m.cache (blocks.idOf name) v = .ok (stored? name) ∧
      (stored? name = none → Accepts m.cache (blocks.idOf name) (lifetimeOr m lifetime) v)

/-- The entries of different cacheable blocks are in different spots. -/
def Separate : Prop :=
  ∀ m, memo = some m → ∀ name other, blocks.IsCacheable name → blocks.IsCacheable other →
    slot m.cache (blocks.idOf name) = slot m.cache (blocks.idOf other) → name = other

end Stored

section Changes

variable {memo : Option Memo} {blocks : Ledger} {o : Outline} {stored? : String → Option String}
  {changed more : String → Prop} {v v' v'' : Vault}

theorem KeepsOf.refl (v : Vault) : KeepsOf memo changed v v :=
  fun _ _ => Keeps.refl _ _ _

theorem KeepsOf.trans (h : KeepsOf memo changed v v') (h' : KeepsOf memo more v' v'') :
    KeepsOf memo (fun spot => changed spot ∨ more spot) v v'' :=
  fun m hMemo => (h m hMemo).trans (h' m hMemo)

theorem KeepsOf.mono (h : KeepsOf memo changed v v') (hMore : ∀ spot, changed spot → more spot) :
    KeepsOf memo more v v' :=
  fun m hMemo => (h m hMemo).mono hMore

/-- A block is served as before when only spots of other blocks changed. -/
theorem Served.congr {name : String} (h : Served memo blocks stored? v name)
    (hKeeps : KeepsOf memo changed v v')
    (hOther : ∀ m, memo = some m → blocks.IsCacheable name →
      ¬ changed (slot m.cache (blocks.idOf name))) :
    Served memo blocks stored? v' name := by
  intro holding lifetime hHeld hLifetime
  obtain ⟨hNone, hSome⟩ := h holding lifetime hHeld hLifetime
  refine ⟨hNone, fun m hMemo => ?_⟩
  have hCacheable : blocks.IsCacheable name := ⟨holding, hHeld, by rw [hLifetime]; rfl⟩
  have hSpot := hOther m hMemo hCacheable
  obtain ⟨hEntry, hAccepts⟩ := hSome m hMemo
  refine ⟨(entry_congr (hKeeps m hMemo) hSpot).trans hEntry, fun hStored => ?_⟩
  exact accepts_congr (hKeeps m hMemo) hSpot (hAccepts hStored)

/-- A block that is not below another one has a spot of its own. -/
theorem Spots.not_of_not_below (hSeparate : Separate memo blocks) {i k : Nat}
    {name : String} {m : Memo} (hMemo : memo = some m) (hFind : o.find? (.text name) = some k)
    (hCacheable : blocks.IsCacheable name) (hNot : ¬ Below o i k) :
    ¬ Spots memo blocks o i (slot m.cache (blocks.idOf name)) := by
  rintro ⟨l, other, m', hBelow, hFindOther, hOther, hMemo', hSpot⟩
  rw [hMemo] at hMemo'
  cases hMemo'
  have hSame := hSeparate m hMemo name other hCacheable hOther hSpot
  subst hSame
  rw [hFind] at hFindOther
  cases hFindOther
  exact hNot hBelow

theorem Spots.under {i j : Nat} {b : Block} {spot : String} (hBlock : o.block? i = some b)
    (hChild : j ∈ b.children) (h : Spots memo blocks o j spot) : Spots memo blocks o i spot := by
  obtain ⟨k, name, m, hBelow, hRest⟩ := h
  exact ⟨k, name, m, hBelow.under hBlock hChild, hRest⟩

end Changes

/-! ## Distinct identities -/

/-- No two listed names have one identity. -/
def Ledger.Tells (blocks : Ledger) : Prop :=
  ∀ name other, blocks.has name = true → blocks.has other = true →
    blocks.idOf name = blocks.idOf other → name = other

theorem eq_of_nodup_map {α β : Type} (f : α → β) {items : List α} (h : (items.map f).Nodup)
    {x y : α} (hx : x ∈ items) (hy : y ∈ items) (hSame : f x = f y) : x = y := by
  induction items with
  | nil => cases hx
  | cons item rest ih =>
    rw [List.map_cons, List.nodup_cons] at h
    rcases List.mem_cons.mp hx with hHere | hRest
    · rcases List.mem_cons.mp hy with hHere' | hRest'
      · rw [hHere, hHere']
      · exact absurd (hHere ▸ hSame ▸ List.mem_map_of_mem hRest') h.1
    · rcases List.mem_cons.mp hy with hHere' | hRest'
      · exact absurd (hHere' ▸ hSame.symm ▸ List.mem_map_of_mem hRest) h.1
      · exact ih h.2 hRest hRest'

theorem Ledger.tells_of_isDistinct {blocks : Ledger} (h : blocks.isDistinct = true) :
    blocks.Tells := by
  intro name other hName hOther hSame
  obtain ⟨held, hHeld⟩ := Ledger.get?_eq_some_of_has hName
  obtain ⟨heldOther, hHeldOther⟩ := Ledger.get?_eq_some_of_has hOther
  have hEntries := eq_of_nodup_map (fun entry : String × Holding => blocks.idOf entry.1)
    (of_decide_eq_true h) (Table.mem_of_get?_eq_some hHeld)
    (Table.mem_of_get?_eq_some hHeldOther) hSame
  exact congrArg Prod.fst hEntries

/-! ## Rendering -/

section Rendering

variable {memo : Option Memo} {blocks : Ledger} {o : Outline} {stored? : String → Option String}

/-- Everything at or below a block is served. -/
def ServedBelow (memo : Option Memo) (blocks : Ledger) (o : Outline)
    (stored? : String → Option String) (i : Nat) (v : Vault) : Prop :=
  ∀ k name, Below o i k → o.find? (.text name) = some k → Served memo blocks stored? v name

/-- What rendering the block of a number does if it shows the given text. -/
def Shows (memo : Option Memo) (blocks : Ledger) (o : Outline)
    (stored? : String → Option String) (i : Nat) (render : VaultM String) (text : String) : Prop :=
  ∀ v, ServedBelow memo blocks o stored? i v →
    ∃ v', render.run v = (.ok text, v') ∧ KeepsOf memo (Spots memo blocks o i) v v'

/-- The outputs of children with their identities. -/
def gathered (render : Nat → VaultM String) (o : Outline) (js : List Nat) :
    VaultM (List (String × String)) :=
  js.filterMapM fun i => do
    match o.block? i with
    | some child => return some (child.id, ← render i)
    | none => return none

/-- Rendering the children of a block one after the other gives the text of each. -/
theorem gathered_run (m : Mirrors blocks o) (hSeparate : Separate memo blocks)
    {render : Nat → VaultM String} {shown : String → String} {i : Nat} {b : Block}
    (hBlock : o.block? i = some b)
    (hRender : ∀ j name, j ∈ b.children → o.find? (.text name) = some j →
      Shows memo blocks o stored? j (render j) (shown name))
    (js : List Nat) (hSub : ∀ j ∈ js, j ∈ b.children) (hDistinct : js.Nodup) (v : Vault)
    (hServed : ∀ j ∈ js, ServedBelow memo blocks o stored? j v) :
    ∃ rendered v', (gathered render o js).run v = (.ok rendered, v')
      ∧ KeepsOf memo (fun spot => ∃ j ∈ js, Spots memo blocks o j spot) v v'
      ∧ (∀ j ∈ js, ∀ name, o.find? (.text name) = some j →
          (blocks.idOf name, shown name) ∈ rendered)
      ∧ ∀ entry ∈ rendered, ∃ name, blocks.has name = true
          ∧ entry = (blocks.idOf name, shown name) := by
  induction js generalizing v with
  | nil => exact ⟨[], v, rfl, KeepsOf.refl v, by simp, by simp⟩
  | cons j js ih =>
    rw [List.nodup_cons] at hDistinct
    have hChild : j ∈ b.children := hSub j List.mem_cons_self
    obtain ⟨-, c, hc, -⟩ := m.isForest hBlock hChild
    obtain ⟨name, held, hFind, hHeld, hPictured⟩ := m.holding hc
    have hId : c.id = blocks.idOf name := by
      rw [hPictured.id, Ledger.idOf, Ledger.ownerOf_of_get?_eq_some hHeld]
    obtain ⟨v₁, hRun, hKeeps⟩ := hRender j name hChild hFind v (hServed j List.mem_cons_self)
    -- what lies below the other children is served as before
    have hServed₁ : ∀ k ∈ js, ServedBelow memo blocks o stored? k v₁ := by
      intro k hMem l other hBelow hFindOther
      refine (hServed k (List.mem_cons_of_mem _ hMem) l other hBelow hFindOther).congr hKeeps ?_
      intro memo' hMemo hCacheable
      refine Spots.not_of_not_below hSeparate hMemo hFindOther hCacheable fun hBelowJ => ?_
      have hSame := Below.disjoint m.isForest hBlock hChild (hSub k (List.mem_cons_of_mem _ hMem))
        hBelowJ hBelow
      exact hDistinct.1 (hSame ▸ hMem)
    obtain ⟨rendered, v₂, hRest, hKeepsRest, hAll, hOnly⟩ :=
      ih (fun k hMem => hSub k (List.mem_cons_of_mem _ hMem)) hDistinct.2 v₁ hServed₁
    have hFirst : (do
        match o.block? j with
        | some child => return some (child.id, ← render j)
        | none => return none : VaultM (Option (String × String))).run v
          = (.ok (some (blocks.idOf name, shown name)), v₁) := by
      simp only [hc]
      rw [run_bind_of_ok hRun, hId]
      rfl
    refine ⟨(blocks.idOf name, shown name) :: rendered, v₂, ?_, ?_, ?_, ?_⟩
    · rw [gathered, List.filterMapM_cons, run_bind_of_ok hFirst]
      exact (run_bind_of_ok hRest _).trans rfl
    · refine (hKeeps.trans hKeepsRest).mono ?_
      rintro spot (hSpot | ⟨k, hMem, hSpot⟩)
      · exact ⟨j, List.mem_cons_self, hSpot⟩
      · exact ⟨k, List.mem_cons_of_mem _ hMem, hSpot⟩
    · intro k hMem other hFindOther
      rcases List.mem_cons.mp hMem with rfl | hMem
      · have hSame := m.name_unique hFind hFindOther
        subst hSame
        exact List.mem_cons_self
      · exact List.mem_cons_of_mem _ (hAll k hMem other hFindOther)
    · intro entry hMem
      rcases List.mem_cons.mp hMem with rfl | hMem
      · exact ⟨name, Ledger.has_of_get?_eq_some hHeld, rfl⟩
      · exact hOnly entry hMem

/-- A block composes the texts of its children into its pieces. -/
theorem compose_run (m : Mirrors blocks o) (hTells : blocks.Tells)
    (hSeparate : Separate memo blocks) {render : Nat → VaultM String}
    {shown : String → String} {i : Nat} {b : Block} {name : String} {holding : Holding}
    (hBlock : o.block? i = some b) (hPictured : Pictured blocks o i name holding b)
    (hRender : ∀ j name, j ∈ b.children → o.find? (.text name) = some j →
      Shows memo blocks o stored? j (render j) (shown name)) (v : Vault)
    (hServed : ∀ j ∈ b.children, ServedBelow memo blocks o stored? j v) :
    ∃ v', (Outline.compose render o b).run v = (.ok (fillWith shown holding.pieces), v')
      ∧ KeepsOf memo (fun spot => ∃ j ∈ b.children, Spots memo blocks o j spot) v v' := by
  obtain ⟨rendered, v', hRun, hKeeps, hAll, hOnly⟩ := gathered_run m hSeparate hBlock hRender
    b.children (fun _ h => h) hPictured.distinct v hServed
  refine ⟨v', ?_, hKeeps⟩
  have hSplice : b.splice (Table.ofBindings rendered) = fillWith shown holding.pieces := by
    refine splice_written hPictured.transform hPictured.content hPictured.clean ?_
    intro child hHole
    obtain ⟨j, hMem, hFind⟩ := hPictured.holes child hHole
    refine Table.get?_ofBindings_of_mem (hAll j hMem child hFind) fun text hText => ?_
    obtain ⟨other, hOther, hEntry⟩ := hOnly _ hText
    rw [Prod.mk.injEq] at hEntry
    have hSame := hTells child other (m.listed child j hFind) hOther hEntry.1
    rw [hSame]
    exact hEntry.2
  rw [← hSplice]
  exact (run_bind_of_ok hRun _).trans rfl

/-- A cacheable block shows what is stored for it, or is rendered and stored. -/
theorem remembered_run (m : Mirrors blocks o) (hSeparate : Separate memo blocks) {memo' : Memo}
    (hMemo : memo = some memo') {i : Nat} {b : Block} {name : String} {holding : Holding}
    {lifetime : Value} (hFind : o.find? (.text name) = some i) (hBlock : o.block? i = some b)
    (hHeld : blocks.get? name = some holding) (hPictured : Pictured blocks o i name holding b)
    (hLifetime : holding.lifetime? = some lifetime) {render : VaultM String} {text : String}
    (hRender : ∀ v, (∀ j ∈ b.children, ServedBelow memo blocks o stored? j v) →
      ∃ v', render.run v = (.ok text, v')
        ∧ KeepsOf memo (fun spot => ∃ j ∈ b.children, Spots memo blocks o j spot) v v') :
    Shows memo blocks o stored? i (Outline.remembered memo' b render)
      ((stored? name).getD text) := by
  intro v hServed
  have hId : b.id = blocks.idOf name := by
    rw [hPictured.id, Ledger.idOf, Ledger.ownerOf_of_get?_eq_some hHeld]
  have hStoredWith : b.lifetime = lifetime := by
    rw [hPictured.lifetime, hLifetime]
    rfl
  have hCacheable : blocks.IsCacheable name := ⟨holding, hHeld, by rw [hLifetime]; rfl⟩
  have hOwn : Spots memo blocks o i (slot memo'.cache (blocks.idOf name)) :=
    ⟨i, name, memo', Below.self, hFind, hCacheable, hMemo, rfl⟩
  obtain ⟨-, hSome⟩ := hServed i name Below.self hFind holding lifetime hHeld hLifetime
  obtain ⟨hEntry, hAccepts⟩ := hSome memo' hMemo
  have hLookup : (memo'.cache.lookup b.id).run v
      = (.ok (stored? name), afterFetch memo'.cache (blocks.idOf name) v) := by
    rw [hId, run_lookup, hEntry]
  have hOnly : KeepsOf memo (· = slot memo'.cache (blocks.idOf name)) v
      (afterFetch memo'.cache (blocks.idOf name) v) := by
    intro memo'' hMemo'
    rw [hMemo] at hMemo'
    cases hMemo'
    exact keeps_afterFetch _ _ v
  have hRead : KeepsOf memo (Spots memo blocks o i) v
      (afterFetch memo'.cache (blocks.idOf name) v) :=
    hOnly.mono fun spot hSpot => hSpot ▸ hOwn
  unfold Outline.remembered
  rw [run_bind_of_ok hLookup]
  cases hStored : stored? name with
  | some stored => exact ⟨_, rfl, hRead⟩
  | none =>
    -- nothing below the block has the spot of the block itself
    have hApart : ∀ j ∈ b.children,
        ¬ Spots memo blocks o j (slot memo'.cache (blocks.idOf name)) := by
      intro j hChild
      refine Spots.not_of_not_below hSeparate hMemo hFind hCacheable fun hBelow => ?_
      exact absurd (hBelow.le m.isForest) (Nat.not_le_of_lt (m.isForest hBlock hChild).1)
    have hServed₁ : ∀ j ∈ b.children, ServedBelow memo blocks o stored? j
        (afterFetch memo'.cache (blocks.idOf name) v) := by
      intro j hChild k other hBelow hFindOther
      refine (hServed k other (hBelow.under hBlock hChild) hFindOther).congr hOnly ?_
      · intro memo'' hMemo' hOther hSpot
        rw [hMemo] at hMemo'
        cases hMemo'
        exact hApart j hChild ⟨k, other, memo', hBelow, hFindOther, hOther, hMemo, hSpot.symm⟩
    obtain ⟨v₂, hRun, hKeeps⟩ := hRender _ hServed₁
    have hTakes : Accepts memo'.cache (blocks.idOf name) (lifetimeOr memo' lifetime) v₂ := by
      refine accepts_congr (hKeeps memo' hMemo) ?_ (accepts_afterFetch (hAccepts hStored))
      rintro ⟨j, hChild, hSpot⟩
      exact hApart j hChild hSpot
    obtain ⟨v₃, hPut, hKept⟩ := run_put text hTakes
    refine ⟨v₃, ?_, ?_⟩
    · have hPut' : (memo'.cache.put b.id text (some (lifetimeOr memo' b.lifetime))).run v₂
          = (.ok (), v₃) := by
        rw [hId, hStoredWith, hPut]
      exact (run_bind_of_ok hRun _).trans ((run_bind_of_ok hPut' _).trans rfl)
    · have hPutKeeps : KeepsOf memo (Spots memo blocks o i) v₂ v₃ := by
        intro memo'' hMemo'
        rw [hMemo] at hMemo'
        cases hMemo'
        exact hKept.mono fun spot hSpot => hSpot ▸ hOwn
      refine ((hRead.trans hKeeps).trans hPutKeeps).mono ?_
      rintro spot ((hSpot | ⟨j, hChild, hSpot⟩) | hSpot)
      · exact hSpot
      · exact hSpot.under hBlock hChild
      · exact hSpot

/-- A registered block shows the text that the ledger gives it. The bound on the depth suffices,
since children come after their parents. -/
theorem renderFrom_shows (m : Mirrors blocks o) (hTells : blocks.Tells)
    (hSeparate : Separate memo blocks) (depth : Nat) :
    ∀ i name, o.find? (.text name) = some i → o.blocks.length ≤ depth + i →
      Shows memo blocks o stored? i (Outline.renderFrom depth memo o i)
        (blocks.show stored? depth name) := by
  induction depth with
  | zero =>
    intro i name hFind hDepth
    obtain ⟨-, b, -, hBlock, -⟩ := m.found hFind
    have hLt := Outline.lt_of_block?_eq_some hBlock
    omega
  | succ depth ih =>
    intro i name hFind hDepth
    obtain ⟨holding, b, hHeld, hBlock, hPictured⟩ := m.found hFind
    have hChildren : ∀ j child, j ∈ b.children → o.find? (.text child) = some j →
        Shows memo blocks o stored? j (Outline.renderFrom depth memo o j)
          (blocks.show stored? depth child) := by
      intro j child hChild hFindChild
      have hLt := (hPictured.children j hChild).1
      exact ih j child hFindChild (by omega)
    have hCompose := compose_run m hTells hSeparate hBlock hPictured hChildren
    have hPlain : Shows memo blocks o stored? i
        (Outline.compose (Outline.renderFrom depth memo o) o b)
        (fillWith (blocks.show stored? depth) holding.pieces) := by
      intro v hServed
      obtain ⟨v', hRun, hKeeps⟩ := hCompose v fun j hChild k other hBelow =>
        hServed k other (hBelow.under hBlock hChild)
      exact ⟨v', hRun, hKeeps.mono fun spot ⟨j, hChild, hSpot⟩ => hSpot.under hBlock hChild⟩
    unfold Outline.renderFrom Ledger.show
    simp only [hBlock, hHeld, hPictured.kind, Holding.kind]
    cases hLifetime : holding.lifetime? with
    | none => exact hPlain
    | some lifetime =>
      cases hMemo : memo with
      | none =>
        -- without a cache nothing is stored
        intro v hServed
        have hNone := (hServed i name Below.self hFind holding lifetime hHeld hLifetime).1 rfl
        rw [hNone]
        rw [hMemo] at hPlain
        exact hPlain v hServed
      | some memo' =>
        have hShows := remembered_run m hSeparate hMemo hFind hBlock hHeld hPictured hLifetime
          hCompose
        rw [hMemo] at hShows
        cases hStored : stored? name with
        | none =>
          rw [hStored] at hShows
          exact hShows
        | some stored =>
          rw [hStored] at hShows
          exact hShows

/-- More depth than there are blocks changes no text. -/
theorem show_stable (m : Mirrors blocks o) (depth : Nat) :
    ∀ more i name, o.find? (.text name) = some i → o.blocks.length ≤ depth + i →
      o.blocks.length ≤ more + i →
      blocks.show stored? depth name = blocks.show stored? more name := by
  induction depth with
  | zero =>
    intro more i name hFind hDepth
    obtain ⟨-, b, -, hBlock, -⟩ := m.found hFind
    have hLt := Outline.lt_of_block?_eq_some hBlock
    omega
  | succ depth ih =>
    intro more i name hFind hDepth hMore
    obtain ⟨holding, b, hHeld, hBlock, hPictured⟩ := m.found hFind
    have hLt := Outline.lt_of_block?_eq_some hBlock
    obtain ⟨more, rfl⟩ : ∃ k, more = k + 1 := ⟨more - 1, by omega⟩
    have hFill : fillWith (blocks.show stored? depth) holding.pieces
        = fillWith (blocks.show stored? more) holding.pieces := by
      refine fillWith_congr fun child hHole => ?_
      obtain ⟨j, hChild, hFindChild⟩ := hPictured.holes child hHole
      have hAfter := (hPictured.children j hChild).1
      exact ih more j child hFindChild (by omega) (by omega)
    simp only [Ledger.show, hHeld, hFill]

/-- Rendering a block of an outline that mirrors a ledger gives the text that the ledger has for
it. -/
theorem render_run (m : Mirrors blocks o) (hTells : blocks.Tells)
    (hSeparate : Separate memo blocks) {v : Vault} {i : Nat} {name : String}
    (hFind : o.find? (.text name) = some i)
    (hServed : ∀ name, Served memo blocks stored? v name) :
    ∃ v', (o.render memo i).run v = (.ok (blocks.textAt stored? name), v') := by
  have hEnough : o.blocks.length ≤ (o.blocks.length + 1) + i := by omega
  have hServedBelow : ServedBelow memo blocks o stored? i v :=
    fun _ name _ _ => hServed name
  obtain ⟨v', hRun, -⟩ := renderFrom_shows m hTells hSeparate (o.blocks.length + 1) i name hFind
    hEnough v hServedBelow
  refine ⟨v', hRun.trans ?_⟩
  rw [Ledger.textAt, show_stable m (o.blocks.length + 1) blocks.length i name hFind hEnough
    (by rw [m.size]; omega)]

end Rendering

end PageBlocks.Inheritance
