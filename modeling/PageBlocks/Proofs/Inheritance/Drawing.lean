import PageBlocks.Page.Draft
import PageBlocks.Proofs.Inheritance.Mirror
import PageBlocks.Proofs.Running

/-!
# Drawing parts

What the parts of a body do to the draft of their page: they write text, and they open and close
blocks. A draft that is ready for parts (`Ready`) has an outline that mirrors a ledger and a capture
with the text of the innermost open block so far. After parts were drawn (`Drawn`), its outline
mirrors the ledger that reading the parts gives, and its capture goes on with what their pieces
write. Drawing one part behind another is `Drawn.append`; drawing a block is opening it
(`enter_run`), drawing the parts inside of it, and closing it (`close_run`).
-/

set_option autoImplicit false

namespace PageBlocks.Inheritance

open PageBlocks.Running

/-! ## The steps of a draft -/

/-- The outline with a block open in a mode. -/
def opened (o : Outline) (i : Nat) (mode : ApplyMode) : Outline :=
  o.update i fun b => { b with mode }

/-- The outline with a block marked as declared again. -/
def marked (o : Outline) (i : Nat) : Outline := o.update i fun b => { b with extended := true }

/-- A draft with one more block open in a new outline. -/
def entered (d : Draft) (o : Outline) (i : Nat) : Draft :=
  { d with outline := o, stack := i :: d.stack, captures := Capture.empty :: d.captures }

/-- Texts other than the name of the root are names for blocks. -/
theorem checkName_text {name : String} (h : name ≠ root) :
    Draft.checkName (.text name) = .ok () := by
  have hSame : Value.same (.text name) Outline.rootName = false := by
    simpa [Outline.rootName, Value.same, root] using h
  simp [Draft.checkName, hSame, Value.isKey]

section Steps

variable {d : Draft} {name : Value} {i : Nat}

theorem run_checkName (h : Draft.checkName name = .ok ()) (d : Draft) :
    (liftM (Draft.checkName name) : DraftM Unit).run d = (.ok (), d) := by
  rw [h]
  rfl

theorem run_openBlock_of_found (mode : ApplyMode) (hName : Draft.checkName name = .ok ())
    (hFind : d.outline.find? name = some i) :
    (Draft.openBlock name mode).run d
      = (.ok i, entered d (opened (marked d.outline i) i mode) i) := by
  unfold Draft.openBlock
  rw [run_bind_of_ok (run_checkName hName d), run_bind_of_ok (run_get d), hFind]
  rfl

theorem run_openBlock_of_none (mode : ApplyMode) (hName : Draft.checkName name = .ok ())
    (hFind : d.outline.find? name = none) :
    (Draft.openBlock name mode).run d
      = (.ok d.outline.blocks.length, entered d
          (opened ((d.outline.createChild d.current name).2.register name d.outline.blocks.length)
            d.outline.blocks.length mode) d.outline.blocks.length) := by
  unfold Draft.openBlock
  rw [run_bind_of_ok (run_checkName hName d), run_bind_of_ok (run_get d), hFind]
  rfl

theorem run_addBlock_of_found {b existing : Block} (mode : ApplyMode)
    (hName : Draft.checkName b.name = .ok ()) (hFind : d.outline.find? b.name = some i)
    (hBlock : d.outline.block? i = some existing) (hKind : existing.kind = b.kind) :
    (Draft.addBlock b mode).run d
      = (.ok i, entered d (opened (marked d.outline i) i mode) i) := by
  unfold Draft.addBlock
  rw [run_bind_of_ok (run_checkName hName d), run_bind_of_ok (run_get d), hFind]
  simp only [hBlock, hKind, ne_eq, not_true_eq_false, if_false]
  rfl

theorem run_addBlock_of_none {b : Block} (mode : ApplyMode)
    (hName : Draft.checkName b.name = .ok ()) (hFind : d.outline.find? b.name = none) :
    (Draft.addBlock b mode).run d
      = (.ok d.outline.blocks.length, entered d
          (opened ((d.outline.addChild d.current b).2.register b.name d.outline.blocks.length)
            d.outline.blocks.length mode) d.outline.blocks.length) := by
  unfold Draft.addBlock
  rw [run_bind_of_ok (run_checkName hName d), run_bind_of_ok (run_get d), hFind]
  rfl

theorem run_write {s : String} {rest : List Capture} (t : String)
    (h : d.captures = .text s :: rest) :
    (Draft.write (.text t)).run d = (.ok (), { d with captures := .text (s ++ t) :: rest }) := by
  unfold Draft.write
  rw [run_bind_of_ok (run_get d), h]
  rfl

/-- Closing a block joins its capture to its content, and a first declaration leaves its token. -/
theorem run_close {below : List Nat} {captured s : String} {rest : List Capture} {b : Block}
    (hStack : d.stack = i :: below) (hBelow : below ≠ [])
    (hCaptures : d.captures = .text captured :: .text s :: rest)
    (hBlock : d.outline.block? i = some b) :
    Draft.close.run d = (.ok (), { d with
      outline := d.outline.update i fun b => b.merge captured
      stack := below
      captures := .text (if b.extended then s else s ++ b.token) :: rest }) := by
  obtain ⟨j, below, rfl⟩ := List.exists_cons_of_ne_nil hBelow
  unfold Draft.close
  rw [run_bind_of_ok (run_get d), hStack]
  simp only
  rw [run_bind_of_ok (run_set _ _), hCaptures]
  simp only
  rw [run_bind_of_ok (run_set _ _)]
  have hRead : (liftM (Capture.text captured).read : DraftM String).run
      { d with stack := j :: below, captures := .text s :: rest }
        = (.ok captured, { d with stack := j :: below, captures := .text s :: rest }) := rfl
  rw [run_bind_of_ok hRead, run_bind_of_ok (run_modify _ _), hBlock]
  cases hExtended : b.extended with
  | true =>
    simp only [hExtended, if_true]
    rfl
  | false =>
    simp only [hExtended, Bool.false_eq_true, if_false]
    exact run_write b.token rfl

end Steps

/-! ## Opening a block -/

namespace Opening

/-- The block of an opening. -/
def block (page around : String) (opening : Opening) (name : String) : Block :=
  Holding.newBlock ⟨opening.owner page around, opening.lifetime?, []⟩ name

/-- Open a block. -/
def enter (page : String) (opening : Opening) (name : String) : DraftM Nat :=
  match opening with
  | plain mode => Draft.openBlock (.text name) mode
  | cacheable _ => Draft.addBlock (opening.block page "" name) .replace

end Opening

section Entering

variable {page around name : String} {opening : Opening} {blocks : Ledger} {d : Draft}

theorem run_enter_of_found {i : Nat} (hName : name ≠ root) (m : Mirrors blocks d.outline)
    (hFind : d.outline.find? (.text name) = some i)
    (hFits : opening.fits blocks name = true) :
    (opening.enter page name).run d
      = (.ok i, entered d (opened (marked d.outline i) i opening.mode) i) := by
  cases opening with
  | plain mode => exact run_openBlock_of_found mode (checkName_text hName) hFind
  | cacheable lifetime =>
    obtain ⟨held, b, hHeld, hBlock, hPictured⟩ := m.found hFind
    refine run_addBlock_of_found .replace (checkName_text hName) hFind hBlock ?_
    have hLifetime : held.lifetime?.isSome = true := by
      simpa [Opening.fits, Opening.lifetime?, hHeld] using hFits
    rw [hPictured.kind]
    simp [Holding.kind, hLifetime, Opening.block, Holding.newBlock, Opening.lifetime?]

theorem run_enter_of_none {parent : Nat} {below : List Nat} {above : Block} (hName : name ≠ root)
    (hStack : d.stack = parent :: below) (hParent : d.outline.block? parent = some above)
    (hOwner : above.owner = around) (hFind : d.outline.find? (.text name) = none) :
    (opening.enter page name).run d
      = (.ok d.outline.blocks.length, entered d
          (opened (addNamed d.outline parent name (opening.block page around name))
            d.outline.blocks.length opening.mode) d.outline.blocks.length) := by
  have hCurrent : d.current = parent := by
    rw [Draft.current, hStack]
    rfl
  cases opening with
  | plain mode =>
    refine (run_openBlock_of_none mode (checkName_text hName) hFind).trans ?_
    rw [hCurrent, Outline.createChild, hParent, Option.map_some, Option.getD_some, hOwner]
    rfl
  | cacheable lifetime =>
    refine (run_addBlock_of_none .replace (checkName_text hName) hFind).trans ?_
    rw [hCurrent]
    rfl

end Entering

/-- What opening a block makes of an outline in which the given numbers are open. -/
structure Entered (page around : String) (opening : Opening) (blocks : Ledger) (name : String)
    (d : Draft) (parent i : Nat) (o : Outline) : Prop where
  mirrors : Mirrors (blocks.declare page around opening name) o
  grows : Grows d.stack d.outline o
  found : o.find? (.text name) = some i
  block : ∃ b, o.block? i = some b ∧ b.mode = opening.mode ∧ b.extended = blocks.has name
  child : blocks.has name = false → ∃ c, o.block? parent = some c ∧ i ∈ c.children

theorem opened_flags (mode : ApplyMode) (b : Block) :
    ∃ mode' extended, { b with mode } = { b with mode := mode', extended } :=
  ⟨mode, b.extended, rfl⟩

theorem marked_flags (b : Block) :
    ∃ mode extended, { b with extended := true } = { b with mode, extended } :=
  ⟨b.mode, true, rfl⟩

/-- Opening a block succeeds if the block is not open, and declares it in the ledger. -/
theorem enter_run {page around name : String} {opening : Opening} {blocks : Ledger} {d : Draft}
    {parent : Nat} {below : List Nat} {above : Block} (hName : name ≠ root)
    (m : Mirrors blocks d.outline) (hStack : d.stack = parent :: below)
    (hParent : d.outline.block? parent = some above) (hOwner : above.owner = around)
    (hClosed : ∀ i ∈ d.stack, d.outline.find? (.text name) ≠ some i)
    (hBelow : ∀ i ∈ d.stack, i < d.outline.blocks.length)
    (hFits : opening.fits (blocks.declare page around opening name) name = true) :
    ∃ i o, (opening.enter page name).run d = (.ok i, entered d o i)
      ∧ Entered page around opening blocks name d parent i o := by
  cases hHeld : blocks.get? name with
  | some held =>
    -- a block that is there is marked and opened again
    have hDeclare : blocks.declare page around opening name = blocks := by
      simp only [Ledger.declare, hHeld]
    rw [hDeclare] at hFits
    obtain ⟨i, b, hFind, hBlock, -⟩ := m.pictured name held hHeld
    have hOut : i ∉ d.stack := fun hMem => hClosed i hMem hFind
    have hGrows : Grows d.stack d.outline (marked d.outline i) :=
      Grows.update (fun _ => rfl) (fun _ => rfl) fun hMem => absurd hMem hOut
    refine ⟨i, _, run_enter_of_found hName m hFind hFits, ?_⟩
    exact
      { mirrors := by
          rw [hDeclare]
          exact (m.update_flags i marked_flags).update_flags i (opened_flags opening.mode)
        grows := hGrows.trans
          (Grows.update (fun _ => rfl) (fun _ => rfl) fun hMem => absurd hMem hOut) fun _ h => h
        found := hFind
        block := by
          refine ⟨{ b with mode := opening.mode, extended := true }, ?_, rfl, ?_⟩
          · rw [opened, Outline.block?_update_self, marked, Outline.block?_update_self, hBlock]
            rfl
          · exact (Ledger.has_of_get?_eq_some hHeld).symm
        child := by
          intro hNew
          rw [Ledger.has_of_get?_eq_some hHeld] at hNew
          cases hNew }
  | none =>
    -- a new block becomes the last child of the innermost open one
    have hDeclare : blocks.declare page around opening name
        = blocks.insert name ⟨opening.owner page around, opening.lifetime?, []⟩ := by
      simp only [Ledger.declare, hHeld]
    have hFind : d.outline.find? (.text name) = none := m.find?_eq_none hHeld
    have hLt : parent < d.outline.blocks.length := Outline.lt_of_block?_eq_some hParent
    have hOut : d.outline.blocks.length ∉ d.stack := fun hMem => Nat.lt_irrefl _ (hBelow _ hMem)
    have hGrows : Grows d.stack d.outline
        (addNamed d.outline parent name (opening.block page around name)) :=
      Grows.addNamed d.stack hLt hFind
    refine ⟨d.outline.blocks.length, _, run_enter_of_none hName hStack hParent hOwner hFind, ?_⟩
    exact
      { mirrors := by
          rw [hDeclare]
          exact (m.declare_new hLt hHeld rfl).update_flags _ (opened_flags opening.mode)
        grows := hGrows.trans
          (Grows.update (fun _ => rfl) (fun _ => rfl) fun hMem => absurd hMem hOut) fun _ h => h
        found := by
          rw [opened, Outline.find?_update, find?_addNamed, if_pos rfl]
        block := by
          refine ⟨{ opening.block page around name with
            mode := opening.mode, parent := some parent }, ?_, rfl, ?_⟩
          · rw [opened, Outline.block?_update_self, block?_addNamed_self hLt]
            rfl
          · simp only [Table.has, hHeld]
            rfl
        child := by
          intro _
          have hAbove : (addNamed d.outline parent name (opening.block page around name)).block?
              parent = _ := block?_addNamed_of_eq_some hLt hParent
          have hSame : (opened (addNamed d.outline parent name (opening.block page around name))
              d.outline.blocks.length opening.mode).block? parent = _ :=
            (Outline.block?_update_of_ne _ _ (Nat.ne_of_lt hLt)).trans hAbove
          exact ⟨_, hSame, by simp⟩ }

/-! ## Parts -/

/-- A draft that is ready for more parts: its outline mirrors a ledger, blocks with the given names
are open, block `i` innermost, and the innermost capture is a text. -/
structure Ready (blocks : Ledger) (names : List String) (around s : String) (i : Nat)
    (rest : List Capture) (d : Draft) : Prop where
  mirrors : Mirrors blocks d.outline
  stack : ∃ below, d.stack = i :: below
  names : ∀ k ∈ d.stack, ∃ name ∈ names, d.outline.find? (.text name) = some k
  owner : ∃ b, d.outline.block? i = some b ∧ b.owner = around
  captures : d.captures = .text s :: rest

/-- A draft after the parts that gave the pieces and the ledger were drawn. -/
structure Drawn (found : List Piece × Ledger) (s : String) (i : Nat) (rest : List Capture)
    (d d' : Draft) : Prop where
  path : d'.path = d.path
  stack : d'.stack = d.stack
  captures : d'.captures = .text (s ++ found.2.written found.1) :: rest
  mirrors : Mirrors found.2 d'.outline
  grows : Grows d.stack d.outline d'.outline
  clean : ∀ piece ∈ found.1, piece.IsClean
  holes : ∀ child, Piece.hole child ∈ found.1 → ∃ b, d'.outline.block? i = some b
    ∧ ∃ j ∈ b.children, d'.outline.find? (.text child) = some j

namespace Ready

variable {blocks : Ledger} {names : List String} {around s : String} {i : Nat}
  {rest : List Capture} {d : Draft}

theorem lt_of_mem (ready : Ready blocks names around s i rest d) {k : Nat} (h : k ∈ d.stack) :
    k < d.outline.blocks.length := by
  obtain ⟨name, -, hFind⟩ := ready.names k h
  obtain ⟨-, b, -, hBlock, -⟩ := ready.mirrors.found hFind
  exact Outline.lt_of_block?_eq_some hBlock

/-- A name that is not among those of the open blocks is the name of no open block. -/
theorem closed (ready : Ready blocks names around s i rest d) {name : String}
    (h : name ∉ names) {k : Nat} (hMem : k ∈ d.stack) :
    d.outline.find? (.text name) ≠ some k := by
  intro hFind
  obtain ⟨other, hOther, hFindOther⟩ := ready.names k hMem
  exact h (ready.mirrors.name_unique hFind hFindOther ▸ hOther)

/-- A draft is ready for the next part after a part was drawn. -/
theorem next (ready : Ready blocks names around s i rest d) {found : List Piece × Ledger}
    {d' : Draft} (drawn : Drawn found s i rest d d') :
    Ready found.2 names around (s ++ found.2.written found.1) i rest d' := by
  refine ⟨drawn.mirrors, ?_, ?_, ?_, drawn.captures⟩
  · rw [drawn.stack]
    exact ready.stack
  · intro k hMem
    rw [drawn.stack] at hMem
    obtain ⟨name, hName, hFind⟩ := ready.names k hMem
    exact ⟨name, hName, drawn.grows.found _ _ hFind⟩
  · obtain ⟨b, hBlock, hOwner⟩ := ready.owner
    obtain ⟨b', hBlock', hOwner', -⟩ := drawn.grows.kept i b hBlock
    exact ⟨b', hBlock', hOwner'.trans hOwner⟩

end Ready

theorem written_text (blocks : Ledger) (s : String) : blocks.written [.text s] = s := by
  simp [Ledger.written, fillWith_cons, fillWith_nil, Piece.fill]

theorem written_hole (blocks : Ledger) (name : String) :
    blocks.written [.hole name] = tokenOf (blocks.idOf name) := by
  simp [Ledger.written, fillWith_cons, fillWith_nil, Piece.fill]

namespace Drawn

variable {s : String} {i : Nat} {rest : List Capture} {d d' d'' : Draft}

/-- Nothing is drawn by no parts. -/
theorem nil {blocks : Ledger} (h : d.captures = .text s :: rest) (m : Mirrors blocks d.outline) :
    Drawn ([], blocks) s i rest d d := by
  have hNothing : s ++ Ledger.written blocks [] = s := String.append_empty
  exact
    { path := rfl
      stack := rfl
      captures := by rw [hNothing, h]
      mirrors := m
      grows := Grows.refl _ _
      clean := by simp
      holes := by simp }

/-- Writing a text. -/
theorem text {blocks : Ledger} (t : String) (hClean : '\x02' ∉ t.toList)
    (m : Mirrors blocks d.outline) :
    Drawn ([.text t], blocks) s i rest d { d with captures := .text (s ++ t) :: rest } :=
  { path := rfl
    stack := rfl
    captures := by rw [written_text]
    mirrors := m
    grows := Grows.refl _ _
    clean := by
      intro piece hMem
      rw [List.mem_singleton.mp hMem]
      exact hClean
    holes := by simp }

/-- Drawing further parts. -/
theorem append {found more : List Piece × Ledger} (h : Drawn found s i rest d d')
    (h' : Drawn more (s ++ found.2.written found.1) i rest d' d'') :
    Drawn (found.1 ++ more.1, more.2) s i rest d d'' := by
  have hGrows : Grows d.stack d.outline d''.outline :=
    h.grows.trans h'.grows fun k hMem => h.stack.symm ▸ hMem
  -- tokens that were written stay what they are, since owners do
  have hKept : more.2.written found.1 = found.2.written found.1 := by
    refine Ledger.written_congr fun child hHole => ?_
    obtain ⟨b, -, j, -, hFind⟩ := h.holes child hHole
    exact h'.grows.ownerOf_eq h.mirrors h'.mirrors hFind
  have hWritten : more.2.written (found.1 ++ more.1)
      = found.2.written found.1 ++ more.2.written more.1 := by
    rw [← hKept]
    exact fillWith_append _ _ _
  exact
    { path := h'.path.trans h.path
      stack := h'.stack.trans h.stack
      captures := by rw [h'.captures, hWritten, String.append_assoc]
      mirrors := h'.mirrors
      grows := hGrows
      clean := by
        intro piece hMem
        rcases List.mem_append.mp hMem with hMem | hMem
        · exact h.clean piece hMem
        · exact h'.clean piece hMem
      holes := by
        intro child hHole
        rcases List.mem_append.mp hHole with hHole | hHole
        · obtain ⟨b, hBlock, j, hChild, hFind⟩ := h.holes child hHole
          obtain ⟨b', hBlock', -, hChildren, -⟩ := h'.grows.kept i b hBlock
          exact ⟨b', hBlock', j, hChildren j hChild, h'.grows.found _ _ hFind⟩
        · exact h'.holes child hHole }

end Drawn

/-- The inner parts of a block that was opened are drawn in it. -/
theorem Entered.ready {page around : String} {opening : Opening} {blocks : Ledger}
    {name : String} {d : Draft} {parent i : Nat} {o : Outline} {names : List String} {s : String}
    {rest : List Capture} (entered' : Entered page around opening blocks name d parent i o)
    (ready : Ready blocks names around s parent rest d) :
    Ready (blocks.declare page around opening name) (name :: names)
      ((blocks.declare page around opening name).ownerOf name) "" i d.captures (entered d o i) := by
  refine ⟨entered'.mirrors, ⟨d.stack, rfl⟩, ?_, ?_, rfl⟩
  · intro k hMem
    rcases List.mem_cons.mp hMem with rfl | hMem
    · exact ⟨name, List.mem_cons_self, entered'.found⟩
    · obtain ⟨other, hOther, hFind⟩ := ready.names k hMem
      exact ⟨other, List.mem_cons_of_mem _ hOther, entered'.grows.found _ _ hFind⟩
  · obtain ⟨b, hBlock, -⟩ := entered'.block
    exact ⟨b, hBlock, (entered'.mirrors.owner_eq entered'.found hBlock).symm⟩

/-- Closing a block after its inner parts were drawn completes its declaration. -/
theorem close_run {page around : String} {opening : Opening} {blocks : Ledger} {name : String}
    {d d' : Draft} {parent i : Nat} {o : Outline} {names : List String} {s : String}
    {rest : List Capture} {found : List Piece × Ledger}
    (ready : Ready blocks names around s parent rest d)
    (entered' : Entered page around opening blocks name d parent i o)
    (drawn : Drawn found "" i d.captures (entered d o i) d') :
    ∃ d'', Draft.close.run d' = (.ok (), d'') ∧
      Drawn (if blocks.has name then [] else [.hole name],
        found.2.record opening.mode name found.1) s parent rest d d'' := by
  obtain ⟨below, hStack⟩ := ready.stack
  -- the block is as it was opened: what was drawn inside of it opened other blocks
  obtain ⟨b, hBlock, hMode, hExtended⟩ := entered'.block
  obtain ⟨b', hBlock', -, -, hFlags⟩ := drawn.grows.kept i b hBlock
  have hFlag := hFlags List.mem_cons_self
  have hFind : d'.outline.find? (.text name) = some i := drawn.grows.found _ _ entered'.found
  have hInner : d'.captures = .text (found.2.written found.1) :: .text s :: rest := by
    rw [drawn.captures, ready.captures, String.empty_append]
  have hNonempty : d.stack ≠ [] := by
    rw [hStack]
    exact List.cons_ne_nil _ _
  refine ⟨_, run_close (drawn.stack.trans rfl) hNonempty hInner hBlock', ?_⟩
  have hMirrors : Mirrors (found.2.record opening.mode name found.1)
      (d'.outline.update i fun b => b.merge (found.2.written found.1)) := by
    have hMerge := drawn.mirrors.merge hFind hBlock' drawn.clean fun child hHole => by
      obtain ⟨c, hc, hChild⟩ := drawn.holes child hHole
      rw [hBlock'] at hc
      cases hc
      exact hChild
    rw [hFlag.1, hMode] at hMerge
    exact hMerge
  have hMerged : Grows d.stack d'.outline
      (d'.outline.update i fun b => b.merge (found.2.written found.1)) :=
    Grows.update (fun _ => rfl) (fun _ => rfl) fun _ _ => ⟨rfl, rfl⟩
  have hInside : Grows d.stack d.outline d'.outline :=
    entered'.grows.trans drawn.grows fun k hMem => List.mem_cons_of_mem _ hMem
  have hToken : b'.token = tokenOf ((found.2.record opening.mode name found.1).idOf name) := by
    obtain ⟨held, c, hHeld, hc, hPictured⟩ := drawn.mirrors.found hFind
    rw [hBlock'] at hc
    cases hc
    rw [Ledger.idOf_record, Ledger.idOf, Ledger.ownerOf_of_get?_eq_some hHeld, ← hPictured.id]
    rfl
  exact
    { path := drawn.path
      stack := rfl
      captures := by
        rw [hFlag.2, hExtended]
        cases blocks.has name with
        | true => simp [Ledger.written, fillWith_nil]
        | false => simp [written_hole, hToken]
      mirrors := hMirrors
      grows := hInside.trans hMerged fun _ h => h
      clean := by
        intro piece hMem
        cases hHas : blocks.has name with
        | true => simp [hHas] at hMem
        | false =>
          simp only [hHas, Bool.false_eq_true, if_false, List.mem_singleton] at hMem
          rw [hMem]
          trivial
      holes := by
        intro child hHole
        cases hHas : blocks.has name with
        | true => simp [hHas] at hHole
        | false =>
          simp only [hHas, Bool.false_eq_true, if_false, List.mem_singleton,
            Piece.hole.injEq] at hHole
          subst hHole
          obtain ⟨c, hc, hChild⟩ := entered'.child hHas
          obtain ⟨c', hc', -, hChildren, -⟩ := drawn.grows.kept parent c hc
          obtain ⟨c'', hc'', -, hChildren', -⟩ := hMerged.kept parent c' hc'
          exact ⟨c'', hc'', i, hChildren' i (hChildren i hChild), hFind⟩ }

end PageBlocks.Inheritance
