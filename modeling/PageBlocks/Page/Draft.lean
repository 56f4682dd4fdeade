import PageBlocks.Block.Outline

/-!
# Drafts

A page while its body runs. Declaring a block opens it: from then on text is captured for it, until
the block is closed and the captured text joins its content. The first declaration of a block puts
its token into the text of the block around it; later declarations leave no token, since the outline
has a place for the block already.
-/

set_option autoImplicit false

namespace PageBlocks

/-- Captured text. Something else than text can be written too, and makes it useless. -/
inductive Capture where
  | text (s : String)
  | spoiled
  deriving DecidableEq

/-- A capture with nothing in it. -/
def Capture.empty : Capture := .text ""

/-- A capture with a value behind what it holds. -/
def Capture.add : Capture → Value → Capture
  | text s, .text t => text (s ++ t)
  | _, _ => spoiled

/-- The text of a capture. -/
def Capture.read : Capture → Except Fault String
  | text s => .ok s
  | spoiled => .error (.host .type)

/-- A page while its body runs: its outline, the numbers of the open blocks and the captures of
their texts, both innermost first. -/
structure Draft where
  /-- Where the template of the page is. -/
  path : String
  outline : Outline
  stack : List Nat
  captures : List Capture

/-- A step of a draft; what a failing step has changed stays changed. -/
abbrev DraftM := ExceptT Fault (StateM Draft)

namespace Draft

/-- The draft of a page whose body has not run yet. -/
def start (path : String) (owner : String) : Draft :=
  ⟨path, Outline.start owner, [Outline.root], [Capture.empty]⟩

/-- The number of the innermost open block. -/
def current (d : Draft) : Nat := d.stack.headD Outline.root

/-- Names that a body may give to a block: anything that can be a key, except the root's name. -/
def checkName (name : Value) : Except Fault Unit :=
  if Value.same name Outline.rootName then .error (.value .reservedName)
  else if name.isKey then .ok ()
  else .error (.host .type)

/-- Open a block. -/
def push (i : Nat) (mode : ApplyMode) : DraftM Unit :=
  modify fun d =>
    { d with
      outline := d.outline.update i fun b => { b with mode }
      stack := i :: d.stack
      captures := Capture.empty :: d.captures }

/-- Mark a block as declared again. -/
def markExtended (i : Nat) : DraftM Unit :=
  modify fun d => { d with outline := d.outline.update i fun b => { b with extended := true } }

/-- Open the block of a name, a new plain child of the innermost open block if there is none. -/
def openBlock (name : Value) (mode : ApplyMode) : DraftM Nat := do
  checkName name
  let d ← get
  match d.outline.find? name with
  | some i =>
    -- the block has its place in the page since its first declaration
    markExtended i
    push i mode
    return i
  | none =>
    let (i, o) := d.outline.createChild d.current name
    set { d with outline := o.register name i }
    push i mode
    return i

/-- Open a ready-made block, or the block of its name, which has to be of the same kind. -/
def addBlock (b : Block) (mode : ApplyMode) : DraftM Nat := do
  checkName b.name
  let d ← get
  match d.outline.find? b.name with
  | some i =>
    match d.outline.block? i with
    | some existing =>
      if existing.kind ≠ b.kind then
        throw (.blockTypeMismatch d.path b.name existing.kind b.kind)
    | none => pure ()
    markExtended i
    push i mode
    return i
  | none =>
    let (i, o) := d.outline.addChild d.current b
    set { d with outline := o.register b.name i }
    push i mode
    return i

/-- Put a value behind the text of the innermost capture. -/
def write (v : Value) : DraftM Unit := do
  let d ← get
  match d.captures with
  | [] => throw (.host .noCapture)
  | capture :: rest => set { d with captures := capture.add v :: rest }

/-- Close the innermost open block. -/
def close : DraftM Unit := do
  let d ← get
  match d.stack with
  | i :: below@(_ :: _) =>
    -- the block counts as closed from here on, even if its capture fails
    set { d with stack := below }
    match d.captures with
    | [] => throw (.host .noCapture)
    | capture :: rest =>
      set { d with stack := below, captures := rest }
      let captured ← capture.read
      modify fun d => { d with outline := d.outline.update i fun b => b.merge captured }
      match d.outline.block? i with
      -- only the first declaration leaves a token
      | some b => if b.extended then return () else write (.text b.token)
      | none => return ()
  | _ => throw (.blockStack d.path .noOpenBlock)

/-- Start capturing anew. -/
def resetCaptures : DraftM Unit := modify fun d => { d with captures := [Capture.empty] }

/-- The names of the open blocks besides the root, outermost first. -/
def openNames (d : Draft) : List Value :=
  d.stack.dropLast.reverse.filterMap fun i => (d.outline.block? i).map Block.name

/-- Check that all blocks are closed, and make the text outside of them the content of the root,
unless the outline comes from another page. -/
def finish : DraftM Unit := do
  let d ← get
  if d.stack.length > 1 then throw (.blockStack d.path (.unclosed d.openNames))
  match d.captures.getLast? with
  | none => throw (.host .noCapture)
  | some capture =>
    -- a capture without a text is a fault even where the text is dropped
    let captured ← capture.read
    match d.outline.block? Outline.root with
    | some root =>
      if root.extended then return ()
      else set { d with outline := d.outline.update Outline.root fun b => b.merge captured }
    | none => return ()

end Draft

end PageBlocks
