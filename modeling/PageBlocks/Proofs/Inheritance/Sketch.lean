import PageBlocks.Body.Term
import PageBlocks.Block.Kind
import PageBlocks.Page.Identity

/-!
# What a chain of bodies composes

A body that writes text and opens and closes blocks is a list of nested parts. This module says what
a chain of such bodies composes without outlines, captures and tokens. Reading a body gives a list
of pieces: texts, and holes that are named for blocks. The first declaration of a block leaves a
hole and records the block in a ledger, with the pieces that stand inside of it. Every later
declaration, in whichever body and wherever it stands, changes the recorded pieces and leaves no
hole. The bodies of a chain are read from the innermost base outwards, and only the pieces of that
base are the page, which the ledger records under the name of the root (`readChain`). The text of
the page is the text of its root with every hole filled in, over and over (`Ledger.text`).

A block can be cacheable. Such a block shows a stored text instead of its pieces if there is one,
which is what the argument `stored?` decides.
-/

set_option autoImplicit false

namespace PageBlocks.Inheritance

/-- The name of the root, which no part may use. -/
def root : String := "."

/-- How a part opens a block. -/
inductive Opening where
  /-- As whatever it is, or as a new plain block. -/
  | plain (mode : ApplyMode)
  /-- As a cacheable block, in place of what it holds. Its lifetime may be left out. -/
  | cacheable (lifetime : Option Value)

namespace Opening

/-- How what stands inside of the block joins what the block holds. -/
def mode : Opening → ApplyMode
  | plain mode => mode
  | cacheable _ => .replace

/-- The lifetime that a new block gets if it is cacheable. -/
def lifetime? : Opening → Option Value
  | plain _ => none
  | cacheable lifetime => some (lifetime.getD .null)

/-- The page that a new block belongs to, from the page of the body and the owner of the block
around: only a cacheable block belongs to the page whose body declares it. -/
def owner (page around : String) : Opening → String
  | plain _ => around
  | cacheable _ => page

end Opening

/-- A part of a body: text, or a declaration of a block around further parts. -/
inductive Part where
  | text (s : String)
  | block (opening : Opening) (name : String) (inner : List Part)

/-- A piece of what a body composes. -/
inductive Piece where
  | text (s : String)
  | hole (name : String)
  deriving DecidableEq

/-- What is recorded of a block: the identity of the page that owns it, its lifetime if it is
cacheable, and its pieces. -/
structure Holding where
  owner : String
  lifetime? : Option Value := none
  pieces : List Piece := []

/-- The declared blocks by name, in the order of their first declarations. -/
abbrev Ledger := Table String Holding

/-- Pieces with new ones joined to them. -/
def join : ApplyMode → List Piece → List Piece → List Piece
  | .replace, _, new => new
  | .prepend, old, new => new ++ old
  | .append, old, new => old ++ new

namespace Ledger

/-- The ledger of a page that declared nothing yet. -/
def start (page : String) : Ledger := [(root, ⟨page, none, []⟩)]

/-- The ledger after a declaration of a block with the given pieces inside is complete. -/
def record (blocks : Ledger) (mode : ApplyMode) (name : String) (new : List Piece) : Ledger :=
  match blocks.get? name with
  | some holding => blocks.insert name { holding with pieces := join mode holding.pieces new }
  | none => blocks

/-- The ledger with a block declared: a new one holds nothing yet. -/
def declare (blocks : Ledger) (page around : String) (opening : Opening) (name : String) :
    Ledger :=
  match blocks.get? name with
  | some _ => blocks
  | none => blocks.insert name ⟨opening.owner page around, opening.lifetime?, []⟩

/-- The owner of a declared block. -/
def ownerOf (blocks : Ledger) (name : String) : String :=
  ((blocks.get? name).map Holding.owner).getD ""

end Ledger

/-- Whether an opening fits what a ledger has: only a cacheable block is opened as cacheable. -/
def Opening.fits (opening : Opening) (blocks : Ledger) (name : String) : Bool :=
  opening.lifetime?.isNone || ((blocks.get? name).bind Holding.lifetime?).isSome

/-! ## Reading -/

mutual

/-- The pieces that a part leaves where it stands, and the ledger after it. -/
def Part.read (page around : String) : Part → Ledger → List Piece × Ledger
  | .text s, blocks => ([.text s], blocks)
  | .block opening name inner, blocks =>
    let opened := blocks.declare page around opening name
    let found := readAll page (opened.ownerOf name) inner opened
    (if blocks.has name then [] else [.hole name], found.2.record opening.mode name found.1)

/-- The pieces that parts leave, and the ledger after them. -/
def readAll (page around : String) : List Part → Ledger → List Piece × Ledger
  | [], blocks => ([], blocks)
  | part :: rest, blocks =>
    let first := part.read page around blocks
    let more := readAll page around rest first.2
    (first.1 ++ more.1, more.2)

end

/-- The ledger of a page that nothing is built on yet. -/
def readBase (page : String) (parts : List Part) : Ledger :=
  let found := readAll page page parts (Ledger.start page)
  found.2.record .replace root found.1

/-- The ledger of a page with the body of one that extends it read too: what stands outside of the
blocks of that body is dropped. -/
def readOnto (blocks : Ledger) (page : String) (parts : List Part) : Ledger :=
  (readAll page (blocks.ownerOf root) parts blocks).2

/-- A body with the identity of its page. -/
structure Layer where
  page : String
  parts : List Part

/-- The bodies of a chain read from the last one, which extends nothing, to the first. -/
def readChain : List Layer → Ledger
  | [] => []
  | [base] => readBase base.page base.parts
  | layer :: rest => readOnto (readChain rest) layer.page layer.parts

/-! ## Filling in -/

/-- The text of a piece when a function says what fills a hole. -/
def Piece.fill (shown : String → String) : Piece → String
  | .text s => s
  | .hole name => shown name

/-- The text of pieces. -/
def fillWith (shown : String → String) (pieces : List Piece) : String :=
  String.join (pieces.map (Piece.fill shown))

/-- The text of a block: what is stored for it if it is cacheable and something is, and otherwise
its pieces with their holes filled in. The first argument bounds the depth to which holes nest. -/
def Ledger.show (stored? : String → Option String) (blocks : Ledger) : Nat → String → String
  | 0, _ => ""
  | depth + 1, name =>
    match blocks.get? name with
    | none => ""
    | some holding =>
      match holding.lifetime?, stored? name with
      | some _, some text => text
      | _, _ => fillWith (blocks.show stored? depth) holding.pieces

/-- The text of the block of a name. A chain of nested holes is at most as long as there are
blocks. -/
def Ledger.textAt (stored? : String → Option String) (blocks : Ledger) (name : String) : String :=
  blocks.show stored? blocks.length name

/-- The text of a page, that of its root. -/
def Ledger.text (stored? : String → Option String) (blocks : Ledger) : String :=
  blocks.textAt stored? root

/-- The identity of a declared block. -/
def Ledger.idOf (blocks : Ledger) (name : String) : String :=
  Identity.block (blocks.ownerOf name) (.text name)

/-- Whether no two blocks have the same identity. -/
def Ledger.isDistinct (blocks : Ledger) : Bool :=
  decide (blocks.map fun entry => blocks.idOf entry.1).Nodup

/-! ## Well-formed bodies -/

mutual

/-- Whether a part writes no STX and opens no block that is open already. -/
def Part.isFresh (opened : List String) : Part → Bool
  | .text s => !s.toList.contains '\x02'
  | .block _ name inner => !opened.contains name && areFresh (name :: opened) inner

/-- Whether all parts are fresh. -/
def areFresh (opened : List String) : List Part → Bool
  | [] => true
  | part :: rest => part.isFresh opened && areFresh opened rest

end

mutual

/-- Whether a part opens plain blocks only. -/
def Part.isPlain : Part → Bool
  | .text _ => true
  | .block (.plain _) _ inner => arePlain inner
  | .block (.cacheable _) _ _ => false

/-- Whether all parts open plain blocks only. -/
def arePlain : List Part → Bool
  | [] => true
  | part :: rest => part.isPlain && arePlain rest

end

mutual

/-- Whether a part opens as cacheable only what is new or cacheable. -/
def Part.agrees (page around : String) : Part → Ledger → Bool
  | .text _, _ => true
  | .block opening name inner, blocks =>
    let opened := blocks.declare page around opening name
    opening.fits opened name && agree page (opened.ownerOf name) inner opened

/-- Whether all parts agree with the kinds of the blocks that they open. -/
def agree (page around : String) : List Part → Ledger → Bool
  | [], _ => true
  | part :: rest, blocks =>
    part.agrees page around blocks && agree page around rest (part.read page around blocks).2

end

/-- Whether the bodies of a chain agree with the kinds of the blocks that they open. -/
def agreeChain : List Layer → Bool
  | [] => true
  | [base] => agree base.page base.page base.parts (Ledger.start base.page)
  | layer :: rest =>
    agreeChain rest && agree layer.page ((readChain rest).ownerOf root) layer.parts (readChain rest)

/-- A page, and one that puts text behind what a block of it holds. -/
example :
    (readChain [⟨"child", [.text "x", .block (.plain .append) "x" [.text "2"]]⟩,
      ⟨"page", [.text "A", .block (.plain .replace) "x" [.text "1"], .text "B"]⟩]).text
        (fun _ => none) = "A12B" := by
  decide +kernel

end PageBlocks.Inheritance
