import PageBlocks.Number.Decimal
import PageBlocks.Text.Blank
import PageBlocks.Text.Hex
import PageBlocks.Text.Name

/-!
# Symbols of running text

Running text as a list of symbols. A character is open as long as it may still be part of a mark;
what has been marked is one symbol that no further mark looks into. Written out, everything but
marked-up text has its special characters replaced.
-/

set_option autoImplicit false

namespace PageBlocks.Markup.Light

open PageBlocks.Text

/-- A symbol of running text. -/
inductive Symbol where
  /-- A character that may be part of a mark. -/
  | char (c : Char)
  /-- A character that stands for itself. -/
  | literal (c : Char)
  /-- Text that is passed on as it is. -/
  | ready (text : List Char)
  /-- The end of a line that is kept. -/
  | lineBreak
  | element (tag : String) (inside : List Symbol)
  deriving Inhabited

namespace Symbol

/-- Whether a symbol is an open character. -/
def isChar (c : Char) : Symbol → Bool
  | char d => c = d
  | _ => false

/-- Whether a symbol is an open blank. -/
def isBlank : Symbol → Bool
  | char c => Text.isBlank c
  | _ => false

/-- Whether a symbol is an open letter, digit or underscore. -/
def isWord : Symbol → Bool
  | char c => Text.isNamePart c
  | _ => false

/-- The character that a symbol shows, if it shows one. -/
def shown? : Symbol → Option Char
  | char c | literal c => some c
  | _ => none

end Symbol

/-- The symbols of a text in which nothing has been marked yet. -/
def symbols (cs : List Char) : List Symbol := cs.map .char

/-- The characters up to the first symbol that shows none. -/
def leadingText : List Symbol → List Char
  | [] => []
  | s :: rest =>
    match s.shown? with
    | some c => c :: leadingText rest
    | none => []

/-! ## Writing -/

/-- A tag around a text. -/
def tagged (tag : String) (cs : List Char) : List Char :=
  '<' :: tag.toList ++ '>' :: cs ++ '<' :: '/' :: tag.toList ++ ['>']

/-- Whether a text starts with characters of a class, at least one, and a semicolon behind them. -/
def startsWithClosed (isPart : Char → Bool) (cs : List Char) : Bool :=
  !(cs.takeWhile isPart).isEmpty && (cs.dropWhile isPart).head? = some ';'

/-- Whether a text goes on like a character reference behind its ampersand: a code point in decimal
or hexadecimal, or a name of letters and digits, and a semicolon. -/
def continuesReference : List Char → Bool
  | '#' :: 'x' :: rest | '#' :: 'X' :: rest =>
    startsWithClosed (fun c => (Hex.value? c).isSome) rest
  | '#' :: rest => startsWithClosed Char.isDigit rest
  | cs => startsWithClosed Char.isAlphanum cs

/-- One character with a meaning in markup as a character reference. -/
def guarded (c : Char) : List Char :=
  if c = '&' then "&amp;".toList
  else if c = '<' then "&lt;".toList
  else if c = '>' then "&gt;".toList
  else [c]

/-- The symbols behind a kept line end: what is blank up to the next element is dropped. -/
def behindBreak (line : List Symbol) : List Symbol :=
  let text := line.takeWhile fun s => s.shown?.isSome
  let rest := line.drop text.length
  match rest with
  | .ready _ :: _ => line
  | _ => if text.all fun s => s.shown?.all Text.isBlank then rest else line

/-- Symbols written out; `fuel` bounds the number of steps. An ampersand that starts a character
reference stays. -/
def writeFrom : Nat → List Symbol → List Char
  | 0, _ => []
  | _ + 1, [] => []
  | fuel + 1, s :: rest =>
    match s with
    | .char c | .literal c =>
      (if c = '&' && continuesReference (leadingText rest) then [c] else guarded c)
        ++ writeFrom fuel rest
    | .ready text => text ++ writeFrom fuel rest
    | .lineBreak => "<br />\n".toList ++ writeFrom fuel (behindBreak rest)
    | .element tag inside => tagged tag (writeFrom fuel inside) ++ writeFrom fuel rest

mutual

/-- The number of symbols in a symbol and below it. -/
def Symbol.size : Symbol → Nat
  | .element _ inside => sizeAll inside + 1
  | _ => 1

/-- The number of symbols in a list and below it. -/
def sizeAll : List Symbol → Nat
  | [] => 0
  | s :: rest => s.size + sizeAll rest

end

/-- Symbols written out. -/
def write (line : List Symbol) : List Char := writeFrom (sizeAll line + 1) line

end PageBlocks.Markup.Light
