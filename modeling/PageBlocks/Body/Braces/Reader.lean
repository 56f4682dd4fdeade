import PageBlocks.Body.Braces.Segment
import PageBlocks.Body.Term

/-!
# Reading brace-tag texts

The grammar of the brace-tag language: expressions inside of outputs and tags, and the tags `if`,
`elif`, `else`, `endif`, `for`, `endfor` and `set` around other segments.
-/

set_option autoImplicit false

namespace PageBlocks.Body.Braces

/-! ## Expressions -/

/-- The value of a name that stands for one. -/
def constant? (s : String) : Option Value :=
  if s = "true" ∨ s = "True" then some (.bool true)
  else if s = "false" ∨ s = "False" then some (.bool false)
  else if s = "none" ∨ s = "None" then some .null
  else none

/-- Texts that follow each other without a sign between them are one text. -/
def textRun (s : String) : List Token → String × List Token
  | .text t :: rest => textRun (s ++ t) rest
  | rest => (s, rest)

/-- An expression with parts that were joined to it. -/
def joinParts (first : Expr) (more : List Expr) : Expr :=
  if more.isEmpty then first else .join (first :: more)

mutual

/-- An expression at the start of a token list, and what follows it; the first argument bounds the
number of steps. -/
def expr? : Nat → List Token → Option (Expr × List Token)
  | 0, _ => none
  | fuel + 1, ts => do
    let (first, rest) ← unary? fuel ts
    let (more, rest) ← joined? fuel rest
    return (joinParts first more, rest)

/-- The expressions behind further joining signs. -/
def joined? : Nat → List Token → Option (List Expr × List Token)
  | 0, _ => none
  | fuel + 1, .sign '~' :: ts => do
    let (next, rest) ← unary? fuel ts
    let (more, rest) ← joined? fuel rest
    return (next :: more, rest)
  | _ + 1, ts => some ([], ts)

/-- An expression without joining signs. -/
def unary? : Nat → List Token → Option (Expr × List Token)
  | 0, _ => none
  | _ + 1, .sign '-' :: .int n :: rest => some (.literal (.int (-(n : Int))), rest)
  | fuel + 1, ts => do
    let (e, rest) ← primary? fuel ts
    calls? fuel e rest

/-- Calls behind an expression. -/
def calls? : Nat → Expr → List Token → Option (Expr × List Token)
  | 0, _, _ => none
  | fuel + 1, e, .sign '(' :: ts => do
    let (arguments, named, rest) ← arguments? fuel ts
    calls? fuel (.call e arguments named) rest
  | _ + 1, e, ts => some (e, ts)

/-- A name, a literal value, a list, a map, or an expression in parentheses. -/
def primary? : Nat → List Token → Option (Expr × List Token)
  | 0, _ => none
  | fuel + 1, ts =>
    match ts with
    | .name s :: rest =>
      match constant? s with
      | some v => some (.literal v, rest)
      -- a negation, which needs more than itself
      | none => if s = "not" then none else some (.name s, rest)
    | .text s :: rest =>
      let (s, rest) := textRun s rest
      some (.literal (.text s), rest)
    | .int n :: rest => some (.literal (.int n), rest)
    | .sign '(' :: rest => do
      let (e, rest) ← expr? fuel rest
      match rest with
      | .sign ')' :: rest => some (e, rest)
      | _ => none
    | .sign '[' :: rest => do
      let (items, rest) ← items? fuel ']' rest
      return (.list items, rest)
    | .sign '\x7b' :: rest => do
      let (entries, rest) ← entries? fuel rest
      return (.map entries, rest)
    | _ => none

/-- Items with commas between them up to a closing sign; a comma may also end the list. -/
def items? : Nat → Char → List Token → Option (List Expr × List Token)
  | 0, _, _ => none
  | fuel + 1, closing, ts =>
    if ts.head? = some (.sign closing) then some ([], ts.drop 1)
    else do
      let (item, rest) ← expr? fuel ts
      match rest with
      | .sign c :: rest =>
        if c = closing then some ([item], rest)
        else if c = ',' then
          let (more, rest) ← items? fuel closing rest
          return (item :: more, rest)
        else none
      | _ => none

/-- Map entries with commas between them up to a closing brace. -/
def entries? : Nat → List Token → Option (List (Expr × Expr) × List Token)
  | 0, _ => none
  | fuel + 1, ts =>
    if ts.head? = some (.sign '\x7d') then some ([], ts.drop 1)
    else do
      let (key, rest) ← expr? fuel ts
      match rest with
      | .sign ':' :: rest =>
        let (value, rest) ← expr? fuel rest
        match rest with
        | .sign '\x7d' :: rest => some ([(key, value)], rest)
        | .sign ',' :: rest =>
          let (more, rest) ← entries? fuel rest
          return ((key, value) :: more, rest)
        | _ => none
      | _ => none

/-- Arguments up to a closing parenthesis, those by name behind those by position. -/
def arguments? : Nat → List Token →
    Option (List Expr × List (String × Expr) × List Token)
  | 0, _ => none
  | fuel + 1, ts =>
    match ts with
    | .sign ')' :: rest => some ([], [], rest)
    | .name s :: .sign '=' :: rest => do
      let (value, rest) ← expr? fuel rest
      match rest with
      | .sign ')' :: rest => some ([], [(s, value)], rest)
      | .sign ',' :: rest =>
        let (arguments, named, rest) ← arguments? fuel rest
        if arguments.isEmpty then return ([], (s, value) :: named, rest) else none
      | _ => none
    | ts => do
      let (value, rest) ← expr? fuel ts
      match rest with
      | .sign ')' :: rest => some ([value], [], rest)
      | .sign ',' :: rest =>
        let (arguments, named, rest) ← arguments? fuel rest
        return (value :: arguments, named, rest)
      | _ => none

end

/-- The number of steps in which a token list is read: a few for each token. -/
def stepBound (ts : List Token) : Nat := 8 * ts.length + 8

/-- The expression that all tokens form. -/
def wholeExpr? (ts : List Token) : Option Expr :=
  match expr? (stepBound ts) ts with
  | some (e, []) => some e
  | _ => none

/-! ## Items -/

mutual

/-- The items up to the end or to a tag that closes or continues an enclosing one, which is left
over; the first argument bounds the number of steps. -/
def body? : Nat → List Segment → Option (List Item × List Segment)
  | 0, _ => none
  | _ + 1, [] => some ([], [])
  | fuel + 1, segment :: rest =>
    match segment with
    | .text s => do
      let (more, rest) ← body? fuel rest
      return (.text s :: more, rest)
    | .output ts => do
      let e ← wholeExpr? ts
      let (more, rest) ← body? fuel rest
      return (.emit e :: more, rest)
    | .tag (.name "set" :: .name s :: .sign '=' :: ts) => do
      if (constant? s).isSome then none
      let e ← wholeExpr? ts
      let (more, rest) ← body? fuel rest
      return (.bind s e :: more, rest)
    | .tag (.name "for" :: .name s :: .name "in" :: ts) => do
      if (constant? s).isSome ∨ s = "in" then none
      let source ← wholeExpr? ts
      let (items, rest) ← body? fuel rest
      match rest with
      | .tag [.name "endfor"] :: rest =>
        let (more, rest) ← body? fuel rest
        return (.each s source items :: more, rest)
      | _ => none
    | .tag (.name "if" :: ts) => do
      let (arms, otherwise, rest) ← arms? fuel ts rest
      let (more, rest) ← body? fuel rest
      return (.branch arms otherwise :: more, rest)
    | .tag (.name s :: _) =>
      if ["elif", "else", "endif", "endfor"].contains s then some ([], segment :: rest) else none
    | .tag _ => none

/-- The arms of a branch from the tokens of its first condition on. -/
def arms? : Nat → List Token → List Segment →
    Option (List (Expr × List Item) × List Item × List Segment)
  | 0, _, _ => none
  | fuel + 1, ts, rest => do
    let condition ← wholeExpr? ts
    let (items, rest) ← body? fuel rest
    match rest with
    | .tag [.name "endif"] :: rest => some ([(condition, items)], [], rest)
    | .tag (.name "elif" :: ts) :: rest =>
      let (arms, otherwise, rest) ← arms? fuel ts rest
      return ((condition, items) :: arms, otherwise, rest)
    | .tag [.name "else"] :: rest =>
      let (otherwise, rest) ← body? fuel rest
      match rest with
      | .tag [.name "endif"] :: rest => some ([(condition, items)], otherwise, rest)
      | _ => none
    | _ => none

end

/-- The items that a text spells. -/
def read? (s : String) : Option (List Item) := do
  let segments ← segments? s.toList
  match ← body? (2 * segments.length + 2) segments with
  | (items, []) => some items
  | _ => none

end PageBlocks.Body.Braces
