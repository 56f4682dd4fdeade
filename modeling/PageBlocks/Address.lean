import PageBlocks.Number.Reading
import PageBlocks.Path
import PageBlocks.Text.Hex
import PageBlocks.Text.Punycode
import PageBlocks.Text.Utf8

/-!
# Addresses

What a request goes to: a scheme, an authority, a path, a query and a fragment. Reading an address
brings it into its normal form. Scheme and host are in small letters, a port that goes without
saying is left out, the path has no dot segments, and whatever may not stand in a part is written by
its bytes.
-/

set_option autoImplicit false

namespace PageBlocks

open PageBlocks.Number PageBlocks.Text

/-- An address in its normal form. A query or fragment may be there and empty. -/
structure Address where
  scheme : List Char
  user : List Char
  host : List Char
  port : Option Int
  path : List Char
  query : Option (List Char)
  fragment : Option (List Char)
  deriving DecidableEq

namespace Address

/-! ## Characters -/

/-- A character by its bytes. -/
def byBytes (c : Char) : List Char :=
  (Utf8.encodeChar c).flatMap fun b => '%' :: (Hex.ofNat 2 b.toNat).map Char.toUpper

/-- A text whose characters outside of a class are written by their bytes. Bytes that are written
that way already stay. -/
def quote (isSafe : Char → Bool) : List Char → List Char
  | '%' :: a :: b :: rest =>
    if (Hex.value? a).isSome && (Hex.value? b).isSome then '%' :: a :: b :: quote isSafe rest
    else (if isSafe '%' then ['%'] else byBytes '%') ++ quote isSafe (a :: b :: rest)
  | c :: rest => (if isSafe c then [c] else byBytes c) ++ quote isSafe rest
  | [] => []

/-- The printable characters of ASCII, except for some. -/
def printableBut (others : String) (c : Char) : Bool :=
  32 ≤ c.toNat && c.toNat < 127 && !others.toList.contains c

/-- Characters that may stand in a path. -/
def inPath : Char → Bool := printableBut " \x22#<>?\x60\x7b\x7d"

/-- Characters that may stand in a query. -/
def inQuery : Char → Bool := printableBut " \x22#<>"

/-- Characters that may stand in a fragment. -/
def inFragment : Char → Bool := printableBut " \x22<>\x60"

/-- Characters that may stand in the name of a user. -/
def inUser : Char → Bool := printableBut " \x22#<>?\x60\x7b\x7d/;=@[\\]^|"

/-- Characters that may stand in the name of a host. -/
def inHost : Char → Bool := printableBut " #/:<>?@[]^"

/-! ## Parts -/

/-- Whether segments of a path are of a kind that stands for another place. -/
def isDots (segment : List Char) : Bool := segment = ['.'] || segment = ['.', '.']

/-- Segments with those taken away that dot segments lead back over; `done` are the segments so far,
last one first. The empty segment at the start of a path stays. -/
def withoutDots (done : List (List Char)) : List (List Char) → List (List Char)
  | [] => done.reverse
  | segment :: rest =>
    if segment = ['.'] then withoutDots done rest
    else if segment = ['.', '.'] then
      withoutDots (if done = [[]] then done else done.drop 1) rest
    else withoutDots (segment :: done) rest

/-- A path without dot segments. -/
def normalPath (path : List Char) : List Char :=
  let segments := splitOn '/' path
  if segments.any isDots then joinWith '/' (withoutDots [] segments) else path

/-- Whether a label of a number address is a number below 256 without superfluous zeros. -/
def isOctet (label : List Char) : Bool :=
  Decimal.ofDigits label < 256 && (label.length = 1 || label.head? ≠ some '0')

/-- A label of a host in ASCII. -/
def asciiLabel (label : List Char) : List Char :=
  if label.all fun c => c.toNat < 128 then label else "xn--".toList ++ Punycode.encode label

/-- A host in its normal form; none if it looks like a number address and is none. -/
def normalHost? (host : List Char) : Option (List Char) :=
  let host := host.map Char.toLower
  let labels := splitOn '.' host
  if labels.length = 4 && labels.all fun label => !label.isEmpty && label.all Decimal.isDigit then
    if labels.all isOctet then some host else none
  else if host.all fun c => c.toNat < 128 then some (quote inHost host)
  else some (joinWith '.' (labels.map asciiLabel))

/-- The port that goes without saying. -/
def usualPort (scheme : List Char) : Option Int :=
  match String.ofList scheme with
  | "ftp" => some 21
  | "http" | "ws" => some 80
  | "https" | "wss" => some 443
  | _ => none

/-- A port in its normal form; the outer option is none if the text is no number. -/
def normalPort? (scheme port : List Char) : Option (Option Int) :=
  if port.isEmpty then some none
  else (Reading.int? (String.ofList port)).map fun n =>
    if usualPort scheme = some n then none else some n

/-- The parts of an authority: user, host and port. A host may be in brackets. -/
def splitAuthority (authority : List Char) : List Char × List Char × List Char :=
  let behindUser := (authority.reverse.takeWhile (· ≠ '@')).reverse
  let user := authority.take (authority.length - behindUser.length - 1)
  let bracketed :=
    if behindUser.head? = some '[' then (behindUser.reverse.dropWhile (· ≠ ']')).reverse else []
  let host := if bracketed.isEmpty then behindUser.takeWhile (· ≠ ':') else bracketed
  let port := behindUser.drop host.length
  (user, host, if port.head? = some ':' then port.drop 1 else port)

/-- A host without brackets around it, in its normal form. -/
def hostOf? (host : List Char) : Option (List Char) :=
  if host.head? = some '[' && host.getLast? = some ']' then some (host.drop 1).dropLast
  else normalHost? host

/-- Whether a path fits to what is in front of it. -/
def pathFits (hasScheme hasAuthority : Bool) (path : List Char) : Bool :=
  if hasAuthority then path.isEmpty || path.head? = some '/'
  else hasScheme || (path.take 2 ≠ ['/', '/'] && path.head? ≠ some ':')

/-- The address of parts that are not in their normal form yet. -/
def ofParts? (scheme authority path : List Char) (query fragment : Option (List Char)) :
    Option Address := do
  let (user, host, port) := splitAuthority authority
  let host ← hostOf? host
  let port ← normalPort? scheme port
  let hasAuthority := !user.isEmpty || !host.isEmpty || port.isSome
  if !pathFits (!scheme.isEmpty) hasAuthority path then none
  else
    let path := if !scheme.isEmpty || hasAuthority then normalPath path else path
    return ⟨scheme.map Char.toLower, quote inUser user, host, port, quote inPath path,
      query.map (quote inQuery), fragment.map (quote inFragment)⟩

/-! ## Reading and writing -/

/-- The most characters of an address. -/
def sizeLimit : Nat := 65536

/-- The characters of a scheme behind its first letter. -/
def inScheme (c : Char) : Bool := c.isAlphanum || c = '+' || c = '.' || c = '-'

/-- A scheme in front of a colon, and what follows. -/
def splitScheme (cs : List Char) : List Char × List Char :=
  let scheme := if (cs.head?.any Char.isAlpha) then cs.takeWhile inScheme else []
  match cs.drop scheme.length with
  | ':' :: rest => (scheme, rest)
  | _ => ([], cs)

/-- What stands behind a mark, if the text starts with it, up to other marks, and what follows. -/
def splitPart (mark : List Char) (ends : Char → Bool) (cs : List Char) :
    Option (List Char) × List Char :=
  match after? mark cs with
  | some rest => (some (rest.takeWhile fun c => !ends c), rest.dropWhile fun c => !ends c)
  | none => (none, cs)

/-- The address that a text spells. -/
def ofText? (s : String) : Option Address :=
  let cs := s.toList
  if cs.length > sizeLimit || cs.any fun c => c.toNat < 32 || c.toNat = 127 then none
  else
    let (scheme, rest) := splitScheme cs
    let (authority, rest) := splitPart ['/', '/'] (fun c => c = '/' || c = '?' || c = '#') rest
    let (path, rest) := splitPart [] (fun c => c = '?' || c = '#') rest
    let (query, rest) := splitPart ['?'] (· = '#') rest
    let (fragment, _) := splitPart ['#'] (fun _ => false) rest
    ofParts? scheme (authority.getD []) (path.getD []) query fragment

/-- The text of an authority. -/
def authority (a : Address) : List Char :=
  (if a.user.isEmpty then [] else a.user ++ ['@'])
    ++ (if a.host.contains ':' then '[' :: a.host ++ [']'] else a.host)
    ++ match a.port with
      | some n => ':' :: Decimal.ofInt n
      | none => []

/-- A mark and a text, if there is one. -/
def marked (mark : Char) : Option (List Char) → List Char
  | some cs => mark :: cs
  | none => []

/-- The text of an address. -/
def characters (a : Address) : List Char :=
  let authority := a.authority
  (if a.scheme.isEmpty then [] else a.scheme ++ [':'])
    ++ (if authority.isEmpty then [] else '/' :: '/' :: authority)
    ++ a.path ++ marked '?' a.query ++ marked '#' a.fragment

/-- The text of an address. -/
def print (a : Address) : String := String.ofList a.characters

/-! ## Relative addresses -/

/-- Whether an address leaves out where its path starts. -/
def isRelative (a : Address) : Bool := a.scheme.isEmpty || a.host.isEmpty

/-- The address that is asked for when an address is requested: of a relative one only the path and
the query count. -/
def requested (a : Address) : Address :=
  if a.isRelative then
    ⟨[], [], [], none, '/' :: a.path.dropWhile (· = '/'), a.query, none⟩
  else a

/-- A text, unless it is empty. -/
def nonempty? (text : Option (List Char)) : Option (List Char) :=
  if text = some [] then none else text

/-- The segments of a path with those taken away that dot segments lead back over; two dots at the
start lead nowhere. -/
def resolvedPath (segments : List (List Char)) : List Char :=
  let kept := segments.foldl (fun done segment =>
    if segment = ['.', '.'] then done.drop 1
    else if segment = ['.'] then done
    else segment :: done) []
  let kept := if segments.getLast?.any isDots then [] :: kept else kept
  let path := joinWith '/' kept.reverse
  if path.isEmpty then ['/'] else path

/-- The path that a relative path leads to from another one. -/
def joinPath (base path : List Char) : List Char :=
  if path.head? = some '/' then resolvedPath (splitOn '/' path)
  else
    let start := splitOn '/' base
    let start := if start.getLast? = some [] then start else start.dropLast
    let segments := start ++ splitOn '/' path
    -- empty segments stay at the two ends alone
    let inner := ((segments.drop 1).dropLast).filter (!·.isEmpty)
    resolvedPath (segments.take 1 ++ inner
      ++ if segments.length ≤ 1 then [] else segments.drop (segments.length - 1))

/-- A path without the parameters of its last segment, and those: what stands behind the first
semicolon in it. -/
def splitParameters (path : List Char) : List Char × List Char :=
  let last := (path.reverse.takeWhile (· ≠ '/')).reverse
  let name := last.takeWhile (· ≠ ';')
  (path.take (path.length - last.length + name.length), last.drop (name.length + 1))

/-- The address of a path with parameters behind a scheme and an authority. -/
def below? (scheme authority path parameters : List Char) (query fragment : Option (List Char)) :
    Option Address :=
  let path := if parameters.isEmpty then path else path ++ ';' :: parameters
  let path :=
    if authority.isEmpty || path.isEmpty || path.head? = some '/' then path else '/' :: path
  ofParts? scheme authority path query fragment

/-- The address that a relative one leads to. Empty parameters, queries and fragments are
dropped. -/
def join? (base a : Address) : Option Address :=
  let (path, parameters) := splitParameters a.path
  let query := nonempty? a.query
  let fragment := nonempty? a.fragment
  if a.characters.isEmpty then some base
  else if !a.authority.isEmpty then below? base.scheme a.authority path parameters query fragment
  else if path.isEmpty && parameters.isEmpty then
    let (path, parameters) := splitParameters base.path
    below? base.scheme base.authority path parameters (query.or (nonempty? base.query)) fragment
  else
    let path := joinPath (splitParameters base.path).1 path
    below? base.scheme base.authority path parameters query fragment

/-- The address that a response to a request sends to. An address without a host is at the host of
the request, and the fragment of the request stays unless there is a new one. -/
def redirect? (request target : Address) : Option Address := do
  let target ← if !target.scheme.isEmpty && target.host.isEmpty then
      ofParts? target.scheme request.host target.path target.query target.fragment
    else some target
  let target ← if target.isRelative then request.join? target else some target
  match nonempty? target.fragment with
  | some _ => return target
  | none => return { target with fragment := (nonempty? request.fragment).or target.fragment }

end Address

end PageBlocks
