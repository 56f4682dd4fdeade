import PageBlocks.Address
import PageBlocks.Site.Page

/-!
# Sites

A site with everything that a run can change: the files, the caches, the addresses that can be
fetched, counters, and the pages that were made so far with their outlines.
-/

set_option autoImplicit false

namespace PageBlocks

open PageBlocks.Cache PageBlocks.Time

/-- An answer to a request for an address. -/
structure Response where
  status : Nat := 200
  text : String := ""
  location : Option String := none

/-- Whether a response sends to another address. -/
def Response.redirects (r : Response) : Bool :=
  [301, 302, 303, 307, 308].contains r.status && r.location.isSome

/-- A site and its surroundings. -/
structure World where
  files : FileTree Body.Source := []
  vault : Vault
  /-- The answers that are left for each address; the last one stays. -/
  responses : Table String (List Response) := []
  /-- The addresses that were fetched, latest first. -/
  fetched : List String := []
  /-- The last numbers of the counters. -/
  counters : List Nat := []
  pages : Array Page := #[]
  outlines : Array Outline := #[]
  /-- The number of bodies that were run. -/
  executed : Nat := 0
  /-- The settings for new pages. -/
  settings : Context := {}
  globals : Bindings := []
  /-- The name of the folder that a cache in a folder uses. -/
  folderName : String := "cache"

/-- A computation of a site that may fail and keeps what it changed. -/
abbrev SiteM := ExceptT Fault (StateM World)

namespace Site

/-- Fail, unless a computation without effects succeeds. -/
def check {α : Type} (x : Except Fault α) : SiteM α :=
  match x with
  | .ok a => return a
  | .error fault => throw fault

/-- Run a computation on the caches. -/
def onVault {α : Type} (x : VaultM α) : SiteM α := do
  let w ← get
  let (result, vault) := x.run w.vault
  set { w with vault }
  check result

/-- The next number of a counter. -/
def count (counter : Nat) : SiteM Nat := do
  let w ← get
  let n := w.counters.getD counter 0 + 1
  set { w with counters := w.counters.set counter n }
  return n

/-- A new counter. -/
def newCounter : SiteM Nat := do
  let w ← get
  set { w with counters := w.counters ++ [0] }
  return w.counters.length

/-! ## Fetching -/

/-- The most redirections that are followed. -/
def redirectLimit : Nat := 20

/-- The next response of an address. -/
def nextResponse (url : String) : SiteM Response := do
  modify fun w => { w with fetched := url :: w.fetched }
  let w ← get
  match w.responses.get? url with
  | none | some [] => throw (.host .noConnection)
  | some [last] => return last
  | some (next :: rest) =>
    set { w with responses := w.responses.insert url rest }
    return next

/-- The address that a response sends to. -/
def redirectTarget (request : Address) (location : String) : Except Fault Address :=
  if location.toList.any fun c => 128 ≤ c.toNat then .error (.host .unencodable)
  else
    match Address.ofText? location with
    | none => .error (.host .badRedirect)
    | some target =>
      match request.redirect? target with
      | some target => .ok target
      | none => .error (.host .badAddress)

/-- The text behind an address, following at most a number of redirections. -/
def fetchFrom : Nat → Address → SiteM String
  | 0, _ => throw (.host .tooManyRedirects)
  | more + 1, address => do
    let r ← nextResponse address.print
    match r.redirects, r.location with
    | true, some location => do fetchFrom more (← check (redirectTarget address location))
    | _, _ =>
      if 200 ≤ r.status ∧ r.status < 300 then return r.text else throw (.host .httpStatus)

/-- The text behind an address. -/
def fetch (url : Value) : SiteM String :=
  match url with
  | .text s =>
    match Address.ofText? s with
    | some address => fetchFrom (redirectLimit + 1) address.requested
    | none => throw (.host .badAddress)
  | _ => throw (.host .type)

/-- What fragments can reach. -/
def surroundings : Fragment.Surroundings SiteM where
  now := return (← get).vault.now
  count := count
  fetch := fetch

end Site

end PageBlocks
