import PageBlocks.Proofs.Tokens
import PageBlocks.Site.Run

/-!
# The texts behind keys

The cache knows a page, its compiled output, its blocks and what it fetches by digests. The text
behind the key of a page is its path and its variables; the texts behind the other keys are the
identity of the page and a label. A path starts with a slash and an identity with a digit, so that
no other text is that of a page. Among the other ones the labels are all that tells them apart, and
nothing keeps a block or an address from having the label of another kind
(`keyTexts_eq_iff`).
-/

set_option autoImplicit false

namespace PageBlocks.KeyTexts

/-- What the cache holds for a page besides its final output. -/
inductive Part where
  | compiled
  | block (name : Value)
  | fetched (url : String)

namespace Part

/-- The text behind the key. -/
def text (page : String) : Part → List Char
  | compiled => Identity.compiledText page
  | block name => Identity.blockText page name
  | fetched url => Identity.fetchText page url

/-- What stands behind the identity of the page. -/
def label : Part → String
  | compiled => "compiled"
  | block name => name.print
  | fetched url => url

theorem text_eq (page : String) (part : Part) :
    part.text page = page.toList ++ part.label.toList := by
  cases part <;> rfl

end Part

/-- The paths of templates start with a slash. -/
theorem head?_print_absolute (place : Place) :
    (Path.absolute place).print.toList.head? = some '/' := by
  have hPrint : (Path.absolute place).print = "/" ++ "/".intercalate place := by
    cases place <;> rfl
  rw [hPrint, String.toList_append]
  rfl

/-- The identity of a page is the digest of a text that starts with a slash. -/
theorem exists_pageText {place : Place} {page : String} {vars : Bindings}
    (h : Identity.page (Path.absolute place).print vars = .ok page) :
    ∃ text, Identity.pageText (Path.absolute place).print vars = .ok text
      ∧ page = Identity.digest text ∧ text.head? = some '/' := by
  cases hVars : Identity.variablesText vars with
  | error fault =>
    simp only [Identity.page, Identity.pageText, hVars] at h
    cases h
  | ok written =>
    simp only [Identity.page, Identity.pageText, hVars] at h ⊢
    refine ⟨_, rfl, (Except.ok.inj h).symm, ?_⟩
    have hSlash := head?_print_absolute place
    cases hPrint : (Path.absolute place).print.toList with
    | nil =>
      rw [hPrint] at hSlash
      cases hSlash
    | cons c cs =>
      rw [hPrint] at hSlash
      exact hSlash

theorem isDigit_head?_of_isId {cs : List Char} {c : Char} (h : Token.isId cs = true)
    (hHead : cs.head? = some c) : Text.Hex.isDigit c = true := by
  simp only [Token.isId, Bool.and_eq_true, List.all_eq_true] at h
  exact h.2 c (List.mem_of_mem_head? hHead)

/-- Texts behind the keys of parts are told apart by the pages and the labels alone. -/
theorem Part.text_eq_iff {page page' : String} (hPage : Token.isId page.toList = true)
    (hPage' : Token.isId page'.toList = true) (part part' : Part) :
    part.text page = part'.text page' ↔ page = page' ∧ part.label = part'.label := by
  simp only [Token.isId, Bool.and_eq_true, decide_eq_true_eq] at hPage hPage'
  rw [Part.text_eq, Part.text_eq]
  constructor
  · intro hSame
    obtain ⟨hPages, hLabels⟩ := List.append_inj hSame (hPage.1.trans hPage'.1.symm)
    exact ⟨String.toList_inj.mp hPages, String.toList_inj.mp hLabels⟩
  · rintro ⟨rfl, hLabels⟩
    rw [hLabels]

/-- The text of a page is that of no part of any page, and the texts of two parts are the same if
and only if they belong to one page and have one label: a block whose name prints as the label of
compiled output has the key of that output, and so has an address of that text; a block has the key
of what is fetched from an address if its name prints as the address. -/
theorem keyTexts_eq_iff {place place' : Place} {vars vars' : Bindings} {page page' : String}
    (h : Identity.page (Path.absolute place).print vars = .ok page)
    (h' : Identity.page (Path.absolute place').print vars' = .ok page') :
    (∃ text, Identity.pageText (Path.absolute place).print vars = .ok text
      ∧ page = Identity.digest text ∧ ∀ part : Part, text ≠ part.text page') ∧
    ∀ part part' : Part,
      part.text page = part'.text page' ↔ page = page' ∧ part.label = part'.label := by
  obtain ⟨text, hText, hPage, hSlash⟩ := exists_pageText h
  obtain ⟨text', -, hPage', -⟩ := exists_pageText h'
  have hId : Token.isId page.toList = true := hPage ▸ Token.isId_digest text
  have hId' : Token.isId page'.toList = true := hPage' ▸ Token.isId_digest text'
  refine ⟨⟨text, hText, hPage, fun part hSame => ?_⟩, Part.text_eq_iff hId hId'⟩
  rw [Part.text_eq] at hSame
  -- an identity has forty digits, so that its first character is the first one of the text
  cases hChars : page'.toList with
  | nil =>
    rw [hChars] at hId'
    cases hId'
  | cons c cs =>
    rw [hSame, hChars, List.cons_append, List.head?_cons] at hSlash
    have hDigit := isDigit_head?_of_isId hId' (by rw [hChars]; rfl)
    rw [Option.some.inj hSlash] at hDigit
    cases hDigit

/-- A template without variables has an identity. -/
theorem exists_page : ∃ page, Identity.page (Path.absolute ["v", "page"]).print [] = .ok page := by
  have hSome : (Identity.page (Path.absolute ["v", "page"]).print []).toOption.isSome = true := by
    decide +kernel
  cases hPage : Identity.page (Path.absolute ["v", "page"]).print [] with
  | ok page => exact ⟨page, rfl⟩
  | error fault =>
    rw [hPage] at hSome
    cases hSome

/-- One page has one key for its compiled output and for a block of that name. -/
theorem keyTexts_eq_of_compiled :
    ∃ page, Identity.page (Path.absolute ["v", "page"]).print [] = .ok page
      ∧ Part.compiled.text page = (Part.block (.text "compiled")).text page := by
  obtain ⟨page, hPage⟩ := exists_page
  exact ⟨page, hPage, ((keyTexts_eq_iff hPage hPage).2 .compiled (.block (.text "compiled"))).mpr
    ⟨rfl, rfl⟩⟩

/-- A page with a cacheable block of that name. -/
def site : World :=
  { files := [(["v", "page"], .items [.text "A",
      .emit (.call (.name "cache") [.literal (.text "compiled")] []), .text "1",
      .emit (.call (.name "end") [] []), .text "B"])]
    vault := { now := ⟨0⟩ }
    settings := Site.startSettings { paths := [Path.ofText "/v"] } .script (.int 3600) }

/-- The first request gets the page, and the second one what is stored for the block. -/
theorem block_served_as_page :
    ((do
      let _ ← Site.perform (.installCache .shelf none)
      let first ← Site.render Site.prepare (.text "page") .null [] true
      let second ← Site.render Site.prepare (.text "page") .null [] true
      return (first, second) : SiteM (String × String)).run site).1.toOption
        = some ("A1B", "1") := by
  decide +kernel

end PageBlocks.KeyTexts
