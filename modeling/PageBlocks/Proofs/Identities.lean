import PageBlocks.Page.Identity
import PageBlocks.Proofs.Json.Arranging
import PageBlocks.Proofs.Json.Nesting

/-!
# What the text of a page tells apart

The identity of a page is the digest of its path and its variables, which are put together without
a separator. The text tells any two pages apart, in their paths and in their variables, if the
variables are such as JSON gives back (`pageText_eq_iff`). Paths may hold braces, quotes and whole
JSON texts.
-/

set_option autoImplicit false

namespace PageBlocks.Identity

open PageBlocks.Json

/-- The text of a page is its path and a text of the grammar for its variables in some
arrangement. -/
theorem exists_pageText (path : String) {vars : Bindings} (h : Faithful (.map vars)) :
    ∃ written entries, pageText path vars = .ok (path.toList ++ written)
      ∧ write Style.identity (.map vars) = .ok written
      ∧ Spells written (.value (.map entries)) := by
  obtain ⟨w, hArranged, written, hWrite, hSpells⟩ := exists_arranged h
  obtain ⟨entries, rfl⟩ := hArranged.exists_map rfl
  refine ⟨written, entries, ?_, hWrite, hSpells⟩
  rw [pageText, variablesText, hWrite]
  rfl

/-- The text of a page tells apart its path and its variables, up to the order of entries at every
level. -/
theorem pageText_eq_iff {path path' : String} {vars vars' : Bindings}
    (h : Faithful (.map vars)) (h' : Faithful (.map vars')) :
    ∃ text text', pageText path vars = .ok text ∧ pageText path' vars' = .ok text'
      ∧ (text = text' ↔ path = path' ∧ Rearranged (.map vars) (.map vars')) := by
  obtain ⟨written, entries, hText, hWrite, hSpells⟩ := exists_pageText path h
  obtain ⟨written', entries', hText', hWrite', hSpells'⟩ := exists_pageText path' h'
  have hIff : written = written' ↔ Rearranged (.map vars) (.map vars') := by
    rw [← write_identity_eq_iff h h', hWrite, hWrite', Except.ok.injEq]
  refine ⟨_, _, hText, hText', ?_⟩
  constructor
  · -- the end of the path is found by the braces of the text behind it
    intro hSame
    obtain ⟨hPath, hWritten⟩ := append_map_inj hSpells hSpells' hSame
    exact ⟨String.toList_inj.mp hPath, hIff.mp hWritten⟩
  · rintro ⟨rfl, hArranged⟩
    rw [hIff.mpr hArranged]

/-- Variables with entries at two levels. -/
def tagged : Bindings :=
  textKeyed [("tags", .list [.int 1, .map (textKeyed [("b", .null), ("a", .text "é")])]),
    ("on", .bool true)]

/-- The same variables with the entries of both levels turned round. -/
def taggedTurned : Bindings :=
  textKeyed [("on", .bool true),
    ("tags", .list [.int 1, .map (textKeyed [("a", .text "é"), ("b", .null)])])]

theorem faithful_tagged : Faithful (.map tagged) := by
  have hInner : Faithful (.map (textKeyed [("b", .null), ("a", .text "é")])) := by
    refine .map (by decide) ?_
    simp only [List.forall_mem_cons]
    exact ⟨.null, .text _, nofun⟩
  have hShort : (Number.Decimal.digits (1 : Int).natAbs).length ≤ Number.Decimal.readLimit := by
    decide +kernel
  have hList : Faithful (.list [.int 1, .map (textKeyed [("b", .null), ("a", .text "é")])]) := by
    refine .list ?_
    simp only [List.forall_mem_cons]
    exact ⟨.int hShort, hInner, nofun⟩
  refine .map (by decide) ?_
  simp only [List.forall_mem_cons]
  exact ⟨hList, .bool true, nofun⟩

theorem rearranged_tagged : Rearranged (.map tagged) (.map taggedTurned) := by
  have hInner : Rearranged (.map (textKeyed [("b", .null), ("a", .text "é")]))
      (.map (textKeyed [("a", .text "é"), ("b", .null)])) := .entries (.swap _ _ _)
  have hTags := Rearranged.value [] [(.text "on", .bool true)] (.text "tags")
    (.item [.int 1] [] hInner)
  exact hTags.trans (.entries (.swap _ _ _))

/-- The path holds a brace and quotes, as the text behind it does. -/
theorem pageText_eq_of_turned :
    ∃ text, pageText "p\x7b\x22on\x22: " tagged = .ok text
      ∧ pageText "p\x7b\x22on\x22: " taggedTurned = .ok text := by
  obtain ⟨text, text', hText, hText', hIff⟩ :=
    @pageText_eq_iff "p\x7b\x22on\x22: " "p\x7b\x22on\x22: " _ _ faithful_tagged
      (rearranged_tagged.faithful faithful_tagged)
  exact ⟨text, hText, hIff.mpr ⟨rfl, rearranged_tagged⟩ ▸ hText'⟩

end PageBlocks.Identity
