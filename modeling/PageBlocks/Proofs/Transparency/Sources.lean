import PageBlocks.Proofs.Transparency.Evaluation

/-!
# Bodies that are read from texts

A text can spell no directive, so the literals of a body that is read from one are data
(`allKeep_of_read`): they are texts, numbers, truth values, the null value, and the object that the
body's own name stands for. Reading is followed along the grammar (`keeps_expr`, `allKeep_body`),
and the frames that a body is given afterwards only forget names (`allKeep_withFrames`). So on a
site only the bodies that are written as items have to be looked at (`PlainItems.bodies`).
-/

set_option autoImplicit false

namespace PageBlocks.Transparency

open PageBlocks.Body PageBlocks.Body.Braces PageBlocks.Running PageBlocks.Site PageBlocks.Upkeep

/-! ## Expressions -/

theorem isData_constant {s : String} {v : Value} (h : constant? s = some v) : v.isData = true := by
  unfold constant? at h
  split at h
  · cases h
    rfl
  · split at h
    · cases h
      rfl
    · split at h
      · cases h
        rfl
      · cases h

theorem keeps_joinParts {first : Expr} {more : List Expr} (hFirst : first.keeps plain = true)
    (hMore : Expr.allKeep plain more = true) : (joinParts first more).keeps plain = true := by
  unfold joinParts
  split
  · exact hFirst
  · rw [Expr.keeps, Expr.allKeep, hFirst, hMore]
    rfl

theorem allKeep_cons {e : Expr} {rest : List Expr} (h : e.keeps plain = true)
    (hRest : Expr.allKeep plain rest = true) : Expr.allKeep plain (e :: rest) = true := by
  rw [Expr.allKeep, h, hRest]
  rfl

theorem allNamedKeep_cons {word : String} {e : Expr} {rest : List (String × Expr)}
    (h : e.keeps plain = true) (hRest : Expr.allNamedKeep plain rest = true) :
    Expr.allNamedKeep plain ((word, e) :: rest) = true := by
  rw [Expr.allNamedKeep, h, hRest]
  rfl

theorem allEntriesKeep_cons {k e : Expr} {rest : List (Expr × Expr)} (hKey : k.keeps plain = true)
    (h : e.keeps plain = true) (hRest : Expr.allEntriesKeep plain rest = true) :
    Expr.allEntriesKeep plain ((k, e) :: rest) = true := by
  rw [Expr.allEntriesKeep, hKey, h, hRest]
  rfl

mutual

theorem keeps_expr : ∀ (fuel : Nat) (ts : List Token) {e : Expr} {rest : List Token},
    expr? fuel ts = some (e, rest) → e.keeps plain = true
  | 0, _, _, _, h => nomatch h
  | fuel + 1, ts, _, _, h => by
    rw [expr?] at h
    obtain ⟨⟨first, rest₁⟩, hFirst, h⟩ := Option.bind_eq_some_iff.mp h
    obtain ⟨⟨more, rest₂⟩, hMore, h⟩ := Option.bind_eq_some_iff.mp h
    cases h
    exact keeps_joinParts (keeps_unary fuel ts hFirst) (allKeep_joined fuel rest₁ hMore)

theorem allKeep_joined : ∀ (fuel : Nat) (ts : List Token) {es : List Expr} {rest : List Token},
    joined? fuel ts = some (es, rest) → Expr.allKeep plain es = true
  | 0, _, _, _, h => nomatch h
  | fuel + 1, ts, _, _, h => by
    unfold joined? at h
    split at h
    · cases h
    · rename_i hFuel
      cases hFuel
      obtain ⟨⟨next, rest₁⟩, hNext, h⟩ := Option.bind_eq_some_iff.mp h
      obtain ⟨⟨more, rest₂⟩, hMore, h⟩ := Option.bind_eq_some_iff.mp h
      cases h
      exact allKeep_cons (keeps_unary fuel _ hNext) (allKeep_joined fuel rest₁ hMore)
    · cases h
      rfl

theorem keeps_unary : ∀ (fuel : Nat) (ts : List Token) {e : Expr} {rest : List Token},
    unary? fuel ts = some (e, rest) → e.keeps plain = true
  | 0, _, _, _, h => nomatch h
  | fuel + 1, ts, _, _, h => by
    unfold unary? at h
    split at h
    · cases h
    · cases h
      rfl
    · rename_i hFuel _
      cases hFuel
      obtain ⟨⟨e, rest₁⟩, hFirst, h⟩ := Option.bind_eq_some_iff.mp h
      exact keeps_calls fuel rest₁ (keeps_primary fuel _ hFirst) h

theorem keeps_calls : ∀ (fuel : Nat) (ts : List Token) {first e : Expr} {rest : List Token},
    first.keeps plain = true → calls? fuel first ts = some (e, rest) → e.keeps plain = true
  | 0, _, _, _, _, _, h => nomatch h
  | fuel + 1, ts, first, _, _, hFirst, h => by
    unfold calls? at h
    split at h
    · cases h
    · rename_i hFuel
      cases hFuel
      obtain ⟨⟨arguments, named, rest₁⟩, hArguments, h⟩ := Option.bind_eq_some_iff.mp h
      obtain ⟨hPlain, hNamed⟩ := allKeep_arguments fuel _ hArguments
      refine keeps_calls fuel rest₁ ?_ h
      rw [Expr.keeps, hFirst, hPlain, hNamed]
      rfl
    · cases h
      exact hFirst

theorem keeps_primary : ∀ (fuel : Nat) (ts : List Token) {e : Expr} {rest : List Token},
    primary? fuel ts = some (e, rest) → e.keeps plain = true
  | 0, _, _, _, h => nomatch h
  | fuel + 1, ts, _, _, h => by
    rw [primary?.eq_def] at h
    dsimp only at h
    split at h
    · split at h
      · rename_i hConstant
        cases h
        exact isData_constant hConstant
      · split at h
        · cases h
        · cases h
          rfl
    · cases h
      rfl
    · cases h
      rfl
    · obtain ⟨⟨inner, rest₁⟩, hInner, h⟩ := Option.bind_eq_some_iff.mp h
      dsimp only at h
      split at h
      · cases h
        exact keeps_expr fuel _ hInner
      · cases h
    · obtain ⟨⟨items, rest₁⟩, hItems, h⟩ := Option.bind_eq_some_iff.mp h
      cases h
      exact allKeep_items fuel _ _ hItems
    · obtain ⟨⟨entries, rest₁⟩, hEntries, h⟩ := Option.bind_eq_some_iff.mp h
      cases h
      exact allEntriesKeep_entries fuel _ hEntries
    · cases h

theorem allKeep_items : ∀ (fuel : Nat) (closing : Char) (ts : List Token) {es : List Expr}
    {rest : List Token}, items? fuel closing ts = some (es, rest) → Expr.allKeep plain es = true
  | 0, _, _, _, _, h => nomatch h
  | fuel + 1, closing, ts, _, _, h => by
    rw [items?] at h
    split at h
    · cases h
      rfl
    · obtain ⟨⟨item, rest₁⟩, hItem, h⟩ := Option.bind_eq_some_iff.mp h
      have hKeeps := keeps_expr fuel ts hItem
      dsimp only at h
      split at h
      · split at h
        · cases h
          exact allKeep_cons hKeeps rfl
        · split at h
          · obtain ⟨⟨more, rest₂⟩, hMore, h⟩ := Option.bind_eq_some_iff.mp h
            cases h
            exact allKeep_cons hKeeps (allKeep_items fuel closing _ hMore)
          · cases h
      · cases h

theorem allEntriesKeep_entries : ∀ (fuel : Nat) (ts : List Token) {entries : List (Expr × Expr)}
    {rest : List Token}, entries? fuel ts = some (entries, rest) →
      Expr.allEntriesKeep plain entries = true
  | 0, _, _, _, h => nomatch h
  | fuel + 1, ts, _, _, h => by
    rw [entries?] at h
    split at h
    · cases h
      rfl
    · obtain ⟨⟨key, rest₁⟩, hKey, h⟩ := Option.bind_eq_some_iff.mp h
      have hKeeps := keeps_expr fuel ts hKey
      dsimp only at h
      split at h
      · obtain ⟨⟨value, rest₂⟩, hValue, h⟩ := Option.bind_eq_some_iff.mp h
        have hKeeps' := keeps_expr fuel _ hValue
        dsimp only at h
        split at h
        · cases h
          exact allEntriesKeep_cons hKeeps hKeeps' rfl
        · obtain ⟨⟨more, rest₃⟩, hMore, h⟩ := Option.bind_eq_some_iff.mp h
          cases h
          exact allEntriesKeep_cons hKeeps hKeeps' (allEntriesKeep_entries fuel _ hMore)
        · cases h
      · cases h

theorem allKeep_arguments : ∀ (fuel : Nat) (ts : List Token) {es : List Expr}
    {named : List (String × Expr)} {rest : List Token},
    arguments? fuel ts = some (es, named, rest) →
      Expr.allKeep plain es = true ∧ Expr.allNamedKeep plain named = true
  | 0, _, _, _, _, h => nomatch h
  | fuel + 1, ts, _, _, _, h => by
    rw [arguments?.eq_def] at h
    dsimp only at h
    split at h
    · cases h
      exact ⟨rfl, rfl⟩
    · obtain ⟨⟨value, rest₁⟩, hValue, h⟩ := Option.bind_eq_some_iff.mp h
      have hKeeps := keeps_expr fuel _ hValue
      dsimp only at h
      split at h
      · cases h
        exact ⟨rfl, allNamedKeep_cons hKeeps rfl⟩
      · obtain ⟨⟨more, named, rest₂⟩, hMore, h⟩ := Option.bind_eq_some_iff.mp h
        dsimp only at h
        split at h
        · cases h
          exact ⟨rfl, allNamedKeep_cons hKeeps (allKeep_arguments fuel _ hMore).2⟩
        · cases h
      · cases h
    · obtain ⟨⟨value, rest₁⟩, hValue, h⟩ := Option.bind_eq_some_iff.mp h
      have hKeeps := keeps_expr fuel _ hValue
      dsimp only at h
      split at h
      · cases h
        exact ⟨allKeep_cons hKeeps rfl, rfl⟩
      · obtain ⟨⟨more, named, rest₂⟩, hMore, h⟩ := Option.bind_eq_some_iff.mp h
        cases h
        obtain ⟨hArguments, hNamed⟩ := allKeep_arguments fuel _ hMore
        exact ⟨allKeep_cons hKeeps hArguments, hNamed⟩
      · cases h

end

theorem keeps_wholeExpr {ts : List Token} {e : Expr} (h : wholeExpr? ts = some e) :
    e.keeps plain = true := by
  unfold wholeExpr? at h
  split at h
  · rename_i hExpr
    cases h
    exact keeps_expr _ ts hExpr
  · cases h

/-! ## Items -/

theorem allKeep_item_cons {item : Item} {rest : List Item} (h : item.keeps plain = true)
    (hRest : Item.allKeep plain rest = true) : Item.allKeep plain (item :: rest) = true := by
  rw [Item.allKeep, h, hRest]
  rfl

theorem allArmsKeep_cons {condition : Expr} {items : List Item} {arms : List (Expr × List Item)}
    (h : condition.keeps plain = true) (hItems : Item.allKeep plain items = true)
    (hArms : Item.allArmsKeep plain arms = true) :
    Item.allArmsKeep plain ((condition, items) :: arms) = true := by
  rw [Item.allArmsKeep, h, hItems, hArms]
  rfl

mutual

theorem allKeep_body : ∀ (fuel : Nat) (segments : List Segment) {items : List Item}
    {rest : List Segment}, body? fuel segments = some (items, rest) →
      Item.allKeep plain items = true
  | 0, _, _, _, h => nomatch h
  | _ + 1, [], _, _, h => by
    rw [body?] at h
    cases h
    rfl
  | fuel + 1, segment :: segments, _, _, h => by
    rw [body?.eq_def] at h
    dsimp only at h
    split at h
    · obtain ⟨⟨more, rest₁⟩, hMore, h⟩ := Option.bind_eq_some_iff.mp h
      cases h
      exact allKeep_item_cons rfl (allKeep_body fuel segments hMore)
    · obtain ⟨e, hExpr, h⟩ := Option.bind_eq_some_iff.mp h
      obtain ⟨⟨more, rest₁⟩, hMore, h⟩ := Option.bind_eq_some_iff.mp h
      cases h
      refine allKeep_item_cons ?_ (allKeep_body fuel segments hMore)
      rw [Item.keeps, keeps_wholeExpr hExpr]
      rfl
    · split at h
      · cases h
      · obtain ⟨e, hExpr, h⟩ := Option.bind_eq_some_iff.mp h
        obtain ⟨⟨more, rest₁⟩, hMore, h⟩ := Option.bind_eq_some_iff.mp h
        cases h
        exact allKeep_item_cons (keeps_wholeExpr hExpr) (allKeep_body fuel segments hMore)
    · split at h
      · cases h
      · obtain ⟨source, hSource, h⟩ := Option.bind_eq_some_iff.mp h
        obtain ⟨⟨inside, rest₁⟩, hInside, h⟩ := Option.bind_eq_some_iff.mp h
        dsimp only at h
        split at h
        · obtain ⟨⟨more, rest₂⟩, hMore, h⟩ := Option.bind_eq_some_iff.mp h
          cases h
          refine allKeep_item_cons ?_ (allKeep_body fuel _ hMore)
          rw [Item.keeps, keeps_wholeExpr hSource, allKeep_body fuel segments hInside]
          rfl
        · cases h
    · obtain ⟨⟨arms, otherwise, rest₁⟩, hArms, h⟩ := Option.bind_eq_some_iff.mp h
      obtain ⟨⟨more, rest₂⟩, hMore, h⟩ := Option.bind_eq_some_iff.mp h
      cases h
      obtain ⟨hArmsKeep, hOtherwise⟩ := allArmsKeep_arms fuel _ segments hArms
      refine allKeep_item_cons ?_ (allKeep_body fuel rest₁ hMore)
      rw [Item.keeps, hArmsKeep, hOtherwise]
      rfl
    · split at h
      · cases h
        rfl
      · cases h
    · cases h

theorem allArmsKeep_arms : ∀ (fuel : Nat) (ts : List Token) (segments : List Segment)
    {arms : List (Expr × List Item)} {otherwise : List Item} {rest : List Segment},
    arms? fuel ts segments = some (arms, otherwise, rest) →
      Item.allArmsKeep plain arms = true ∧ Item.allKeep plain otherwise = true
  | 0, _, _, _, _, _, h => nomatch h
  | fuel + 1, ts, segments, _, _, _, h => by
    rw [arms?] at h
    obtain ⟨condition, hCondition, h⟩ := Option.bind_eq_some_iff.mp h
    obtain ⟨⟨items, rest₁⟩, hItems, h⟩ := Option.bind_eq_some_iff.mp h
    have hKeeps := keeps_wholeExpr hCondition
    have hKeeps' := allKeep_body fuel segments hItems
    dsimp only at h
    split at h
    · cases h
      exact ⟨allArmsKeep_cons hKeeps hKeeps' rfl, rfl⟩
    · obtain ⟨⟨arms, otherwise, rest₂⟩, hArms, h⟩ := Option.bind_eq_some_iff.mp h
      cases h
      obtain ⟨hMore, hOtherwise⟩ := allArmsKeep_arms fuel _ _ hArms
      exact ⟨allArmsKeep_cons hKeeps hKeeps' hMore, hOtherwise⟩
    · obtain ⟨⟨otherwise, rest₂⟩, hOtherwise, h⟩ := Option.bind_eq_some_iff.mp h
      dsimp only at h
      split at h
      · cases h
        exact ⟨allArmsKeep_cons hKeeps hKeeps' rfl, allKeep_body fuel _ hOtherwise⟩
      · cases h
    · cases h

end

/-! ## Frames -/

mutual

theorem keeps_framedItem : ∀ (outer : List String) (item : Item), item.keeps plain = true →
    (framedItem outer item).keeps plain = true
  | outer, .each name source items, h => by
    rw [Item.keeps, Bool.and_eq_true] at h
    rw [framedItem, Item.keeps, h.1, Item.allKeep, allKeep_framedItems _ items h.2]
    rfl
  | outer, .branch arms otherwise, h => by
    rw [Item.keeps, Bool.and_eq_true] at h
    rw [framedItem, Item.keeps, allArmsKeep_framedArms outer arms h.1,
      allKeep_framedItems outer otherwise h.2]
    rfl
  | _, .text _, h | _, .emit _, h | _, .bind _ _, h | _, .forget _, h => h

theorem allKeep_framedItems : ∀ (outer : List String) (items : List Item),
    Item.allKeep plain items = true → Item.allKeep plain (framedItems outer items) = true
  | _, [], _ => rfl
  | outer, item :: rest, h => by
    rw [Item.allKeep, Bool.and_eq_true] at h
    exact allKeep_item_cons (keeps_framedItem outer item h.1) (allKeep_framedItems outer rest h.2)

theorem allArmsKeep_framedArms : ∀ (outer : List String) (arms : List (Expr × List Item)),
    Item.allArmsKeep plain arms = true → Item.allArmsKeep plain (framedArms outer arms) = true
  | _, [], _ => rfl
  | outer, (condition, items) :: rest, h => by
    rw [Item.allArmsKeep, Bool.and_eq_true, Bool.and_eq_true] at h
    exact allArmsKeep_cons h.1.1 (allKeep_framedItems outer items h.1.2)
      (allArmsKeep_framedArms outer rest h.2)

end

theorem allKeep_withFrames {own : Value} {items : List Item} (hOwn : own.isData = true)
    (h : Item.allKeep plain items = true) : Item.allKeep plain (withFrames own items) = true := by
  unfold withFrames
  split
  · exact allKeep_item_cons hOwn (allKeep_item_cons rfl (allKeep_framedItems _ items h))
  · exact allKeep_item_cons rfl (allKeep_framedItems _ items h)

/-- The literals of a body that is read from a text are data. -/
theorem allKeep_of_read {own : Value} {s : String} {items : List Item} (hOwn : own.isData = true)
    (h : Braces.read own s = .ok items) : Item.allKeep plain items = true := by
  unfold Braces.read at h
  split at h
  · cases h
  · rename_i found hFound
    split at h
    · cases h
    · cases h
      refine allKeep_withFrames hOwn ?_
      unfold read? at hFound
      obtain ⟨segments, -, hFound⟩ := Option.bind_eq_some_iff.mp hFound
      obtain ⟨⟨read, rest⟩, hBody, hFound⟩ := Option.bind_eq_some_iff.mp hFound
      split at hFound
      · rename_i hWhole
        cases hFound
        cases hWhole
        exact allKeep_body _ segments hBody
      · cases hFound

/-! ## Files -/

/-- The bodies of a site have plain literals. -/
def PlainBodies (files : FileTree Source) : Prop :=
  ∀ place items, bodyAt files place = .ok items → Item.allKeep plain items = true

/-- The bodies of a site that are written as items have plain literals. -/
def PlainItems (files : FileTree Source) : Prop :=
  ∀ place items, files.get? place = some (.items items) → Item.allKeep plain items = true

theorem PlainItems.bodies {files : FileTree Source} (h : PlainItems files) : PlainBodies files := by
  intro place items hBody
  unfold bodyAt at hBody
  split at hBody
  · rename_i found hFound
    cases hBody
    exact h place items hFound
  · exact allKeep_of_read rfl hBody
  · cases hBody

end PageBlocks.Transparency
