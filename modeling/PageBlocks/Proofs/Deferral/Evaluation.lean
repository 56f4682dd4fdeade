import PageBlocks.Proofs.Deferral.Nesting
import PageBlocks.Proofs.Deferral.Roles

/-!
# Running bodies that take no text apart

A body that keeps to the roles of names is safe to run in an active page, as long as calling and
writing are: expressions have values as their forms promise (`gives_eval`, `safe_eval`), names go on
to stand for values that fit their roles (`safe_runAll`). What calls do is a parameter here
(`Serves`).
-/

set_option autoImplicit false

namespace PageBlocks.Deferral

open PageBlocks.Body PageBlocks.Number PageBlocks.Running PageBlocks.Site

/-- Whether all named arguments have clean names and values. -/
def CleanNamed (named : List (String × Value)) : Prop :=
  ∀ binding ∈ named, (Value.text binding.1).isClean = true ∧ binding.2.isClean = true

/-- The name of the transform that escapes. -/
def escapeName : Value := .text "escape"

/-- What calls and output of a page's body have to do: calls with clean data give clean data,
directives keep to their roles, and texts can be written as the page is marked. -/
structure Serves (start : World) (active : List Nat) (p : Nat) (role : String → Role)
    (handler : Handler SiteM) : Prop where
  clean : ∀ {w : World} {callee : Value} {arguments : List Value} {named : List (String × Value)},
    callee.isClean = true → Value.areClean arguments = true → CleanNamed named →
      Gives w (handler.call callee arguments named) fun v => v.isClean = true
  tame : ∀ {w : World} {callee : Value} {arguments : List Value} {named : List (String × Value)},
    Held start active w → Tame start.settings.directives (mayTag w p) p callee →
      Value.areClean arguments = true → CleanNamed named →
        Safe start active w (handler.call callee arguments named) fun v w' =>
          Tame start.settings.directives (mayTag w' p) p v
  escaping : ∀ {w : World} {name : String} {callee first : Value} {rest : List Value}
    {named : List (String × Value)},
    Held start active w → role name = .escaping →
      callee.isClean = true ∨ callee = .directive p name →
        Tame start.settings.directives (mayTag w p) p first → (∀ v ∈ rest, v = escapeName) →
          (∀ binding ∈ named, (Value.text binding.1).isClean = true ∧ binding.2 = escapeName) →
            Safe start active w (handler.call callee (first :: rest) named) fun v w' =>
              Tame start.settings.directives (mayTag w' p) p v
  write : ∀ {w : World} {s : String}, Held start active w → Laid (mayTag w p) s.toList →
    Safe start active w (handler.write s) fun _ _ => True

section Evaluation

variable {start : World} {active : List Nat} {p : Nat} {role : String → Role}
  {handler : Handler SiteM} {tags : Bool} {scope : Scope}

/-! ## Expressions without tags -/

/-- The value of a name with a role fits it. -/
theorem fits_getD (hScope : ScopeFits start.settings.directives role tags p scope) (s : String)
    (dialect : Dialect) :
    Fits start.settings.directives tags p s ((scope.get? s).getD dialect.unbound) (role s) := by
  cases hFound : scope.get? s with
  | none => exact fits_of_isClean _ (closed_isClean.unbound dialect)
  | some v => exact hScope.get? hFound

theorem clean_join (dialect : Dialect) {values : List Value} (h : Value.areClean values = true) :
    Clean (String.join (values.map dialect.joinedText)).toList := by
  rw [String.toList_join, List.flatMap_map]
  refine clean_flatMap fun v hMem => ?_
  exact isClean_text.mp (closed_isClean.joinedText dialect (areClean_iff.mp h v hMem))

theorem gives_mapOf {w : World} {entries : List (Value × Value)} (h : CleanBindings entries) :
    Gives w (mapOf entries : SiteM Value) fun v => v.isClean = true := by
  unfold mapOf
  split
  · refine gives_pure (areCleanEntries_iff.mpr ?_)
    exact cleanBindings_nil.merge h
  · exact gives_throw _

mutual

/-- An expression without tags has a clean value, and nothing else comes of it. -/
theorem gives_eval (hServes : Serves start active p role handler)
    (hScope : ScopeFits start.settings.directives role tags p scope) (w : World) :
    ∀ e : Expr, e.isClean role = true → Gives w (e.eval handler scope) fun v => v.isClean = true
  | .literal v, h => by
    rw [Expr.eval]
    exact gives_pure h
  | .name s, h => by
    rw [Expr.eval]
    have hRole : role s = .clean := by simpa [Expr.isClean] using h
    have hFits := fits_getD hScope s handler.dialect
    rw [hRole] at hFits
    exact gives_pure hFits
  | .call f arguments named, h => by
    simp only [Expr.isClean, Bool.and_eq_true] at h
    rw [Expr.eval]
    split
    · exact gives_throw _
    · refine (gives_eval hServes hScope w f h.1.1).bind fun callee hCallee => ?_
      refine (gives_evalAll hServes hScope w arguments h.1.2).bind fun values hValues => ?_
      refine (gives_evalNamed hServes hScope w named h.2).bind fun bound hBound => ?_
      split
      · exact gives_throw _
      · exact hServes.clean hCallee hValues hBound
  | .join parts, h => by
    rw [Expr.eval]
    refine (gives_evalAll hServes hScope w parts h).bind fun values hValues => ?_
    exact gives_pure (isClean_text.mpr (clean_join _ hValues))
  | .list items, h => by
    rw [Expr.eval]
    exact (gives_evalAll hServes hScope w items h).bind fun values hValues => gives_pure hValues
  | .map entries, h => by
    rw [Expr.eval]
    exact (gives_evalEntries hServes hScope w entries h).bind fun found hFound => gives_mapOf hFound

theorem gives_evalAll (hServes : Serves start active p role handler)
    (hScope : ScopeFits start.settings.directives role tags p scope) (w : World) :
    ∀ es : List Expr, Expr.areClean role es = true →
      Gives w (evalAll handler scope es) fun values => Value.areClean values = true
  | [], _ => by
    rw [evalAll]
    exact gives_pure rfl
  | e :: rest, h => by
    simp only [Expr.areClean, Bool.and_eq_true] at h
    rw [evalAll]
    refine (gives_eval hServes hScope w e h.1).bind fun v hValue => ?_
    refine (gives_evalAll hServes hScope w rest h.2).bind fun values hValues => gives_pure ?_
    simp only [Value.areClean, hValue, hValues, Bool.and_self]

theorem gives_evalNamed (hServes : Serves start active p role handler)
    (hScope : ScopeFits start.settings.directives role tags p scope) (w : World) :
    ∀ named : List (String × Expr), Expr.areNamedClean role named = true →
      Gives w (evalNamed handler scope named) CleanNamed
  | [], _ => by
    rw [evalNamed]
    exact gives_pure fun _ hMem => absurd hMem List.not_mem_nil
  | (name, e) :: rest, h => by
    simp only [Expr.areNamedClean, Bool.and_eq_true] at h
    rw [evalNamed]
    refine (gives_eval hServes hScope w e h.1.2).bind fun v hValue => ?_
    refine (gives_evalNamed hServes hScope w rest h.2).bind fun bound hBound => gives_pure ?_
    exact List.forall_mem_cons.mpr ⟨⟨h.1.1, hValue⟩, hBound⟩

theorem gives_evalEntries (hServes : Serves start active p role handler)
    (hScope : ScopeFits start.settings.directives role tags p scope) (w : World) :
    ∀ entries : List (Expr × Expr), Expr.areEntriesClean role entries = true →
      Gives w (evalEntries handler scope entries) CleanBindings
  | [], _ => by
    rw [evalEntries]
    exact gives_pure cleanBindings_nil
  | (k, e) :: rest, h => by
    simp only [Expr.areEntriesClean, Bool.and_eq_true] at h
    rw [evalEntries]
    refine (gives_eval hServes hScope w k h.1.1).bind fun key hKey => ?_
    refine (gives_eval hServes hScope w e h.1.2).bind fun v hValue => ?_
    refine (gives_evalEntries hServes hScope w rest h.2).bind fun found hFound => gives_pure ?_
    exact List.forall_mem_cons.mpr ⟨⟨hKey, hValue⟩, hFound⟩

end

/-! ## Expressions with tags -/

theorem laid_join (dialect : Dialect) {p : Nat} {values : List Value}
    (h : ∀ v ∈ values, Tame start.settings.directives tags p v) :
    Laid tags (String.join (values.map dialect.joinedText)).toList := by
  have hPart : ∀ v ∈ values, Laid tags (dialect.joinedText v).toList := by
    intro v hMem
    unfold Dialect.joinedText
    split
    · exact .nil
    · exact (h v hMem).print
  rw [String.toList_join, List.flatMap_map]
  clear h
  induction values with
  | nil => exact .nil
  | cons v rest ih =>
    rw [List.forall_mem_cons] at hPart
    rw [List.flatMap_cons]
    exact hPart.1.append (ih hPart.2)

/-- What is tame stays so. -/
theorem Tame.later {w w' : World} {v : Value} {directives : Table String Directive}
    (h : Tame directives (mayTag w p) p v) (hHeld : Held start active w) (hActive : p ∈ active)
    (hSince : Since w w') : Tame directives (mayTag w' p) p v :=
  h.mono (hSince.mayTag_mono (hHeld.found p hActive))

theorem ScopeFits.later {w w' : World} {directives : Table String Directive}
    (h : ScopeFits directives role (mayTag w p) p scope) (hHeld : Held start active w)
    (hActive : p ∈ active) (hSince : Since w w') :
    ScopeFits directives role (mayTag w' p) p scope :=
  h.mono (hSince.mayTag_mono (hHeld.found p hActive))

theorem gives_eval_of_isEscape (w : World) {e : Expr} (h : e.isEscape = true) :
    Gives w (e.eval handler scope) fun v => v = escapeName := by
  unfold Expr.isEscape at h
  split at h
  · rw [Expr.eval]
    refine gives_pure ?_
    rw [of_decide_eq_true h, escapeName]
  · cases h

/-- Arguments that name the transform that escapes do so. -/
theorem gives_evalAll_of_isEscape (w : World) {es : List Expr}
    (h : es.all Expr.isEscape = true) :
    Gives w (evalAll handler scope es) fun values => ∀ v ∈ values, v = escapeName := by
  induction es with
  | nil =>
    rw [evalAll]
    exact gives_pure fun _ hMem => absurd hMem List.not_mem_nil
  | cons e rest ih =>
    rw [List.all_cons, Bool.and_eq_true] at h
    rw [evalAll]
    refine (gives_eval_of_isEscape w h.1).bind fun v hValue => ?_
    refine (ih h.2).bind fun values hValues => gives_pure ?_
    exact List.forall_mem_cons.mpr ⟨hValue, hValues⟩

theorem gives_evalNamed_of_isEscape (w : World) {named : List (String × Expr)}
    (h : (named.all fun binding => (Value.text binding.1).isClean && binding.2.isEscape) = true) :
    Gives w (evalNamed handler scope named) fun bound =>
      ∀ binding ∈ bound, (Value.text binding.1).isClean = true ∧ binding.2 = escapeName := by
  induction named with
  | nil =>
    rw [evalNamed]
    exact gives_pure fun _ hMem => absurd hMem List.not_mem_nil
  | cons binding rest ih =>
    obtain ⟨name, e⟩ := binding
    rw [List.all_cons, Bool.and_eq_true, Bool.and_eq_true] at h
    rw [evalNamed]
    refine (gives_eval_of_isEscape w h.1.2).bind fun v hValue => ?_
    refine (ih h.2).bind fun bound hBound => gives_pure ?_
    exact List.forall_mem_cons.mpr ⟨⟨h.1.1, hValue⟩, hBound⟩

mutual

/-- A tame expression has a tame value. -/
theorem safe_eval (hServes : Serves start active p role handler) (hActive : p ∈ active) :
    ∀ (e : Expr) {w : World}, e.isTame role = true → Held start active w →
      ScopeFits start.settings.directives role (mayTag w p) p scope →
        Safe start active w (e.eval handler scope) fun v w' =>
          Tame start.settings.directives (mayTag w' p) p v
  | .literal v, w, h, hHeld, _ => by
    rw [Expr.eval]
    exact safe_pure hHeld (.clean h)
  | .name s, w, h, hHeld, hScope => by
    rw [Expr.eval]
    have hFits := fits_getD hScope s handler.dialect
    simp only [Expr.isTame, Bool.or_eq_true, decide_eq_true_eq] at h
    rcases h with hRole | hRole
    · rw [hRole] at hFits
      exact safe_pure hHeld (.clean hFits)
    · rw [hRole] at hFits
      exact safe_pure hHeld hFits
  | .call f arguments named, w, h, hHeld, hScope => by
    rw [Expr.eval]
    split
    · exact safe_throw hHeld
    simp only [Expr.isTame, Bool.or_eq_true, Bool.and_eq_true] at h
    rcases h with ⟨⟨hCallee, hArguments⟩, hNamed⟩ | ⟨⟨hCallee, hArguments⟩, hNamed⟩
    · refine Safe.bind (safe_eval hServes hActive f hCallee hHeld hScope) ?_
      intro callee w' hHeld' hSince hTame
      have hScope' := hScope.later hHeld hActive hSince
      refine Safe.bind_gives hHeld' (gives_evalAll hServes hScope' w' _ hArguments) ?_
      intro values hValues
      refine Safe.bind_gives hHeld' (gives_evalNamed hServes hScope' w' _ hNamed) ?_
      intro bound hBound
      split
      · exact safe_throw hHeld'
      · exact hServes.tame hHeld' hTame hValues hBound
    · -- the directive is called by its name, so its first argument may have tags
      obtain ⟨s, rfl, hRole⟩ : ∃ s, f = .name s ∧ role s = .escaping := by
        unfold Expr.isEscaping at hCallee
        split at hCallee
        · exact ⟨_, rfl, of_decide_eq_true hCallee⟩
        · cases hCallee
      have hFits := fits_getD hScope s handler.dialect
      rw [hRole] at hFits
      rw [Expr.eval, pure_bind]
      refine Safe.bind (safe_evalFirst hServes hActive arguments hArguments hHeld hScope) ?_
      rintro values w' hHeld' - ⟨first, rest, rfl, hFirst, hRest⟩
      refine Safe.bind_gives hHeld' (gives_evalNamed_of_isEscape w' hNamed) fun bound hBound => ?_
      split
      · exact safe_throw hHeld'
      · exact hServes.escaping hHeld' hRole hFits hFirst hRest hBound
  | .join parts, w, h, hHeld, hScope => by
    rw [Expr.eval]
    refine Safe.bind (safe_evalAll hServes hActive parts h hHeld hScope) ?_
    intro values w' hHeld' _ hValues
    exact safe_pure hHeld' (.text (laid_join _ hValues))
  | .list items, w, h, hHeld, hScope => by
    have hGives := gives_eval hServes hScope w (.list items) h
    exact (hGives.safe hHeld).mono fun v w' _ _ hClean => .clean hClean.1
  | .map entries, w, h, hHeld, hScope => by
    have hGives := gives_eval hServes hScope w (.map entries) h
    exact (hGives.safe hHeld).mono fun v w' _ _ hClean => .clean hClean.1

theorem safe_evalAll (hServes : Serves start active p role handler) (hActive : p ∈ active) :
    ∀ (es : List Expr) {w : World}, Expr.areTame role es = true → Held start active w →
      ScopeFits start.settings.directives role (mayTag w p) p scope →
        Safe start active w (evalAll handler scope es) fun values w' =>
          ∀ v ∈ values, Tame start.settings.directives (mayTag w' p) p v
  | [], w, _, hHeld, _ => by
    rw [evalAll]
    exact safe_pure hHeld fun _ hMem => absurd hMem List.not_mem_nil
  | e :: rest, w, h, hHeld, hScope => by
    simp only [Expr.areTame, Bool.and_eq_true] at h
    rw [evalAll]
    refine Safe.bind (safe_eval hServes hActive e h.1 hHeld hScope) ?_
    intro v w₁ hHeld₁ hSince₁ hValue
    have hScope₁ := hScope.later hHeld hActive hSince₁
    refine Safe.bind (safe_evalAll hServes hActive rest h.2 hHeld₁ hScope₁) ?_
    intro values w₂ hHeld₂ hSince₂ hValues
    refine safe_pure hHeld₂ (List.forall_mem_cons.mpr ⟨?_, hValues⟩)
    exact hValue.later hHeld₁ hActive hSince₂

theorem safe_evalFirst (hServes : Serves start active p role handler) (hActive : p ∈ active) :
    ∀ (es : List Expr) {w : World}, Expr.isTameFirst role es = true → Held start active w →
      ScopeFits start.settings.directives role (mayTag w p) p scope →
        Safe start active w (evalAll handler scope es) fun values w' =>
          ∃ first rest, values = first :: rest
            ∧ Tame start.settings.directives (mayTag w' p) p first ∧ ∀ v ∈ rest, v = escapeName
  | [], w, h, _, _ => by cases h
  | e :: rest, w, h, hHeld, hScope => by
    simp only [Expr.isTameFirst, Bool.and_eq_true] at h
    rw [evalAll]
    refine Safe.bind (safe_eval hServes hActive e h.1 hHeld hScope) ?_
    intro v w' hHeld' _ hValue
    refine Safe.bind_gives hHeld' (gives_evalAll_of_isEscape w' h.2) fun values hValues => ?_
    exact safe_pure hHeld' ⟨v, values, rfl, hValue, hValues⟩

end

/-! ## Items -/



/-- A loop over clean elements is safe if its rounds are. -/
theorem safe_loop {dialect : Dialect} {name : String} {run : Scope → SiteM Scope}
    (hActive : p ∈ active)
    (hRun : ∀ {w : World} {scope : Scope}, Held start active w →
      ScopeFits start.settings.directives role (mayTag w p) p scope →
        Safe start active w (run scope) fun scope' w' =>
          ScopeFits start.settings.directives role (mayTag w' p) p scope')
    {elements : List Value} (hElements : ∀ v ∈ elements, v.isClean = true) {w : World}
    (hHeld : Held start active w)
    (hScope : ScopeFits start.settings.directives role (mayTag w p) p scope) :
    Safe start active w (loop dialect name run scope elements) fun scope' w' =>
      ScopeFits start.settings.directives role (mayTag w' p) p scope' := by
  cases dialect with
  | script =>
    rw [loop]
    induction elements generalizing w scope with
    | nil => exact safe_pure hHeld hScope
    | cons v rest ih =>
      rw [List.forall_mem_cons] at hElements
      rw [List.foldlM_cons]
      have hInner := hScope.insert (fits_of_isClean (role name) hElements.1)
      refine Safe.bind (hRun hHeld hInner) fun scope' w' hHeld' _ hScope' => ?_
      exact ih hElements.2 hHeld' hScope'
  | braces =>
    rw [loop]
    generalize hRounds : elements.length = rounds
    have hPairs : ∀ pair ∈ elements.zipIdx, pair.1.isClean = true :=
      fun pair hMem => hElements pair.1 (List.fst_mem_of_mem_zipIdx hMem)
    generalize elements.zipIdx = pairs at hPairs
    -- every round starts from the scope before the loop
    induction pairs generalizing w with
    | nil => exact safe_pure hHeld hScope
    | cons pair rest ih =>
      rw [List.forall_mem_cons] at hPairs
      rw [List.forIn_cons, bind_assoc, bind_assoc]
      have hCounter := hScope.insert
        (fits_of_isClean (role counterName) (isClean_counter (pair.2 + 1) rounds))
      have hInner := hCounter.insert (fits_of_isClean (role name) hPairs.1)
      refine Safe.bind (hRun hHeld hInner) fun _ w' hHeld' hSince _ => ?_
      rw [pure_bind]
      exact ih hHeld' (hScope.later hHeld hActive hSince) hPairs.2

theorem laid_outputText {directives : Table String Directive} {v : Value}
    (h : Tame directives tags p v) : Laid tags (outputText v).toList := by
  unfold outputText
  split
  · exact .nil
  · exact h.print

mutual

/-- An item that keeps to the roles of names is safe, and they go on to stand for what fits. -/
theorem safe_item (hServes : Serves start active p role handler) (hActive : p ∈ active) :
    ∀ (item : Item) {w : World} {scope : Scope}, item.isTame role = true → Held start active w →
      ScopeFits start.settings.directives role (mayTag w p) p scope →
        Safe start active w (item.run handler scope) fun scope' w' =>
          ScopeFits start.settings.directives role (mayTag w' p) p scope'
  | .text s, w, scope, h, hHeld, hScope => by
    rw [Item.isTame] at h
    rw [Item.run]
    refine Safe.bind (hServes.write hHeld (.of_clean (clean_print h)))
      fun _ w' hHeld' hSince _ => ?_
    exact safe_pure hHeld' (hScope.later hHeld hActive hSince)
  | .emit e, w, scope, h, hHeld, hScope => by
    rw [Item.run]
    refine Safe.bind (safe_eval hServes hActive e h hHeld hScope) ?_
    intro v w₁ hHeld₁ hSince₁ hValue
    refine Safe.bind (hServes.write hHeld₁ (laid_outputText hValue)) fun _ w₂ hHeld₂ hSince₂ _ => ?_
    exact safe_pure hHeld₂ (hScope.later hHeld hActive (hSince₁.trans hSince₂))
  | .bind name e, w, scope, h, hHeld, hScope => by
    rw [Item.run]
    simp only [Item.isTame, Bool.or_eq_true, Bool.and_eq_true, decide_eq_true_eq] at h
    rcases h with hClean | ⟨hRole, hTame⟩
    · refine Safe.bind_gives hHeld (gives_eval hServes hScope w e hClean) fun v hValue => ?_
      exact safe_pure hHeld (hScope.insert (fits_of_isClean _ hValue))
    · refine Safe.bind (safe_eval hServes hActive e hTame hHeld hScope) ?_
      intro v w' hHeld' hSince hValue
      refine safe_pure hHeld' ((hScope.later hHeld hActive hSince).insert ?_)
      rw [hRole]
      exact hValue
  | .forget names, w, scope, _, hHeld, hScope => by
    rw [Item.run]
    exact safe_pure hHeld (hScope.erase names)
  | .each name source items, w, scope, h, hHeld, hScope => by
    simp only [Item.isTame, Bool.and_eq_true] at h
    rw [Item.run]
    refine Safe.bind_gives hHeld (gives_eval hServes hScope w source h.1) fun v hValue => ?_
    split
    · rename_i elements hElements
      refine safe_loop hActive ?_ (closed_isClean.elements hValue hElements) hHeld hScope
      exact safe_runAll hServes hActive items h.2
    · exact safe_throw hHeld
  | .branch arms otherwise, w, scope, h, hHeld, hScope => by
    simp only [Item.isTame, Bool.and_eq_true] at h
    rw [Item.run]
    refine safe_runArms hServes hActive arms h.1 hHeld hScope ?_
    intro w' hHeld' hScope'
    exact safe_runAll hServes hActive otherwise h.2 hHeld' hScope'

/-- So are items in order. -/
theorem safe_runAll (hServes : Serves start active p role handler) (hActive : p ∈ active) :
    ∀ (items : List Item), Item.areTame role items = true →
      ∀ {w : World} {scope : Scope}, Held start active w →
        ScopeFits start.settings.directives role (mayTag w p) p scope →
          Safe start active w (runAll handler scope items) fun scope' w' =>
            ScopeFits start.settings.directives role (mayTag w' p) p scope'
  | [], _, w, scope, hHeld, hScope => by
    rw [runAll]
    exact safe_pure hHeld hScope
  | item :: rest, h, w, scope, hHeld, hScope => by
    simp only [Item.areTame, Bool.and_eq_true] at h
    rw [runAll]
    refine Safe.bind (safe_item hServes hActive item h.1 hHeld hScope) ?_
    intro scope' w' hHeld' _ hScope'
    exact safe_runAll hServes hActive rest h.2 hHeld' hScope'

theorem safe_runArms (hServes : Serves start active p role handler) (hActive : p ∈ active) :
    ∀ (arms : List (Expr × List Item)) {w : World} {scope : Scope} {otherwise : SiteM Scope},
      Item.areArmsTame role arms = true → Held start active w →
        ScopeFits start.settings.directives role (mayTag w p) p scope →
          (∀ {w' : World}, Held start active w' →
            ScopeFits start.settings.directives role (mayTag w' p) p scope →
              Safe start active w' otherwise fun scope' w'' =>
                ScopeFits start.settings.directives role (mayTag w'' p) p scope') →
            Safe start active w (runArms handler scope otherwise arms) fun scope' w' =>
              ScopeFits start.settings.directives role (mayTag w' p) p scope'
  | [], w, scope, otherwise, _, hHeld, hScope, hOtherwise => by
    rw [runArms]
    exact hOtherwise hHeld hScope
  | (condition, items) :: rest, w, scope, otherwise, h, hHeld, hScope, hOtherwise => by
    simp only [Item.areArmsTame, Bool.and_eq_true] at h
    rw [runArms]
    refine Safe.bind (safe_eval hServes hActive condition h.1.1 hHeld hScope) ?_
    intro v w' hHeld' hSince _
    have hScope' := hScope.later hHeld hActive hSince
    split
    · exact safe_runAll hServes hActive items h.1.2 hHeld' hScope'
    · exact safe_runArms hServes hActive rest h.2 hHeld' hScope' hOtherwise

end

end Evaluation

end PageBlocks.Deferral
