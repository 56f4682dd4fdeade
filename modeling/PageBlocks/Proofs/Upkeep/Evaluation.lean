import PageBlocks.Proofs.Bodies
import PageBlocks.Proofs.Upkeep.Values

/-!
# Running bodies under an invariant

A body that keeps to rules keeps an invariant of the site up, as long as the calls and the output of
its page do (`upholds_runAll`). The rules say which values and which names a body may use anywhere;
what is to be used in some places only is named by the rules as a call that is special or as an
expression that may be shown, and is answered for by whoever states the rules (`Conducts`).
-/

set_option autoImplicit false

namespace PageBlocks

namespace Upkeep

open PageBlocks.Body PageBlocks.Running PageBlocks.Site

/-! ## Computations that keep an invariant up -/

/-- A computation keeps an invariant up, and its result is of some kind if it goes well. -/
def Upholds {α : Type} (I : World → Prop) (x : SiteM α) (post : α → Prop) : Prop :=
  ∀ w, I w → Ends x w (fun a w' => post a ∧ I w') I

section Upholds

variable {α β : Type} {I : World → Prop} {post mid : α → Prop}

theorem upholds_pure {a : α} (h : post a) : Upholds I (pure a) post :=
  fun _ hInv => ends_pure ⟨h, hInv⟩

theorem upholds_throw (fault : Fault) : Upholds I (throw fault : SiteM α) post :=
  fun _ hInv => ends_throw hInv

theorem upholds_check {x : Except Fault α} (h : ∀ a, x = .ok a → post a) :
    Upholds I (check x) post := by
  cases x with
  | ok a => exact upholds_pure (h a rfl)
  | error fault => exact upholds_throw fault

theorem Upholds.mono {x : SiteM α} {post' : α → Prop} (h : Upholds I x post)
    (hPost : ∀ a, post a → post' a) : Upholds I x post' :=
  fun w hInv => Ends.mono (h w hInv) (fun a _ hEnd => ⟨hPost a hEnd.1, hEnd.2⟩) fun _ => id

theorem Upholds.bind {x : SiteM α} {f : α → SiteM β} {post : β → Prop} (h : Upholds I x mid)
    (hNext : ∀ a, mid a → Upholds I (f a) post) : Upholds I (x >>= f) post :=
  fun w hInv => Ends.bind (h w hInv) fun a w' hMid => hNext a hMid.1 w' hMid.2

theorem Upholds.map {x : SiteM α} {f : α → β} {post : β → Prop}
    (h : Upholds I x fun a => post (f a)) : Upholds I (f <$> x) post :=
  fun w hInv => Ends.map (h w hInv)

/-- A step whose result does not matter. -/
theorem Upholds.seq {x : SiteM α} {f : α → SiteM β} {post : β → Prop}
    (h : Upholds I x fun _ => True) (hNext : ∀ a, Upholds I (f a) post) :
    Upholds I (x >>= f) post :=
  h.bind fun a _ => hNext a

theorem Upholds.bind_check {x : Except Fault α} {f : α → SiteM β} {post : β → Prop}
    (h : ∀ a, x = .ok a → Upholds I (f a) post) : Upholds I (check x >>= f) post :=
  (upholds_check fun _ hOk => hOk).bind h

/-- An invariant that a computation keeps up holds afterwards, however it ended. -/
theorem Upholds.run {x : SiteM α} (h : Upholds I x post) {w : World} (hInv : I w) :
    I (x.run w).2 := by
  rcases hRun : x.run w with ⟨fault | a, w'⟩
  · exact (h w hInv).of_run_error hRun
  · exact ((h w hInv).of_run hRun).2

/-- What a computation reads off the site may be used at once. -/
theorem Upholds.bind_get {f : World → SiteM β} {post : β → Prop}
    (h : ∀ w, I w → Ends (f w) w (fun b w' => post b ∧ I w') I) : Upholds I (get >>= f) post :=
  fun w hInv => ends_get_bind (h w hInv)

/-- What a page is at the moment may be used at once. -/
theorem Upholds.bind_page {p : Nat} {f : Page → SiteM β} {post : β → Prop}
    (h : ∀ w page, I w → w.pages[p]? = some page →
      Ends (f page) w (fun b w' => post b ∧ I w') I) : Upholds I (page p >>= f) post := by
  intro w hInv
  cases hPage : w.pages[p]? with
  | some page => exact ends_bind_of_run (run_page hPage) (h w page hInv hPage)
  | none => exact ends_bind_of_run_error (run_page_error hPage) hInv

end Upholds

end Upkeep

/-! ## Rules for bodies -/

/-- Rules for what bodies may use. -/
structure Rules where
  /-- The values that may be anywhere. -/
  fits : Value → Bool
  /-- The names that may be used anywhere. -/
  free : String → Bool
  /-- The calls that are allowed although what they call or are called with is not. -/
  special : Body.Expr → Bool := fun _ => false
  /-- The expressions that may be printed and nothing else. -/
  shown : Body.Expr → Bool := fun _ => false

namespace Body

namespace Expr

mutual

/-- Whether an expression keeps to rules. -/
def keeps (r : Rules) : Expr → Bool
  | literal v => r.fits v
  | name s => r.free s
  | call f arguments named =>
    r.special (call f arguments named)
      || (f.keeps r && allKeep r arguments && allNamedKeep r named)
  | join parts => allKeep r parts
  | list items => allKeep r items
  | map entries => allEntriesKeep r entries

/-- Whether all expressions keep to rules. -/
def allKeep (r : Rules) : List Expr → Bool
  | [] => true
  | e :: rest => e.keeps r && allKeep r rest

/-- Whether all named arguments keep to rules. -/
def allNamedKeep (r : Rules) : List (String × Expr) → Bool
  | [] => true
  | (word, e) :: rest => r.fits (.text word) && e.keeps r && allNamedKeep r rest

/-- Whether all keys and values of map entries keep to rules. -/
def allEntriesKeep (r : Rules) : List (Expr × Expr) → Bool
  | [] => true
  | (k, e) :: rest => k.keeps r && e.keeps r && allEntriesKeep r rest

end

end Expr

namespace Item

mutual

/-- Whether an item keeps to rules. -/
def keeps (r : Rules) : Item → Bool
  | text s => r.fits (.text s)
  | emit e => e.keeps r || r.shown e
  | bind _ e => e.keeps r
  | forget _ => true
  | each _ source items => source.keeps r && allKeep r items
  | branch arms otherwise => allArmsKeep r arms && allKeep r otherwise

/-- Whether all items keep to rules. -/
def allKeep (r : Rules) : List Item → Bool
  | [] => true
  | item :: rest => item.keeps r && allKeep r rest

/-- Whether all conditions and the items behind them keep to rules. -/
def allArmsKeep (r : Rules) : List (Expr × List Item) → Bool
  | [] => true
  | (condition, items) :: rest => condition.keeps r && allKeep r items && allArmsKeep r rest

end

end Item

end Body

namespace Upkeep

open PageBlocks.Body PageBlocks.Running PageBlocks.Site

/-- Names stand for values that may be anywhere, or, where they are not free themselves, for the
directives of their names. -/
def ScopeFits (r : Rules) (p : Nat) (scope : Scope) : Prop :=
  ∀ entry ∈ scope, r.fits entry.2 = true
    ∨ r.free entry.1 = false ∧ entry.2 = .directive p entry.1

/-- What the calls and the output of a page have to do so that its body keeps an invariant up. -/
structure Conducts (I : World → Prop) (r : Rules) (p : Nat) (handler : Handler SiteM) : Prop where
  closed : Closed r.fits
  call : ∀ {callee : Value} {arguments : List Value} {named : List (String × Value)},
    r.fits callee = true → (∀ v ∈ arguments, r.fits v = true) → NamedFit r.fits named →
      Upholds I (handler.call callee arguments named) fun v => r.fits v = true
  write : ∀ {s : String}, r.fits (.text s) = true → Upholds I (handler.write s) fun _ => True
  special : ∀ {e : Expr} {scope : Scope}, r.special e = true → ScopeFits r p scope →
    Upholds I (e.eval handler scope) fun v => r.fits v = true
  shown : ∀ {e : Expr} {scope : Scope}, r.shown e = true → ScopeFits r p scope →
    Upholds I (do
      let v ← e.eval handler scope
      handler.write (outputText v)) fun _ => True

section Evaluation

variable {I : World → Prop} {r : Rules} {p : Nat} {handler : Handler SiteM} {scope : Scope}

/-! ## Scopes -/

namespace ScopeFits

theorem insert (h : ScopeFits r p scope) (name : String) {v : Value} (hValue : r.fits v = true) :
    ScopeFits r p (scope.insert name v) := by
  intro entry hMem
  rcases Table.eq_or_mem_of_mem_insert hMem with rfl | hOld
  · exact .inl hValue
  · exact h entry hOld

theorem erase (h : ScopeFits r p scope) (names : List String) :
    ScopeFits r p (names.foldl Table.erase scope) := by
  induction names generalizing scope with
  | nil => exact h
  | cons name names ih => exact ih fun entry hMem => h entry (Table.mem_of_mem_erase hMem)

/-- A free name stands for a value that may be anywhere. -/
theorem getD (h : ScopeFits r p scope) (hClosed : Closed r.fits) {name : String}
    (hFree : r.free name = true) (dialect : Dialect) :
    r.fits ((scope.get? name).getD dialect.unbound) = true := by
  cases hFound : scope.get? name with
  | none => exact hClosed.unbound dialect
  | some v =>
    rcases h (name, v) (Table.mem_of_get?_eq_some hFound) with hFits | ⟨hBound, -⟩
    · exact hFits
    · rw [hFree] at hBound
      cases hBound

end ScopeFits

/-! ## Expressions -/

theorem upholds_mapOf (hClosed : Closed r.fits) {entries : List (Value × Value)}
    (h : BindingsFit r.fits entries) :
    Upholds I (mapOf entries : SiteM Value) fun v => r.fits v = true := by
  unfold mapOf
  split
  · exact upholds_pure ((hClosed.map _).mpr (bindingsFit_nil.merge h))
  · exact upholds_throw _

mutual

/-- An expression that keeps to the rules has a value that may be anywhere. -/
theorem upholds_eval (hConducts : Conducts I r p handler) (hScope : ScopeFits r p scope) :
    ∀ e : Expr, e.keeps r = true → Upholds I (e.eval handler scope) fun v => r.fits v = true
  | .literal v, h => by
    rw [Expr.eval]
    exact upholds_pure h
  | .name s, h => by
    rw [Expr.eval]
    exact upholds_pure (hScope.getD hConducts.closed h _)
  | .call f arguments named, h => by
    simp only [Expr.keeps, Bool.or_eq_true, Bool.and_eq_true] at h
    rcases h with hSpecial | ⟨⟨hCallee, hArguments⟩, hNamed⟩
    · exact hConducts.special hSpecial hScope
    · rw [Expr.eval]
      split
      · exact upholds_throw _
      · refine (upholds_eval hConducts hScope f hCallee).bind fun callee hCallee => ?_
        refine (upholds_evalAll hConducts hScope arguments hArguments).bind fun values hValues => ?_
        refine (upholds_evalNamed hConducts hScope named hNamed).bind fun bound hBound => ?_
        split
        · exact upholds_throw _
        · exact hConducts.call hCallee hValues hBound
  | .join parts, h => by
    rw [Expr.eval]
    refine (upholds_evalAll hConducts hScope parts h).bind fun values hValues => upholds_pure ?_
    refine hConducts.closed.join _ fun s hMem => ?_
    obtain ⟨v, hv, rfl⟩ := List.mem_map.mp hMem
    exact hConducts.closed.joinedText _ (hValues v hv)
  | .list items, h => by
    rw [Expr.eval]
    refine (upholds_evalAll hConducts hScope items h).bind fun values hValues => upholds_pure ?_
    exact (hConducts.closed.list values).mpr hValues
  | .map entries, h => by
    rw [Expr.eval]
    refine (upholds_evalEntries hConducts hScope entries h).bind fun found hFound => ?_
    exact upholds_mapOf hConducts.closed hFound

theorem upholds_evalAll (hConducts : Conducts I r p handler) (hScope : ScopeFits r p scope) :
    ∀ es : List Expr, Expr.allKeep r es = true →
      Upholds I (evalAll handler scope es) fun values => ∀ v ∈ values, r.fits v = true
  | [], _ => by
    rw [evalAll]
    exact upholds_pure fun _ hMem => absurd hMem List.not_mem_nil
  | e :: rest, h => by
    simp only [Expr.allKeep, Bool.and_eq_true] at h
    rw [evalAll]
    refine (upholds_eval hConducts hScope e h.1).bind fun v hValue => ?_
    refine (upholds_evalAll hConducts hScope rest h.2).bind fun values hValues => upholds_pure ?_
    exact List.forall_mem_cons.mpr ⟨hValue, hValues⟩

theorem upholds_evalNamed (hConducts : Conducts I r p handler) (hScope : ScopeFits r p scope) :
    ∀ named : List (String × Expr), Expr.allNamedKeep r named = true →
      Upholds I (evalNamed handler scope named) (NamedFit r.fits)
  | [], _ => by
    rw [evalNamed]
    exact upholds_pure fun _ hMem => absurd hMem List.not_mem_nil
  | (word, e) :: rest, h => by
    simp only [Expr.allNamedKeep, Bool.and_eq_true] at h
    rw [evalNamed]
    refine (upholds_eval hConducts hScope e h.1.2).bind fun v hValue => ?_
    refine (upholds_evalNamed hConducts hScope rest h.2).bind fun bound hBound => upholds_pure ?_
    exact List.forall_mem_cons.mpr ⟨⟨h.1.1, hValue⟩, hBound⟩

theorem upholds_evalEntries (hConducts : Conducts I r p handler) (hScope : ScopeFits r p scope) :
    ∀ entries : List (Expr × Expr), Expr.allEntriesKeep r entries = true →
      Upholds I (evalEntries handler scope entries) (BindingsFit r.fits)
  | [], _ => by
    rw [evalEntries]
    exact upholds_pure bindingsFit_nil
  | (k, e) :: rest, h => by
    simp only [Expr.allEntriesKeep, Bool.and_eq_true] at h
    rw [evalEntries]
    refine (upholds_eval hConducts hScope k h.1.1).bind fun key hKey => ?_
    refine (upholds_eval hConducts hScope e h.1.2).bind fun v hValue => ?_
    refine (upholds_evalEntries hConducts hScope rest h.2).bind fun found hFound => ?_
    exact upholds_pure (List.forall_mem_cons.mpr ⟨⟨hKey, hValue⟩, hFound⟩)

end

/-! ## Loops -/

theorem upholds_loop {dialect : Dialect} {name : String} {run : Scope → SiteM Scope}
    {elements : List Value} (hClosed : Closed r.fits)
    (hRun : ∀ inner, ScopeFits r p inner → Upholds I (run inner) (ScopeFits r p))
    (hScope : ScopeFits r p scope) (hElements : ∀ v ∈ elements, r.fits v = true) :
    Upholds I (loop dialect name run scope elements) (ScopeFits r p) := by
  cases dialect with
  | script =>
    -- the rounds share one scope, which grows from round to round
    show Upholds I (elements.foldlM (fun inner v => run (inner.insert name v)) scope)
      (ScopeFits r p)
    induction elements generalizing scope with
    | nil => exact upholds_pure hScope
    | cons v rest ih =>
      rw [List.forall_mem_cons] at hElements
      rw [List.foldlM_cons]
      refine (hRun _ (hScope.insert name hElements.1)).bind fun inner hInner => ?_
      exact ih hInner hElements.2
  | braces =>
    unfold loop
    dsimp only
    refine Upholds.seq ?_ fun _ => upholds_pure hScope
    have hRounds : ∀ pairs : List (Value × Nat), (∀ pair ∈ pairs, r.fits pair.1 = true) →
        Upholds I (forIn pairs PUnit.unit fun pair _ => do
          let _ ← run ((scope.insert counterName (counter (pair.2 + 1) elements.length)).insert name
            pair.1)
          pure (ForInStep.yield PUnit.unit)) fun _ => True := by
      intro pairs hPairs
      induction pairs with
      | nil => exact upholds_pure trivial
      | cons pair rest ih =>
        rw [List.forall_mem_cons] at hPairs
        rw [List.forIn_cons, bind_assoc]
        have hStart := (hScope.insert counterName
            (hClosed.counter (pair.2 + 1) elements.length)).insert
          name hPairs.1
        refine (hRun _ hStart).bind fun _ _ => ?_
        rw [pure_bind]
        exact ih hPairs.2
    refine hRounds elements.zipIdx fun pair hMem => ?_
    exact hElements pair.1 (List.fst_mem_of_mem_zipIdx hMem)

/-! ## Items -/

mutual

/-- An item that keeps to the rules keeps the invariant up. -/
theorem upholds_item (hConducts : Conducts I r p handler) :
    ∀ (item : Item) {scope : Scope}, item.keeps r = true → ScopeFits r p scope →
      Upholds I (item.run handler scope) (ScopeFits r p)
  | .text s, scope, h, hScope => by
    rw [Item.run]
    exact (hConducts.write h).bind fun _ _ => upholds_pure hScope
  | .emit e, scope, h, hScope => by
    rw [Item.run, ← bind_assoc]
    refine Upholds.seq ?_ fun _ => upholds_pure hScope
    simp only [Item.keeps, Bool.or_eq_true] at h
    rcases h with hKeeps | hShown
    · refine (upholds_eval hConducts hScope e hKeeps).bind fun v hValue => ?_
      exact hConducts.write (hConducts.closed.outputText hValue)
    · exact hConducts.shown hShown hScope
  | .bind name e, scope, h, hScope => by
    rw [Item.run]
    refine (upholds_eval hConducts hScope e h).bind fun v hValue => upholds_pure ?_
    exact hScope.insert name hValue
  | .forget names, scope, _, hScope => by
    rw [Item.run]
    exact upholds_pure (hScope.erase names)
  | .each name source items, scope, h, hScope => by
    simp only [Item.keeps, Bool.and_eq_true] at h
    rw [Item.run]
    refine (upholds_eval hConducts hScope source h.1).bind fun v hValue => ?_
    split
    · rename_i elements hElements
      exact upholds_loop hConducts.closed (fun inner hInner =>
        upholds_runAll hConducts items h.2 hInner) hScope
          (hConducts.closed.elements hValue hElements)
    · exact upholds_throw _
  | .branch arms otherwise, scope, h, hScope => by
    simp only [Item.keeps, Bool.and_eq_true] at h
    rw [Item.run]
    exact upholds_runArms hConducts arms h.1 hScope
      (upholds_runAll hConducts otherwise h.2 hScope)

/-- A body that keeps to the rules keeps the invariant up. -/
theorem upholds_runAll (hConducts : Conducts I r p handler) :
    ∀ (items : List Item) {scope : Scope}, Item.allKeep r items = true → ScopeFits r p scope →
      Upholds I (runAll handler scope items) (ScopeFits r p)
  | [], scope, _, hScope => by
    rw [runAll]
    exact upholds_pure hScope
  | item :: rest, scope, h, hScope => by
    simp only [Item.allKeep, Bool.and_eq_true] at h
    rw [runAll]
    refine (upholds_item hConducts item h.1 hScope).bind fun next hNext => ?_
    exact upholds_runAll hConducts rest h.2 hNext

theorem upholds_runArms (hConducts : Conducts I r p handler) :
    ∀ (arms : List (Expr × List Item)) {scope : Scope} {otherwise : SiteM Scope},
      Item.allArmsKeep r arms = true → ScopeFits r p scope →
        Upholds I otherwise (ScopeFits r p) →
          Upholds I (runArms handler scope otherwise arms) (ScopeFits r p)
  | [], scope, otherwise, _, _, hOtherwise => by
    rw [runArms]
    exact hOtherwise
  | (condition, items) :: rest, scope, otherwise, h, hScope, hOtherwise => by
    simp only [Item.allArmsKeep, Bool.and_eq_true] at h
    rw [runArms]
    refine (upholds_eval hConducts hScope condition h.1.1).bind fun v _ => ?_
    split
    · exact upholds_runAll hConducts items h.1.2 hScope
    · exact upholds_runArms hConducts rest h.2 hScope hOtherwise

end

end Evaluation

end Upkeep

end PageBlocks
