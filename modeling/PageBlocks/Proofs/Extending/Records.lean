import PageBlocks.Proofs.Extending.Faults
import PageBlocks.Proofs.Upkeep.Evaluation

/-!
# Records of the calls that a body makes

A body is run a second time with a handler that takes down every call at the moment at which it is
made (`recorder`). The record tells everything about the run that calls are responsible for
(`Tells`): the run reports a cycle if and only if one of the recorded calls does, and it stays the
same with another way of carrying out calls that agrees on the recorded ones.

That holds of every body that keeps to rules (`tells_runAll`), with loops, branches and calls inside
of expressions, by one induction over its syntax.
-/

set_option autoImplicit false

namespace PageBlocks.Extending

open PageBlocks.Body PageBlocks.Running PageBlocks.Site PageBlocks.Upkeep

/-! ## Recording -/

/-- A call at the moment at which it is made. -/
structure Moment where
  site : World
  callee : Value
  arguments : List Value
  named : List (String × Value)

/-- What comes of a call. -/
def Moment.outcome (h : Handler SiteM) (m : Moment) : Except Fault Value × World :=
  (h.call m.callee m.arguments m.named).run m.site

/-- Computations of a site that take down calls, latest last. -/
abbrev RecordM := Run (World × List Moment)

/-- A computation during which nothing is taken down. -/
def unrecorded {α : Type} (x : SiteM α) : RecordM α :=
  ExceptT.mk fun s => ((x.run s.1).1, ((x.run s.1).2, s.2))

/-- Take down every call and then carry it out. -/
def recorder (h : Handler SiteM) : Handler RecordM where
  dialect := h.dialect
  call := fun callee arguments named => do
    modify fun s => (s.1, s.2 ++ [⟨s.1, callee, arguments, named⟩])
    unrecorded (h.call callee arguments named)
  write := fun s => unrecorded (h.write s)

/-! ## What a record tells -/

/-- The run of a page's body under watch: an invariant of the site, the rules of the body, the page,
the directives that its body calls by their names only, how calls are carried out, and another way
of doing so. -/
structure Watch where
  holds : World → Prop
  rules : Rules
  page : Nat
  named : String → Prop
  handler : Handler SiteM
  other : Handler SiteM

/-- A call that a body may make: the invariant holds, and what is called may be anywhere or is a
directive of the page itself, called by its name. -/
structure Watch.Proper (c : Watch) (m : Moment) : Prop where
  holds : c.holds m.site
  callee : c.rules.fits m.callee = true
    ∨ ∃ name, c.named name ∧ m.callee = .directive c.page name

/-- A run of a computation `x`, the run of `x'` with the other way of carrying out calls, and the
record that `y` makes of the calls of `x`. -/
structure Told (c : Watch) {α : Type} (x x' : SiteM α) (y : RecordM α) (well : α → World → Prop)
    (w : World) (calls : List Moment) : Prop where
  recorded : ∀ before, y.run (w, before) = ((x.run w).1, (x.run w).2, before ++ calls)
  ends : Ends x w well c.holds
  proper : ∀ m ∈ calls, c.Proper m
  /-- A cycle is reported exactly by the calls that the run makes. -/
  cycle : ∀ texts, cycleOf (x.run w).1 = some texts
    ↔ ∃ m ∈ calls, cycleOf (m.outcome c.handler).1 = some texts
  agree : (∀ m ∈ calls, m.outcome c.other = m.outcome c.handler) → x'.run w = x.run w

/-- Wherever the invariant holds, the record tells about the run. -/
def Tells (c : Watch) {α : Type} (x x' : SiteM α) (y : RecordM α) (post : α → Prop) : Prop :=
  ∀ w, c.holds w → ∃ calls, Told c x x' y (fun a w' => post a ∧ c.holds w') w calls

section Combinators

variable {c : Watch} {α β : Type}

theorem run_unrecorded (x : SiteM α) (w : World) (before : List Moment) :
    (unrecorded x).run (w, before) = ((x.run w).1, (x.run w).2, before) := rfl

/-- Nothing is told about a computation that makes no calls but how it ends. -/
theorem told_of_spares {x : SiteM α} {y : RecordM α} {well : α → World → Prop} {w : World}
    (hRecorded : ∀ before, y.run (w, before) = ((x.run w).1, (x.run w).2, before))
    (hEnds : Ends x w well c.holds) (hSpares : cycleOf (x.run w).1 = none) :
    Told c x x y well w [] := by
  refine ⟨fun before => ?_, hEnds, fun _ hMem => absurd hMem List.not_mem_nil, fun texts => ?_,
    fun _ => rfl⟩
  · rw [List.append_nil]
    exact hRecorded before
  · rw [hSpares]
    constructor
    · intro h
      cases h
    · rintro ⟨m, hMem, -⟩
      exact absurd hMem List.not_mem_nil

theorem Told.bind {x x' : SiteM α} {y : RecordM α} {f f' : α → SiteM β} {g : α → RecordM β}
    {mid : α → World → Prop} {well : β → World → Prop} {w : World} {calls : List Moment}
    (h : Told c x x' y mid w calls)
    (hNext : ∀ a w', mid a w' → ∃ more, Told c (f a) (f' a) (g a) well w' more) :
    ∃ all, Told c (x >>= f) (x' >>= f') (y >>= g) well w all := by
  rcases hRun : x.run w with ⟨fault | a, w'⟩
  · -- the rest is not reached
    have hFails : (x >>= f).run w = (.error fault, w') := run_bind_of_error hRun f
    have hCycle : cycleOf (.error fault : Except Fault β) = cycleOf (x.run w).1 := by
      rw [hRun]
      exact cycleOf_error fault
    refine ⟨calls, fun before => ?_, ends_of_run_error hFails (h.ends.of_run_error hRun), h.proper,
      fun texts => ?_, fun hAgree => ?_⟩
    · have hFirst := h.recorded before
      rw [hRun] at hFirst
      rw [run_bind_of_error hFirst, hFails]
    · rw [hFails, hCycle]
      exact h.cycle texts
    · have hOther := h.agree hAgree
      rw [hRun] at hOther
      rw [hFails, run_bind_of_error hOther]
  · obtain ⟨more, hMore⟩ := hNext a w' (h.ends.of_run hRun)
    have hGoes : (x >>= f).run w = (f a).run w' := run_bind_of_ok hRun f
    have hQuiet : ∀ m ∈ calls, cycleOf (m.outcome c.handler).1 = none := by
      intro m hMem
      cases hCycle : cycleOf (m.outcome c.handler).1 with
      | none => rfl
      | some texts =>
        have hEarly := (h.cycle texts).mpr ⟨m, hMem, hCycle⟩
        rw [hRun] at hEarly
        cases hEarly
    refine ⟨calls ++ more, fun before => ?_, ?_, fun m hMem => ?_, fun texts => ?_,
      fun hAgree => ?_⟩
    · have hFirst := h.recorded before
      rw [hRun] at hFirst
      rw [run_bind_of_ok hFirst, hMore.recorded, hGoes, List.append_assoc]
    · unfold Ends
      rw [hGoes]
      exact hMore.ends
    · rcases List.mem_append.mp hMem with hOld | hNew
      · exact h.proper m hOld
      · exact hMore.proper m hNew
    · rw [hGoes, hMore.cycle texts]
      constructor
      · rintro ⟨m, hMem, hCycle⟩
        exact ⟨m, List.mem_append_right _ hMem, hCycle⟩
      · rintro ⟨m, hMem, hCycle⟩
        rcases List.mem_append.mp hMem with hOld | hNew
        · rw [hQuiet m hOld] at hCycle
          cases hCycle
        · exact ⟨m, hNew, hCycle⟩
    · have hOther := h.agree fun m hMem => hAgree m (List.mem_append_left _ hMem)
      rw [hRun] at hOther
      rw [hGoes, run_bind_of_ok hOther]
      exact hMore.agree fun m hMem => hAgree m (List.mem_append_right _ hMem)

variable {post mid : α → Prop}

theorem tells_of_spares {x : SiteM α} {y : RecordM α}
    (hRecorded : ∀ w before, y.run (w, before) = ((x.run w).1, (x.run w).2, before))
    (hUpholds : Upholds c.holds x post) (hSpares : Spares x) : Tells c x x y post :=
  fun w hHolds => ⟨[], told_of_spares (hRecorded w) (hUpholds w hHolds) (hSpares w)⟩

theorem tells_pure {a : α} (h : post a) :
    Tells c (pure a) (pure a) (pure a) post :=
  tells_of_spares (fun _ _ => rfl) (upholds_pure h) (spares_pure a)

theorem tells_throw {fault : Fault} (h : cycleOf (.error fault : Except Fault α) = none) :
    Tells c (throw fault : SiteM α) (throw fault) (throw fault) post :=
  tells_of_spares (fun _ _ => rfl) (upholds_throw fault) (spares_throw h)

theorem tells_unrecorded {x : SiteM α} (hUpholds : Upholds c.holds x post) (hSpares : Spares x) :
    Tells c x x (unrecorded x) post :=
  tells_of_spares (fun _ _ => rfl) hUpholds hSpares

theorem Tells.bind {x x' : SiteM α} {y : RecordM α} {f f' : α → SiteM β} {g : α → RecordM β}
    {post : β → Prop} (h : Tells c x x' y mid)
    (hNext : ∀ a, mid a → Tells c (f a) (f' a) (g a) post) :
    Tells c (x >>= f) (x' >>= f') (y >>= g) post := by
  intro w hHolds
  obtain ⟨calls, hTold⟩ := h w hHolds
  exact hTold.bind fun a w' hMid => hNext a hMid.1 w' hMid.2

theorem Tells.seq {x x' : SiteM α} {y : RecordM α} {f f' : α → SiteM β} {g : α → RecordM β}
    {post : β → Prop} (h : Tells c x x' y fun _ => True)
    (hNext : ∀ a, Tells c (f a) (f' a) (g a) post) :
    Tells c (x >>= f) (x' >>= f') (y >>= g) post :=
  h.bind fun a _ => hNext a

/-- A call is taken down. -/
theorem tells_call {callee : Value} {arguments : List Value} {named : List (String × Value)}
    {post : Value → Prop}
    (hCallee : c.rules.fits callee = true
      ∨ ∃ name, c.named name ∧ callee = .directive c.page name)
    (hUpholds : Upholds c.holds (c.handler.call callee arguments named) post) :
    Tells c (c.handler.call callee arguments named) (c.other.call callee arguments named)
      ((recorder c.handler).call callee arguments named) post := by
  intro w hHolds
  refine ⟨[⟨w, callee, arguments, named⟩], fun _ => rfl, hUpholds w hHolds, fun m hMem => ?_,
    fun texts => ?_, fun hAgree => ?_⟩
  · rw [List.mem_singleton] at hMem
    subst hMem
    exact ⟨hHolds, hCallee⟩
  · constructor
    · exact fun hCycle => ⟨_, List.mem_singleton_self _, hCycle⟩
    · rintro ⟨m, hMem, hCycle⟩
      rw [List.mem_singleton] at hMem
      subst hMem
      exact hCycle
  · exact hAgree _ (List.mem_singleton_self _)

end Combinators

/-! ## Bodies -/

/-- What the calls and the output of a page have to do so that a record tells about its body. -/
structure Watch.Reports (c : Watch) : Prop where
  closed : Closed c.rules.fits
  dialect : c.other.dialect = c.handler.dialect
  output : c.other.write = c.handler.write
  call : ∀ {callee : Value} {arguments : List Value} {named : List (String × Value)},
    c.rules.fits callee = true → (∀ v ∈ arguments, c.rules.fits v = true) →
      NamedFit c.rules.fits named →
        Upholds c.holds (c.handler.call callee arguments named) fun v => c.rules.fits v = true
  write : ∀ s, Upholds c.holds (c.handler.write s) fun _ => True
  spares : ∀ s, Spares (c.handler.write s)
  special : ∀ {e : Expr} {scope : Scope}, c.rules.special e = true →
    ScopeFits c.rules c.page scope → Tells c (e.eval c.handler scope) (e.eval c.other scope)
      (e.eval (recorder c.handler) scope) fun v => c.rules.fits v = true
  shown : ∀ {e : Expr} {scope : Scope}, c.rules.shown e = true →
    ScopeFits c.rules c.page scope → Tells c (e.eval c.handler scope) (e.eval c.other scope)
      (e.eval (recorder c.handler) scope) fun _ => True

section Bodies

variable {c : Watch} {scope : Scope}

theorem tells_write (hReports : c.Reports) (s : String) :
    Tells c (c.handler.write s) (c.other.write s) ((recorder c.handler).write s) fun _ => True := by
  rw [hReports.output]
  exact tells_unrecorded (hReports.write s) (hReports.spares s)

theorem tells_mapOf (hClosed : Closed c.rules.fits) {entries : List (Value × Value)}
    (h : BindingsFit c.rules.fits entries) :
    Tells c (mapOf entries) (mapOf entries) (mapOf entries) fun v => c.rules.fits v = true := by
  unfold mapOf
  split
  · exact tells_pure ((hClosed.map _).mpr (bindingsFit_nil.merge h))
  · exact tells_throw rfl

mutual

theorem tells_eval (hReports : c.Reports) (hScope : ScopeFits c.rules c.page scope) :
    ∀ e : Expr, e.keeps c.rules = true →
      Tells c (e.eval c.handler scope) (e.eval c.other scope) (e.eval (recorder c.handler) scope)
        fun v => c.rules.fits v = true
  | .literal v, h => by
    simp only [Expr.eval]
    exact tells_pure h
  | .name s, h => by
    simp only [Expr.eval, recorder, hReports.dialect]
    exact tells_pure (hScope.getD hReports.closed h _)
  | .call f arguments named, h => by
    simp only [Expr.keeps, Bool.or_eq_true, Bool.and_eq_true] at h
    rcases h with hSpecial | ⟨⟨hCallee, hArguments⟩, hNamed⟩
    · exact hReports.special hSpecial hScope
    · simp only [Expr.eval, hReports.dialect]
      have hDialect : (recorder c.handler).dialect = c.handler.dialect := rfl
      rw [hDialect]
      split
      · exact tells_throw rfl
      · refine (tells_eval hReports hScope f hCallee).bind fun callee hCallee => ?_
        refine (tells_evalAll hReports hScope arguments hArguments).bind fun values hValues => ?_
        refine (tells_evalNamed hReports hScope named hNamed).bind fun bound hBound => ?_
        split
        · exact tells_throw rfl
        · exact tells_call (.inl hCallee) (hReports.call hCallee hValues hBound)
  | .join parts, h => by
    simp only [Expr.eval, recorder, hReports.dialect]
    refine (tells_evalAll hReports hScope parts h).bind fun values hValues => tells_pure ?_
    refine hReports.closed.join _ fun s hMem => ?_
    obtain ⟨v, hv, rfl⟩ := List.mem_map.mp hMem
    exact hReports.closed.joinedText _ (hValues v hv)
  | .list items, h => by
    simp only [Expr.eval]
    refine (tells_evalAll hReports hScope items h).bind fun values hValues => tells_pure ?_
    exact (hReports.closed.list values).mpr hValues
  | .map entries, h => by
    simp only [Expr.eval]
    refine (tells_evalEntries hReports hScope entries h).bind fun found hFound => ?_
    exact tells_mapOf hReports.closed hFound

theorem tells_evalAll (hReports : c.Reports) (hScope : ScopeFits c.rules c.page scope) :
    ∀ es : List Expr, Expr.allKeep c.rules es = true →
      Tells c (evalAll c.handler scope es) (evalAll c.other scope es)
        (evalAll (recorder c.handler) scope es) fun values => ∀ v ∈ values, c.rules.fits v = true
  | [], _ => by
    simp only [evalAll]
    exact tells_pure fun _ hMem => absurd hMem List.not_mem_nil
  | e :: rest, h => by
    simp only [Expr.allKeep, Bool.and_eq_true] at h
    simp only [evalAll]
    refine (tells_eval hReports hScope e h.1).bind fun v hValue => ?_
    refine (tells_evalAll hReports hScope rest h.2).bind fun values hValues => tells_pure ?_
    exact List.forall_mem_cons.mpr ⟨hValue, hValues⟩

theorem tells_evalNamed (hReports : c.Reports) (hScope : ScopeFits c.rules c.page scope) :
    ∀ named : List (String × Expr), Expr.allNamedKeep c.rules named = true →
      Tells c (evalNamed c.handler scope named) (evalNamed c.other scope named)
        (evalNamed (recorder c.handler) scope named) (NamedFit c.rules.fits)
  | [], _ => by
    simp only [evalNamed]
    exact tells_pure fun _ hMem => absurd hMem List.not_mem_nil
  | (word, e) :: rest, h => by
    simp only [Expr.allNamedKeep, Bool.and_eq_true] at h
    simp only [evalNamed]
    refine (tells_eval hReports hScope e h.1.2).bind fun v hValue => ?_
    refine (tells_evalNamed hReports hScope rest h.2).bind fun bound hBound => tells_pure ?_
    exact List.forall_mem_cons.mpr ⟨⟨h.1.1, hValue⟩, hBound⟩

theorem tells_evalEntries (hReports : c.Reports) (hScope : ScopeFits c.rules c.page scope) :
    ∀ entries : List (Expr × Expr), Expr.allEntriesKeep c.rules entries = true →
      Tells c (evalEntries c.handler scope entries) (evalEntries c.other scope entries)
        (evalEntries (recorder c.handler) scope entries) (BindingsFit c.rules.fits)
  | [], _ => by
    simp only [evalEntries]
    exact tells_pure bindingsFit_nil
  | (k, e) :: rest, h => by
    simp only [Expr.allEntriesKeep, Bool.and_eq_true] at h
    simp only [evalEntries]
    refine (tells_eval hReports hScope k h.1.1).bind fun key hKey => ?_
    refine (tells_eval hReports hScope e h.1.2).bind fun v hValue => ?_
    refine (tells_evalEntries hReports hScope rest h.2).bind fun found hFound => tells_pure ?_
    exact List.forall_mem_cons.mpr ⟨⟨hKey, hValue⟩, hFound⟩

end

theorem tells_loop {dialect : Dialect} {name : String} {run run' : Scope → SiteM Scope}
    {runRecorded : Scope → RecordM Scope} {elements : List Value} (hClosed : Closed c.rules.fits)
    (hRun : ∀ inner, ScopeFits c.rules c.page inner →
      Tells c (run inner) (run' inner) (runRecorded inner) (ScopeFits c.rules c.page))
    (hScope : ScopeFits c.rules c.page scope)
    (hElements : ∀ v ∈ elements, c.rules.fits v = true) :
    Tells c (loop dialect name run scope elements) (loop dialect name run' scope elements)
      (loop dialect name runRecorded scope elements) (ScopeFits c.rules c.page) := by
  cases dialect with
  | script =>
    unfold loop
    dsimp only
    induction elements generalizing scope with
    | nil => exact tells_pure hScope
    | cons v rest ih =>
      rw [List.forall_mem_cons] at hElements
      simp only [List.foldlM_cons]
      refine (hRun _ (hScope.insert name hElements.1)).bind fun inner hInner => ?_
      exact ih hInner hElements.2
  | braces =>
    unfold loop
    dsimp only
    refine Tells.seq ?_ fun _ => tells_pure hScope
    -- every round starts from the scope before the loop
    have hRounds : ∀ pairs : List (Value × Nat), (∀ pair ∈ pairs, c.rules.fits pair.1 = true) →
        Tells c
          (forIn pairs PUnit.unit fun pair _ => do
            let _ ← run ((scope.insert counterName (counter (pair.2 + 1) elements.length)).insert
              name pair.1)
            pure (ForInStep.yield PUnit.unit))
          (forIn pairs PUnit.unit fun pair _ => do
            let _ ← run' ((scope.insert counterName (counter (pair.2 + 1) elements.length)).insert
              name pair.1)
            pure (ForInStep.yield PUnit.unit))
          (forIn pairs PUnit.unit fun pair _ => do
            let _ ← runRecorded ((scope.insert counterName
              (counter (pair.2 + 1) elements.length)).insert name pair.1)
            pure (ForInStep.yield PUnit.unit)) fun _ => True := by
      intro pairs hPairs
      induction pairs with
      | nil => exact tells_pure trivial
      | cons pair rest ih =>
        rw [List.forall_mem_cons] at hPairs
        simp only [List.forIn_cons, bind_assoc, pure_bind]
        have hStart := (hScope.insert counterName
          (hClosed.counter (pair.2 + 1) elements.length)).insert name hPairs.1
        exact (hRun _ hStart).bind fun _ _ => ih hPairs.2
    refine hRounds elements.zipIdx fun pair hMem => ?_
    exact hElements pair.1 (List.fst_mem_of_mem_zipIdx hMem)

mutual

theorem tells_item (hReports : c.Reports) :
    ∀ (item : Item) {scope : Scope}, item.keeps c.rules = true →
      ScopeFits c.rules c.page scope →
        Tells c (item.run c.handler scope) (item.run c.other scope)
          (item.run (recorder c.handler) scope) (ScopeFits c.rules c.page)
  | .text s, scope, h, hScope => by
    simp only [Item.run]
    exact (tells_write hReports s).seq fun _ => tells_pure hScope
  | .emit e, scope, h, hScope => by
    simp only [Item.run]
    simp only [Item.keeps, Bool.or_eq_true] at h
    have hShows : ∀ v, Tells c (do
          c.handler.write (outputText v)
          return scope) (do
          c.other.write (outputText v)
          return scope) (do
          (recorder c.handler).write (outputText v)
          return scope) (ScopeFits c.rules c.page) :=
      fun v => (tells_write hReports _).seq fun _ => tells_pure hScope
    rcases h with hKeeps | hShown
    · exact (tells_eval hReports hScope e hKeeps).bind fun v _ => hShows v
    · exact (hReports.shown hShown hScope).seq hShows
  | .bind name e, scope, h, hScope => by
    simp only [Item.run]
    refine (tells_eval hReports hScope e h).bind fun v hValue => tells_pure ?_
    exact hScope.insert name hValue
  | .forget names, scope, _, hScope => by
    simp only [Item.run]
    exact tells_pure (hScope.erase names)
  | .each name source items, scope, h, hScope => by
    simp only [Item.keeps, Bool.and_eq_true] at h
    simp only [Item.run, hReports.dialect]
    refine (tells_eval hReports hScope source h.1).bind fun v hValue => ?_
    split
    · rename_i elements hElements
      exact tells_loop hReports.closed (fun inner hInner =>
        tells_runAll hReports items h.2 hInner) hScope
          (hReports.closed.elements hValue hElements)
    · exact tells_throw rfl
  | .branch arms otherwise, scope, h, hScope => by
    simp only [Item.keeps, Bool.and_eq_true] at h
    simp only [Item.run]
    exact tells_runArms hReports arms h.1 hScope (tells_runAll hReports otherwise h.2 hScope)

/-- The record of a body's calls tells about the run of the body. -/
theorem tells_runAll (hReports : c.Reports) :
    ∀ (items : List Item) {scope : Scope}, Item.allKeep c.rules items = true →
      ScopeFits c.rules c.page scope →
        Tells c (runAll c.handler scope items) (runAll c.other scope items)
          (runAll (recorder c.handler) scope items) (ScopeFits c.rules c.page)
  | [], scope, _, hScope => by
    simp only [runAll]
    exact tells_pure hScope
  | item :: rest, scope, h, hScope => by
    simp only [Item.allKeep, Bool.and_eq_true] at h
    simp only [runAll]
    refine (tells_item hReports item h.1 hScope).bind fun next hNext => ?_
    exact tells_runAll hReports rest h.2 hNext

theorem tells_runArms (hReports : c.Reports) :
    ∀ (arms : List (Expr × List Item)) {scope : Scope} {otherwise otherwise' : SiteM Scope}
      {recorded : RecordM Scope}, Item.allArmsKeep c.rules arms = true →
        ScopeFits c.rules c.page scope →
          Tells c otherwise otherwise' recorded (ScopeFits c.rules c.page) →
            Tells c (runArms c.handler scope otherwise arms)
              (runArms c.other scope otherwise' arms)
              (runArms (recorder c.handler) scope recorded arms) (ScopeFits c.rules c.page)
  | [], scope, otherwise, otherwise', recorded, _, _, hOtherwise => by
    simp only [runArms]
    exact hOtherwise
  | (condition, items) :: rest, scope, otherwise, otherwise', recorded, h, hScope, hOtherwise => by
    simp only [Item.allArmsKeep, Bool.and_eq_true] at h
    simp only [runArms]
    refine (tells_eval hReports hScope condition h.1.1).bind fun v _ => ?_
    split
    · exact tells_runAll hReports items h.1.2 hScope
    · exact tells_runArms hReports rest h.2 hScope hOtherwise

end

end Bodies

end PageBlocks.Extending
