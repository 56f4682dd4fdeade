import PageBlocks.Proofs.Confinement.Frames
import PageBlocks.Proofs.Extending.Preparing

/-!
# Cache flags of pages

How the output of a page is cached is told by its mode and by whether it is marked as emitting
deferred fragments (`flagsOf`). Two kinds of calls change them: one sets the mode, and one keeps
track of a text (`FlagCall`). A page that extends another one takes its mode over, and the mark if
there is one, so the calls that were made on the base count as if they had been made on the page
itself (`Flags.replay_inlined`).

Everything else that the body of a page calls leaves the flags of the page alone
(`flags_of_call_other`), as long as bodies call the functions of their own pages, or of pages that
were there before (`homely`).
-/

set_option autoImplicit false

namespace PageBlocks.Inlining

open PageBlocks.Confinement PageBlocks.Extending PageBlocks.Guards PageBlocks.Running
  PageBlocks.Site PageBlocks.Upkeep

/-! ## Calls that change flags -/

/-- How the output of a page is cached. -/
structure Flags where
  mode : CacheMode
  deferred : Bool
  deriving DecidableEq

/-- The cache flags of a page. -/
def flagsOf (page : Page) : Flags := ⟨page.mode, page.deferred⟩

/-- A call that may change how a page is cached. -/
inductive FlagCall where
  | setMode (mode : CacheMode)
  | track (text : String)

/-- Make a call on a page. -/
def FlagCall.perform (p : Nat) : FlagCall → SiteM Unit
  | setMode mode => Site.setMode p (.mode mode)
  | track text => do
    let _ ← Site.track p text

/-- Whether a call marks the page that it is made on. -/
def FlagCall.marks : FlagCall → Bool
  | setMode _ => false
  | track text => Fragment.isMarked text

/-- What a call makes of the flags of a page. -/
def Flags.after (f : Flags) : FlagCall → Flags
  | .setMode mode => { f with mode }
  | .track text =>
    if Fragment.isMarked text then
      { mode := if f.mode = .static then .dynamic else f.mode, deferred := true }
    else f

/-- What calls make of the flags of a page, one after the other. -/
def Flags.replay (f : Flags) (calls : List FlagCall) : Flags := calls.foldl Flags.after f

section Replay

variable {f : Flags} {calls more : List FlagCall} {w : World} {p : Nat}

theorem Flags.replay_append : f.replay (calls ++ more) = (f.replay calls).replay more :=
  List.foldl_append

/-- A mark stays, whatever modes are set later. -/
theorem Flags.deferred_replay :
    (f.replay calls).deferred = (f.deferred || calls.any FlagCall.marks) := by
  induction calls generalizing f with
  | nil => exact (Bool.or_false _).symm
  | cons c rest ih =>
    show ((f.after c).replay rest).deferred = _
    rw [ih, List.any_cons, ← Bool.or_assoc]
    congr 1
    cases c with
    | setMode mode => exact (Bool.or_false _).symm
    | track text =>
      unfold Flags.after FlagCall.marks
      dsimp only
      split
      · rename_i hMarked
        rw [hMarked, Bool.or_true]
      · rename_i hMarked
        rw [Bool.eq_false_iff.mpr hMarked, Bool.or_false]

/-- The mode that calls lead to depends on the mode from which they start, and not on a mark. -/
theorem Flags.mode_replay (mode : CacheMode) (deferred deferred' : Bool) :
    ((Flags.mk mode deferred).replay calls).mode
      = ((Flags.mk mode deferred').replay calls).mode := by
  induction calls generalizing mode deferred deferred' with
  | nil => rfl
  | cons c rest ih =>
    cases c with
    | setMode other => exact ih other deferred deferred'
    | track text =>
      show ((Flags.after ⟨mode, deferred⟩ (.track text)).replay rest).mode
        = ((Flags.after ⟨mode, deferred'⟩ (.track text)).replay rest).mode
      unfold Flags.after
      dsimp only
      split
      · rfl
      · exact ih mode deferred deferred'

/-- Calls on a fresh page in the mode of another one, whose flags are then joined to those of the
other one, count as calls on the other one. -/
theorem Flags.replay_inlined (f : Flags) (calls : List FlagCall) :
    f.replay calls = ⟨((Flags.mk f.mode false).replay calls).mode,
      f.deferred || ((Flags.mk f.mode false).replay calls).deferred⟩ := by
  have hMode : (f.replay calls).mode = ((Flags.mk f.mode false).replay calls).mode :=
    Flags.mode_replay f.mode f.deferred false
  rw [← hMode, Flags.deferred_replay, Bool.false_or, ← Flags.deferred_replay]

/-- A call makes of a page what it makes of its flags. -/
theorem flags_perform (c : FlagCall) (p : Nat) (w : World) :
    ((c.perform p).run w).1 = .ok () ∧ (((c.perform p).run w).2.pages[p]?).map flagsOf
      = ((w.pages[p]?).map flagsOf).map fun f => f.after c := by
  cases c with
  | setMode mode =>
    refine ⟨rfl, ?_⟩
    show ((w.pages.modify p fun page => { page with mode })[p]?).map flagsOf = _
    rw [Array.getElem?_modify, if_pos rfl, Option.map_map, Option.map_map]
    rfl
  | track text =>
    unfold FlagCall.perform track Flags.after
    dsimp only
    split
    · refine ⟨rfl, ?_⟩
      show ((w.pages.modify p fun page =>
        { page with
          deferred := true
          mode := if page.mode = .static then .dynamic else page.mode })[p]?).map flagsOf = _
      rw [Array.getElem?_modify, if_pos rfl, Option.map_map, Option.map_map]
      rfl
    · refine ⟨rfl, ?_⟩
      show (w.pages[p]?).map flagsOf = ((w.pages[p]?).map flagsOf).map fun f => f
      rw [Option.map_id']

/-- Calls on a page, one after the other, make of it what they make of its flags. -/
theorem run_perform_calls (calls : List FlagCall) (p : Nat) (w : World) :
    ∃ w', ((calls.forM (FlagCall.perform p)).run w) = (.ok (), w')
      ∧ (w'.pages[p]?).map flagsOf = ((w.pages[p]?).map flagsOf).map fun f => f.replay calls := by
  induction calls generalizing w with
  | nil => exact ⟨w, rfl, Option.map_id'.symm⟩
  | cons c rest ih =>
    obtain ⟨hDone, hFlags⟩ := flags_perform c p w
    rcases hRun : (c.perform p).run w with ⟨result, w₁⟩
    rw [hRun] at hDone hFlags
    obtain rfl := hDone
    obtain ⟨w', hRest, hFlags'⟩ := ih w₁
    refine ⟨w', (run_bind_of_ok hRun _).trans hRest, ?_⟩
    rw [hFlags', hFlags, Option.map_map]
    rfl

end Replay

/-! ## The calls that a body makes -/

/-- The output that a page keeps track of, as a call. -/
def trackOf : Except Fault Value → List FlagCall
  | .ok (.text s) => [.track s]
  | _ => []

/-- The call that sets the mode to what a value asks for. -/
def setModeOf : Except Fault (List Value) → List FlagCall
  | .ok [_, value] =>
    match modeOf value with
    | .ok mode => [.setMode mode]
    | .error _ => []
  | _ => []

/-- The base that a page extends, and the site as it is when the body of the base is about to
run. -/
def baseStart (w : World) (page : Page) : Except Fault (List Value) → Option (Nat × World)
  | .ok [name] =>
    match placeFor w page name with
    | .ok place =>
      match (baseFor page place).run w with
      | (.ok base, w₁) => some (base, w₁)
      | (.error _, _) => none
    | .error _ => none
  | _ => none

/-- The calls that the body of a base makes, given what is made while a page is prepared. -/
def baseCalls (inlined : Nat → World → List FlagCall) (w : World) (page : Page)
    (values : Except Fault (List Value)) : List FlagCall :=
  match baseStart w page values with
  | some (base, w₁) => inlined base w₁
  | none => []

/-- What a call of a directive does to the flags of its page. -/
def directiveCalls (inlined : Nat → World → List FlagCall) (w : World) (page : Page)
    (directive : Directive) (arguments : List Value) (named : Table String Value)
    (result : Except Fault Value) : List FlagCall :=
  match directive with
  | .setOption => setModeOf (bindArguments (parameters .setOption) arguments named)
  | .extendPage => baseCalls inlined w page (bindArguments (parameters .extendPage) arguments named)
  | .includePage | .deferFragment | .cachedInclude _ | .freshFetch => trackOf result
  | _ => []

/-- What a call of a body does to the flags of pages that were made from a page on. -/
def momentCalls (k : Nat) (inlined : Nat → World → List FlagCall) (prepare : Nat → SiteM Unit)
    (m : Moment) : List FlagCall :=
  let result := ((call prepare m.callee m.arguments m.named).run m.site).1
  match m.callee with
  | .directive q name =>
    if k ≤ q then
      match m.site.pages[q]? with
      | some page =>
        match page.context.directives.get? name with
        | some directive => directiveCalls inlined m.site page directive m.arguments
            (Table.ofBindings m.named) result
        | none => []
      | none => []
    else []
  | .inserter q _ => if k ≤ q then trackOf result else []
  | _ => []

/-- All calls for the flags of pages that were made from a page on, in the order in which they are
made while a page is prepared, with those of each base in the place where it is extended. -/
def flagCalls (k : Nat) : Nat → Nat → World → List FlagCall
  | 0, _, _ => []
  | depth + 1, p, w =>
    ((recordedBody (prepareFrom depth) p).run (w, [])).2.2.flatMap
      (momentCalls k (flagCalls k depth) (prepareFrom depth))

/-- The base that a call of a body makes a page extend, if it does, and the site as it is when the
body of the base is about to run. -/
def momentBase (k : Nat) (m : Moment) : Option (Nat × World) :=
  match m.callee with
  | .directive q name =>
    if k ≤ q then
      match m.site.pages[q]? with
      | some page =>
        match page.context.directives.get? name with
        | some .extendPage =>
          baseStart m.site page
            (bindArguments (parameters .extendPage) m.arguments (Table.ofBindings m.named))
        | _ => none
      | none => none
    else none
  | _ => none

/-- The bodies of a chain: that of a page which is prepared to a depth in a world, that of each base
which it extends, and so on. -/
inductive Chained (k : Nat) : Nat → Nat → World → Nat → Nat → World → Prop
  | own (depth p : Nat) (w : World) : Chained k depth p w depth p w
  | base {depth p : Nat} {w : World} {m : Moment} {b : Nat} {w₁ : World} {d q : Nat} {v : World} :
    m ∈ ((recordedBody (prepareFrom depth) p).run (w, [])).2.2 → momentBase k m = some (b, w₁) →
      Chained k depth b w₁ d q v → Chained k (depth + 1) p w d q v

/-- A body may call the functions of its own page, and of those that were made before another
one. -/
def homely (k : Nat) : Guard := fun p _ q => q = p || q < k

/-! ## Calls that leave flags alone -/

/-- The flags of a page, if it is there. -/
def flagsAt (w : World) (p : Nat) : Option Flags := (w.pages[p]?).map flagsOf

section Alone

variable {w w' : World} {p k : Nat} {prepare : Nat → SiteM Unit}

/-- Runs that may work on a page, but not change its flags. -/
def flagged (p : Nat) : Limits :=
  watching flagsOf p True fun _ _ _ h => by rw [flagsOf, h.mode, h.deferred, flagsOf]

/-- Runs on other pages. -/
def elsewhere (p : Nat) : Limits := watching id p False nofun

theorem guarded_homely_flagged (hBound : k ≤ p) : (flagged p).Guarded (homely k) := by
  intro w q r _ (hOther : q ≠ p) hAllowed (hHere : r = p)
  simp only [homely, Bool.or_eq_true, decide_eq_true_eq] at hAllowed
  omega

theorem guarded_homely_elsewhere (hBound : k ≤ p) : (elsewhere p).Guarded (homely k) := by
  intro w q r _ (hOther : q ≠ p) hAllowed (hHere : r = p)
  simp only [homely, Bool.or_eq_true, decide_eq_true_eq] at hAllowed
  omega

theorem flagsAt_of_upholds {α : Type} {x : SiteM α} {post : α → Prop} {page : Page}
    (hPage : w.pages[p]? = some page)
    (h : (flagged p).ready w → Upholds ((flagged p).goes w) x post) :
    flagsAt (x.run w).2 p = flagsAt w p :=
  ((h (Array.getElem?_eq_some_iff.mp hPage).1).run ((flagged p).refl w)).seen

/-- A directive that is not one for flags leaves them alone. -/
theorem flagsAt_callDirective (hPrepare : (flagged p).Prepares prepare) {page : Page}
    (hPage : w.pages[p]? = some page) {name : String} {directive : Directive}
    (hKnown : page.context.directives.get? name = some directive)
    (hPlain : directive.retunes = false) (arguments : List Value) (named : Table String Value) :
    flagsAt ((callDirective prepare p directive arguments named).run w).2 p = flagsAt w p :=
  flagsAt_of_upholds hPage fun hReady =>
    upholds_callDirective hPrepare hReady (.inr trivial) trivial hKnown
      (fun hRetunes => absurd hRetunes (by rw [hPlain]; nofun)) arguments named

/-- A call of something of another page leaves the flags of a page alone. -/
theorem flagsAt_call_of_ne (hPrepare : (flagged p).Prepares prepare) {page : Page}
    (hPage : w.pages[p]? = some page) {callee : Value} (hOwner : ownerOf callee ≠ some p)
    (arguments : List Value) (named : List (String × Value)) :
    flagsAt ((call prepare callee arguments named).run w).2 p = flagsAt w p :=
  flagsAt_of_upholds hPage fun hReady =>
    upholds_call hPrepare hReady (fun _ hOf hHere => hOwner (hHere ▸ hOf)) arguments named

end Alone

end PageBlocks.Inlining
