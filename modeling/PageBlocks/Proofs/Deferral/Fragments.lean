import PageBlocks.Proofs.Deferral.Layout
import PageBlocks.Proofs.Running
import PageBlocks.Site.Rendering

/-!
# Resolving tags

Computing the fragments that tags ask for changes nothing but counters and the responses that are
left (`Aside`), and replaces every tag of a text. If fragments have clean texts (`GivesClean`), no
tag is left (`ends_resolve`).
-/

set_option autoImplicit false

namespace PageBlocks.Deferral

open PageBlocks.Running PageBlocks.Site

/-- Whether all texts that can be fetched are clean. -/
def CleanResponses (w : World) : Prop :=
  ∀ entry ∈ w.responses, ∀ r ∈ entry.2, Clean r.text.toList

/-- The world after fragments were computed. -/
structure Aside (w w' : World) : Prop where
  files : w'.files = w.files
  vault : w'.vault = w.vault
  settings : w'.settings = w.settings
  globals : w'.globals = w.globals
  pages : w'.pages = w.pages
  outlines : w'.outlines = w.outlines
  executed : w'.executed = w.executed
  responses : CleanResponses w → CleanResponses w'

namespace Aside

variable {w w' w'' : World}

theorem refl (w : World) : Aside w w := ⟨rfl, rfl, rfl, rfl, rfl, rfl, rfl, id⟩

theorem trans (h : Aside w w') (h' : Aside w' w'') : Aside w w'' :=
  ⟨h'.files.trans h.files, h'.vault.trans h.vault, h'.settings.trans h.settings,
    h'.globals.trans h.globals, h'.pages.trans h.pages, h'.outlines.trans h.outlines,
    h'.executed.trans h.executed, fun hClean => h'.responses (h.responses hClean)⟩

end Aside

/-- A step leaves pages and caches alone. -/
def StaysAside {α : Type} (x : SiteM α) : Prop :=
  ∀ w, Ends x w (fun _ => Aside w) (Aside w)

section StaysAside

variable {α β : Type}

theorem staysAside_pure (a : α) : StaysAside (pure a) := fun w => ends_pure (Aside.refl w)

theorem staysAside_throw (fault : Fault) : StaysAside (throw fault : SiteM α) :=
  fun w => ends_throw (Aside.refl w)

theorem StaysAside.bind {x : SiteM α} {f : α → SiteM β} (h : StaysAside x)
    (hNext : ∀ a, StaysAside (f a)) : StaysAside (x >>= f) := by
  intro w
  refine Ends.bind (h w) fun a w' hAside => ?_
  exact Ends.mono (hNext a w') (fun _ _ hEnd => hAside.trans hEnd) fun _ hEnd => hAside.trans hEnd

theorem StaysAside.map {x : SiteM α} {f : α → β} (h : StaysAside x) : StaysAside (f <$> x) :=
  fun w => Ends.map (h w)

theorem StaysAside.run {x : SiteM α} (h : StaysAside x) (w : World) : Aside w (x.run w).2 := by
  rcases hRun : x.run w with ⟨fault | a, w'⟩
  · exact (h w).of_run_error hRun
  · exact (h w).of_run hRun

theorem staysAside_check (x : Except Fault α) : StaysAside (check x) := by
  cases x with
  | ok a => exact staysAside_pure a
  | error fault => exact staysAside_throw fault

end StaysAside

/-! ## What fragments can reach -/

theorem staysAside_count (counter : Nat) : StaysAside (Site.count counter) := by
  intro w
  exact ends_get_bind (ends_set_bind (ends_pure ⟨rfl, rfl, rfl, rfl, rfl, rfl, rfl, id⟩))

theorem staysAside_nextResponse (url : String) : StaysAside (nextResponse url) := by
  intro w
  refine ends_modify_bind (ends_get_bind ?_)
  have hSame : Aside w { w with fetched := url :: w.fetched } :=
    ⟨rfl, rfl, rfl, rfl, rfl, rfl, rfl, id⟩
  dsimp only
  split
  · exact ends_throw hSame
  · exact ends_throw hSame
  · exact ends_pure hSame
  · rename_i next rest _ hFound
    refine ends_set_bind (ends_pure ⟨rfl, rfl, rfl, rfl, rfl, rfl, rfl, fun hClean => ?_⟩)
    intro entry hMem r hr
    rcases Table.eq_or_mem_of_mem_insert hMem with rfl | hOld
    · exact hClean _ (Table.mem_of_get?_eq_some hFound) r (List.mem_cons_of_mem _ hr)
    · exact hClean entry hOld r hr

theorem staysAside_fetchFrom (more : Nat) (address : Address) :
    StaysAside (fetchFrom more address) := by
  induction more generalizing address with
  | zero => exact staysAside_throw _
  | succ more ih =>
    unfold fetchFrom
    refine (staysAside_nextResponse _).bind fun r => ?_
    split
    · exact (staysAside_check _).bind fun target => ih target
    · split
      · exact staysAside_pure _
      · exact staysAside_throw _

theorem staysAside_fetch (url : Value) : StaysAside (Site.fetch url) := by
  unfold Site.fetch
  split
  · split
    · exact staysAside_fetchFrom _ _
    · exact staysAside_throw _
  · exact staysAside_throw _

theorem staysAside_alone {arguments : List Value} {value : SiteM Value} (h : StaysAside value) :
    StaysAside (Fragment.alone arguments value) := by
  unfold Fragment.alone
  split
  · exact h
  · exact staysAside_throw _

theorem staysAside_variableOr (vars : Bindings) (name default : Value) :
    StaysAside (Fragment.variableOr vars name default) := by
  unfold Fragment.variableOr
  split
  · exact staysAside_pure _
  · exact staysAside_throw _

theorem staysAside_timeIn (format : String) :
    StaysAside (Fragment.timeIn surroundings format) := by
  unfold Fragment.timeIn
  split
  · exact staysAside_throw _
  · have hNow : StaysAside surroundings.now := fun w => ends_get_bind (ends_pure (Aside.refl w))
    exact hNow.bind fun now => staysAside_pure _

theorem staysAside_compute (kind : Fragment.Kind) (request : Bindings) (arguments : List Value) :
    StaysAside (kind.compute surroundings request arguments) := by
  unfold Fragment.Kind.compute
  cases kind with
  | binding =>
    dsimp only
    split
    · exact staysAside_variableOr _ _ _
    · exact staysAside_variableOr _ _ _
    · exact staysAside_throw _
  | clock =>
    dsimp only
    split
    · exact staysAside_timeIn _
    · exact staysAside_timeIn _
    · exact staysAside_throw _
  | fetch =>
    dsimp only
    split
    · exact (staysAside_fetch _).map
    · exact staysAside_throw _
  | constant value => exact staysAside_alone (staysAside_pure value)
  | nothing => exact staysAside_alone (staysAside_pure _)
  | joined => exact staysAside_pure _
  | counter number =>
    exact staysAside_alone ((staysAside_count number).bind fun _ => staysAside_pure _)
  | arguments => exact staysAside_pure _
  | greeting =>
    dsimp only
    split
    · exact staysAside_pure _
    · exact staysAside_pure _
    · exact staysAside_throw _
  | vars =>
    dsimp only
    split
    · exact staysAside_pure _
    · exact staysAside_throw _
  | failing => exact staysAside_throw _

theorem staysAside_invoke (registry : Fragment.Registry) (request : Bindings)
    (payload : List Char) : StaysAside (registry.invoke surroundings request payload) := by
  unfold Fragment.Registry.invoke Fragment.invokeBy
  split
  · exact staysAside_throw _
  · split
    · exact staysAside_throw _
    · exact (staysAside_compute _ _ _).bind fun v => staysAside_pure _

/-! ## Texts with tags -/

/-- Resolving tags leaves pages and caches alone, whatever the fragments do. -/
theorem staysAside_resolve (registry : Fragment.Registry) (request : Bindings) (text : String) :
    StaysAside (registry.resolve surroundings request text) := by
  unfold Fragment.Registry.resolve Fragment.resolveBy Fragment.replaceTags
  dsimp only
  generalize String.ofList (Fragment.split text.toList).1 = done
  induction (Fragment.split text.toList).2 generalizing done with
  | nil => exact staysAside_pure done
  | cons part parts ih =>
    rw [List.foldlM_cons, bind_assoc]
    refine (staysAside_invoke _ _ _).bind fun shown => ?_
    rw [pure_bind]
    exact ih _

/-- Whether the fragments that tags with clean data ask for have clean texts. -/
def GivesClean (registry : Fragment.Registry) : Prop :=
  ∀ (request : Bindings) (payload : List Char) (w w' : World) (text : String),
    CleanBindings request → IsPayload payload → CleanResponses w →
      (registry.invoke surroundings request payload).run w = (.ok text, w') → Clean text.toList

section Resolving

variable {registry : Fragment.Registry} {request : Bindings}

/-- The fragment that a tag asks for has a clean text. -/
theorem ends_invoke {payload : List Char} {w : World} (hGives : GivesClean registry)
    (hRequest : CleanBindings request) (hResponses : CleanResponses w)
    (hPayload : IsPayload payload) :
    Ends (registry.invoke surroundings request payload) w
      (fun shown w' => Clean shown.toList ∧ Aside w w') (Aside w) := by
  have hAside := staysAside_invoke registry request payload w
  rcases hRun : (registry.invoke surroundings request payload).run w with ⟨fault | shown, w'⟩
  · exact ends_of_run_error hRun (hAside.of_run_error hRun)
  · refine ends_of_run hRun ⟨?_, hAside.of_run hRun⟩
    exact hGives request payload w w' shown hRequest hPayload hResponses hRun

theorem ends_replaceParts {w : World} {parts : List (List Char × List Char)} {done : String}
    (hGives : GivesClean registry) (hRequest : CleanBindings request)
    (hResponses : CleanResponses w)
    (hParts : ∀ part ∈ parts, IsPayload part.1 ∧ Laid false part.2)
    (hDone : Laid false done.toList) :
    Ends (parts.foldlM (fun done part => do
      let shown ← registry.invoke surroundings request part.1
      return done ++ shown ++ String.ofList part.2) done) w
      (fun shown w' => Laid false shown.toList ∧ Aside w w') (Aside w) := by
  induction parts generalizing w done with
  | nil => exact ends_pure ⟨hDone, Aside.refl w⟩
  | cons part parts ih =>
    obtain ⟨⟨hPayload, hText⟩, hRest⟩ := List.forall_mem_cons.mp hParts
    rw [List.foldlM_cons, bind_assoc]
    refine Ends.bind (ends_invoke hGives hRequest hResponses hPayload) fun shown w' hShown => ?_
    obtain ⟨hClean, hAside⟩ := hShown
    have hNext : Laid false (done ++ shown ++ String.ofList part.2).toList := by
      rw [String.toList_append, String.toList_append, String.toList_ofList]
      exact (hDone.append (.of_clean hClean)).append hText
    rw [pure_bind]
    refine Ends.mono (ih (hAside.responses hResponses) hRest hNext) ?_ fun w'' hEnd => ?_
    · exact fun text w'' hEnd => ⟨hEnd.1, hAside.trans hEnd.2⟩
    · exact hAside.trans hEnd

/-- A text whose tags were resolved has none left. -/
theorem ends_resolve {context : Context} {text : String} {w : World}
    (hGives : GivesClean context.fragments) (hRequest : CleanBindings request)
    (hResponses : CleanResponses w) (hText : Laid true text.toList) :
    Ends (resolveFragments context request text) w
      (fun shown w' => Laid false shown.toList ∧ Aside w w') (Aside w) := by
  obtain ⟨hFirst, hRest⟩ := laid_splitTags hText
  refine ends_replaceParts hGives hRequest hResponses hRest ?_
  rw [String.toList_ofList]
  exact hFirst

end Resolving

end PageBlocks.Deferral
