import PageBlocks.Fragment.Registry
import PageBlocks.Proofs.Fragments.Cutting
import PageBlocks.Proofs.Running

/-!
# Resolving whole texts

What resolving a text calls and what it gives, for any kinds of fragments and any way to call them:
the calls are computations over a state of any type, so that the state in which a run ends tells
which calls were made, how often and in which order. The fragments of the tags answer one after the
other (`Answers`), or one of them refuses to (`Refuses`), and then nothing behind it is called. The
answers go into the text where the tags stood and are not looked at again (`resolve_text`).
-/

set_option autoImplicit false

namespace PageBlocks.Fragment

open PageBlocks.Running PageBlocks.Text

section Calls

variable {κ σ : Type} (registry : Table String κ) (call : κ → Bindings → List Value → Run σ Value)
  (request : Bindings)

/-- The fragment that a payload asks for is called once, and gives a text. -/
inductive Gives : σ → List Char → String → σ → Prop where
  | intro {s t : σ} {payload : List Char} {name : String} {arguments : List Value} {kind : κ}
      {value : Value} (hDecoded : decode payload = .ok (name, arguments))
      (hKind : registry.get? name = some kind)
      (hCall : (call kind request arguments).run s = (.ok value, t)) :
      Gives s payload (shown value) t

/-- There is no fragment for a payload, which calls nothing, or its only call fails. -/
inductive Refuses : σ → List Char → Fault → σ → Prop where
  | malformed {s : σ} {payload : List Char} {fault : Fault}
      (hDecoded : decode payload = .error fault) : Refuses s payload fault s
  | unknown {s : σ} {payload : List Char} {name : String} {arguments : List Value}
      (hDecoded : decode payload = .ok (name, arguments)) (hKind : registry.get? name = none) :
      Refuses s payload (Registry.unknown registry (.text name)) s
  | failed {s t : σ} {payload : List Char} {name : String} {arguments : List Value} {kind : κ}
      {fault : Fault} (hDecoded : decode payload = .ok (name, arguments))
      (hKind : registry.get? name = some kind)
      (hCall : (call kind request arguments).run s = (.error fault, t)) :
      Refuses s payload fault t

/-- The fragments of payloads are called one after the other, each where the one before ended. -/
inductive Answers : σ → List (List Char) → List String → σ → Prop where
  | nil {s : σ} : Answers s [] [] s
  | cons {s t u : σ} {payload : List Char} {answer : String} {payloads : List (List Char)}
      {answers : List String} (hFirst : Gives registry call request s payload answer t)
      (hRest : Answers t payloads answers u) :
      Answers s (payload :: payloads) (answer :: answers) u

/-! ## One call -/

variable {registry call request} {s t u : σ}

section Invoke

variable {payload : List Char} {name : String} {arguments : List Value}

theorem invoke_malformed {fault : Fault} (hDecoded : decode payload = .error fault) :
    (invokeBy registry call request payload : Run σ String) = throw fault := by
  rw [invokeBy, hDecoded]

theorem invoke_unknown (hDecoded : decode payload = .ok (name, arguments))
    (hKind : registry.get? name = none) :
    (invokeBy registry call request payload : Run σ String)
      = throw (Registry.unknown registry (.text name)) := by
  rw [invokeBy, hDecoded]
  dsimp only
  rw [hKind]

theorem invoke_known {kind : κ} (hDecoded : decode payload = .ok (name, arguments))
    (hKind : registry.get? name = some kind) :
    invokeBy registry call request payload = do
      let value ← call kind request arguments
      return shown value := by
  rw [invokeBy, hDecoded]
  dsimp only
  rw [hKind]

/-- A payload is malformed, or its kind is unknown, or it asks for a call. -/
theorem decoded_cases (registry : Table String κ) (payload : List Char) :
    (∃ fault, decode payload = .error fault)
      ∨ ∃ name arguments, decode payload = .ok (name, arguments)
        ∧ (registry.get? name = none ∨ ∃ kind, registry.get? name = some kind) := by
  cases decode payload with
  | error fault => exact .inl ⟨fault, rfl⟩
  | ok found =>
    refine .inr ⟨found.1, found.2, rfl, ?_⟩
    cases registry.get? found.1 with
    | none => exact .inl rfl
    | some kind => exact .inr ⟨kind, rfl⟩

end Invoke

theorem run_invoke_eq_ok_iff {payload : List Char} {answer : String} :
    (invokeBy registry call request payload).run s = (.ok answer, t)
      ↔ Gives registry call request s payload answer t := by
  constructor
  · intro h
    rcases decoded_cases registry payload with
      ⟨fault, hDecoded⟩ | ⟨name, arguments, hDecoded, hKind | ⟨kind, hKind⟩⟩
    · rw [invoke_malformed hDecoded] at h
      cases h
    · rw [invoke_unknown hDecoded hKind] at h
      cases h
    · rw [invoke_known hDecoded hKind] at h
      obtain ⟨value, u, hCall, hShown⟩ := run_bind_eq_ok h
      cases hShown
      exact .intro hDecoded hKind hCall
  · rintro ⟨hDecoded, hKind, hCall⟩
    rw [invoke_known hDecoded hKind]
    exact run_bind_of_ok hCall _

theorem run_invoke_eq_error_iff {payload : List Char} {fault : Fault} :
    (invokeBy registry call request payload).run s = (.error fault, t)
      ↔ Refuses registry call request s payload fault t := by
  constructor
  · intro h
    rcases decoded_cases registry payload with
      ⟨other, hDecoded⟩ | ⟨name, arguments, hDecoded, hKind | ⟨kind, hKind⟩⟩
    · rw [invoke_malformed hDecoded] at h
      cases h
      exact .malformed hDecoded
    · rw [invoke_unknown hDecoded hKind] at h
      cases h
      exact .unknown hDecoded hKind
    · rw [invoke_known hDecoded hKind] at h
      -- showing a value does not fail
      rcases run_bind_eq_error_iff.mp h with hCall | ⟨value, u, -, hShown⟩
      · exact .failed hDecoded hKind hCall
      · cases hShown
  · intro h
    cases h with
    | malformed hDecoded =>
      rw [invoke_malformed hDecoded]
      rfl
    | unknown hDecoded hKind =>
      rw [invoke_unknown hDecoded hKind]
      rfl
    | failed hDecoded hKind hCall =>
      rw [invoke_known hDecoded hKind]
      exact run_bind_of_error hCall _

/-! ## One call after the other -/

/-- The parts of a cut with answers in place of the tags between them. -/
def refill (parts : List Char × List (List Char × List Char)) (answers : List String) : List Char :=
  parts.1 ++ (List.zipWith (fun part answer => answer.toList ++ part.2) parts.2 answers).flatten

theorem refill_nil (text : List Char) : refill (text, []) [] = text := List.append_nil text

theorem refill_cons (done answer : String) (answers : List String) (payload next : List Char)
    (more : List (List Char × List Char)) :
    refill (done.toList, (payload, next) :: more) (answer :: answers)
      = refill ((done ++ answer ++ String.ofList next).toList, more) answers := by
  simp [refill]

/-- What resolving does for one part of a cut. -/
def addPart (f : List Char → Run σ String) (done : String) (part : List Char × List Char) :
    Run σ String := do
  let shown ← f part.1
  return done ++ shown ++ String.ofList part.2

theorem run_addPart_eq_ok_iff {f : List Char → Run σ String} {done out : String}
    {part : List Char × List Char} : (addPart f done part).run s = (.ok out, t) ↔ ∃ answer,
      (f part.1).run s = (.ok answer, t) ∧ out = done ++ answer ++ String.ofList part.2 := by
  unfold addPart
  rw [run_bind_eq_ok_iff]
  constructor
  · rintro ⟨answer, u, hAnswer, hDone⟩
    cases hDone
    exact ⟨answer, hAnswer, rfl⟩
  · rintro ⟨answer, hAnswer, rfl⟩
    exact ⟨answer, t, hAnswer, rfl⟩

theorem run_addPart_eq_error_iff {f : List Char → Run σ String} {done : String} {fault : Fault}
    {part : List Char × List Char} : (addPart f done part).run s = (.error fault, t)
      ↔ (f part.1).run s = (.error fault, t) := by
  unfold addPart
  rw [run_bind_eq_error_iff]
  constructor
  · rintro (hFault | ⟨answer, u, -, hDone⟩)
    · exact hFault
    · cases hDone
  · exact .inl

/-- All parts go well if all fragments answer. -/
theorem run_addParts_eq_ok_iff {more : List (List Char × List Char)} {done out : String} :
    (more.foldlM (addPart (invokeBy registry call request)) done).run s = (.ok out, u)
      ↔ ∃ answers, Answers registry call request s (more.map Prod.fst) answers u
        ∧ out = String.ofList (refill (done.toList, more) answers) := by
  induction more generalizing done s with
  | nil =>
    constructor
    · intro h
      cases h
      exact ⟨[], .nil, by rw [refill_nil, String.ofList_toList]⟩
    · rintro ⟨answers, hAnswers, rfl⟩
      cases hAnswers
      rw [refill_nil, String.ofList_toList]
      rfl
  | cons part more ih =>
    obtain ⟨payload, next⟩ := part
    rw [List.foldlM_cons, run_bind_eq_ok_iff]
    constructor
    · rintro ⟨middle, t, hPart, hMore⟩
      obtain ⟨answer, hAnswer, rfl⟩ := run_addPart_eq_ok_iff.mp hPart
      obtain ⟨answers, hAnswers, rfl⟩ := ih.mp hMore
      exact ⟨answer :: answers, .cons (run_invoke_eq_ok_iff.mp hAnswer) hAnswers,
        by rw [refill_cons]⟩
    · rintro ⟨answers, hAnswers, rfl⟩
      cases hAnswers with
      | cons hFirst hRest =>
        refine ⟨_, _, run_addPart_eq_ok_iff.mpr ⟨_, run_invoke_eq_ok_iff.mpr hFirst, rfl⟩, ?_⟩
        exact ih.mpr ⟨_, hRest, by rw [refill_cons]⟩

/-- They fail where the first fragment refuses. -/
theorem run_addParts_eq_error_iff {more : List (List Char × List Char)} {done : String}
    {fault : Fault} :
    (more.foldlM (addPart (invokeBy registry call request)) done).run s = (.error fault, u)
      ↔ ∃ before payload behind answers t, more.map Prod.fst = before ++ payload :: behind
        ∧ Answers registry call request s before answers t
        ∧ Refuses registry call request t payload fault u := by
  induction more generalizing done s with
  | nil =>
    constructor
    · intro h
      cases h
    · rintro ⟨before, payload, behind, -, -, hShape, -, -⟩
      exact absurd hShape (by simp)
  | cons part more ih =>
    obtain ⟨payload, next⟩ := part
    rw [List.foldlM_cons, run_bind_eq_error_iff]
    constructor
    · rintro (hPart | ⟨middle, t, hPart, hMore⟩)
      · refine ⟨[], payload, more.map Prod.fst, [], s, rfl, .nil, ?_⟩
        exact run_invoke_eq_error_iff.mp (run_addPart_eq_error_iff.mp hPart)
      · obtain ⟨answer, hAnswer, rfl⟩ := run_addPart_eq_ok_iff.mp hPart
        obtain ⟨before, other, behind, answers, v, hShape, hAnswers, hRefuses⟩ := ih.mp hMore
        refine ⟨payload :: before, other, behind, answer :: answers, v, ?_, ?_, hRefuses⟩
        · rw [List.map_cons, hShape]
          rfl
        · exact .cons (run_invoke_eq_ok_iff.mp hAnswer) hAnswers
    · rintro ⟨before, other, behind, answers, v, hShape, hAnswers, hRefuses⟩
      -- no answer before the refusal: the first fragment is the one that refuses
      cases hAnswers with
      | nil =>
        cases hShape
        exact .inl (run_addPart_eq_error_iff.mpr (run_invoke_eq_error_iff.mpr hRefuses))
      | cons hFirst hRest =>
        rw [List.map_cons, List.cons_append, List.cons.injEq] at hShape
        obtain ⟨rfl, hShape⟩ := hShape
        refine .inr ⟨_, _, run_addPart_eq_ok_iff.mpr ⟨_, run_invoke_eq_ok_iff.mpr hFirst, rfl⟩, ?_⟩
        exact ih.mpr ⟨_, other, behind, _, v, hShape, hRest, hRefuses⟩

/-! ## Whole texts -/

/-- A text is cut at its tags in exactly one way. Resolving it succeeds exactly if the fragments of
its tags, called from left to right and each once, all answer: then the answers stand in the text
where the tags stood, as they are, and the state is the one that the last call left. It fails
exactly if a fragment refuses after all fragments before it have answered, with the fault of that
fragment and in the state that it left, so nothing behind it was called. -/
theorem resolve_text (registry : Table String κ) (call : κ → Bindings → List Value → Run σ Value)
    (request : Bindings) (text : String) (s : σ) :
    (∃! parts, Cuts text.toList parts)
      ∧ (∀ out u, (resolveBy registry call request text).run s = (.ok out, u)
        ↔ ∃ parts answers, Cuts text.toList parts
          ∧ Answers registry call request s (payloads parts) answers u
          ∧ out = String.ofList (refill parts answers))
      ∧ ∀ fault u, (resolveBy registry call request text).run s = (.error fault, u)
        ↔ ∃ parts before payload behind answers t, Cuts text.toList parts
          ∧ payloads parts = before ++ payload :: behind
          ∧ Answers registry call request s before answers t
          ∧ Refuses registry call request t payload fault u := by
  have hRun : (resolveBy registry call request text).run s
      = ((split text.toList).2.foldlM (addPart (invokeBy registry call request))
          (String.ofList (split text.toList).1)).run s := rfl
  refine ⟨⟨split text.toList, cuts_iff.mpr rfl, fun parts h => cuts_iff.mp h⟩, ?_, ?_⟩
  · intro out u
    rw [hRun, run_addParts_eq_ok_iff, String.toList_ofList]
    constructor
    · rintro ⟨answers, hAnswers, hOut⟩
      exact ⟨split text.toList, answers, cuts_iff.mpr rfl, hAnswers, hOut⟩
    · rintro ⟨parts, answers, hCuts, hAnswers, hOut⟩
      rw [cuts_iff] at hCuts
      subst hCuts
      exact ⟨answers, hAnswers, hOut⟩
  · intro fault u
    rw [hRun, run_addParts_eq_error_iff]
    constructor
    · rintro ⟨before, payload, behind, answers, t, hShape, hAnswers, hRefuses⟩
      exact ⟨split text.toList, before, payload, behind, answers, t, cuts_iff.mpr rfl, hShape,
        hAnswers, hRefuses⟩
    · rintro ⟨parts, before, payload, behind, answers, t, hCuts, hShape, hAnswers, hRefuses⟩
      rw [cuts_iff] at hCuts
      subst hCuts
      exact ⟨before, payload, behind, answers, t, hShape, hAnswers, hRefuses⟩

end Calls

end PageBlocks.Fragment
