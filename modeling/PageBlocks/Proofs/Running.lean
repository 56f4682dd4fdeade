import PageBlocks.Fault

/-!
# Running computations that may fail over a state

What a draft, a set of caches and a site do are computations of one shape: they may fail, and they
keep what they changed. The equations here say what running each of their building blocks gives, so
that a longer run is opened step by step.
-/

set_option autoImplicit false

namespace PageBlocks.Running

variable {σ α β : Type}

/-- A computation over a state that may fail. -/
abbrev Run (σ α : Type) : Type := ExceptT Fault (StateM σ) α

theorem run_pure (a : α) (s : σ) : (pure a : Run σ α).run s = (.ok a, s) := rfl

theorem run_get (s : σ) : (get : Run σ σ).run s = (.ok s, s) := rfl

theorem run_set (s t : σ) : (set t : Run σ PUnit).run s = (.ok ⟨⟩, t) := rfl

theorem run_modify (f : σ → σ) (s : σ) : (modify f : Run σ PUnit).run s = (.ok ⟨⟩, f s) := rfl

theorem run_bind (x : Run σ α) (f : α → Run σ β) (s : σ) :
    (x >>= f).run s = match x.run s with
      | (.ok a, t) => (f a).run t
      | (.error fault, t) => (.error fault, t) := by
  have unfolded : (x >>= f).run s = ExceptT.bindCont f (x.run s).1 (x.run s).2 := rfl
  rw [unfolded]
  rcases x.run s with ⟨fault | a, t⟩ <;> rfl

theorem run_map (f : α → β) (x : Run σ α) (s : σ) :
    (f <$> x).run s = match x.run s with
      | (.ok a, t) => (.ok (f a), t)
      | (.error fault, t) => (.error fault, t) := by
  have unfolded : (f <$> x).run s = (x >>= fun a => pure (f a)).run s := rfl
  rw [unfolded, run_bind]
  rcases x.run s with ⟨fault | a, t⟩ <;> rfl

theorem run_tryCatch (x : Run σ α) (handle : Fault → Run σ α) (s : σ) :
    (tryCatch x handle).run s = match x.run s with
      | (.ok a, t) => (.ok a, t)
      | (.error fault, t) => (handle fault).run t := by
  have caught : (tryCatch x handle).run s = (ExceptT.tryCatch x handle).run s := rfl
  have bound : ∀ (y : StateM σ (Except Fault α)) (f : Except Fault α → StateM σ (Except Fault α)),
      (y >>= f) s = f (y s).1 (y s).2 := fun _ _ => rfl
  have same : x s = x.run s := rfl
  rw [caught, ExceptT.tryCatch, ExceptT.run_mk, bound, same]
  rcases x.run s with ⟨fault | a, t⟩ <;> rfl

/-- A run goes on where its first part ended. -/
theorem run_bind_of_ok {x : Run σ α} {s t : σ} {a : α} (h : x.run s = (.ok a, t))
    (f : α → Run σ β) : (x >>= f).run s = (f a).run t := by
  rw [run_bind, h]

/-- A run whose first part failed has failed. -/
theorem run_bind_of_error {x : Run σ α} {s t : σ} {fault : Fault} (h : x.run s = (.error fault, t))
    (f : α → Run σ β) : (x >>= f).run s = (.error fault, t) := by
  rw [run_bind, h]

theorem run_map_of_ok {x : Run σ α} {s t : σ} {a : α} (h : x.run s = (.ok a, t)) (f : α → β) :
    (f <$> x).run s = (.ok (f a), t) := by
  rw [run_map, h]

/-- A run that succeeds went through its first part. -/
theorem run_bind_eq_ok {x : Run σ α} {f : α → Run σ β} {s u : σ} {b : β}
    (h : (x >>= f).run s = (.ok b, u)) :
    ∃ a t, x.run s = (.ok a, t) ∧ (f a).run t = (.ok b, u) := by
  rw [run_bind] at h
  rcases hx : x.run s with ⟨fault | a, t⟩
  · rw [hx] at h
    cases h
  · rw [hx] at h
    exact ⟨a, t, rfl, h⟩

theorem run_bind_eq_ok_iff {x : Run σ α} {f : α → Run σ β} {s u : σ} {b : β} :
    (x >>= f).run s = (.ok b, u) ↔ ∃ a t, x.run s = (.ok a, t) ∧ (f a).run t = (.ok b, u) := by
  constructor
  · exact run_bind_eq_ok
  · rintro ⟨a, t, hFirst, hRest⟩
    rw [run_bind_of_ok hFirst, hRest]

/-- A run fails where its first part does, or else where its second part does. -/
theorem run_bind_eq_error_iff {x : Run σ α} {f : α → Run σ β} {s u : σ} {fault : Fault} :
    (x >>= f).run s = (.error fault, u) ↔ x.run s = (.error fault, u)
      ∨ ∃ a t, x.run s = (.ok a, t) ∧ (f a).run t = (.error fault, u) := by
  constructor
  · intro h
    rw [run_bind] at h
    rcases hx : x.run s with ⟨other | a, t⟩
    · rw [hx] at h
      cases h
      exact .inl rfl
    · rw [hx] at h
      exact .inr ⟨a, t, rfl, h⟩
  · rintro (hFirst | ⟨a, t, hFirst, hRest⟩)
    · exact run_bind_of_error hFirst f
    · rw [run_bind_of_ok hFirst, hRest]

/-- A computation without effects that succeeds went through its first part. -/
theorem bind_eq_ok {ε : Type} {x : Except ε α} {f : α → Except ε β} {b : β}
    (h : x >>= f = .ok b) : ∃ a, x = .ok a ∧ f a = .ok b := by
  cases x with
  | ok a => exact ⟨a, rfl, h⟩
  | error fault => cases h

theorem eq_ok_of_toOption {x : Except Fault α} {a : α} (h : x.toOption = some a) : x = .ok a := by
  cases x with
  | error fault => cases h
  | ok found => exact congrArg _ (Option.some.inj h)

theorem toOption_map (f : α → β) (x : Except Fault α) : (f <$> x).toOption = x.toOption.map f := by
  cases x <;> rfl

/-! ## How runs end -/

/-- A run from a state ends well in a result and a state of one kind, or fails in a state of
another. -/
def Ends (x : Run σ α) (s : σ) (well : α → σ → Prop) (badly : σ → Prop) : Prop :=
  match x.run s with
  | (.ok a, t) => well a t
  | (.error _, t) => badly t

section Ends

variable {s : σ} {well : α → σ → Prop} {badly : σ → Prop}

theorem ends_of_run {x : Run σ α} {a : α} {t : σ} (h : x.run s = (.ok a, t)) (hWell : well a t) :
    Ends x s well badly := by
  rw [Ends, h]
  exact hWell

theorem ends_of_run_error {x : Run σ α} {fault : Fault} {t : σ} (h : x.run s = (.error fault, t))
    (hBadly : badly t) : Ends x s well badly := by
  rw [Ends, h]
  exact hBadly

theorem Ends.of_run {x : Run σ α} {a : α} {t : σ} (h : Ends x s well badly)
    (hRun : x.run s = (.ok a, t)) : well a t := by
  rw [Ends, hRun] at h
  exact h

theorem Ends.of_run_error {x : Run σ α} {fault : Fault} {t : σ} (h : Ends x s well badly)
    (hRun : x.run s = (.error fault, t)) : badly t := by
  rw [Ends, hRun] at h
  exact h

theorem ends_pure {a : α} (h : well a s) : Ends (pure a) s well badly := h

theorem ends_throw {fault : Fault} (h : badly s) :
    Ends (throw fault : Run σ α) s well badly := h

theorem ends_set {well : PUnit → σ → Prop} {t : σ} (h : well ⟨⟩ t) :
    Ends (set t : Run σ PUnit) s well badly := h

theorem ends_modify {well : PUnit → σ → Prop} {f : σ → σ} (h : well ⟨⟩ (f s)) :
    Ends (modify f : Run σ PUnit) s well badly := h

theorem Ends.mono {x : Run σ α} {well' : α → σ → Prop} {badly' : σ → Prop}
    (h : Ends x s well badly) (hWell : ∀ a t, well a t → well' a t)
    (hBadly : ∀ t, badly t → badly' t) : Ends x s well' badly' := by
  rcases hRun : x.run s with ⟨fault | a, t⟩
  · exact ends_of_run_error hRun (hBadly t (h.of_run_error hRun))
  · exact ends_of_run hRun (hWell a t (h.of_run hRun))

/-- Where a run ends, whether well or badly. -/
theorem ends_iff_snd {x : Run σ α} {Q : σ → Prop} : Ends x s (fun _ => Q) Q ↔ Q (x.run s).2 := by
  unfold Ends
  split
  · rename_i hRun
    rw [hRun]
  · rename_i hRun
    rw [hRun]

/-- A run in two parts ends as its second part does from where the first one ended well. -/
theorem Ends.bind {x : Run σ α} {f : α → Run σ β} {mid : α → σ → Prop} {well : β → σ → Prop}
    (h : Ends x s mid badly) (hNext : ∀ a t, mid a t → Ends (f a) t well badly) :
    Ends (x >>= f) s well badly := by
  rcases hRun : x.run s with ⟨fault | a, t⟩
  · have hFails : (x >>= f).run s = (.error fault, t) := by rw [run_bind, hRun]
    exact ends_of_run_error hFails (h.of_run_error hRun)
  · unfold Ends
    rw [run_bind_of_ok hRun]
    exact hNext a t (h.of_run hRun)

theorem Ends.map {x : Run σ α} {f : α → β} {well : β → σ → Prop}
    (h : Ends x s (fun a t => well (f a) t) badly) : Ends (f <$> x) s well badly := by
  rcases hRun : x.run s with ⟨fault | a, t⟩
  · have hFails : (f <$> x).run s = (.error fault, t) := by rw [run_map, hRun]
    exact ends_of_run_error hFails (h.of_run_error hRun)
  · exact ends_of_run (run_map_of_ok hRun f) (h.of_run hRun)

/-- A run goes on as its second part where the first one is known. -/
theorem ends_bind_of_run {x : Run σ α} {a : α} {t : σ} {f : α → Run σ β} {well : β → σ → Prop}
    (hRun : x.run s = (.ok a, t)) (h : Ends (f a) t well badly) :
    Ends (x >>= f) s well badly := by
  unfold Ends
  rw [run_bind_of_ok hRun]
  exact h

theorem ends_bind_of_run_error {x : Run σ α} {fault : Fault} {t : σ} {f : α → Run σ β}
    {well : β → σ → Prop} (hRun : x.run s = (.error fault, t)) (h : badly t) :
    Ends (x >>= f) s well badly := by
  have hFails : (x >>= f).run s = (.error fault, t) := by rw [run_bind, hRun]
  exact ends_of_run_error hFails h

theorem ends_get_bind {f : σ → Run σ α} (h : Ends (f s) s well badly) :
    Ends (get >>= f) s well badly :=
  ends_bind_of_run (run_get s) h

theorem ends_set_bind {t : σ} {f : PUnit → Run σ α} (h : Ends (f ⟨⟩) t well badly) :
    Ends (set t >>= f) s well badly :=
  ends_bind_of_run (run_set s t) h

theorem ends_modify_bind {f : σ → σ} {g : PUnit → Run σ α} (h : Ends (g ⟨⟩) (f s) well badly) :
    Ends (modify f >>= g) s well badly :=
  ends_bind_of_run (run_modify f s) h

theorem ends_lift_bind {x : Except Fault α} {f : α → Run σ β} {well : β → σ → Prop}
    (h : ∀ a, x = .ok a → Ends (f a) s well badly) (hBadly : badly s) :
    Ends (liftM x >>= f) s well badly := by
  cases x with
  | ok a => exact ends_bind_of_run rfl (h a rfl)
  | error fault => exact hBadly

end Ends

end PageBlocks.Running
