import PageBlocks.Cache.Request
import PageBlocks.Proofs.StampReading

/-!
# A register of texts

What a cache is for, without the way it keeps its entries: a register of the texts that were stored
last, each with the second at which its lifetime is over (`Register`). A text is live until then.
The requests that any cache answers are the plain ones (`IsPlain`), and a course of them gives
outcomes (`outcomes`) that can be compared with the answers of the register (`Register.answers`).
-/

set_option autoImplicit false

namespace PageBlocks.Backends

open PageBlocks.Cache PageBlocks.Time

/-! ## The register -/

/-- The texts that were stored last and neither deleted nor cleared since, with the second at which
the lifetime of each is over. -/
structure Register where
  /-- The second that the clock shows. -/
  now : Int
  texts : String → Option (String × Int)

namespace Register

/-- A register without texts. -/
def blank (now : Int) : Register := ⟨now, fun _ => none⟩

/-- The live text of a key. -/
def live? (r : Register) (key : String) : Option String :=
  (r.texts key).bind fun found => if r.now < found.2 then some found.1 else none

/-- A register with another entry for a key. -/
def write (r : Register) (key : String) (found : Option (String × Int)) : Register :=
  { r with texts := fun other => if other = key then found else r.texts other }

/-- The second at which the lifetime of a text is over that is stored now. -/
def limit (r : Register) : Option Value → Int
  | some (.int seconds) => r.now + seconds
  | _ => r.now

/-- The register after a request. -/
def after (r : Register) : Request → Register
  | .put key content lifetime => r.write key (some (content, r.limit lifetime))
  | .delete key => r.write key none
  | .clear => { r with texts := fun _ => none }
  | .advance micros => { r with now := r.now + micros / Instant.perSecond }
  | _ => r

/-- What a register answers to a request; getting a text that is not live fails. -/
def answer (r : Register) : Request → Option Value
  | .get key => (r.live? key).map .text
  | .has key => some (.bool (r.live? key).isSome)
  | .lookup key => some (((r.live? key).map Value.text).getD .null)
  | _ => some .null

/-- What a register answers to requests in order. -/
def answers (r : Register) : List Request → List (Option Value)
  | [] => []
  | request :: rest => r.answer request :: (r.after request).answers rest

variable (r : Register) (key : String)

@[simp] theorem texts_write_self (found : Option (String × Int)) :
    (r.write key found).texts key = found := if_pos rfl

theorem texts_write_of_ne (found : Option (String × Int)) {other : String} (h : other ≠ key) :
    (r.write key found).texts other = r.texts other := if_neg h

@[simp] theorem now_write (found : Option (String × Int)) : (r.write key found).now = r.now := rfl

theorem live?_of_texts {content : String} {limit : Int}
    (h : r.texts key = some (content, limit)) :
    r.live? key = if r.now < limit then some content else none := by
  rw [live?, h]
  rfl

theorem live?_of_texts_eq_none (h : r.texts key = none) : r.live? key = none := by
  rw [live?, h]
  rfl

end Register

/-! ## Courses of requests -/

/-- A request to store a text for whole seconds, to read, to delete or to clear, or to move the
clock on by whole seconds. -/
inductive IsPlain : Request → Prop where
  | put (key content : String) (seconds : Int) : IsPlain (.put key content (some (.int seconds)))
  | get (key : String) : IsPlain (.get key)
  | has (key : String) : IsPlain (.has key)
  | lookup (key : String) : IsPlain (.lookup key)
  | delete (key : String) : IsPlain (.delete key)
  | clear : IsPlain .clear
  | advance (seconds : Nat) : IsPlain (.advance (seconds * Instant.perSecond : Nat))

/-- The key of a request. -/
def keyOf : Request → Option String
  | .put key _ _ | .get key | .has key | .lookup key | .delete key => some key
  | _ => none

/-- Whether the calendar has a second. -/
def InYears (second : Int) : Prop := (Instant.ofSeconds second).inCalendar = true

instance (second : Int) : Decidable (InYears second) := inferInstanceAs (Decidable (_ = true))

/-- The seconds that a request deals with: the present one, and the one that a lifetime ends in. -/
def Register.seconds (r : Register) : Request → List Int
  | .put _ _ lifetime => [r.now, r.limit lifetime]
  | _ => [r.now]

/-- Whether the calendar has all seconds that a course of requests deals with. -/
def AllDated (r : Register) : List Request → Prop
  | [] => True
  | request :: rest =>
    (∀ second ∈ r.seconds request, InYears second) ∧ AllDated (r.after request) rest

instance AllDated.decidable : ∀ (r : Register) (requests : List Request),
    Decidable (AllDated r requests)
  | _, [] => isTrue trivial
  | r, request :: rest =>
    have := AllDated.decidable (r.after request) rest
    inferInstanceAs (Decidable (_ ∧ _))

theorem natAbs_le_of_inYears {second : Int} (h : InYears second) : second.natAbs ≤ 2 ^ 40 := by
  simp only [InYears, Instant.inCalendar, Instant.first, Instant.pastLast, Instant.ofSeconds,
    Instant.epochDay, Instant.perDay, Instant.perSecond, Bool.and_eq_true] at h
  have hFirst := of_decide_eq_true h.1
  have hPast := of_decide_eq_true h.2
  omega

/-- A step of the clock in seconds. -/
theorem now_after_advance (r : Register) (seconds : Nat) :
    (r.after (.advance (seconds * Instant.perSecond : Nat))).now = r.now + seconds := by
  show r.now + ((seconds * Instant.perSecond : Nat) : Int) / Instant.perSecond = r.now + seconds
  rw [Int.natCast_mul, Int.mul_ediv_cancel _ (by decide)]

end PageBlocks.Backends
