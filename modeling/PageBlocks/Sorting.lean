/-!
# Sorting by comparisons that may fail

A list is put in order by binary insertion: the run that it starts with is taken as it stands, or
turned round if it falls, and each further item goes to its place by halving. Equal items keep
their order. Which items are compared, and in which order, is settled here, so it is settled too
which failure of a comparison ends the sort, and where items without a consistent order end up.
-/

set_option autoImplicit false

namespace PageBlocks.Sorting

variable {ε α : Type}

/-- The items that go on with a run behind its last item, and the items behind the run. In a
falling run each item comes before the last one; in any other run none does. -/
def continued (before : α → α → Except ε Bool) (falling : Bool) (last : α) :
    List α → Except ε (List α × List α)
  | [] => .ok ([], [])
  | item :: rest => do
    if (← before item last) == falling then
      let (run, behind) ← continued before falling item rest
      return (item :: run, behind)
    else return ([], item :: rest)

/-- The run that a list starts with, in ascending order, and the items behind it. -/
def startingRun (before : α → α → Except ε Bool) : List α → Except ε (List α × List α)
  | first :: second :: rest => do
    let falling ← before second first
    let (run, behind) ← continued before falling second rest
    let run := first :: second :: run
    return (if falling then run.reverse else run, behind)
  | short => .ok (short, [])

/-- A sorted list with one more item, behind the items that it does not come before. -/
def insert (before : α → α → Except ε Bool) (item : α) (sorted : List α) : Except ε (List α) :=
  match _upper : sorted.drop (sorted.length / 2) with
  | [] => .ok [item]
  | middle :: upper => do
    let lower := sorted.take (sorted.length / 2)
    if ← before item middle then return (← insert before item lower) ++ middle :: upper
    else return lower ++ middle :: (← insert before item upper)
termination_by sorted.length
decreasing_by
  all_goals
    have := congrArg List.length _upper
    simp only [List.length_drop, List.length_cons, List.length_take] at *
    omega

/-- The items in ascending order. -/
def sort (before : α → α → Except ε Bool) (items : List α) : Except ε (List α) := do
  let (run, behind) ← startingRun before items
  behind.foldlM (fun sorted item => insert before item sorted) run

end PageBlocks.Sorting
