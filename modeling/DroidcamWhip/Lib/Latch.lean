import Mathlib.Data.List.Basic

/-!
A latch: a value taken from the first of a sequence of inputs and shown beside
each of them from then on.
-/

namespace Latch

variable {α κ : Type*}

/-- The inputs, each with the value shown beside it; `latched` is the value that
has been taken already, if any. -/
def run (key : α → κ) : Option κ → List α → List (κ × α)
  | _, [] => []
  | none, a :: as => (key a, a) :: run key (some (key a)) as
  | some k, a :: as => (k, a) :: run key (some k) as

/-- Once a value is latched, it is right for exactly the inputs that have it. -/
theorem run_some_iff (key : α → κ) (k : κ) (as : List α) :
    (∀ x ∈ run key (some k) as, x.1 = key x.2) ↔ ∀ a ∈ as, key a = k := by
  induction as with
  | nil => simp [run]
  | cons a as ih =>
    simp only [run, List.forall_mem_cons, ih]
    exact and_congr_left' eq_comm

/-- A latch is right for a whole sequence just when the value never changes. -/
theorem run_none_iff (key : α → κ) (a : α) (as : List α) :
    (∀ x ∈ run key none (a :: as), x.1 = key x.2) ↔ ∀ b ∈ as, key b = key a := by
  simp only [run, List.forall_mem_cons, run_some_iff, true_and]

/-- The same without naming the first input. -/
theorem run_none_iff_all (key : α → κ) (as : List α) :
    (∀ x ∈ run key none as, x.1 = key x.2) ↔ ∀ a ∈ as, ∀ b ∈ as, key a = key b := by
  cases as with
  | nil => simp [run]
  | cons c as =>
    rw [run_none_iff]
    constructor
    · intro h
      have hall : ∀ a ∈ c :: as, key a = key c := List.forall_mem_cons.mpr ⟨rfl, h⟩
      exact fun a ha b hb => (hall a ha).trans (hall b hb).symm
    · exact fun h b hb => h b (List.mem_cons_of_mem _ hb) c List.mem_cons_self

end Latch
