import Mathlib.Data.List.Perm.Basic
import Mathlib.Algebra.BigOperators.Group.List.Basic
import Mathlib.Algebra.GroupWithZero.Nat

/-!
Custody of tokens. The tokens `0, …, n - 1` issued so far are kept in a list of
places. `Held places n` says that every issued token lies in exactly one place,
exactly once, and that no other token lies anywhere.
-/

namespace Custody

/-- Number of times the token `a` lies in the places. -/
def occurrences (places : List (List Nat)) (a : Nat) : Nat :=
  (places.map (List.count a)).sum

def Held (places : List (List Nat)) (n : Nat) : Prop :=
  ∀ a, occurrences places a = if a < n then 1 else 0

@[simp] theorem occurrences_nil (a : Nat) : occurrences [] a = 0 := rfl

@[simp] theorem occurrences_cons (p : List Nat) (ps : List (List Nat)) (a : Nat) :
    occurrences (p :: ps) a = p.count a + occurrences ps a := rfl

theorem occurrences_eq_count (places : List (List Nat)) (a : Nat) :
    occurrences places a = places.flatten.count a := by
  rw [occurrences, List.count_flatten]

theorem count_range (n a : Nat) : (List.range n).count a = if a < n then 1 else 0 := by
  simp [List.nodup_range.count]

/-- Held tokens are a rearrangement of the issued ones. -/
theorem held_iff_perm (places : List (List Nat)) (n : Nat) :
    Held places n ↔ places.flatten.Perm (List.range n) := by
  rw [List.perm_iff_count]
  constructor
  · intro h a
    rw [← occurrences_eq_count, h a, count_range]
  · intro h a
    rw [occurrences_eq_count, h a, count_range]

/-- Tokens that only change places stay in custody. -/
theorem Held.move {places places' : List (List Nat)} {n : Nat} (h : Held places n)
    (hm : ∀ a, occurrences places' a = occurrences places a) : Held places' n := by
  intro a
  rw [hm a, h a]

/-- A newly issued token joins the others. -/
theorem Held.issue {places places' : List (List Nat)} {n : Nat} (h : Held places n)
    (hm : ∀ a, occurrences places' a = occurrences places a + if a = n then 1 else 0) :
    Held places' (n + 1) := by
  intro a
  rw [hm a, h a]
  split <;> split <;> split <;> omega

/-- The sizes of the places add up to the number of issued tokens. -/
theorem Held.total {places : List (List Nat)} {n : Nat} (h : Held places n) :
    (places.map List.length).sum = n := by
  have hl := ((held_iff_perm places n).mp h).length_eq
  rwa [List.length_flatten, List.length_range] at hl

/-- A token found in one place of four is in none of the others. -/
theorem Held.apart {p q r s : List Nat} {n : Nat} (h : Held [p, q, r, s] n) (a : Nat) :
    (a ∈ p → a ∉ q ∧ a ∉ r ∧ a ∉ s) ∧ (a ∈ q → a ∉ r ∧ a ∉ s) ∧ (a ∈ r → a ∉ s) := by
  have ha := h a
  simp only [occurrences_cons, occurrences_nil] at ha
  have hle : p.count a + (q.count a + (r.count a + s.count a)) ≤ 1 := by
    split at ha <;> omega
  simp only [← List.count_pos_iff]
  omega

end Custody
