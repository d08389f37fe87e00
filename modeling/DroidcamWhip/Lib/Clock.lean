import Mathlib.Algebra.Order.Group.Nat
import Mathlib.Algebra.Order.Monoid.Unbundled.Pow
import Mathlib.Data.List.Induction
import Mathlib.Order.Bounds.Basic

/-!
A clock that follows a source and never stands still: it shows what the source
says where that is late enough, and otherwise the first time it may show. After
each reading that time is one step `d` later.
-/

namespace Clock

variable {G : Type*} [LinearOrder G]

/-- What is shown when `next` is the first time allowed. -/
def tick (next : G) : Option G → G
  | none => next
  | some r => max r next

theorem le_tick (next : G) (r : Option G) : next ≤ tick next r := by
  cases r with
  | none => exact le_rfl
  | some r => exact le_max_right r next

theorem tick_some_of_le {next r : G} (h : next ≤ r) : tick next (some r) = r := max_eq_left h

variable [AddCommMonoid G]

/-- What is shown for the readings of the source, one after the other. -/
def readings (d : G) : G → List (Option G) → List G
  | _, [] => []
  | next, r :: rs => tick next r :: readings d (tick next r + d) rs

/-- The first time allowed after some readings. -/
def after (d next : G) (rs : List (Option G)) : G := rs.foldl (fun x r => tick x r + d) next

theorem after_snoc (d next : G) (rs : List (Option G)) (r : Option G) :
    after d next (rs ++ [r]) = tick (after d next rs) r + d := by
  simp [after]

theorem readings_snoc (d next : G) (rs : List (Option G)) (r : Option G) :
    readings d next (rs ++ [r]) = readings d next rs ++ [tick (after d next rs) r] := by
  induction rs generalizing next with
  | nil => rfl
  | cons s rs ih => simp [readings, ih, after]

/-- A reading is a tick after those before it. -/
theorem getElem?_readings (d next : G) (rs : List (Option G)) (n : ℕ) :
    (readings d next rs)[n]? = rs[n]?.map (tick (after d next (rs.take n))) := by
  induction rs generalizing next n with
  | nil => rfl
  | cons r rs ih =>
    cases n with
    | zero => rfl
    | succ n => simp [readings, ih, after]

/-- The first time allowed after a reading is one step later. -/
theorem after_take_succ {d next : G} {rs : List (Option G)} {n : ℕ} {f : G}
    (h : (readings d next rs)[n]? = some f) : after d next (rs.take (n + 1)) = f + d := by
  rw [getElem?_readings] at h
  obtain ⟨r, hr, rfl⟩ := Option.map_eq_some_iff.mp h
  rw [List.take_add_one, hr, Option.toList_some, after_snoc]

/-! ## Closed form -/

/-- The times a reading has to keep up with: the first time allowed and what the
source has said so far, each with the steps made since. -/
def candidates (d next : G) (rs : List (Option G)) (n : ℕ) : Set G :=
  insert (next + n • d) {x | ∃ k ≤ n, ∃ r, rs[k]? = some (some r) ∧ x = r + (n - k) • d}

omit [LinearOrder G] in
theorem candidates_succ (d next : G) (r : Option G) (rs : List (Option G)) (n : ℕ) :
    candidates d next (r :: rs) (n + 1) =
      {x | x = next + (n + 1) • d ∨ (∃ q, r = some q ∧ x = q + (n + 1) • d) ∨
        ∃ k ≤ n, ∃ q, rs[k]? = some (some q) ∧ x = q + (n - k) • d} := by
  ext x
  simp only [candidates, Set.mem_insert_iff, Set.mem_ofPred_eq]
  refine or_congr_right ⟨?_, ?_⟩
  · rintro ⟨k, hk, q, hq, rfl⟩
    cases k with
    | zero => exact .inl ⟨q, Option.some.inj hq, rfl⟩
    | succ k => exact .inr ⟨k, Nat.le_of_succ_le_succ hk, q, hq, by rw [Nat.succ_sub_succ]⟩
  · rintro (⟨q, rfl, rfl⟩ | ⟨k, hk, q, hq, rfl⟩)
    · exact ⟨0, Nat.zero_le _, q, rfl, rfl⟩
    · exact ⟨k + 1, Nat.succ_le_succ hk, q, hq, by rw [Nat.succ_sub_succ]⟩

variable [IsOrderedAddMonoid G]

/-- **Closed form of the clock.** What is shown is the latest of the times that
the reading has to keep up with. -/
theorem isGreatest_reading {d next : G} {rs : List (Option G)} {n : ℕ} {f : G}
    (h : (readings d next rs)[n]? = some f) : IsGreatest (candidates d next rs n) f := by
  induction rs generalizing next n with
  | nil => cases h
  | cons r rs ih =>
    cases n with
    | zero =>
      obtain rfl := Option.some.inj h
      constructor
      · cases r with
        | none => exact .inl (by simp [tick])
        | some r =>
          rcases max_choice r next with hmax | hmax
          · exact .inr ⟨0, le_rfl, r, rfl, by simp [tick, hmax]⟩
          · exact .inl (by simp [tick, hmax])
      · rintro x (rfl | ⟨k, hk, q, hq, rfl⟩)
        · simpa using le_tick next r
        · obtain rfl := Nat.le_zero.mp hk
          obtain rfl := Option.some.inj hq
          simp [tick]
    | succ n =>
      obtain ⟨hmem, hle⟩ := ih (show (readings d (tick next r + d) rs)[n]? = some f from h)
      have hnext : tick next r + (n + 1) • d ≤ f := by
        have := hle (Set.mem_insert _ _)
        rwa [add_assoc, ← succ_nsmul'] at this
      rw [candidates_succ]
      constructor
      · rcases hmem with hf | ⟨k, hk, q, hq, hf⟩
        · rw [add_assoc, ← succ_nsmul'] at hf
          cases r with
          | none => exact .inl hf
          | some r =>
            rcases max_choice r next with hmax | hmax
            · exact .inr (.inl ⟨r, rfl, by rw [hf, tick, hmax]⟩)
            · exact .inl (by rw [hf, tick, hmax])
        · exact .inr (.inr ⟨k, hk, q, hq, hf⟩)
      · rintro x (rfl | ⟨q, rfl, rfl⟩ | ⟨k, hk, q, hq, rfl⟩)
        · exact (add_le_add_left (le_tick next r) _).trans hnext
        · exact (add_le_add_left (le_max_left q next) _).trans hnext
        · exact hle (Set.mem_insert_of_mem _ ⟨k, hk, q, hq, rfl⟩)

/-- Readings are at least as far apart as the steps between them. -/
theorem reading_add_le {d next : G} {rs : List (Option G)} {m n : ℕ} {f g : G} (hmn : m ≤ n)
    (hf : (readings d next rs)[m]? = some f) (hg : (readings d next rs)[n]? = some g) :
    f + (n - m) • d ≤ g := by
  have hle := (isGreatest_reading hg).2
  rcases (isGreatest_reading hf).1 with rfl | ⟨k, hk, r, hr, rfl⟩
  · rw [add_assoc, ← add_nsmul, Nat.add_sub_cancel' hmn]
    exact hle (Set.mem_insert _ _)
  · rw [add_assoc, ← add_nsmul, show m - k + (n - m) = n - k by omega]
    exact hle (Set.mem_insert_of_mem _ ⟨k, hk.trans hmn, r, hr, rfl⟩)

/-- A clock whose source stays below `b` is at most its steps ahead of `b`. -/
theorem after_le {d next b : G} (hd : 0 ≤ d) {rs : List (Option G)} (hnext : next ≤ b)
    (hrs : ∀ r, some r ∈ rs → r ≤ b) : after d next rs ≤ b + rs.length • d := by
  induction rs using List.reverseRecOn with
  | nil => simpa [after] using hnext
  | append_singleton rs r ih =>
    have hafter := ih fun q hq => hrs q (List.mem_append_left _ hq)
    have htick : tick (after d next rs) r ≤ b + rs.length • d := by
      cases r with
      | none => exact hafter
      | some r =>
        refine max_le ?_ hafter
        exact (hrs r (by simp)).trans (le_add_of_nonneg_right (nsmul_nonneg hd _))
    rw [after_snoc, List.length_append, List.length_singleton, succ_nsmul, ← add_assoc]
    exact add_le_add_left htick d

end Clock
