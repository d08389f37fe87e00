import DroidcamWhip.Lib.Runs

/-!
Variants of a machine: a number that the counted actions of a run use up, as long as a goal
is not reached. It bounds how many of them a run can have before that, whatever else happens
between them.
-/

namespace Runs

variable {S A : Type*}

/-- What is left in a state for the counted actions: each takes at least one away, and no
action adds to it, unless the goal is reached, which is not lost again. It is kept for states in
which `I` holds. -/
structure Machine.Variant (M : Machine S A) (I goal : S → Prop) (counted : A → Bool)
    (rank : S → Nat) : Prop where
  keeps : ∀ s a t, I s → M.step s a = some t → I t
  stays : ∀ s a t, I s → M.step s a = some t → goal s → goal t
  lowers : ∀ s a t, I s → M.step s a = some t → goal t ∨ rank t + (counted a).toNat ≤ rank s

variable {M : Machine S A} {I goal : S → Prop} {counted : A → Bool} {rank : S → Nat}

theorem Machine.Variant.stay (h : M.Variant I goal counted rank) {as : List A} {s t : S}
    (hs : I s) (hgoal : goal s) (hrun : as.foldlM M.step s = some t) : I t ∧ goal t := by
  induction as generalizing s with
  | nil =>
    cases hrun
    exact ⟨hs, hgoal⟩
  | cons a as ih =>
    rw [List.foldlM_cons] at hrun
    obtain ⟨u, hu, hrest⟩ := Option.bind_eq_some_iff.mp hrun
    exact ih (h.keeps s a u hs hu) (h.stays s a u hs hu hgoal) hrest

/-- **Variant rule.** A run from a state with the rank `n` that does not reach the goal has at
most `n` of the counted actions. -/
theorem Machine.Variant.run (h : M.Variant I goal counted rank) {as : List A} {s t : S}
    (hs : I s) (hrun : as.foldlM M.step s = some t) :
    I t ∧ (goal t ∨ rank t + as.countP counted ≤ rank s) := by
  induction as generalizing s with
  | nil =>
    cases hrun
    exact ⟨hs, .inr (Nat.le_refl _)⟩
  | cons a as ih =>
    rw [List.foldlM_cons] at hrun
    obtain ⟨u, hu, hrest⟩ := Option.bind_eq_some_iff.mp hrun
    have hi := h.keeps s a u hs hu
    obtain hgoal | hlow := h.lowers s a u hs hu
    · obtain ⟨ht, hg⟩ := h.stay hi hgoal hrest
      exact ⟨ht, .inl hg⟩
    · obtain ⟨ht, hg | hle⟩ := ih hi hrest
      · exact ⟨ht, .inl hg⟩
      · have hcount : (a :: as).countP counted = as.countP counted + (counted a).toNat := by
          rw [List.countP_cons]
          cases counted a <;> rfl
        exact ⟨ht, .inr (by omega)⟩

/-! ## Runs without some of the actions -/

/-- The machine without the actions that are not `allowed`. -/
def Machine.only (M : Machine S A) (allowed : A → Bool) : Machine S A where
  start := M.start
  step s a := if allowed a then M.step s a else none

variable {allowed : A → Bool}

theorem Machine.only_step {s t : S} {a : A} (h : (M.only allowed).step s a = some t) :
    allowed a = true ∧ M.step s a = some t := by
  unfold only at h
  dsimp only at h
  split at h
  · exact ⟨‹_›, h⟩
  · cases h

/-- A run without these actions is one of that machine. -/
theorem Machine.only_run {as : List A} (has : ∀ a ∈ as, allowed a = true) {s t : S}
    (hrun : as.foldlM M.step s = some t) : as.foldlM (M.only allowed).step s = some t := by
  induction as generalizing s with
  | nil => exact hrun
  | cons a as ih =>
    rw [List.forall_mem_cons] at has
    rw [List.foldlM_cons] at hrun ⊢
    obtain ⟨u, hu, hrest⟩ := Option.bind_eq_some_iff.mp hrun
    have hstep : (M.only allowed).step s a = some u := by
      unfold only
      dsimp only
      rw [if_pos has.1, hu]
    rw [hstep]
    exact ih has.2 hrest

end Runs
