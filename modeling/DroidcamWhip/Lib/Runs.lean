import Mathlib.Data.Option.Basic

/-!
Machines that are stepped by actions, the runs of a machine, and the rule that
carries an invariant along a run. A *guard* restricts which steps a run may
take; the unrestricted runs are those of the guard `Any`.
-/

namespace Runs

/-- A machine is a set of start states and a partial step function; `none`
means that the action is not possible in that state. -/
structure Machine (S A : Type*) where
  start : S → Prop
  step : S → A → Option S

variable {S A : Type*} {M : Machine S A} {G : S → A → Prop}

/-- The guard that allows every step. -/
def Any (_ : S) (_ : A) : Prop := True

/-- States reached from a start state by steps that all satisfy the guard. -/
inductive Machine.Reach (M : Machine S A) (G : S → A → Prop) : S → Prop
  | start {s : S} : M.start s → M.Reach G s
  | next {s t : S} {a : A} : M.Reach G s → G s a → M.step s a = some t → M.Reach G t

/-- States reached by any steps at all. -/
abbrev Machine.Reachable (M : Machine S A) : S → Prop := M.Reach Any

theorem Machine.Reach.mono {G' : S → A → Prop} (hg : ∀ s a, G s a → G' s a) {s : S}
    (h : M.Reach G s) : M.Reach G' s := by
  induction h with
  | start hs => exact .start hs
  | next _ ha hstep ih => exact .next ih (hg _ _ ha) hstep

theorem Machine.Reach.reachable {s : S} (h : M.Reach G s) : M.Reachable s :=
  h.mono fun _ _ _ => trivial

theorem Machine.Reachable.next {s t : S} {a : A} (h : M.Reachable s)
    (hstep : M.step s a = some t) : M.Reachable t :=
  Machine.Reach.next h trivial hstep

/-- **Invariant rule.** A property of the start states that every allowed step
from a reached state preserves holds in every reached state. -/
theorem Machine.Reach.invariant {I : S → Prop} (h0 : ∀ s, M.start s → I s)
    (hs : ∀ s a t, M.Reach G s → I s → G s a → M.step s a = some t → I t) {s : S}
    (h : M.Reach G s) : I s := by
  induction h with
  | start h => exact h0 _ h
  | next hr ha hstep ih => exact hs _ _ _ hr ih ha hstep

/-- What a run from a reachable state comes to is reachable. -/
theorem Machine.Reachable.run {as : List A} {s t : S} (h : M.Reachable s)
    (hrun : as.foldlM M.step s = some t) : M.Reachable t := by
  induction as generalizing s with
  | nil =>
    cases hrun
    exact h
  | cons a as ih =>
    rw [List.foldlM_cons] at hrun
    obtain ⟨u, hu, hrest⟩ := Option.bind_eq_some_iff.mp hrun
    exact ih (h.next hu) hrest

/-! ## Recording a run -/

variable {O : Type*} {obs : S → A → List O}

/-- The machine that also records what is observed in each step. -/
def Machine.traced (M : Machine S A) (obs : S → A → List O) : Machine (S × List O) A where
  start s := M.start s.1 ∧ s.2 = []
  step s a := (M.step s.1 a).map fun t => (t, s.2 ++ obs s.1 a)

theorem Machine.traced_step {s t : S × List O} {a : A} (h : (M.traced obs).step s a = some t) :
    M.step s.1 a = some t.1 ∧ t.2 = s.2 ++ obs s.1 a := by
  obtain ⟨u, hu, rfl⟩ := Option.map_eq_some_iff.mp h
  exact ⟨hu, rfl⟩

/-- Recording does not change what the machine does. -/
theorem Machine.Reach.of_traced {s : S × List O}
    (h : (M.traced obs).Reach (fun s a => G s.1 a) s) : M.Reach G s.1 := by
  induction h with
  | start hs => exact .start hs.1
  | next _ ha hstep ih => exact .next ih ha (traced_step hstep).1

theorem Machine.Reach.traced {s : S} (h : M.Reach G s) :
    ∃ l, (M.traced obs).Reach (fun s a => G s.1 a) (s, l) := by
  induction h with
  | start hs => exact ⟨[], .start ⟨hs, rfl⟩⟩
  | @next s t a _ ha hstep ih =>
    obtain ⟨l, hl⟩ := ih
    exact ⟨l ++ obs s a, .next hl ha (by simp [Machine.traced, hstep])⟩

/-- **Record rule.** What every allowed step from a reached state observes is
all that is recorded. -/
theorem Machine.Reach.recorded {P : O → Prop}
    (hs : ∀ s a t, M.Reach G s → G s a → M.step s a = some t → ∀ o ∈ obs s a, P o)
    {s : S × List O} (h : (M.traced obs).Reach (fun s a => G s.1 a) s) : ∀ o ∈ s.2, P o := by
  induction h with
  | start h0 => simp [h0.2]
  | @next s t a hr ha hstep ih =>
    obtain ⟨hstep, hrec⟩ := traced_step hstep
    intro o ho
    rw [hrec, List.mem_append] at ho
    rcases ho with ho | ho
    · exact ih o ho
    · exact hs s.1 a t.1 hr.of_traced ha hstep o ho

/-! ## Replaying a list of actions -/

/-- The actions are possible one after the other, each where `g` allows it, and
the state at the end passes the test `p`. -/
def Machine.replay (M : Machine S A) (g : S → A → Bool) (p : S → Bool) : S → List A → Bool
  | s, [] => p s
  | s, a :: as => g s a && (M.step s a).any fun t => M.replay g p t as

theorem Machine.reach_of_replay (g : S → A → Bool) (p : S → Bool) (s : S) (as : List A)
    (hg : ∀ s a, g s a = true → G s a) (h : M.Reach G s)
    (hr : M.replay g p s as = true) : ∃ t, M.Reach G t ∧ p t = true := by
  induction as generalizing s with
  | nil => exact ⟨s, h, hr⟩
  | cons a as ih =>
    simp only [replay, Bool.and_eq_true, Option.any_eq_true] at hr
    obtain ⟨ha, t, ht, hr⟩ := hr
    exact ih t (.next h (hg s a ha) ht) hr

theorem Machine.reachable_of_replay (p : S → Bool) (s : S) (as : List A) (h : M.start s)
    (hr : M.replay (fun _ _ => true) p s as = true) : ∃ t, M.Reachable t ∧ p t = true :=
  reach_of_replay (fun _ _ => true) p s as (fun _ _ _ => trivial) (.start h) hr

end Runs
