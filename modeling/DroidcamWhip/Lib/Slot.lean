import DroidcamWhip.Lib.Custody

/-!
A slot for one resource that is made again when the key it was made for changes.
Making can fail, the key is stored before that is known, and the resource in the
slot is released in any case. Resources are numbered in the order they are made.
-/

/-- `key` is what was last asked for, `current` the number of the resource in the
slot and what it was made of. -/
structure Slot (K R : Type*) where
  key : K
  current : Option (Nat × R)
  issued : Nat
  released : List Nat

namespace Slot

variable {K R : Type*} {rel : K → R → Prop} {s : Slot K R}

def empty (key : K) : Slot K R := ⟨key, none, 0, []⟩

/-- The number of the resource in the slot. -/
def held (s : Slot K R) : List Nat := (s.current.map Prod.fst).toList

/-- Release the resource in the slot, if any. -/
def clear (s : Slot K R) : Slot K R :=
  { s with current := none, released := s.released ++ s.held }

/-- Put a new resource into an empty slot. -/
def make (s : Slot K R) (made : R) : Slot K R :=
  { s with current := some (s.issued, made), issued := s.issued + 1 }

/-- Release what is in the slot and make a resource for `k`, which may fail. -/
def renew (s : Slot K R) (k : K) (made : Option R) : Slot K R :=
  match made with
  | none => { s.clear with key := k }
  | some r => { s.clear.make r with key := k }

/-- Renew unless the slot has a resource for the key `k`. -/
def want [DecidableEq K] (s : Slot K R) (k : K) (made : Option R) : Slot K R :=
  if s.current.isNone ∨ s.key ≠ k then s.renew k made else s

/-- The resource in the slot was made for its key, and every resource ever made
is in the slot or was released once. -/
structure Sound (rel : K → R → Prop) (s : Slot K R) : Prop where
  matched : ∀ x ∈ s.current, rel s.key x.2
  custody : Custody.Held [s.held, s.released] s.issued

theorem sound_empty (key : K) : (Slot.empty key : Slot K R).Sound rel :=
  ⟨nofun, fun _ => rfl⟩

theorem Sound.clear (h : s.Sound rel) : s.clear.Sound rel := by
  refine ⟨nofun, h.custody.move fun a => ?_⟩
  simp [Slot.clear, held]
  omega

theorem Sound.make {r : R} (h : s.Sound rel) (hempty : s.current = none) (hr : rel s.key r) :
    (s.make r).Sound rel := by
  constructor
  · rintro x ⟨⟩
    exact hr
  · refine h.custody.issue fun a => ?_
    simp [Slot.make, held, hempty, List.count_singleton, eq_comm (a := a)]
    omega

theorem Sound.setKey {k : K} (h : s.Sound rel) (hempty : s.current = none) :
    Sound rel { s with key := k } :=
  ⟨by simp [hempty], h.custody⟩

theorem Sound.renew {k : K} {made : Option R} (h : s.Sound rel) (hm : ∀ r ∈ made, rel k r) :
    (s.renew k made).Sound rel := by
  have hkey : Sound rel { s.clear with key := k } := h.clear.setKey rfl
  cases made with
  | none => exact hkey
  | some r => exact hkey.make rfl (hm r rfl)

theorem Sound.want [DecidableEq K] {k : K} {made : Option R} (h : s.Sound rel)
    (hm : ∀ r ∈ made, rel k r) : (s.want k made).Sound rel := by
  unfold Slot.want
  split
  · exact h.renew hm
  · exact h

@[simp] theorem want_key [DecidableEq K] (s : Slot K R) (k : K) (made : Option R) :
    (s.want k made).key = k := by
  unfold want
  split
  · unfold renew
    split <;> rfl
  · simp_all

/-- When nothing fails, there is something in the slot. -/
theorem want_isSome [DecidableEq K] (s : Slot K R) (k : K) (r : R) :
    (s.want k (some r)).current.isSome = true := by
  unfold want
  split
  · rfl
  · rename_i h
    rw [not_or, Option.isNone_iff_eq_none] at h
    exact Option.isSome_iff_ne_none.mpr h.1

/-- What is in the slot after `want` was made for the key that was wanted. -/
theorem Sound.wanted [DecidableEq K] {k : K} {made : Option R} (h : s.Sound rel)
    (hm : ∀ r ∈ made, rel k r) : ∀ x ∈ (s.want k made).current, rel k x.2 := by
  intro x hx
  have hmatch := (h.want hm).matched x hx
  rwa [want_key] at hmatch

/-- A resource in the slot has not been released. -/
theorem Sound.not_released (h : s.Sound rel) : ∀ x ∈ s.current, x.1 ∉ s.released := by
  intro x hx
  have hc := h.custody x.1
  simp only [held, Option.mem_def.mp hx, Option.map_some, Option.toList_some,
    Custody.occurrences_cons, Custody.occurrences_nil, List.count_singleton_self] at hc
  rw [← List.count_eq_zero]
  split at hc <;> omega

/-- Once the slot is empty, every resource has been released exactly once. -/
theorem Sound.all_released (h : s.Sound rel) (hempty : s.current = none) (a : Nat) :
    s.released.count a = if a < s.issued then 1 else 0 := by
  have hc := h.custody a
  simpa [held, hempty] using hc

end Slot
