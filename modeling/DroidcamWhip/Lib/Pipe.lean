import Mathlib.Data.List.Basic

/-!
Pipes: what is read at one end goes through a window of a buffer to the other end.
-/

namespace Pipe

variable {α : Type*}

/-! ## Windows -/

/-- The `len` elements of a buffer from `off` on. -/
def window (buffer : List α) (off len : Nat) : List α := (buffer.drop off).take len

@[simp] theorem window_zero (buffer : List α) (off : Nat) : window buffer off 0 = [] :=
  List.take_zero

theorem length_window {buffer : List α} {off len : Nat} (h : off + len ≤ buffer.length) :
    (window buffer off len).length = len := by
  rw [window, List.length_take, List.length_drop]
  omega

/-- New data at the start of a buffer. -/
theorem window_fill (d buffer : List α) :
    window (d ++ buffer.drop d.length) 0 d.length = d := by
  rw [window, List.drop_zero, List.take_left]

/-- The window moves on behind its first `n` elements. -/
theorem window_advance (buffer : List α) (off : Nat) {n len : Nat} (h : n ≤ len) :
    (window buffer off len).take n ++ window buffer (off + n) (len - n) = window buffer off len := by
  rw [window, window, ← List.drop_drop, List.take_take, Nat.min_eq_left h,
    ← List.take_add, Nat.add_sub_cancel' h]

/-! ## Ends -/

/-- All that was read at one end was accepted at the other or is pending. -/
structure Intact (read accepted pending : List α) : Prop where
  eq : read = accepted ++ pending

namespace Intact

variable {read accepted pending : List α}

theorem nil : Intact ([] : List α) [] [] := ⟨rfl⟩

theorem fill (h : Intact read accepted []) (d : List α) : Intact (read ++ d) accepted d :=
  ⟨by rw [h.eq, List.append_nil]⟩

theorem pass {p q : List α} (h : Intact read accepted (p ++ q)) : Intact read (accepted ++ p) q :=
  ⟨by rw [h.eq, List.append_assoc]⟩

theorem isPrefix (h : Intact read accepted pending) : accepted <+: read :=
  ⟨pending, h.eq.symm⟩

end Intact

end Pipe
