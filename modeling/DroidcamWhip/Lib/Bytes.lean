import Mathlib.Data.List.Basic
import Mathlib.Tactic.Ring

/-!
Byte strings: big-endian numbers of a fixed width, with their round trips in
both directions, and writes into a buffer that keep its length.
-/

namespace Bytes

/-! ## Big-endian numbers -/

/-- The `k` low bytes of `n`, most significant first. -/
def be : Nat → Nat → List UInt8
  | 0, _ => []
  | k + 1, n => UInt8.ofNat (n / 256 ^ k) :: be k n

/-- The number that a byte string spells, most significant byte first. -/
def value : List UInt8 → Nat
  | [] => 0
  | b :: bs => b.toNat * 256 ^ bs.length + value bs

@[simp] theorem be_length (k n : Nat) : (be k n).length = k := by
  induction k with
  | zero => rfl
  | succ k ih => simp [be, ih]

theorem value_lt (bs : List UInt8) : value bs < 256 ^ bs.length := by
  induction bs with
  | nil => simp [value]
  | cons b bs ih =>
    have hb : b.toNat + 1 ≤ 256 := b.toNat_lt
    have hm := Nat.mul_le_mul_right (256 ^ bs.length) hb
    simp only [value, List.length_cons, Nat.pow_succ']
    rw [Nat.add_mul, Nat.one_mul] at hm
    omega

theorem value_be (k n : Nat) : value (be k n) = n % 256 ^ k := by
  induction k with
  | zero => simp [be, value, Nat.mod_one]
  | succ k ih =>
    have hb : (UInt8.ofNat (n / 256 ^ k)).toNat = n / 256 ^ k % 256 := UInt8.toNat_ofNat'
    rw [be, value, be_length, ih, hb, Nat.pow_succ, Nat.mod_mul, Nat.mul_comm, Nat.add_comm]

theorem be_add_mul (k n m : Nat) : be k (m * 256 ^ k + n) = be k n := by
  suffices h : ∀ j ≤ k, be j (m * 256 ^ k + n) = be j n from h k le_rfl
  intro j hj
  induction j with
  | zero => rfl
  | succ j ih =>
    have hk : m * 256 ^ k = 256 ^ j * (256 * (m * 256 ^ (k - (j + 1)))) := by
      have : 256 ^ k = 256 ^ j * 256 * 256 ^ (k - (j + 1)) := by
        rw [← Nat.pow_succ, ← Nat.pow_add]
        congr 1
        omega
      rw [this]
      ring
    have hd : (m * 256 ^ k + n) / 256 ^ j = 256 * (m * 256 ^ (k - (j + 1))) + n / 256 ^ j := by
      rw [hk, Nat.mul_add_div (Nat.pow_pos (by omega))]
    have hb : UInt8.ofNat ((m * 256 ^ k + n) / 256 ^ j) = UInt8.ofNat (n / 256 ^ j) := by
      apply UInt8.toNat_inj.mp
      rw [hd, UInt8.toNat_ofNat', UInt8.toNat_ofNat']
      omega
    rw [be, be, hb, ih (by omega)]

theorem be_value (bs : List UInt8) : be bs.length (value bs) = bs := by
  induction bs with
  | nil => rfl
  | cons b bs ih =>
    have hlt := value_lt bs
    have hd : (b.toNat * 256 ^ bs.length + value bs) / 256 ^ bs.length = b.toNat := by
      rw [Nat.mul_comm, Nat.mul_add_div (Nat.pow_pos (by omega)), Nat.div_eq_of_lt hlt]
      omega
    rw [List.length_cons, be, value, hd, be_add_mul, ih, UInt8.ofNat_toNat]

theorem value_append (as bs : List UInt8) :
    value (as ++ bs) = value as * 256 ^ bs.length + value bs := by
  induction as with
  | nil => simp [value]
  | cons a as ih =>
    simp only [List.cons_append, value, List.length_append, ih, Nat.pow_add]
    ring

/-! ## Buffers -/

/-- Read `n` bytes at offset `off`; `none` for bytes outside the buffer. -/
def slice (buf : List UInt8) (off n : Nat) : Option (List UInt8) :=
  if off + n ≤ buf.length then some ((buf.drop off).take n) else none

theorem slice_eq {buf : List UInt8} {off n : Nat} (h : off + n ≤ buf.length) :
    slice buf off n = some ((buf.drop off).take n) := if_pos h

theorem slice_length {buf xs : List UInt8} {off n : Nat} (h : slice buf off n = some xs) :
    xs.length = n := by
  unfold slice at h
  split at h
  · cases h
    rw [List.length_take, List.length_drop]
    omega
  · cases h

/-- What is read inside the first `size` bytes stands in them. -/
theorem take_drop_take {buf : List UInt8} {off n size : Nat} (h : off + n ≤ size) :
    ((buf.take size).drop off).take n = (buf.drop off).take n := by
  rw [List.drop_take, List.take_take, Nat.min_eq_left (by omega)]

/-- Write `xs` at offset `off`; what does not fit is not written. -/
def overwrite : List UInt8 → Nat → List UInt8 → List UInt8
  | [], _, _ => []
  | b :: bs, off + 1, xs => b :: overwrite bs off xs
  | b :: bs, 0, [] => b :: bs
  | _ :: bs, 0, x :: xs => x :: overwrite bs 0 xs

@[simp] theorem overwrite_length (buf : List UInt8) (off : Nat) (xs : List UInt8) :
    (overwrite buf off xs).length = buf.length := by
  induction buf generalizing off xs with
  | nil => rfl
  | cons b bs ih =>
    cases off with
    | succ off => simp [overwrite, ih]
    | zero => cases xs <;> simp [overwrite, ih]

theorem overwrite_zero (buf xs : List UInt8) (h : xs.length ≤ buf.length) :
    overwrite buf 0 xs = xs ++ buf.drop xs.length := by
  induction buf generalizing xs with
  | nil =>
    cases xs with
    | nil => rfl
    | cons x xs => simp at h
  | cons b bs ih =>
    cases xs with
    | nil => rfl
    | cons x xs => simp [overwrite, ih xs (by simpa using h)]

/-- Write `xs` at offset `off`; `none` when a byte falls outside the buffer. -/
def write (buf : List UInt8) (off : Nat) (xs : List UInt8) : Option (List UInt8) :=
  if off + xs.length ≤ buf.length then some (overwrite buf off xs) else none

theorem write_eq {buf xs : List UInt8} {off : Nat} (h : off + xs.length ≤ buf.length) :
    write buf off xs = some (overwrite buf off xs) := if_pos h

/-- What is copied to the start of a buffer with room for it. -/
theorem overwrite_getElem {buf xs : List UInt8} (h : xs.length ≤ buf.length) {k : Nat}
    (hk : k < xs.length) : (overwrite buf 0 xs)[k]? = xs[k]? := by
  rw [overwrite_zero buf xs h, List.getElem?_append_left hk]

/-- A write behind the first bytes of a buffer. -/
theorem overwrite_append (pre bs xs : List UInt8) :
    overwrite (pre ++ bs) pre.length xs = pre ++ overwrite bs 0 xs := by
  induction pre with
  | nil => rfl
  | cons b pre ih => rw [List.cons_append, List.length_cons, overwrite, ih, List.cons_append]

/-- Inside the buffer a write replaces exactly the bytes it covers. -/
theorem overwrite_eq (buf : List UInt8) (off : Nat) (xs : List UInt8)
    (h : off + xs.length ≤ buf.length) :
    overwrite buf off xs = buf.take off ++ xs ++ buf.drop (off + xs.length) := by
  induction off generalizing buf with
  | zero => simpa using overwrite_zero buf xs (by omega)
  | succ off ih =>
    cases buf with
    | nil => simp at h
    | cons b bs =>
      have hs : off + 1 + xs.length = off + xs.length + 1 := by omega
      simp [overwrite, ih bs (by simp at h; omega), hs]

/-- Two writes, one behind the other. -/
theorem overwrite_overwrite (buf : List UInt8) (off : Nat) (xs ys : List UInt8)
    (h : off + xs.length + ys.length ≤ buf.length) :
    overwrite (overwrite buf off xs) (off + xs.length) ys = overwrite buf off (xs ++ ys) := by
  have hpre : (buf.take off ++ xs).length = off + xs.length := by
    rw [List.length_append, List.length_take_of_le (by omega)]
  rw [overwrite_eq buf off xs (by omega), ← hpre, overwrite_append,
    overwrite_zero _ _ (by rw [List.length_drop, hpre]; omega), List.drop_drop, hpre,
    overwrite_eq buf off (xs ++ ys) (by rw [List.length_append]; omega), List.length_append]
  simp only [List.append_assoc, Nat.add_assoc]

/-- A write behind what has been written at the start. -/
theorem write_overwrite {buf pre xs : List UInt8} {off : Nat} (hoff : off = pre.length)
    (h : off + xs.length ≤ buf.length) :
    write (overwrite buf 0 pre) off xs = some (overwrite buf 0 (pre ++ xs)) := by
  have hboth := overwrite_overwrite buf 0 pre xs (by omega)
  rw [Nat.zero_add, ← hoff] at hboth
  rw [write_eq (by rwa [overwrite_length]), hboth]

/-- What has been written, and what stood before it. -/
theorem overwrite_take (buf : List UInt8) (off : Nat) (xs : List UInt8)
    (h : off + xs.length ≤ buf.length) :
    (overwrite buf off xs).take (off + xs.length) = buf.take off ++ xs := by
  have hpre : (buf.take off ++ xs).length = off + xs.length := by
    rw [List.length_append, List.length_take_of_le (by omega)]
  rw [overwrite_eq buf off xs h, ← hpre, List.take_left]

/-- A write does not reach behind its last byte. -/
theorem overwrite_drop (buf : List UInt8) (off n : Nat) (xs : List UInt8)
    (h : off + xs.length ≤ n) : (overwrite buf off xs).drop n = buf.drop n := by
  induction buf generalizing off n xs with
  | nil => rfl
  | cons b bs ih =>
    cases off with
    | succ off =>
      obtain ⟨n, rfl⟩ : ∃ m, n = m + 1 := ⟨n - 1, by omega⟩
      simpa [overwrite] using ih off n xs (by omega)
    | zero =>
      cases xs with
      | nil => rfl
      | cons x xs =>
        simp only [List.length_cons] at h
        obtain ⟨n, rfl⟩ : ∃ m, n = m + 1 := ⟨n - 1, by omega⟩
        simpa [overwrite] using ih 0 n xs (by omega)

end Bytes
