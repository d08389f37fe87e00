import Mathlib.Data.List.TakeWhile
import DroidcamWhip.Lib.Bytes

/-!
Strings of C: bytes up to a terminator, the comparison of two of them up to a
length, and arrays of characters of a fixed size.
-/

namespace CString

/-! ## Characters -/

def newline : UInt8 := 10

def carriage : UInt8 := 13

def space : UInt8 := 32

def tab : UInt8 := 9

/-- Space, and the characters from tab to carriage return. -/
def IsSpace (b : UInt8) : Prop := b = 32 ∨ (9 ≤ b ∧ b ≤ 13)

instance (b : UInt8) : Decidable (IsSpace b) := inferInstanceAs (Decidable (_ ∨ _))

def IsDigit (b : UInt8) : Prop := 48 ≤ b ∧ b ≤ 57

instance (b : UInt8) : Decidable (IsDigit b) := inferInstanceAs (Decidable (_ ∧ _))

/-! ## Strings -/

/-- The bytes of a literal. -/
def ascii (s : String) : List UInt8 := s.toList.map fun c => UInt8.ofNat c.toNat

/-- The string at the start of a buffer; the end of the list counts as a terminator. -/
def text (s : List UInt8) : List UInt8 := s.takeWhile (· ≠ 0)

@[simp] theorem text_nil : text [] = [] := rfl

@[simp] theorem text_cons_zero (s : List UInt8) : text (0 :: s) = [] := rfl

theorem text_cons {b : UInt8} (s : List UInt8) (hb : b ≠ 0) : text (b :: s) = b :: text s := by
  simp [text, hb]

theorem text_length_le (s : List UInt8) : (text s).length ≤ s.length :=
  (List.takeWhile_prefix _).length_le

theorem zero_notMem_text (s : List UInt8) : 0 ∉ text s := by
  intro h
  simpa using List.mem_takeWhile_imp h

/-- A string without a terminator in it, followed by one or by nothing. -/
theorem text_append {s t : List UInt8} (hs : 0 ∉ s) : text (s ++ t) = s ++ text t := by
  induction s with
  | nil => rfl
  | cons b s ih =>
    simp only [List.mem_cons, not_or] at hs
    rw [List.cons_append, text_cons _ (Ne.symm hs.1), ih hs.2, List.cons_append]

theorem text_terminated {s : List UInt8} (t : List UInt8) (hs : 0 ∉ s) :
    text (s ++ 0 :: t) = s := by
  rw [text_append hs, text_cons_zero, List.append_nil]

theorem text_of_notMem {s : List UInt8} (hs : 0 ∉ s) : text s = s := by
  simpa using text_append (t := []) hs

theorem text_replicate_zero (n : Nat) : text (List.replicate n 0) = [] := by
  cases n <;> rfl

/-! ## Comparison -/

/-- `strncmp`: the difference of the first bytes that differ among the first `n`. -/
def strncmp : List UInt8 → List UInt8 → Nat → Int
  | _, _, 0 => 0
  | [], [], _ + 1 => 0
  | [], b :: _, _ + 1 => -b.toNat
  | a :: _, [], _ + 1 => a.toNat
  | a :: as, b :: bs, n + 1 =>
      if a ≠ b then a.toNat - b.toNat else if a = 0 then 0 else strncmp as bs n

theorem strncmp_eq_zero_iff (a b : List UInt8) (n : Nat) :
    strncmp a b n = 0 ↔ (text a).take n = (text b).take n := by
  induction n generalizing a b with
  | zero => simp [strncmp]
  | succ n ih =>
    have hnat : ∀ c : UInt8, c ≠ 0 → c.toNat ≠ 0 := fun c hc h => hc (UInt8.toNat_inj.mp h)
    match a, b with
    | [], [] => simp [strncmp]
    | [], b :: bs =>
      by_cases hb : b = 0
      · simp [strncmp, hb]
      · simp [strncmp, text_cons _ hb, hnat b hb]
    | a :: as, [] =>
      by_cases ha : a = 0
      · simp [strncmp, ha]
      · simp [strncmp, text_cons _ ha, hnat a ha]
    | a :: as, b :: bs =>
      by_cases hab : a = b
      · subst hab
        by_cases ha : a = 0
        · simp [strncmp, ha]
        · simp [strncmp, text_cons _ ha, ha, ih]
      · have hne : (a.toNat : Int) - b.toNat ≠ 0 := by
          have := mt UInt8.toNat_inj.mp hab
          omega
        have hab' : (text (a :: as)).take (n + 1) ≠ (text (b :: bs)).take (n + 1) := by
          by_cases ha : a = 0
          · have hb : b ≠ 0 := fun hb => hab (ha.trans hb.symm)
            simp [ha, text_cons _ hb]
          · by_cases hb : b = 0
            · simp [hb, text_cons _ ha]
            · simp [text_cons _ ha, text_cons _ hb, hab]
        simp [strncmp, hab, hne, hab']

/-- `strncmp` reads no more than `n` bytes. -/
theorem strncmp_take (a b : List UInt8) (n : Nat) : strncmp a (b.take n) n = strncmp a b n := by
  induction n generalizing a b with
  | zero => simp [strncmp]
  | succ n ih =>
    match a, b with
    | [], [] => rfl
    | [], b :: bs => rfl
    | a :: as, [] => rfl
    | a :: as, b :: bs => simp [strncmp, ih]

/-- `strcmp`: neither string has more bytes than the bound. -/
def strcmp (a b : List UInt8) : Int := strncmp a b (max a.length b.length)

theorem strcmp_eq_zero_iff (a b : List UInt8) : strcmp a b = 0 ↔ text a = text b := by
  have ha : (text a).length ≤ max a.length b.length :=
    (text_length_le a).trans (Nat.le_max_left ..)
  have hb : (text b).length ≤ max a.length b.length :=
    (text_length_le b).trans (Nat.le_max_right ..)
  rw [strcmp, strncmp_eq_zero_iff, List.take_of_length_le ha, List.take_of_length_le hb]

/-- Compared over its own length, a string equals every string that it is a prefix of. -/
theorem strncmp_length_eq_zero_iff {a b : List UInt8} {n : Nat} (hn : n ≤ b.length)
    (hb : 0 ∉ b.take n) : strncmp a b n = 0 ↔ b.take n <+: text a := by
  have htext : (text b).take n = b.take n := by
    conv_lhs => rw [← List.take_append_drop n b, text_append hb]
    rw [List.take_left' (List.length_take_of_le hn)]
  rw [strncmp_eq_zero_iff, htext, List.prefix_iff_eq_take, List.length_take_of_le hn, eq_comm]

/-! ## Constants and arguments -/

/-- A string without a terminator in it. -/
structure CStr where
  bytes : List UInt8
  clean : 0 ∉ bytes
  deriving DecidableEq

@[simp] theorem CStr.strcmp_eq_zero_iff {a b : CStr} : strcmp a.bytes b.bytes = 0 ↔ a = b := by
  rw [CString.strcmp_eq_zero_iff, text_of_notMem a.clean, text_of_notMem b.clean, CStr.mk.injEq]

/-! ## Numbers -/

/-- The value of the digits at the start of a string. -/
def digits (s : List UInt8) : Int :=
  (s.takeWhile (IsDigit ·)).foldl (fun n b => 10 * n + (b.toNat - 48)) 0

/-- `strtol` in base ten, for a `long` of 64 bits: out of range, the nearest value. -/
def strtol (s : List UInt8) : Int :=
  let value : Int :=
    match s.dropWhile (IsSpace ·) with
    | 43 :: s => digits s
    | 45 :: s => -digits s
    | s => digits s
  max (-2 ^ 63) (min value (2 ^ 63 - 1))

def atoi (s : List UInt8) : Int32 := Int32.ofInt (strtol s)

example : atoi (ascii " -4747x") = -4747 := by decide

/-! ## Arrays -/

/-- `char a[n]`. -/
structure Chars (n : Nat) where
  bytes : List UInt8
  size : bytes.length = n
  deriving DecidableEq

namespace Chars

variable {n : Nat}

def zero (n : Nat) : Chars n := ⟨List.replicate n 0, List.length_replicate⟩

/-- `memcpy` into an array, at the offset `off`. -/
def store (a : Chars n) (off : Nat) (xs : List UInt8) : Chars n :=
  ⟨Bytes.overwrite a.bytes off xs, by rw [Bytes.overwrite_length, a.size]⟩

/-- `snprintf` of the text `xs` into an array: what fits, and a terminator. -/
def snprintf (a : Chars n) (xs : List UInt8) : Chars n := a.store 0 (xs.take (n - 1) ++ [0])

/-- `strncpy` of the string `s` over the whole array: what fits, and zeros behind it. -/
def strncpy (a : Chars n) (s : List UInt8) : Chars n :=
  a.store 0 ((text s ++ List.replicate n 0).take n)

/-- `strncpy` of the string `s` into the first `k` bytes of the array. -/
def strncpyFirst (a : Chars n) (k : Nat) (s : List UInt8) : Chars n :=
  a.store 0 ((text s ++ List.replicate k 0).take k)

/-- The string in the array. -/
def str (a : Chars n) : List UInt8 := text a.bytes

@[simp] theorem str_zero : (zero n).str = [] := text_replicate_zero n

/-- A string that leaves room for a terminator, copied over zeros. -/
theorem str_store_zero {xs : List UInt8} (h0 : 0 ∉ xs) (hn : xs.length < n) :
    ((zero n).store 0 xs).str = xs := by
  have hpos : n - xs.length = n - xs.length - 1 + 1 := by omega
  have hfit : xs.length ≤ (List.replicate n (0 : UInt8)).length := by
    rw [List.length_replicate]
    omega
  show text (Bytes.overwrite (List.replicate n 0) 0 xs) = xs
  rw [Bytes.overwrite_zero _ _ hfit, List.drop_replicate, hpos, List.replicate_succ]
  exact text_terminated _ h0

theorem str_snprintf (a : Chars n) {xs : List UInt8} (h0 : 0 ∉ xs) (hn : 0 < n) :
    (a.snprintf xs).str = xs.take (n - 1) := by
  have hfit : (xs.take (n - 1) ++ [0]).length ≤ a.bytes.length := by
    have := List.length_take_le (n - 1) xs
    rw [a.size, List.length_append, List.length_singleton]
    omega
  show text (Bytes.overwrite a.bytes 0 (xs.take (n - 1) ++ [0])) = _
  rw [Bytes.overwrite_zero _ _ hfit, List.append_assoc]
  exact text_terminated _ fun h => h0 (List.mem_of_mem_take h)

/-- What `snprintf` has written ends in a terminator. -/
theorem zero_mem_snprintf (a : Chars n) (xs : List UInt8) (hn : 0 < n) :
    0 ∈ (a.snprintf xs).bytes := by
  have hfit : (xs.take (n - 1) ++ [0]).length ≤ a.bytes.length := by
    have := List.length_take_le (n - 1) xs
    rw [a.size, List.length_append, List.length_singleton]
    omega
  show 0 ∈ Bytes.overwrite a.bytes 0 (xs.take (n - 1) ++ [0])
  rw [Bytes.overwrite_zero _ _ hfit]
  simp

theorem strncpy_bytes (a : Chars n) (s : List UInt8) :
    (a.strncpy s).bytes = (text s ++ List.replicate n 0).take n := by
  have hlen : ((text s ++ List.replicate n 0).take n).length = n := by
    rw [List.length_take, List.length_append, List.length_replicate]
    omega
  show Bytes.overwrite a.bytes 0 _ = _
  rw [Bytes.overwrite_zero _ _ (by rw [hlen, a.size]), hlen, List.drop_of_length_le (a.size.le),
    List.append_nil]

theorem strncpyFirst_bytes (a : Chars n) {k : Nat} (hk : k ≤ n) (s : List UInt8) :
    (a.strncpyFirst k s).bytes = (text s ++ List.replicate k 0).take k ++ a.bytes.drop k := by
  have hlen : ((text s ++ List.replicate k 0).take k).length = k := by
    rw [List.length_take, List.length_append, List.length_replicate]
    omega
  show Bytes.overwrite a.bytes 0 _ = _
  rw [Bytes.overwrite_zero _ _ (by rw [hlen, a.size]; exact hk), hlen]

/-- A string copied before a terminator. -/
theorem str_strncpyFirst (a : Chars n) {k : Nat} (hk : k < n) (s : List UInt8)
    (hz : a.bytes[k]? = some 0) : (a.strncpyFirst k s).str = (text s).take k := by
  obtain ⟨hlt, hget⟩ := List.getElem?_eq_some_iff.mp hz
  show text (a.strncpyFirst k s).bytes = _
  rw [strncpyFirst_bytes a hk.le, List.drop_eq_getElem_cons hlt, hget, List.take_append,
    List.append_assoc, text_append fun h => zero_notMem_text s (List.mem_of_mem_take h)]
  rw [List.take_replicate]
  cases min (k - (text s).length) k with
  | zero => simp
  | succ m => simp [List.replicate_succ]

theorem getElem?_strncpyFirst (a : Chars n) {k : Nat} (hk : k < n) (s : List UInt8) :
    (a.strncpyFirst k s).bytes[k]? = a.bytes[k]? := by
  have hlen : ((text s ++ List.replicate k 0).take k).length = k := by
    rw [List.length_take, List.length_append, List.length_replicate]
    omega
  rw [strncpyFirst_bytes a hk.le, List.getElem?_append_right hlen.le, hlen, Nat.sub_self,
    List.getElem?_drop, Nat.add_zero]

/-- A string that leaves room for its terminator. -/
theorem str_strncpy (a : Chars n) {s : List UInt8} (hs : (text s).length < n) :
    (a.strncpy s).str = text s ∧ 0 ∈ (a.strncpy s).bytes := by
  have hbytes : (a.strncpy s).bytes = text s ++ List.replicate (n - (text s).length) 0 := by
    rw [strncpy_bytes, List.take_append, List.take_of_length_le hs.le, List.take_replicate,
      Nat.min_eq_left (Nat.sub_le ..)]
  constructor
  · show text (a.strncpy s).bytes = _
    rw [hbytes, text_append (zero_notMem_text s), text_replicate_zero, List.append_nil]
  · rw [hbytes, List.mem_append, List.mem_replicate]
    exact .inr ⟨by omega, rfl⟩

/-- A string of an array with a terminator is shorter than the array. -/
theorem str_length_lt {a : Chars n} (h : 0 ∈ a.bytes) : a.str.length < n := by
  have hpre : a.str <+: a.bytes := List.takeWhile_prefix _
  refine lt_of_le_of_ne (hpre.length_le.trans_eq a.size) fun hlen => ?_
  have heq : a.str = a.bytes := hpre.eq_of_length (hlen.trans a.size.symm)
  rw [← heq] at h
  exact zero_notMem_text _ h

/-- The string of a terminated array, copied into a larger part of another. -/
theorem str_copy {m k : Nat} {a : Chars n} {b : Chars m} (ha : 0 ∈ a.bytes) (hn : n = k + 1)
    (hk : k < m) (hb : b.bytes[k]? = some 0) : (b.strncpyFirst k a.str).str = a.str := by
  have hlt := str_length_lt ha
  have htext : text a.str = a.str := text_of_notMem (zero_notMem_text _)
  rw [Chars.str_strncpyFirst b hk _ hb, htext, List.take_of_length_le (by omega)]

end Chars

end CString
