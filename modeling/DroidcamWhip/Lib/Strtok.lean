import DroidcamWhip.Lib.CString

/-!
Strings inside a buffer, named by their offset, and `strtok_r`, which cuts a string
into its pieces by writing terminators into the buffer.
-/

namespace CString

/-! ## Strings in a buffer -/

def byte (m : List UInt8) (p : Nat) : UInt8 := m.getD p 0

/-- The string at the offset `p`. -/
def strAt (m : List UInt8) (p : Nat) : List UInt8 := text (m.drop p)

/-- `strchr`. -/
def strchr (m : List UInt8) (p : Nat) (c : UInt8) : Option Nat :=
  ((strAt m p).idxOf? c).map (p + ·)

theorem byte_eq (m : List UInt8) (p : Nat) : byte m p = (strAt m p).headD 0 := by
  have hhead : ∀ l : List UInt8, (text l).headD 0 = l.headD 0 := fun l => by
    cases l with
    | nil => rfl
    | cons b l =>
      by_cases hb : b = 0
      · rw [hb, text_cons_zero]
        rfl
      · rw [text_cons l hb]
        rfl
  rw [strAt, hhead, byte, List.headD_eq_head?_getD, List.head?_drop, List.getD_eq_getElem?_getD]

theorem byte_eq_zero_iff (m : List UInt8) (p : Nat) : byte m p = 0 ↔ strAt m p = [] := by
  rw [byte_eq]
  have hzero := zero_notMem_text (m.drop p)
  rw [← strAt] at hzero
  cases hs : strAt m p with
  | nil => simp
  | cons b s =>
    rw [hs, List.mem_cons, not_or] at hzero
    simpa using Ne.symm hzero.1

theorem text_drop (l : List UInt8) {j : Nat} (hj : j ≤ (text l).length) :
    text (l.drop j) = (text l).drop j := by
  induction l generalizing j with
  | nil => simp
  | cons b l ih =>
    cases j with
    | zero => rfl
    | succ j =>
      by_cases hb : b = 0
      · rw [hb, text_cons_zero] at hj
        simp at hj
      · rw [text_cons l hb] at hj ⊢
        exact ih (by simpa using hj)

theorem strAt_add (m : List UInt8) (p : Nat) {j : Nat} (hj : j ≤ (strAt m p).length) :
    strAt m (p + j) = (strAt m p).drop j := by
  rw [strAt, ← List.drop_drop]
  exact text_drop _ hj

theorem text_set (l : List UInt8) (k : Nat) : text (l.set k 0) = (text l).take k := by
  induction l generalizing k with
  | nil => simp
  | cons b l ih =>
    cases k with
    | zero => rfl
    | succ k =>
      by_cases hb : b = 0
      · simp [hb]
      · rw [List.set_cons_succ, text_cons _ hb, text_cons _ hb, ih, List.take_succ_cons]

/-- A terminator ends the strings that it is in and leaves those behind it alone. -/
theorem strAt_set_of_le (m : List UInt8) {p e : Nat} (h : p ≤ e) :
    strAt (m.set e 0) p = (strAt m p).take (e - p) := by
  rw [strAt, List.drop_set, if_neg (by omega), text_set, strAt]

theorem drop_set_of_lt (m : List UInt8) {p e : Nat} (h : e < p) :
    (m.set e 0).drop p = m.drop p := by
  rw [List.drop_set, if_pos h]

theorem strAt_set_of_lt (m : List UInt8) {p e : Nat} (h : e < p) :
    strAt (m.set e 0) p = strAt m p := by
  rw [strAt, drop_set_of_lt m h, strAt]

theorem strAt_length_le (m : List UInt8) (p : Nat) : (strAt m p).length ≤ m.length - p := by
  have h := text_length_le (m.drop p)
  rwa [List.length_drop] at h

/-! ## `strtok_r` -/

/-- `strtok_r` at the offset `p` with the one delimiter `c`: the token or NULL, where to
go on, and the buffer. -/
def strtokR (m : List UInt8) (p : Nat) (c : UInt8) : Option Nat × Nat × List UInt8 :=
  let s := p + ((strAt m p).takeWhile (· = c)).length
  if byte m s = 0 then (none, s, m)
  else
    let e := s + ((strAt m s).takeWhile (· ≠ c)).length
    if byte m e = 0 then (some s, e, m) else (some s, e + 1, m.set e 0)

/-- The pieces of a string between delimiters; empty ones do not count. -/
def pieces (c : UInt8) (s : List UInt8) : List (List UInt8) :=
  (s.splitOn c).filter (· ≠ [])

variable {c : UInt8}

@[simp] theorem pieces_nil : pieces c [] = [] := rfl

theorem pieces_cons_self (s : List UInt8) : pieces c (c :: s) = pieces c s := by
  have h := List.splitOn_append_cons_self_of_not_mem (List.not_mem_nil : c ∉ []) s
  rw [List.nil_append] at h
  rw [pieces, h]
  rfl

theorem pieces_single {s : List UInt8} (hs : c ∉ s) (hne : s ≠ []) : pieces c s = [s] := by
  rw [pieces, List.splitOn_eq_singleton hs]
  simp [hne]

theorem pieces_append {s : List UInt8} (hs : c ∉ s) (hne : s ≠ []) (t : List UInt8) :
    pieces c (s ++ c :: t) = s :: pieces c t := by
  rw [pieces, List.splitOn_append_cons_self_of_not_mem hs]
  simp [hne, pieces]

/-- Delimiters at the start do not count. -/
theorem pieces_dropWhile (s : List UInt8) :
    pieces c (s.dropWhile (· = c)) = pieces c s := by
  induction s with
  | nil => rfl
  | cons b s ih =>
    by_cases hb : b = c
    · subst hb
      rw [List.dropWhile_cons_of_pos (by simp), ih, pieces_cons_self]
    · rw [List.dropWhile_cons_of_neg (by simpa using hb)]

theorem drop_takeWhile_length {α : Type*} (q : α → Bool) (l : List α) :
    l.drop (l.takeWhile q).length = l.dropWhile q := by
  calc l.drop (l.takeWhile q).length
      = (l.takeWhile q ++ l.dropWhile q).drop (l.takeWhile q).length := by
        rw [List.takeWhile_append_dropWhile]
    _ = l.dropWhile q := List.drop_left

/-- The first piece of a string that does not start with a delimiter. -/
theorem pieces_span {s : List UInt8} (hne : s.takeWhile (· ≠ c) ≠ []) :
    pieces c s =
      s.takeWhile (· ≠ c) :: pieces c (s.drop ((s.takeWhile (· ≠ c)).length + 1)) := by
  have hs : s.takeWhile (· ≠ c) ++ s.dropWhile (· ≠ c) = s := List.takeWhile_append_dropWhile
  have hc : c ∉ s.takeWhile (· ≠ c) := fun h => by simpa using List.mem_takeWhile_imp h
  rw [← List.drop_drop, drop_takeWhile_length]
  cases hrest : s.dropWhile (· ≠ c) with
  | nil =>
    rw [hrest, List.append_nil] at hs
    conv_lhs => rw [← hs]
    rw [pieces_single hc hne]
    rfl
  | cons b t =>
    have hb : b = c := by
      have h := List.head_dropWhile_not (· ≠ c) (by rw [hrest]; exact List.cons_ne_nil b t)
      simp only [hrest, List.head_cons] at h
      simpa using h
    subst hb
    rw [hrest] at hs
    conv_lhs => rw [← hs]
    exact pieces_append hc hne t

theorem takeWhile_dropWhile_ne_nil {s : List UInt8} (h : s.dropWhile (· = c) ≠ []) :
    (s.dropWhile (· = c)).takeWhile (· ≠ c) ≠ [] := by
  have hhead := List.head_dropWhile_not (· = c) h
  obtain ⟨b, t, hbt⟩ := List.exists_cons_of_ne_nil h
  simp only [hbt, List.head_cons] at hhead
  rw [hbt, List.takeWhile_cons_of_pos (by simpa using hhead)]
  simp

theorem pieces_eq_nil_iff (s : List UInt8) : pieces c s = [] ↔ ∀ b ∈ s, b = c := by
  rw [← pieces_dropWhile]
  by_cases h : s.dropWhile (· = c) = []
  · rw [h]
    simpa using List.dropWhile_eq_nil_iff.mp h
  · rw [pieces_span (takeWhile_dropWhile_ne_nil h)]
    simpa using mt List.dropWhile_eq_nil_iff.mpr h

/-- **What `strtok_r` does.** It returns the first piece and goes on behind it, or NULL
when there is none; it writes nothing from where it goes on. -/
theorem strtokR_spec (m : List UInt8) (p : Nat) (c : UInt8) :
    (pieces c (strAt m p) = [] ∧ (strtokR m p c).1 = none) ∨
    ∃ q n m' tok rest, strtokR m p c = (some q, n, m') ∧ pieces c (strAt m p) = tok :: rest ∧
      m'.length = m.length ∧ p ≤ q ∧ n ≤ m.length ∧ tok ≠ [] ∧ c ∉ tok ∧ q + tok.length ≤ n ∧
      strAt m' q = tok ∧ pieces c (strAt m' n) = rest := by
  have hskip : strAt m (p + ((strAt m p).takeWhile (· = c)).length) =
      (strAt m p).dropWhile (· = c) := by
    rw [strAt_add m p (List.takeWhile_prefix _).length_le, drop_takeWhile_length]
  rw [← pieces_dropWhile, ← hskip]
  unfold strtokR
  dsimp only
  generalize hq : p + ((strAt m p).takeWhile (· = c)).length = q at hskip ⊢
  by_cases hnone : strAt m q = []
  · left
    rw [hnone, if_pos ((byte_eq_zero_iff m q).mpr hnone)]
    exact ⟨pieces_nil, rfl⟩
  · right
    rw [if_neg (mt (byte_eq_zero_iff m q).mp hnone)]
    have htok : (strAt m q).takeWhile (· ≠ c) ≠ [] := by
      rw [hskip] at hnone ⊢
      exact takeWhile_dropWhile_ne_nil hnone
    have hlen : ((strAt m q).takeWhile (· ≠ c)).length ≤ (strAt m q).length :=
      (List.takeWhile_prefix _).length_le
    have hmem := strAt_length_le m q
    have hpos := List.length_pos_iff.mpr htok
    have hc : c ∉ (strAt m q).takeWhile (· ≠ c) := fun h => by
      simpa using List.mem_takeWhile_imp h
    have htake : (strAt m q).take ((strAt m q).takeWhile (· ≠ c)).length =
        (strAt m q).takeWhile (· ≠ c) :=
      (List.prefix_iff_eq_take.mp (List.takeWhile_prefix _)).symm
    have hend := strAt_add m q hlen
    by_cases hlast : byte m (q + ((strAt m q).takeWhile (· ≠ c)).length) = 0
    · have hdrop := hend.symm.trans ((byte_eq_zero_iff m _).mp hlast)
      have hall := List.drop_eq_nil_iff.mp hdrop
      refine ⟨q, _, m, _, _, if_pos hlast, pieces_span htok, rfl, by omega, by omega, htok, hc,
        le_rfl, ?_, ?_⟩
      · rw [← htake, List.take_of_length_le hall]
      · rw [hend, hdrop, List.drop_of_length_le (by omega)]
    · have hmore : ((strAt m q).takeWhile (· ≠ c)).length < (strAt m q).length := by
        by_contra hle
        apply hlast
        rw [byte_eq_zero_iff, hend]
        exact List.drop_of_length_le (by omega)
      refine ⟨q, _, _, _, _, if_neg hlast, pieces_span htok, List.length_set, by omega, by omega,
        htok, hc, by omega, ?_, ?_⟩
      · rw [strAt_set_of_le m (by omega), Nat.add_sub_cancel_left, htake]
      · rw [strAt_set_of_lt m (by omega), Nat.add_assoc, strAt_add m q hmore]

/-- A token takes `strtok_r` forward. -/
theorem strtokR_advance {m m' : List UInt8} {p q n : Nat}
    (h : strtokR m p c = (some q, n, m')) : m'.length = m.length ∧ p < n ∧ n ≤ m.length := by
  obtain ⟨-, hnone⟩ | ⟨q', n', m₁, tok, rest, htok, -, hlen, hpq, hn, hne, -, hqn, -, -⟩ :=
    strtokR_spec m p c
  · rw [h] at hnone
    cases hnone
  · rw [h] at htok
    cases htok
    have hpos := List.length_pos_iff.mpr hne
    exact ⟨hlen, by omega, hn⟩

end CString
