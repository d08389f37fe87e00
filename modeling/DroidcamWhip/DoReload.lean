import Mathlib.Data.List.Infix
import DroidcamWhip.Lib.Strtok
import DroidcamWhip.DeviceList

/-!
`AdbMgr::DoReload`: the output of `adb devices` in a buffer that `strtok_r` and the
loop edit in place, and the same loop over the lines of the output.
-/

namespace DroidcamWhip

open CString

/-! ## Characters -/

def IsAlpha (b : UInt8) : Prop := (65 ≤ b ∧ b ≤ 90) ∨ (97 ≤ b ∧ b ≤ 122)

instance (b : UInt8) : Decidable (IsAlpha b) := inferInstanceAs (Decidable (_ ∨ _))

/-- What the loop skips behind a serial. -/
def IsBlank (b : UInt8) : Prop := b = space ∨ b = tab

instance (b : UInt8) : Decidable (IsBlank b) := inferInstanceAs (Decidable (_ ∨ _))

def daemon : List UInt8 := ascii "* daemon"

def listOf : List UInt8 := ascii "List of"

/-! ## The code -/

namespace DeviceDiscovery

/-- `memset` and `memcpy` of the state. -/
def setState (s : DeviceDiscovery) (dev : Nat) (state : List UInt8) : DeviceDiscovery :=
  s.update dev fun d => { d with state := (Chars.zero 32).store 0 state }

/-- The state behind the separator at `sep`: blanks, and then letters. -/
def readState (m : List UInt8) (sep dev : Nat) (s : DeviceDiscovery) : DeviceDiscovery :=
  let p := sep + 1 + ((strAt m (sep + 1)).takeWhile (IsBlank ·)).length
  let letters := (strAt m p).takeWhile (IsAlpha ·)
  if letters.length = 0 then s
  else if letters.length > 31 then s.setState dev (letters.take 31)
  else s.setState dev letters

/-- The body of the loop for the token `p`: whether the loop goes on, the buffer, the list. -/
def reloadLine (m : List UInt8) (p : Nat) (s : DeviceDiscovery) :
    Bool × List UInt8 × DeviceDiscovery :=
  if byte m p = 0 then (false, m, s)
  else if byte m p = carriage ∨ byte m p = newline ∨ byte m p = space then (true, m, s)
  else if daemon <:+: strAt m p then (true, m, s)
  else if listOf <:+: strAt m p then (true, m, s)
  else
    match (strchr m p space).or (strchr m p tab) with
    | none => (false, m, s)
    | some sep =>
        let len := sep - p
        if len = 0 then (true, m, s)
        else
          let len := if len > 79 then 79 else len
          let m := m.set (p + len) 0
          match s.addDevice (m.drop p) len with
          | (none, t) => (false, m, t)
          | (some dev, t) => (true, m, readState m sep dev t)

theorem reloadLine_length (m : List UInt8) (p : Nat) (s : DeviceDiscovery) :
    (reloadLine m p s).2.1.length = m.length := by
  unfold reloadLine
  split_ifs <;> try rfl
  split
  · rfl
  · dsimp only
    split_ifs <;> try rfl
    all_goals split <;> exact List.length_set

/-- The loop from the token `p` on; `strtok_r` goes on at `n`. -/
def reloadLoop (m : List UInt8) (p n : Nat) (s : DeviceDiscovery) : DeviceDiscovery :=
  match _hline : reloadLine m p s with
  | (false, _, t) => t
  | (true, m₁, t) =>
      match _htok : strtokR m₁ n newline with
      | (none, _, _) => t
      | (some p', n', m₂) => reloadLoop m₂ p' n' t
termination_by m.length - n
decreasing_by
  have hlen : m₁.length = m.length := by
    rw [← reloadLine_length m p s, _hline]
  obtain ⟨h₁, h₂, h₃⟩ := strtokR_advance _htok
  omega

/-- `AdbMgr::DoReload` with what `adb devices` has left in `buf`, and whether it succeeded;
nothing for a NULL token, whose first character the loop reads. -/
def doReload (disabled success : Bool) (buf : Chars 1024) (s : DeviceDiscovery) :
    Option DeviceDiscovery :=
  if disabled then some s
  else if ¬ success then some s
  else
    match strtokR buf.bytes 0 newline with
    | (none, _, _) => none
    | (some p, n, m) => some (reloadLoop m p n s)

/-- `reload_thread`. -/
def reloadThread (disabled success : Bool) (buf : Chars 1024) (s : DeviceDiscovery) :
    Option DeviceDiscovery :=
  doReload disabled success buf s.clear

/-! ## Line by line -/

/-- The offset of the separator in a line. -/
def lineSep (line : List UInt8) : Option Nat := (line.idxOf? space).or (line.idxOf? tab)

/-- The letters behind the separator at `k`. -/
def lineLetters (line : List UInt8) (k : Nat) : List UInt8 :=
  ((line.drop (k + 1)).dropWhile (IsBlank ·)).takeWhile (IsAlpha ·)

/-- The body of the loop for a line: whether the loop goes on, and the list. -/
def readLine (line : List UInt8) (s : DeviceDiscovery) : Bool × DeviceDiscovery :=
  if line.headD 0 = carriage ∨ line.headD 0 = newline ∨ line.headD 0 = space then (true, s)
  else if daemon <:+: line then (true, s)
  else if listOf <:+: line then (true, s)
  else
    match lineSep line with
    | none => (false, s)
    | some k =>
        if k = 0 then (true, s)
        else
          match s.addDevice line (min k 79) with
          | (none, t) => (false, t)
          | (some dev, t) =>
              if lineLetters line k = [] then (true, t)
              else (true, t.setState dev ((lineLetters line k).take 31))

def readLines : List (List UInt8) → DeviceDiscovery → DeviceDiscovery
  | [], s => s
  | line :: lines, s =>
      match readLine line s with
      | (false, t) => t
      | (true, t) => readLines lines t

theorem readState_eq (m : List UInt8) {p k dev : Nat} (s : DeviceDiscovery)
    (hk : k < (strAt m p).length) :
    readState m (p + k) dev s =
      if lineLetters (strAt m p) k = [] then s
      else s.setState dev ((lineLetters (strAt m p) k).take 31) := by
  have hrest : strAt m (p + k + 1) = (strAt m p).drop (k + 1) := by
    rw [Nat.add_assoc, strAt_add m p hk]
  have hletters : (strAt m (p + k + 1 +
      ((strAt m (p + k + 1)).takeWhile (IsBlank ·)).length)).takeWhile (IsAlpha ·) =
      lineLetters (strAt m p) k := by
    rw [strAt_add m (p + k + 1) (List.takeWhile_prefix _).length_le, drop_takeWhile_length, hrest,
      lineLetters]
  unfold readState
  dsimp only
  rw [hletters]
  simp only [List.length_eq_zero_iff]
  split
  · rfl
  · split
    · rfl
    · rw [List.take_of_length_le (by omega)]

theorem lineSep_lt {line : List UInt8} {k : Nat} (h : lineSep line = some k) :
    k < line.length := by
  rcases Option.or_eq_some_iff.mp h with h | ⟨-, h⟩
  · exact (List.idxOf?_eq_some_iff.mp h).1
  · exact (List.idxOf?_eq_some_iff.mp h).1

/-- **The loop body works line by line**, and writes only into its own line. -/
theorem reloadLine_eq (m : List UInt8) {p n : Nat} (s : DeviceDiscovery)
    (hne : strAt m p ≠ []) (hn : p + (strAt m p).length ≤ n) :
    (reloadLine m p s).1 = (readLine (strAt m p) s).1 ∧
      (reloadLine m p s).2.2 = (readLine (strAt m p) s).2 ∧
      (reloadLine m p s).2.1.drop n = m.drop n := by
  have hsep : (strchr m p space).or (strchr m p tab) = (lineSep (strAt m p)).map (p + ·) := by
    rw [lineSep, Option.map_or]
    rfl
  unfold reloadLine readLine
  rw [if_neg (mt (byte_eq_zero_iff m p).mp hne), hsep, byte_eq]
  split_ifs
  · exact ⟨rfl, rfl, rfl⟩
  · exact ⟨rfl, rfl, rfl⟩
  · exact ⟨rfl, rfl, rfl⟩
  · cases hk : lineSep (strAt m p) with
    | none => exact ⟨rfl, rfl, rfl⟩
    | some k =>
      have hlt := lineSep_lt hk
      have hcap : (if k > 79 then 79 else k) = min k 79 := by split <;> omega
      simp only [Option.map_some, Nat.add_sub_cancel_left, hcap]
      by_cases hzero : k = 0
      · rw [if_pos hzero, if_pos hzero]
        exact ⟨rfl, rfl, rfl⟩
      · rw [if_neg hzero, if_neg hzero]
        -- the terminator is written at or before the separator
        have hadd : s.addDevice ((m.set (p + min k 79) 0).drop p) (min k 79) =
            s.addDevice (strAt m p) (min k 79) := by
          apply addDevice_congr
          have htext : strAt m p = (m.drop p).take (strAt m p).length :=
            List.prefix_iff_eq_take.mp (List.takeWhile_prefix _)
          have hmin : min (min k 79) (strAt m p).length = min k 79 := by omega
          rw [List.drop_set, if_neg (by omega), Nat.add_sub_cancel_left, List.take_set_of_le le_rfl,
            htext, List.take_take, hmin]
        have hstate : ∀ dev t, readState (m.set (p + min k 79) 0) (p + k) dev t =
            readState m (p + k) dev t := fun dev t => by
          unfold readState
          simp only [strAt_set_of_lt m (show p + min k 79 < p + k + 1 by omega)]
          rw [strAt_set_of_lt m (by omega)]
        rw [hadd]
        simp only [hstate, readState_eq m _ hlt]
        split
        · exact ⟨rfl, rfl, drop_set_of_lt m (by omega)⟩
        · split_ifs
          · exact ⟨rfl, rfl, drop_set_of_lt m (by omega)⟩
          · exact ⟨rfl, rfl, drop_set_of_lt m (by omega)⟩

theorem readLines_cons_of_false {line : List UInt8} {lines : List (List UInt8)}
    {s : DeviceDiscovery} (h : (readLine line s).1 = false) :
    readLines (line :: lines) s = (readLine line s).2 := by
  rw [readLines, ← Prod.mk.eta (p := readLine line s), h]

theorem readLines_cons_of_true {line : List UInt8} {lines : List (List UInt8)}
    {s : DeviceDiscovery} (h : (readLine line s).1 = true) :
    readLines (line :: lines) s = readLines lines (readLine line s).2 := by
  rw [readLines, ← Prod.mk.eta (p := readLine line s), h]

/-- **The loop works through the lines one by one.** -/
theorem reloadLoop_eq (m : List UInt8) (p n : Nat) (s : DeviceDiscovery)
    (hne : strAt m p ≠ []) (hn : p + (strAt m p).length ≤ n) :
    reloadLoop m p n s = readLines (strAt m p :: pieces newline (strAt m n)) s := by
  fun_induction reloadLoop m p n s with
  | case1 m p n s m₁ t hline =>
    obtain ⟨hgo, hlist, -⟩ := reloadLine_eq m s hne hn
    rw [hline] at hgo hlist
    rw [readLines_cons_of_false hgo.symm, ← hlist]
  | case2 m p n s m₁ t hline n' m₂ htok =>
    obtain ⟨hgo, hlist, hrest⟩ := reloadLine_eq m s hne hn
    rw [hline] at hgo hlist hrest
    have hsame : strAt m₁ n = strAt m n := congrArg text hrest
    obtain ⟨hnil, -⟩ | ⟨q, k, m', tok, rest, heq, -⟩ := strtokR_spec m₁ n newline
    · rw [hsame] at hnil
      rw [readLines_cons_of_true hgo.symm, ← hlist, hnil, readLines]
    · rw [htok] at heq
      cases heq
  | case3 m p n s m₁ t hline p' n' m₂ htok ih =>
    obtain ⟨hgo, hlist, hrest⟩ := reloadLine_eq m s hne hn
    rw [hline] at hgo hlist hrest
    have hsame : strAt m₁ n = strAt m n := congrArg text hrest
    obtain ⟨-, hnone⟩ |
        ⟨q, k, m', tok, rest, heq, hpieces, -, -, -, htne, -, hend, hq, hk⟩ :=
      strtokR_spec m₁ n newline
    · rw [htok] at hnone
      cases hnone
    · rw [htok] at heq
      cases heq
      rw [hsame] at hpieces
      rw [readLines_cons_of_true hgo.symm, ← hlist, hpieces,
        ih (by rw [hq]; exact htne) (by rw [hq]; exact hend), hq, hk]

/-- **`DoReload` on the lines of the output.** Empty lines do not count, and an output
that has no other lines makes the loop read through NULL. -/
theorem doReload_eq (buf : Chars 1024) (s : DeviceDiscovery) :
    doReload false true buf s =
      if pieces newline buf.str = [] then none
      else some (readLines (pieces newline buf.str) s) := by
  have hstart : strAt buf.bytes 0 = buf.str := rfl
  unfold doReload
  simp only [Bool.false_eq_true, if_false, not_true_eq_false]
  obtain ⟨hnil, hnone⟩ |
      ⟨q, n, m', tok, rest, heq, hpieces, -, -, -, hne, -, hend, hq, hn⟩ :=
    strtokR_spec buf.bytes 0 newline
  · rw [← hstart, if_pos hnil]
    split
    · rfl
    · rename_i heq
      rw [heq] at hnone
      cases hnone
  · rw [← hstart, hpieces, heq, if_neg (List.cons_ne_nil tok rest)]
    dsimp only
    rw [reloadLoop_eq m' q n s (by rw [hq]; exact hne) (by rw [hq]; exact hend), hq, hn]

/-! ## The list behind the lines -/

/-- The device that the loop makes of a line with the separator at `k`. -/
def lineDevice (line : List UInt8) (k : Nat) : Device :=
  { Device.named line (min k 79) with
    state := (Chars.zero 32).store 0 ((lineLetters line k).take 31) }

/-- The loop does not stop to read the line. -/
def Skipped (line : List UInt8) : Prop :=
  (line.headD 0 = carriage ∨ line.headD 0 = newline ∨ line.headD 0 = space) ∨
    daemon <:+: line ∨ listOf <:+: line

variable {s : DeviceDiscovery} {ds : List Device} {line : List UInt8} {k : Nat}

theorem readLine_skipped (s : DeviceDiscovery) (h : Skipped line) : readLine line s = (true, s) := by
  unfold readLine
  rcases h with h | h | h
  · rw [if_pos h]
  · split_ifs <;> rfl
  · split_ifs <;> rfl

theorem Holds.setNewState (h : s.Holds (ds ++ [Device.named line (min k 79)])) :
    ((if lineLetters line k = [] then (true, s)
      else (true, s.setState ds.length ((lineLetters line k).take 31))).2).Holds
        (ds ++ [lineDevice line k]) := by
  split
  · rename_i hnil
    have hsame : lineDevice line k = Device.named line (min k 79) := by
      rw [lineDevice, hnil]
      rfl
    rw [hsame]
    exact h
  · exact h.update_last _

/-- **What a line does** that is read and has its separator behind a serial. -/
theorem Holds.readLine (h : s.Holds ds) (hread : ¬ Skipped line) (hk : lineSep line = some k)
    (hpos : k ≠ 0) :
    let found := ∃ d ∈ ds, strncmp d.serial.bytes line (min k 79) = 0
    ((found ∨ ds.length = devicesLimit) ∧
      (readLine line s).1 = false ∧ (readLine line s).2.Holds ds) ∨
    ((¬ found ∧ ds.length < devicesLimit) ∧
      (readLine line s).1 = true ∧ (readLine line s).2.Holds (ds ++ [lineDevice line k])) := by
  intro found
  simp only [Skipped, not_or] at hread
  obtain ⟨hhead, hdaemon, hlist⟩ := hread
  have hadd := h.addDevice line (min k 79)
  unfold DeviceDiscovery.readLine
  rw [if_neg (by simpa [not_or] using hhead), if_neg hdaemon, if_neg hlist, hk]
  simp only [if_neg hpos]
  obtain ⟨hwhy, hret, hkeep⟩ | ⟨hwhy, hret, hpush⟩ := hadd
  · left
    rw [← Prod.mk.eta (p := s.addDevice line (min k 79)), hret]
    exact ⟨hwhy, rfl, hkeep⟩
  · right
    rw [← Prod.mk.eta (p := s.addDevice line (min k 79)), hret]
    refine ⟨hwhy, ?_, hpush.setNewState⟩
    dsimp only
    split <;> rfl

end DeviceDiscovery

end DroidcamWhip
