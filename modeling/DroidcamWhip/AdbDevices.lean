import DroidcamWhip.DoReload

/-!
What `adb devices` prints, what the device list should be after it, and for which
outputs `DoReload` makes that list.
-/

namespace DroidcamWhip

open CString DeviceDiscovery

/-! ## The output of `adb devices` -/

structure DeviceRow where
  serial : List UInt8
  state : List UInt8
  deriving DecidableEq

inductive OutputLine where
  | daemonLine (rest : List UInt8)
  | headerLine (rest : List UInt8)
  | deviceLine (row : DeviceRow)
  deriving DecidableEq

namespace DeviceRow

def text (r : DeviceRow) : List UInt8 := r.serial ++ tab :: r.state

/-- The serial as far as it has a place in a device. -/
def cut (r : DeviceRow) : List UInt8 := r.serial.take 79

/-- The letters at the start of a text, as far as they have a place. -/
def letters (t : List UInt8) : List UInt8 := (t.takeWhile (IsAlpha ·)).take 31

/-- The device that the row is about. -/
def toDevice (r : DeviceRow) : Device :=
  { Device.new with
    serial := (Chars.zero 80).store 0 r.cut
    state := (Chars.zero 32).store 0 (letters r.state) }

structure Ok (r : DeviceRow) : Prop where
  nonempty : r.serial ≠ []
  solid : ∀ b ∈ r.serial, ¬ IsSpace b
  terminated : 0 ∉ r.text

end DeviceRow

def OutputLine.text : OutputLine → List UInt8
  | .daemonLine rest => daemon ++ rest
  | .headerLine rest => listOf ++ rest
  | .deviceLine r => r.text

def OutputLine.row : OutputLine → Option DeviceRow
  | .deviceLine r => some r
  | _ => none

/-- The lines of an output, in any order; the serials differ in what of them has a place. -/
structure Listing where
  lines : List OutputLine
  ok : ∀ r ∈ lines.filterMap OutputLine.row, r.Ok
  distinct : ((lines.filterMap OutputLine.row).map DeviceRow.cut).Nodup

def Listing.rows (l : Listing) : List DeviceRow := l.lines.filterMap OutputLine.row

/-- The text has these lines, and perhaps empty ones. -/
def Listing.Prints (l : Listing) (text : List UInt8) : Prop :=
  pieces newline text = l.lines.map OutputLine.text

/-- `buf` with an output of at most 1023 bytes in it. -/
structure AdbOutput where
  text : List UInt8
  noNul : 0 ∉ text
  junk : List UInt8
  size : (text ++ 0 :: junk).length = 1024

def AdbOutput.buf (o : AdbOutput) : Chars 1024 := ⟨o.text ++ 0 :: o.junk, o.size⟩

theorem AdbOutput.buf_str (o : AdbOutput) : o.buf.str = o.text := text_terminated _ o.noNul

/-! ## When a row is read right -/

namespace DeviceRow

/-- A state without a space: it does not begin with tabs that letters follow. A state
with a space: the serial is so long that its cut hides the space, the letters behind the
space are those that the state begins with, and the state does not look like one of the
other lines. -/
def Plain (r : DeviceRow) : Prop :=
  match r.state.idxOf? space with
  | none => letters (r.state.dropWhile (IsBlank ·)) = letters r.state
  | some j =>
      79 ≤ r.serial.length ∧ ¬ daemon <:+: r.state ∧ ¬ listOf <:+: r.state ∧
        letters ((r.state.drop (j + 1)).dropWhile (IsBlank ·)) = letters r.state

end DeviceRow

/-- Each of the first rows is plain, and its serial is not the beginning of one before it. -/
def Legible (rows : List DeviceRow) : Prop :=
  ∀ before r after, rows = before ++ r :: after → before.length < devicesLimit →
    r.Plain ∧ ∀ e ∈ before, ¬ r.cut <+: e.cut

/-- The list is right after the output, whatever it was before; in any case the loop
does not read through NULL. -/
def Parsed (s : DeviceDiscovery) (o : AdbOutput) : Prop :=
  ∃ t, reloadThread false true o.buf s = some t ∧
    ∀ l : Listing, l.Prints o.text →
      t.Holds ((l.rows.take devicesLimit).map DeviceRow.toDevice)

/-! ## One row -/

namespace DeviceRow

/-- The offset of what the code takes for the separator. -/
def sep (r : DeviceRow) : Nat :=
  match r.state.idxOf? space with
  | none => r.serial.length
  | some j => r.serial.length + 1 + j

theorem idxOf?_append {c : UInt8} {a : List UInt8} (h : c ∉ a) (b : List UInt8) :
    (a ++ b).idxOf? c = (b.idxOf? c).map (· + a.length) := by
  induction a with
  | nil => simp
  | cons x a ih =>
    rw [List.mem_cons, not_or] at h
    have hx : (x == c) = false := by simpa using Ne.symm h.1
    rw [List.cons_append, List.idxOf?_cons, hx, ih h.2, List.length_cons]
    simp

variable {r : DeviceRow}

theorem Ok.space_notMem (h : r.Ok) : space ∉ r.serial := fun hb => h.solid _ hb (.inl rfl)

theorem Ok.tab_notMem (h : r.Ok) : tab ∉ r.serial := fun hb => h.solid _ hb (.inr (by decide))

theorem Ok.lineSep (h : r.Ok) : lineSep r.text = some r.sep := by
  have htab : r.text.idxOf? tab = some r.serial.length := by
    rw [text, idxOf?_append h.tab_notMem, List.idxOf?_cons]
    simp
  rw [DeviceDiscovery.lineSep, htab, text, idxOf?_append h.space_notMem, List.idxOf?_cons, sep]
  have hne : (tab == space) = false := by decide
  rw [hne]
  cases r.state.idxOf? space with
  | none => rfl
  | some j =>
    simp
    omega

theorem sep_lt (h : r.Ok) : r.sep < r.text.length := lineSep_lt h.lineSep

theorem Ok.sep_ne_zero (h : r.Ok) : r.sep ≠ 0 := by
  have hpos := List.length_pos_iff.mpr h.nonempty
  unfold sep
  split <;> omega

/-- A line pattern is in a row only if it is in the state. -/
theorem Ok.infix_iff (h : r.Ok) {pattern : List UInt8} (hspace : space ∈ pattern)
    (htab : tab ∉ pattern) : pattern <:+: r.text ↔ pattern <:+: r.state := by
  have hstart : ∀ l : List UInt8, l ≠ [] → l <+: tab :: r.state → tab ∈ l := by
    intro l hl hpre
    cases l with
    | nil => exact absurd rfl hl
    | cons b l =>
      rw [(List.cons_prefix_cons.mp hpre).1]
      exact List.mem_cons_self
  constructor
  · intro hin
    rcases List.infix_append_iff_ne_nil.mp hin with hin | hin | ⟨l₁, l₂, -, hne, heq, -, hpre⟩
    · exact absurd (hin.subset hspace) h.space_notMem
    · rcases List.infix_cons_iff.mp hin with hpre | hin
      · exact absurd (hstart pattern (List.ne_nil_of_mem hspace) hpre) htab
      · exact hin
    · rw [heq] at htab
      exact absurd (List.mem_append_right l₁ (hstart l₂ hne hpre)) htab
  · intro hin
    exact List.infix_append_of_infix_right (List.infix_cons hin)

theorem Ok.head (h : r.Ok) : ¬ IsSpace (r.text.headD 0) := by
  obtain ⟨b, t, hb⟩ := List.exists_cons_of_ne_nil h.nonempty
  rw [text, hb]
  exact h.solid b (by rw [hb]; exact List.mem_cons_self)

theorem Ok.skipped_iff (h : r.Ok) :
    Skipped r.text ↔ daemon <:+: r.state ∨ listOf <:+: r.state := by
  have hhead : ¬ (r.text.headD 0 = carriage ∨ r.text.headD 0 = newline ∨
      r.text.headD 0 = space) := by
    rintro (hb | hb | hb)
    · exact h.head (.inr (by rw [hb]; decide))
    · exact h.head (.inr (by rw [hb]; decide))
    · exact h.head (.inl hb)
  rw [Skipped, or_iff_right hhead, h.infix_iff (by decide) (by decide),
    h.infix_iff (by decide) (by decide)]

theorem store_injective {n : Nat} {xs ys : List UInt8} (hx : 0 ∉ xs ∧ xs.length < n)
    (hy : 0 ∉ ys ∧ ys.length < n) (h : (Chars.zero n).store 0 xs = (Chars.zero n).store 0 ys) :
    xs = ys := by
  rw [← Chars.str_store_zero hx.1 hx.2, h, Chars.str_store_zero hy.1 hy.2]

theorem letters_ok (t : List UInt8) : 0 ∉ letters t ∧ (letters t).length < 32 := by
  constructor
  · intro hmem
    have halpha := List.mem_takeWhile_imp (List.mem_of_mem_take hmem)
    exact absurd halpha (by decide)
  · have := List.length_take_le 31 (t.takeWhile (IsAlpha ·))
    unfold letters
    omega

theorem Ok.take_ok (h : r.Ok) (k : Nat) :
    0 ∉ r.text.take (min k 79) ∧ (r.text.take (min k 79)).length < 80 :=
  ⟨fun hmem => h.terminated (List.mem_of_mem_take hmem), by
    have := List.length_take_le (min k 79) r.text
    omega⟩

theorem Ok.cut_ok (h : r.Ok) : 0 ∉ r.cut ∧ r.cut.length < 80 :=
  ⟨fun hmem => h.terminated (List.mem_append_left _ (List.mem_of_mem_take hmem)), by
    have := List.length_take_le 79 r.serial
    unfold cut
    omega⟩

theorem Ok.device_eq_iff (h : r.Ok) :
    lineDevice r.text r.sep = r.toDevice ↔
      r.text.take (min r.sep 79) = r.cut ∧
        letters ((r.text.drop (r.sep + 1)).dropWhile (IsBlank ·)) = letters r.state := by
  constructor
  · intro heq
    simp only [lineDevice, toDevice, Device.named, Device.mk.injEq] at heq
    obtain ⟨hserial, -, hstate, -⟩ := heq
    exact ⟨store_injective (h.take_ok r.sep) h.cut_ok hserial,
      store_injective (letters_ok _) (letters_ok _) hstate⟩
  · rintro ⟨hserial, hstate⟩
    simp only [lineDevice, toDevice, Device.named, hserial]
    exact congrArg (fun t => { Device.new with
      serial := (Chars.zero 80).store 0 r.cut, state := (Chars.zero 32).store 0 t }) hstate

/-- Up to the separator there is the serial, or a part of the state comes with it. -/
theorem take_sep (r : DeviceRow) :
    r.text.take (min r.sep 79) = r.cut ∨ space ∈ r.state ∧ r.serial.length < 79 ∧
      tab ∈ r.text.take (min r.sep 79) := by
  by_cases hlong : 79 ≤ r.serial.length
  · left
    have hmin : min r.sep 79 = 79 := by
      unfold sep
      split <;> omega
    rw [hmin, text, List.take_append_of_le_length hlong, cut]
  · cases hj : r.state.idxOf? space with
    | none =>
      left
      have hsep : r.sep = r.serial.length := by rw [sep, hj]
      rw [hsep, Nat.min_eq_left (by omega), text, List.take_left, cut,
        List.take_of_length_le (by omega)]
    | some j =>
      right
      have hsep : r.sep = r.serial.length + 1 + j := by rw [sep, hj]
      have hmin : min r.sep 79 = r.serial.length + (min r.sep 79 - r.serial.length - 1 + 1) := by
        omega
      refine ⟨?_, by omega, ?_⟩
      · by_contra hmem
        rw [List.idxOf?_eq_none_iff.mpr hmem] at hj
        cases hj
      · rw [hmin, text, List.take_length_add_append, List.take_succ_cons]
        simp

/-- The code's device is the right one exactly for plain rows that are not skipped. -/
theorem Ok.plain_iff (h : r.Ok) :
    r.Plain ↔ ¬ Skipped r.text ∧ lineDevice r.text r.sep = r.toDevice := by
  rw [h.device_eq_iff, h.skipped_iff, not_or]
  have hdrop : ∀ j, r.text.drop (r.serial.length + 1 + j) = r.state.drop j := by
    intro j
    rw [text, Nat.add_assoc, List.drop_length_add_append, Nat.add_comm, List.drop_succ_cons]
  cases hj : r.state.idxOf? space with
  | none =>
    have hspace : space ∉ r.state := List.idxOf?_eq_none_iff.mp hj
    have hsep : r.sep = r.serial.length := by rw [sep, hj]
    have htake : r.text.take (min r.sep 79) = r.cut := by
      rcases take_sep r with hsame | ⟨hmem, -⟩
      · exact hsame
      · exact absurd hmem hspace
    have hno : ∀ pattern : List UInt8, space ∈ pattern → ¬ pattern <:+: r.state :=
      fun pattern hp hin => hspace (hin.subset hp)
    have hrest := hdrop 0
    rw [Nat.add_zero, List.drop_zero] at hrest
    simp only [Plain, hj, hsep, hrest] at htake ⊢
    constructor
    · intro hplain
      exact ⟨⟨hno daemon (by decide), hno listOf (by decide)⟩, htake, hplain⟩
    · rintro ⟨-, -, hplain⟩
      exact hplain
  | some j =>
    have hsep : r.sep = r.serial.length + 1 + j := by rw [sep, hj]
    have hrest : r.text.drop (r.sep + 1) = r.state.drop (j + 1) := by
      rw [hsep, Nat.add_assoc, hdrop]
    have htake : r.text.take (min r.sep 79) = r.cut ↔ 79 ≤ r.serial.length := by
      constructor
      · intro heq
        have hlen := congrArg List.length heq
        have hlt := sep_lt h
        rw [List.length_take, cut, List.length_take] at hlen
        omega
      · intro hlong
        rcases take_sep r with hsame | ⟨-, hshort, -⟩
        · exact hsame
        · omega
    simp only [Plain, hj, hrest, htake]
    constructor
    · rintro ⟨hlong, hdaemon, hlist, hplain⟩
      exact ⟨⟨hdaemon, hlist⟩, hlong, hplain⟩
    · rintro ⟨⟨hdaemon, hlist⟩, hlong, hplain⟩
      exact ⟨hlong, hdaemon, hlist, hplain⟩

/-- A row whose serial reads like that of another has the same one. -/
theorem Ok.cut_eq {r' : DeviceRow} (h : r.Ok) (h' : r'.Ok)
    (heq : (lineDevice r'.text r'.sep).serial = r.toDevice.serial) : r'.cut = r.cut := by
  have htake : r'.text.take (min r'.sep 79) = r.cut :=
    store_injective (h'.take_ok r'.sep) h.cut_ok heq
  rcases take_sep r' with hsame | ⟨-, -, htab⟩
  · rw [← hsame, htake]
  · rw [htake] at htab
    exact absurd (List.mem_of_mem_take htab) h.tab_notMem

/-- Which devices in the list stop the loop at a row. -/
theorem Ok.compare (h : r.Ok) {e : DeviceRow} (he : e.Ok) :
    strncmp e.toDevice.serial.bytes r.text (min r.sep 79) = 0 ↔
      r.text.take (min r.sep 79) <+: e.cut := by
  have hstr : e.toDevice.serial.str = e.cut := Chars.str_store_zero he.cut_ok.1 he.cut_ok.2
  have hlt := sep_lt h
  rw [strncmp_length_eq_zero_iff (by omega) (h.take_ok r.sep).1, ← hstr]
  rfl

end DeviceRow

/-! ## All rows -/

/-- What is left of `Legible` behind the rows `before`. -/
def LegibleAfter (before rows : List DeviceRow) : Prop :=
  ∀ mid r after, rows = mid ++ r :: after → (before ++ mid).length < devicesLimit →
    r.Plain ∧ ∀ e ∈ before ++ mid, ¬ r.cut <+: e.cut

theorem legibleAfter_cons (before rows : List DeviceRow) (r : DeviceRow) :
    LegibleAfter before (r :: rows) ↔
      (before.length < devicesLimit → r.Plain ∧ ∀ e ∈ before, ¬ r.cut <+: e.cut) ∧
        LegibleAfter (before ++ [r]) rows := by
  constructor
  · intro h
    constructor
    · simpa using h [] r rows rfl
    · intro mid q after hrows hlt
      simpa using h (r :: mid) q after (by rw [hrows]; rfl) (by simpa using hlt)
  · rintro ⟨hfirst, hrest⟩ mid q after hrows hlt
    cases mid with
    | nil =>
      cases hrows
      simpa using hfirst (by simpa using hlt)
    | cons x mid =>
      cases hrows
      simpa using hrest mid q after rfl (by simpa using hlt)

section

variable {s : DeviceDiscovery} {ds : List Device}

theorem skipped_daemonLine (rest : List UInt8) : Skipped (OutputLine.daemonLine rest).text :=
  .inr (.inl List.infix_append_left)

theorem skipped_headerLine (rest : List UInt8) : Skipped (OutputLine.headerLine rest).text :=
  .inr (.inr List.infix_append_left)

theorem readLines_skipped {line : List UInt8} (h : Skipped line) (lines : List (List UInt8))
    (s : DeviceDiscovery) : readLines (line :: lines) s = readLines lines s := by
  have hread := readLine_skipped s h
  rw [readLines_cons_of_true (by rw [hread]), hread]

/-- Lines only add devices, each of them made of a row. -/
theorem readLines_extends (lines : List OutputLine)
    (hok : ∀ r ∈ lines.filterMap OutputLine.row, r.Ok) (hs : s.Holds ds) :
    ∃ es, (readLines (lines.map OutputLine.text) s).Holds (ds ++ es) ∧
      ∀ e ∈ es, ∃ r ∈ lines.filterMap OutputLine.row, e = lineDevice r.text r.sep := by
  induction lines generalizing s ds with
  | nil => exact ⟨[], by simpa [readLines] using hs, by simp⟩
  | cons line lines ih =>
    cases line with
    | daemonLine rest =>
      rw [List.map_cons, readLines_skipped (skipped_daemonLine rest)]
      exact ih hok hs
    | headerLine rest =>
      rw [List.map_cons, readLines_skipped (skipped_headerLine rest)]
      exact ih hok hs
    | deviceLine r =>
      have hrest : ∀ r ∈ lines.filterMap OutputLine.row, r.Ok := fun q hq =>
        hok q (List.mem_cons_of_mem r hq)
      have hr : r.Ok := hok r List.mem_cons_self
      rw [List.map_cons]
      show ∃ es, (readLines (r.text :: lines.map OutputLine.text) s).Holds (ds ++ es) ∧
        ∀ e ∈ es, ∃ q ∈ r :: lines.filterMap OutputLine.row, e = lineDevice q.text q.sep
      by_cases hskip : Skipped r.text
      · rw [readLines_skipped hskip]
        obtain ⟨es, hes, hmade⟩ := ih hrest hs
        refine ⟨es, hes, fun e he => ?_⟩
        obtain ⟨q, hq, heq⟩ := hmade e he
        exact ⟨q, List.mem_cons_of_mem r hq, heq⟩
      · obtain ⟨-, hstop, hkeep⟩ | ⟨-, hgo, hpush⟩ := hs.readLine hskip hr.lineSep hr.sep_ne_zero
        · rw [readLines_cons_of_false hstop]
          exact ⟨[], by simpa using hkeep, by simp⟩
        · rw [readLines_cons_of_true hgo]
          obtain ⟨es, hes, hmade⟩ := ih hrest hpush
          refine ⟨lineDevice r.text r.sep :: es, by simpa using hes, fun e he => ?_⟩
          rcases List.mem_cons.mp he with rfl | he
          · exact ⟨r, List.mem_cons_self, rfl⟩
          · obtain ⟨q, hq, heq⟩ := hmade e he
            exact ⟨q, List.mem_cons_of_mem r hq, heq⟩

/-- A full list stays as it is. -/
theorem readLines_full (lines : List OutputLine)
    (hok : ∀ r ∈ lines.filterMap OutputLine.row, r.Ok) (hs : s.Holds ds)
    (hfull : ds.length = devicesLimit) :
    (readLines (lines.map OutputLine.text) s).Holds ds := by
  obtain ⟨es, hes, -⟩ := readLines_extends lines hok hs
  have hle := hes.length_le
  rw [List.length_append] at hle
  have hnil : es = [] := List.length_eq_zero_iff.mp (by omega)
  simpa [hnil] using hes

theorem take_append_cons {before : List DeviceRow} (h : before.length < devicesLimit)
    (r : DeviceRow) (rows : List DeviceRow) :
    ((before ++ r :: rows).take devicesLimit).map DeviceRow.toDevice =
      before.map DeviceRow.toDevice ++
        r.toDevice :: (rows.take (devicesLimit - before.length - 1)).map DeviceRow.toDevice := by
  have hroom : devicesLimit - before.length = devicesLimit - before.length - 1 + 1 := by omega
  rw [List.take_append, List.take_of_length_le (by omega), hroom, List.take_succ_cons]
  simp

/-- A row that is not read right is never made up for. -/
theorem not_holds_of_ne {before : List DeviceRow} {r : DeviceRow} {rows : List DeviceRow}
    {e : Device} {es : List Device} (hlt : before.length < devicesLimit)
    (hs : s.Holds (before.map DeviceRow.toDevice ++ e :: es)) (hne : e ≠ r.toDevice) :
    ¬ s.Holds (((before ++ r :: rows).take devicesLimit).map DeviceRow.toDevice) := by
  intro h
  rw [take_append_cons hlt] at h
  have heq := List.append_cancel_left (hs.unique h)
  exact hne (List.cons.inj heq).1

/-- A row that is not read at all is not made up for by a later one. -/
theorem not_holds_of_skipped (lines : List OutputLine) {before : List DeviceRow} {r : DeviceRow}
    (hs : s.Holds (before.map DeviceRow.toDevice)) (hlt : before.length < devicesLimit)
    (hr : r.Ok) (hok : ∀ r ∈ lines.filterMap OutputLine.row, r.Ok)
    (hd : r.cut ∉ (lines.filterMap OutputLine.row).map DeviceRow.cut) :
    ¬ (readLines (lines.map OutputLine.text) s).Holds
      (((before ++ r :: lines.filterMap OutputLine.row).take devicesLimit).map
        DeviceRow.toDevice) := by
  obtain ⟨es, hes, hmade⟩ := readLines_extends lines hok hs
  cases es with
  | nil =>
    intro h
    rw [take_append_cons hlt] at h
    have hlen := congrArg List.length (hes.unique h)
    simp at hlen
  | cons e es =>
    apply not_holds_of_ne hlt hes
    rintro rfl
    obtain ⟨q, hq, heq⟩ := hmade _ List.mem_cons_self
    apply hd
    rw [← hr.cut_eq (hok q hq) (by rw [heq])]
    exact List.mem_map_of_mem hq

/-- **The rows behind `before`.** -/
theorem readLines_iff (lines : List OutputLine) (before : List DeviceRow)
    (hs : s.Holds (before.map DeviceRow.toDevice)) (hbefore : ∀ e ∈ before, e.Ok)
    (hok : ∀ r ∈ lines.filterMap OutputLine.row, r.Ok)
    (hd : ((before ++ lines.filterMap OutputLine.row).map DeviceRow.cut).Nodup) :
    (readLines (lines.map OutputLine.text) s).Holds
        (((before ++ lines.filterMap OutputLine.row).take devicesLimit).map
          DeviceRow.toDevice) ↔
      LegibleAfter before (lines.filterMap OutputLine.row) := by
  have hle := hs.length_le
  rw [List.length_map] at hle
  induction lines generalizing s before with
  | nil =>
    rw [List.filterMap_nil, List.append_nil, List.take_of_length_le hle]
    refine iff_of_true hs ?_
    intro mid r after hrows
    simp at hrows
  | cons line lines ih =>
    cases line with
    | daemonLine rest =>
      rw [List.map_cons, readLines_skipped (skipped_daemonLine rest)]
      exact ih before hs hbefore hok hd hle
    | headerLine rest =>
      rw [List.map_cons, readLines_skipped (skipped_headerLine rest)]
      exact ih before hs hbefore hok hd hle
    | deviceLine r =>
      have hrows : (OutputLine.deviceLine r :: lines).filterMap OutputLine.row =
          r :: lines.filterMap OutputLine.row := rfl
      by_cases hfull : before.length = devicesLimit
      · rw [List.take_left' hfull]
        refine iff_of_true (readLines_full _ hok hs (by rw [List.length_map, hfull])) ?_
        intro mid q after _ hlt
        rw [List.length_append] at hlt
        omega
      · have hlt : before.length < devicesLimit := by omega
        rw [hrows] at hok hd ⊢
        have hr : r.Ok := hok r List.mem_cons_self
        have hrest : ∀ q ∈ lines.filterMap OutputLine.row, q.Ok := fun q hq =>
          hok q (List.mem_cons_of_mem r hq)
        have hfresh : r.cut ∉ (lines.filterMap OutputLine.row).map DeviceRow.cut := by
          rw [List.map_append, List.map_cons] at hd
          exact (List.nodup_cons.mp (List.nodup_append.mp hd).2.1).1
        rw [legibleAfter_cons, List.map_cons]
        show (readLines (r.text :: lines.map OutputLine.text) s).Holds _ ↔ _
        by_cases hskip : Skipped r.text
        · rw [readLines_skipped hskip]
          refine iff_of_false (not_holds_of_skipped lines hs hlt hr hrest hfresh) ?_
          rintro ⟨h, -⟩
          exact (hr.plain_iff.mp (h hlt).1).1 hskip
        · have hcompare : ∀ e ∈ before,
              (strncmp e.toDevice.serial.bytes r.text (min r.sep 79) = 0 ↔
                r.text.take (min r.sep 79) <+: e.cut) := fun e he => hr.compare (hbefore e he)
          obtain ⟨hwhy, hstop, hkeep⟩ | ⟨⟨hnone, -⟩, hgo, hpush⟩ :=
            hs.readLine hskip hr.lineSep hr.sep_ne_zero
          · rw [readLines_cons_of_false hstop]
            refine iff_of_false ?_ ?_
            · intro h
              rw [take_append_cons hlt] at h
              have hlen := congrArg List.length (hkeep.unique h)
              simp at hlen
            · rintro ⟨h, -⟩
              obtain ⟨hplain, hclash⟩ := h hlt
              have htake := (hr.device_eq_iff.mp (hr.plain_iff.mp hplain).2).1
              rcases hwhy with ⟨d, hmem, hcmp⟩ | hlen
              · obtain ⟨e, he, rfl⟩ := List.mem_map.mp hmem
                rw [hcompare e he, htake] at hcmp
                exact hclash e he hcmp
              · rw [List.length_map] at hlen
                exact hfull hlen
          · rw [readLines_cons_of_true hgo]
            by_cases hright : lineDevice r.text r.sep = r.toDevice
            · have hplain : r.Plain := hr.plain_iff.mpr ⟨hskip, hright⟩
              have htake := (hr.device_eq_iff.mp hright).1
              have hclash : ∀ e ∈ before, ¬ r.cut <+: e.cut := fun e he hpre =>
                hnone ⟨e.toDevice, List.mem_map_of_mem he, by rw [hcompare e he, htake]; exact hpre⟩
              have hassoc : before ++ r :: lines.filterMap OutputLine.row =
                  before ++ [r] ++ lines.filterMap OutputLine.row := by simp
              have hnext : (readLine r.text s).2.Holds ((before ++ [r]).map DeviceRow.toDevice) := by
                simpa [hright] using hpush
              have hok' : ∀ e ∈ before ++ [r], e.Ok := by
                intro e he
                rcases List.mem_append.mp he with he | he
                · exact hbefore e he
                · rw [List.mem_singleton.mp he]
                  exact hr
              have hle' : (before ++ [r]).length ≤ devicesLimit := by
                rw [List.length_append]
                exact hlt
              rw [hassoc] at hd ⊢
              exact (ih (before ++ [r]) hnext hok' hrest hd hle').trans
                (and_iff_right fun _ => ⟨hplain, hclash⟩).symm
            · obtain ⟨es, hes, -⟩ := readLines_extends lines hrest hpush
              rw [List.append_assoc] at hes
              refine iff_of_false (not_holds_of_ne hlt hes hright) ?_
              rintro ⟨h, -⟩
              exact hright (hr.plain_iff.mp (h hlt).1).2

end

/-- Each listing that a text prints is made exactly if it is legible. -/
theorem Listing.holds_iff (l : Listing) (s : DeviceDiscovery) :
    (readLines (l.lines.map OutputLine.text) s.clear).Holds
        ((l.rows.take devicesLimit).map DeviceRow.toDevice) ↔ Legible l.rows :=
  readLines_iff l.lines [] (holds_clear s) (by simp) l.ok (by simpa using l.distinct)

/-- **`DoReload` parses exactly the outputs that are not made of newlines only and whose
rows are legible.** -/
theorem parsed_iff (s : DeviceDiscovery) (o : AdbOutput) :
    Parsed s o ↔
      (∃ b ∈ o.text, b ≠ newline) ∧ ∀ l : Listing, l.Prints o.text → Legible l.rows := by
  have hrun := doReload_eq o.buf s.clear
  rw [o.buf_str] at hrun
  unfold Parsed reloadThread
  rw [hrun]
  by_cases hnil : pieces newline o.text = []
  · rw [if_pos hnil]
    refine iff_of_false (by simp) ?_
    rintro ⟨⟨b, hb, hne⟩, -⟩
    exact hne ((pieces_eq_nil_iff o.text).mp hnil b hb)
  · rw [if_neg hnil]
    have hbyte : ∃ b ∈ o.text, b ≠ newline := by
      by_contra hall
      push Not at hall
      exact hnil ((pieces_eq_nil_iff o.text).mpr hall)
    rw [and_iff_right hbyte]
    constructor
    · rintro ⟨t, ht, hparsed⟩ l hl
      obtain rfl := Option.some_inj.mp ht
      have hlist := hparsed l hl
      rw [hl] at hlist
      exact (l.holds_iff s).mp hlist
    · intro h
      refine ⟨_, rfl, fun l hl => ?_⟩
      rw [hl]
      exact (l.holds_iff s).mpr (h l hl)

/-- What `adb devices` prints for a device that the user may not access. -/
def noPermissions : AdbOutput where
  text := ascii "List of devices attached\nR58M\tno permissions\n"
  noNul := by decide +kernel
  junk := List.replicate 978 0
  size := by decide +kernel

def noPermissionsListing : Listing where
  lines := [.headerLine (ascii " devices attached"),
    .deviceLine ⟨ascii "R58M", ascii "no permissions"⟩]
  ok := by
    intro r hr
    obtain rfl : r = ⟨ascii "R58M", ascii "no permissions"⟩ := List.mem_singleton.mp hr
    exact ⟨by decide +kernel, by decide +kernel, by decide +kernel⟩
  distinct := by decide +kernel

/-- The serial of the device becomes `R58M`, a tab and `no`. -/
theorem not_parsed_noPermissions : ¬ Parsed new noPermissions := by
  rintro ⟨t, ht, h⟩
  have hprints : noPermissionsListing.Prints noPermissions.text := by
    unfold Listing.Prints
    decide +kernel
  have hlist := h noPermissionsListing hprints
  rw [reloadThread, doReload_eq, noPermissions.buf_str, if_neg (by decide +kernel)] at ht
  obtain rfl := Option.some_inj.mp ht
  unfold Holds at hlist
  revert hlist
  decide +kernel

end DroidcamWhip
