import DroidcamWhip.Lib.Names

/-!
The names in a message as `mdns.h` reads them: `mdns_get_next_substring`,
`mdns_string_skip` and `mdns_string_extract`. A result `none` stands for a read outside
of the buffer.
-/

namespace DroidcamWhip

open Bytes Names

/-! ## Reading -/

/-- `MDNS_MAX_SUBSTRINGS`. -/
def maxSubstrings : Nat := 64

/-- `mdns_string_pair_t`; without an offset it is at `MDNS_INVALID_POS`. -/
structure StringPair where
  offset : Option Nat
  length : Nat
  ref : Bool
  deriving DecidableEq

/-- `mdns_ntohs`. -/
def ntohs (buffer : List UInt8) (off : Nat) : Option Nat := (slice buffer off 2).map value

/-- `mdns_ntohl`. -/
def ntohl (buffer : List UInt8) (off : Nat) : Option Nat := (slice buffer off 4).map value

/-- `mdns_is_string_ref`. -/
def isStringRef (val : UInt8) : Bool := 0xC0 == (val &&& 0xC0)

/-- One round of the loop of `mdns_get_next_substring`, which goes on at the offset that
a reference has, and what follows the loop. -/
def followRef (buffer : List UInt8) (size offset : Nat) (ref : Bool)
    (next : Nat → Option StringPair) : Option StringPair := do
  let val ← buffer[offset]?
  if isStringRef val then
    if size < offset + 2 then
      return ⟨none, 0, ref⟩
    let offset := (← ntohs buffer offset) &&& 0x3fff
    if offset ≥ size then
      return ⟨none, 0, ref⟩
    next offset
  else
    let length := val.toNat
    if size < offset + 1 + length then
      return ⟨none, 0, ref⟩
    return ⟨some (offset + 1), length, ref⟩

/-- The loop, in which `recursion` may grow by the first argument. -/
def followRefs (buffer : List UInt8) (size : Nat) : Nat → Nat → Bool → Option StringPair
  | 0, offset, ref => followRef buffer size offset ref fun _ => some ⟨none, 0, true⟩
  | left + 1, offset, ref =>
      followRef buffer size offset ref fun offset => followRefs buffer size left offset true

/-- `mdns_get_next_substring`. -/
def getNextSubstring (buffer : List UInt8) (size offset : Nat) : Option StringPair := do
  if offset ≥ size then
    return ⟨none, 0, false⟩
  let val ← buffer[offset]?
  if val = 0 then
    return ⟨some offset, 0, false⟩
  followRefs buffer size 16 offset false

/-- The loop of `mdns_string_skip`, which takes fewer substrings than the first argument. -/
def skipLoop (buffer : List UInt8) (size : Nat) : Nat → Nat → Option (Option Nat)
  | 0, cur => (getNextSubstring buffer size cur).map fun _ => none
  | left + 1, cur => do
      let substr ← getNextSubstring buffer size cur
      match substr.offset with
      | none => return none
      | some offset =>
          if substr.ref then return some (cur + 2)
          let cur := offset + substr.length
          if substr.length ≠ 0 then skipLoop buffer size left cur else return some (cur + 1)

/-- `mdns_string_skip`: the offset behind the name, or 0. -/
def stringSkip (buffer : List UInt8) (size offset : Nat) : Option (Option Nat) :=
  skipLoop buffer size (maxSubstrings + 1) offset

/-- A label and, where there is room, a dot, at the end of what has been copied. -/
def copyLabel (capacity : Nat) (dst label : List UInt8) : List UInt8 :=
  if (dst ++ label).length < capacity then dst ++ label ++ [46] else dst ++ label

/-- The loop of `mdns_string_extract`; `dst` has been copied to `str`, and `fin` is what
`end` has been set to. -/
def extractLoop (buffer : List UInt8) (size capacity : Nat) :
    Nat → Nat → Option Nat → List UInt8 → Option (Option (List UInt8 × Nat))
  | 0, cur, _, _ => (getNextSubstring buffer size cur).map fun _ => none
  | left + 1, cur, fin, dst => do
      let substr ← getNextSubstring buffer size cur
      match substr.offset with
      | none => return none
      | some offset =>
          let fin := if substr.ref ∧ fin = none then some (cur + 2) else fin
          let cur := offset + substr.length
          if substr.length ≠ 0 then
            let label ← slice buffer offset (min substr.length (capacity - dst.length))
            extractLoop buffer size capacity left cur fin (copyLabel capacity dst label)
          else return some (dst, fin.getD (cur + 1))

/-- `mdns_string_extract`: the string, and where `offset` is moved to. -/
def stringExtract (buffer : List UInt8) (size offset capacity : Nat) :
    Option (List UInt8 × Nat) :=
  (extractLoop buffer size capacity (maxSubstrings + 1) offset none []).map fun r =>
    r.getD ([], offset)

/-! ## One substring -/

theorem isStringRef_iff (b : UInt8) : isStringRef b ↔ IsRef b := by
  have hall : ∀ n < 256, ((192 : Nat) = n &&& 192) ↔ 192 ≤ n := by decide +kernel
  have hand : (b &&& 0xC0).toNat = b.toNat &&& 192 := UInt8.toNat_and b 0xC0
  rw [isStringRef, beq_iff_eq, ← UInt8.toNat_inj, hand, IsRef, ← hall b.toNat b.toNat_lt]
  rfl

theorem and_0x3fff (n : Nat) : n &&& 0x3fff = n % 2 ^ 14 := Nat.and_two_pow_sub_one_eq_mod n 14

variable {buffer : List UInt8} {size : Nat}

theorem getElem?_packet {i : Nat} (hi : i < size) : (buffer.take size)[i]? = buffer[i]? :=
  List.getElem?_take_of_lt hi

theorem packet_length (h : size ≤ buffer.length) : (buffer.take size).length = size :=
  List.length_take_of_le h

theorem exists_getElem? {l : List UInt8} {i : Nat} (h : i < l.length) : ∃ b, l[i]? = some b :=
  ⟨l[i], List.getElem?_eq_getElem h⟩

theorem lt_of_getElem? {l : List UInt8} {i : Nat} {b : UInt8} (h : l[i]? = some b) :
    i < l.length := (List.getElem?_eq_some_iff.mp h).1

/-- Two bytes that are read are a reference's. -/
theorem ntohs_eq {i : Nat} {a b : UInt8} (ha : buffer[i]? = some a)
    (hb : buffer[i + 1]? = some b) : ntohs buffer i = some (value [a, b]) := by
  obtain ⟨hia, hga⟩ := List.getElem?_eq_some_iff.mp ha
  obtain ⟨hib, hgb⟩ := List.getElem?_eq_some_iff.mp hb
  rw [ntohs, slice_eq (by omega), List.drop_eq_getElem_cons hia, List.drop_eq_getElem_cons hib,
    hga, hgb]
  rfl

/-- **One round** finds nothing, a label inside the packet, or a reference inside it. -/
theorem followRef_spec (h : size ≤ buffer.length) {i : Nat} (hi : i < size) (ref : Bool)
    (next : Nat → Option StringPair) :
    (followRef buffer size i ref next = some ⟨none, 0, ref⟩ ∧
      ∀ k j l, Leads (buffer.take size) k i j → ¬ Stored (buffer.take size) j l) ∨
    (∃ l, Leads (buffer.take size) 0 i i ∧ Stored (buffer.take size) i l ∧
      followRef buffer size i ref next = some ⟨some (i + 1), l.length, ref⟩) ∨
    ∃ a b, (buffer.take size)[i]? = some a ∧ IsRef a ∧ (buffer.take size)[i + 1]? = some b ∧
      target a b < size ∧ followRef buffer size i ref next = next (target a b) := by
  obtain ⟨a, ha⟩ := exists_getElem? (Nat.lt_of_lt_of_le hi h)
  have hval := (getElem?_packet hi).trans ha
  unfold followRef
  by_cases href : IsRef a
  · by_cases hsize : size < i + 2
    · refine .inl ⟨by simp [ha, (isStringRef_iff a).mpr href, hsize], fun k j l hk hl => ?_⟩
      cases hk with
      | here hc hno => exact hno (Option.some_inj.mp (hval.symm.trans hc) ▸ href)
      | hop _ _ hb _ =>
        have hlt := lt_of_getElem? hb
        rw [packet_length h] at hlt
        omega
    · obtain ⟨b, hb⟩ := exists_getElem? (l := buffer) (i := i + 1) (by omega)
      have hbval := (getElem?_packet (show i + 1 < size by omega)).trans hb
      have htarget : value [a, b] &&& 0x3fff = target a b := and_0x3fff _
      by_cases hfar : size ≤ target a b
      · refine .inl ⟨?_, fun k j l hk hl => ?_⟩
        · simp [ha, (isStringRef_iff a).mpr href, hsize, ntohs_eq ha hb, htarget, hfar]
        · obtain ⟨k', -, hrest⟩ := hk.of_ref hval href hbval
          have hlt := hrest.lt
          rw [packet_length h] at hlt
          omega
      · refine .inr (.inr ⟨a, b, hval, href, hbval, by omega, ?_⟩)
        simp [ha, (isStringRef_iff a).mpr href, hsize, ntohs_eq ha hb, htarget, hfar]
  · have hno : isStringRef a = false := Bool.eq_false_iff.mpr (mt (isStringRef_iff a).mp href)
    by_cases hfit : size < i + 1 + a.toNat
    · refine .inl ⟨by simp [ha, hno, hfit], fun k j l hk hl => ?_⟩
      obtain ⟨-, rfl⟩ := hk.of_label hval href
      have hle := hl.le
      have hlen := toNat_length hl.1
      rw [← Option.some_inj.mp (hval.symm.trans hl.getElem?)] at hlen
      rw [packet_length h] at hle
      omega
    · obtain ⟨hstored, hlen⟩ := stored_of_getElem? hval href (by rw [packet_length h]; omega)
      refine .inr (.inl ⟨_, .here hval href, hstored, ?_⟩)
      rw [hlen]
      simp [ha, hno, hfit]

/-- **Following references**: they lead to a label inside the packet, or there are too many. -/
theorem followRefs_spec (h : size ≤ buffer.length) (left : Nat) {i : Nat} (hi : i < size)
    (ref : Bool) :
    (∃ r, followRefs buffer size left i ref = some ⟨none, 0, r⟩ ∧
      ∀ k j l, Leads (buffer.take size) k i j → Stored (buffer.take size) j l → left < k) ∨
    ∃ k j l, Leads (buffer.take size) k i j ∧ k ≤ left ∧ Stored (buffer.take size) j l ∧
      followRefs buffer size left i ref = some ⟨some (j + 1), l.length, ref || decide (0 < k)⟩ := by
  induction left generalizing i ref with
  | zero =>
    obtain ⟨hnone, hno⟩ | ⟨l, hlead, hl, hsome⟩ | ⟨a, b, ha, href, hb, -, hnext⟩ :=
      followRef_spec h hi ref fun _ => some ⟨none, 0, true⟩
    · exact .inl ⟨ref, hnone, fun k j l hk hl => absurd hl (hno k j l hk)⟩
    · exact .inr ⟨0, i, l, hlead, le_rfl, hl, by simpa [followRefs] using hsome⟩
    · refine .inl ⟨true, hnext, fun k j l hk _ => ?_⟩
      obtain ⟨k', rfl, -⟩ := hk.of_ref ha href hb
      exact Nat.succ_pos k'
  | succ left ih =>
    obtain ⟨hnone, hno⟩ | ⟨l, hlead, hl, hsome⟩ | ⟨a, b, ha, href, hb, hlt, hnext⟩ :=
      followRef_spec h hi ref fun offset => followRefs buffer size left offset true
    · exact .inl ⟨ref, hnone, fun k j l hk hl => absurd hl (hno k j l hk)⟩
    · exact .inr ⟨0, i, l, hlead, Nat.zero_le _, hl, by simpa [followRefs] using hsome⟩
    · obtain ⟨r, hr, hno⟩ | ⟨k, j, l, hk, hle, hl, hsome⟩ := ih hlt true
      · refine .inl ⟨r, hnext.trans hr, fun k j l hk hl => ?_⟩
        obtain ⟨k', rfl, hrest⟩ := hk.of_ref ha href hb
        exact Nat.succ_lt_succ (hno k' j l hrest hl)
      · refine .inr ⟨k + 1, j, l, .hop ha href hb hk, Nat.succ_le_succ hle, hl, ?_⟩
        show followRef _ _ _ _ _ = _
        rw [hnext, hsome]
        simp

/-- **The next substring**: the label that at most 16 references lead to, or none. -/
theorem getNextSubstring_spec (h : size ≤ buffer.length) (i : Nat) :
    (∃ r, getNextSubstring buffer size i = some ⟨none, 0, r⟩ ∧
      ∀ k j l, Leads (buffer.take size) k i j → Stored (buffer.take size) j l → 16 < k) ∨
    ∃ k j l, Leads (buffer.take size) k i j ∧ k ≤ 16 ∧ Stored (buffer.take size) j l ∧
      getNextSubstring buffer size i =
        some ⟨some (if k = 0 ∧ l = [] then i else j + 1), l.length, decide (0 < k)⟩ := by
  by_cases hi : size ≤ i
  · refine .inl ⟨false, by simp [getNextSubstring, hi], fun k j l hk _ => ?_⟩
    have hlt := hk.lt
    rw [packet_length h] at hlt
    omega
  · obtain ⟨b, hb⟩ := exists_getElem? (l := buffer) (i := i) (by omega)
    have hval := (getElem?_packet (show i < size by omega)).trans hb
    by_cases hzero : b = 0
    · subst hzero
      obtain ⟨hstored, -⟩ := stored_of_getElem? (m := buffer.take size) hval (by decide)
        (by rw [packet_length h]; show i + 1 + 0 ≤ size; omega)
      exact .inr ⟨0, i, [], .here hval (by decide), Nat.zero_le _, hstored,
        by simp [getNextSubstring, hi, hb]⟩
    · have heq : getNextSubstring buffer size i = followRefs buffer size 16 i false := by
        simp [getNextSubstring, hi, hb, hzero]
      obtain ⟨r, hr, hno⟩ | ⟨k, j, l, hk, hle, hl, hsome⟩ :=
        followRefs_spec h 16 (Nat.lt_of_not_le hi) false
      · exact .inl ⟨r, heq.trans hr, hno⟩
      · refine .inr ⟨k, j, l, hk, hle, hl, (heq.trans hsome).trans ?_⟩
        have hne : ¬ (k = 0 ∧ l = []) := by
          rintro ⟨rfl, rfl⟩
          cases hk with
          | here _ _ => exact hzero (Option.some_inj.mp (hval.symm.trans hl.getElem?))
        rw [if_neg hne, Bool.false_or]

/-- The label that few enough references lead to is the next substring. -/
theorem getNextSubstring_eq (h : size ≤ buffer.length) {i j k : Nat} {l : List UInt8}
    (hk : Leads (buffer.take size) k i j) (hle : k ≤ 16) (hl : Stored (buffer.take size) j l) :
    getNextSubstring buffer size i =
      some ⟨some (if k = 0 ∧ l = [] then i else j + 1), l.length, decide (0 < k)⟩ := by
  obtain ⟨r, -, hno⟩ | ⟨k', j', l', hk', -, hl', hget⟩ := getNextSubstring_spec h i
  · exact absurd (hno k j l hk hl) (Nat.not_lt.mpr hle)
  · obtain ⟨rfl, rfl⟩ := hk.unique hk'
    cases hl.unique hl'
    exact hget

/-! ## Skipping a name -/

/-- The end of a name that is reached over a reference. -/
theorem ends_of_hop {m : List UInt8} {i j k e : Nat} (hk : Leads m k i j) (hpos : 0 < k)
    (he : Ends m i e) : e = i + 2 := by
  cases hk with
  | here _ _ => exact absurd hpos (Nat.lt_irrefl 0)
  | hop ha href hb _ => exact he.unique (.ref ha href hb)

theorem skipLoop_of_spells (h : size ≤ buffer.length) {i e left : Nat} {ls : List (List UInt8)}
    (hs : Spells (buffer.take size) 16 i ls) (hleft : ls.length < left)
    (he : Ends (buffer.take size) i e) : skipLoop buffer size left i = some (some e) := by
  induction hs generalizing left with
  | @root i j k hk hle hl =>
    obtain ⟨left, rfl⟩ : ∃ n, left = n + 1 := ⟨left - 1, by simp at hleft; omega⟩
    rw [skipLoop, getNextSubstring_eq h hk hle hl]
    by_cases hpos : 0 < k
    · rw [ends_of_hop hk hpos he]
      simp [hpos]
    · obtain rfl : k = 0 := by omega
      cases hk with
      | here _ _ =>
        rw [he.unique (.root hl)]
        simp
  | @label i j k l ls hk hle hl hne hrest ih =>
    obtain ⟨left, rfl⟩ : ∃ n, left = n + 1 := ⟨left - 1, by omega⟩
    have hlen : l.length ≠ 0 := fun h0 => hne (List.length_eq_zero_iff.mp h0)
    rw [skipLoop, getNextSubstring_eq h hk hle hl]
    by_cases hpos : 0 < k
    · rw [ends_of_hop hk hpos he]
      simp [hpos]
    · obtain rfl : k = 0 := by omega
      cases hk with
      | here _ _ =>
        obtain ⟨e', he'⟩ := hrest.ends
        obtain rfl := he.unique (.label hl hne he')
        simpa [hne] using ih (by simpa using hleft) he'

/-- Where the loop ends, what is spelled in place ends. -/
theorem skipLoop_spec (h : size ≤ buffer.length) (left i : Nat) :
    skipLoop buffer size left i = some none ∨
      ∃ e, Ends (buffer.take size) i e ∧ skipLoop buffer size left i = some (some e) := by
  induction left generalizing i with
  | zero =>
    refine .inl ?_
    obtain ⟨r, hget, -⟩ | ⟨k, j, l, -, -, -, hget⟩ := getNextSubstring_spec h i <;>
      rw [skipLoop, hget] <;> rfl
  | succ left ih =>
    obtain ⟨r, hget, -⟩ | ⟨k, j, l, hk, -, hl, hget⟩ := getNextSubstring_spec h i
    · exact .inl (by simp [skipLoop, hget])
    · rw [skipLoop, hget]
      cases hk with
      | hop ha href hb _ => exact .inr ⟨i + 2, .ref ha href hb, by simp⟩
      | here _ _ =>
        by_cases hne : l = []
        · subst hne
          exact .inr ⟨i + 1, .root hl, by simp⟩
        · obtain hnone | ⟨e, he, hsome⟩ := ih (i + 1 + l.length)
          · exact .inl (by simpa [hne] using hnone)
          · exact .inr ⟨e, .label hl hne he, by simpa [hne] using hsome⟩

/-! ## Extracting a name -/

theorem take_append_take (c : Nat) (xs ys : List UInt8) :
    (xs.take c ++ ys).take c = (xs ++ ys).take c := by
  have hlen : c - (xs.take c).length = c - xs.length := by
    rw [List.length_take]
    omega
  rw [List.take_append, List.take_append, List.take_take, Nat.min_self, hlen]

/-- What is copied of a label is what there is room for. -/
theorem copyLabel_take {capacity : Nat} {dst : List UInt8} (hdst : dst.length ≤ capacity)
    (l : List UInt8) :
    copyLabel capacity dst (l.take (capacity - dst.length)) =
      (dst ++ l ++ [46]).take capacity := by
  have hcut : dst ++ l.take (capacity - dst.length) = (dst ++ l).take capacity := by
    rw [List.take_append, List.take_of_length_le hdst]
  rw [copyLabel, hcut, List.length_take]
  by_cases hroom : (dst ++ l).length < capacity
  · rw [if_pos (by omega), List.take_of_length_le hroom.le, List.take_of_length_le]
    rw [List.length_append, List.length_singleton]
    exact hroom
  · rw [if_neg (by omega), List.take_append_of_le_length (Nat.le_of_not_lt hroom)]

/-- The label of a substring, as far as there is room. -/
theorem slice_label (h : size ≤ buffer.length) {j : Nat} {l : List UInt8}
    (hl : Stored (buffer.take size) j l) (room : Nat) :
    slice buffer (j + 1) (min l.length room) = some (l.take room) := by
  have hle := hl.le
  rw [packet_length h] at hle
  have hbytes := hl.bytes
  rw [take_drop_take (by omega)] at hbytes
  rw [slice_eq (by omega), Nat.min_comm, ← List.take_take, hbytes]

theorem extractLoop_of_spells (h : size ≤ buffer.length) {capacity i e left : Nat}
    {ls : List (List UInt8)} (hs : Spells (buffer.take size) 16 i ls) (hleft : ls.length < left)
    (he : Ends (buffer.take size) i e) (fin : Option Nat) {dst : List UInt8}
    (hdst : dst.length ≤ capacity) :
    extractLoop buffer size capacity left i fin dst =
      some (some ((dst ++ dotted ls).take capacity, fin.getD e)) := by
  induction hs generalizing left fin dst e with
  | @root i j k hk hle hl =>
    obtain ⟨left, rfl⟩ : ∃ n, left = n + 1 := ⟨left - 1, by simp at hleft; omega⟩
    rw [extractLoop, getNextSubstring_eq h hk hle hl, dotted_nil, List.append_nil,
      List.take_of_length_le hdst]
    by_cases hpos : 0 < k
    · rw [ends_of_hop hk hpos he]
      cases fin <;> simp [hpos]
    · obtain rfl : k = 0 := by omega
      cases hk with
      | here _ _ =>
        rw [he.unique (.root hl)]
        simp
  | @label i j k l ls hk hle hl hne hrest ih =>
    obtain ⟨left, rfl⟩ : ∃ n, left = n + 1 := ⟨left - 1, by omega⟩
    obtain ⟨e', he'⟩ := hrest.ends
    have hnext : ∀ fin', fin'.getD e' = fin.getD e →
        extractLoop buffer size capacity left (j + 1 + l.length) fin'
          (copyLabel capacity dst (l.take (capacity - dst.length))) =
          some (some ((dst ++ dotted (l :: ls)).take capacity, fin.getD e)) := by
      intro fin' hfin
      have hcopy := copyLabel_take hdst l
      rw [ih (by simpa using hleft) he' fin' (hcopy ▸ List.length_take_le ..), hfin, hcopy,
        take_append_take, dotted_cons, ← List.append_assoc, ← List.append_assoc]
    rw [extractLoop, getNextSubstring_eq h hk hle hl]
    by_cases hpos : 0 < k
    · have hfin := hnext (if fin = none then some (i + 2) else fin)
        (by rw [ends_of_hop hk hpos he]; cases fin <;> rfl)
      simpa [hpos, hne, slice_label h hl] using hfin
    · obtain rfl : k = 0 := by omega
      cases hk with
      | here _ _ =>
        have hfin := hnext fin (by rw [he.unique (.label hl hne he')])
        simpa [hne, slice_label h hl] using hfin

/-- Where the loop succeeds, a name is spelled. -/
theorem extractLoop_spec (h : size ≤ buffer.length) (capacity left i : Nat) (fin : Option Nat)
    (dst : List UInt8) :
    (extractLoop buffer size capacity left i fin dst = some none ∧
      ∀ ls, Spells (buffer.take size) 16 i ls → left ≤ ls.length) ∨
    ∃ ls, Spells (buffer.take size) 16 i ls ∧ ls.length < left := by
  induction left generalizing i fin dst with
  | zero =>
    refine .inl ⟨?_, fun ls _ => Nat.zero_le _⟩
    obtain ⟨r, hget, -⟩ | ⟨k, j, l, -, -, -, hget⟩ := getNextSubstring_spec h i <;>
      rw [extractLoop, hget] <;> rfl
  | succ left ih =>
    obtain ⟨r, hget, hno⟩ | ⟨k, j, l, hk, hle, hl, hget⟩ := getNextSubstring_spec h i
    · refine .inl ⟨by simp [extractLoop, hget], fun ls hs => ?_⟩
      cases hs with
      | root hk hle hl => exact absurd (hno _ _ _ hk hl) (Nat.not_lt.mpr hle)
      | label hk hle hl _ _ => exact absurd (hno _ _ _ hk hl) (Nat.not_lt.mpr hle)
    · by_cases hne : l = []
      · subst hne
        exact .inr ⟨[], .root hk hle hl, Nat.succ_pos _⟩
      · obtain ⟨hnone, hno⟩ | ⟨ls, hs, hlt⟩ :=
          ih (j + 1 + l.length) (if 0 < k ∧ fin = none then some (i + 2) else fin)
            (copyLabel capacity dst (l.take (capacity - dst.length)))
        · refine .inl ⟨?_, fun ls hs => ?_⟩
          · rw [extractLoop, hget]
            simpa [hne, slice_label h hl] using hnone
          · cases hs with
            | root hk' _ hl' =>
              obtain ⟨-, rfl⟩ := hk.unique hk'
              exact absurd (hl.unique hl') hne
            | label hk' _ hl' _ hrest =>
              obtain ⟨-, rfl⟩ := hk.unique hk'
              cases hl.unique hl'
              exact Nat.succ_le_succ (hno _ hrest)
        · exact .inr ⟨l :: ls, .label hk hle hl hne hs, Nat.succ_lt_succ hlt⟩

/-- A name of at most 64 labels is spelled at `i`, with at most 16 references before each,
and ends in place before `e`. -/
def NamedAt (m : List UInt8) (i : Nat) (ls : List (List UInt8)) (e : Nat) : Prop :=
  Spells m 16 i ls ∧ ls.length ≤ maxSubstrings ∧ Ends m i e

theorem stringExtract_of_named (h : size ≤ buffer.length) {i e : Nat} {ls : List (List UInt8)}
    (hn : NamedAt (buffer.take size) i ls e) (capacity : Nat) :
    stringExtract buffer size i capacity = some ((dotted ls).take capacity, e) := by
  obtain ⟨hs, hlen, he⟩ := hn
  rw [stringExtract, extractLoop_of_spells h hs (Nat.lt_succ_of_le hlen) he none (Nat.zero_le _)]
  rfl

theorem stringSkip_of_named (h : size ≤ buffer.length) {i e : Nat} {ls : List (List UInt8)}
    (hn : NamedAt (buffer.take size) i ls e) : stringSkip buffer size i = some (some e) :=
  skipLoop_of_spells h hn.1 (Nat.lt_succ_of_le hn.2.1) hn.2.2

/-- **`mdns_string_extract` reads exactly the names.** In every packet and at every offset it
stays inside the packet, and yields the name that is spelled there or leaves the offset. -/
theorem stringExtract_spec (h : size ≤ buffer.length) (offset capacity : Nat) :
    (∃ ls e, NamedAt (buffer.take size) offset ls e ∧
      stringExtract buffer size offset capacity = some ((dotted ls).take capacity, e)) ∨
    (stringExtract buffer size offset capacity = some ([], offset) ∧
      ∀ ls e, ¬ NamedAt (buffer.take size) offset ls e) := by
  obtain ⟨hnone, hno⟩ | ⟨ls, hs, hlt⟩ :=
    extractLoop_spec h capacity (maxSubstrings + 1) offset none []
  · refine .inr ⟨by rw [stringExtract, hnone]; rfl, fun ls e hn => ?_⟩
    exact absurd (hno ls hn.1) (Nat.not_le.mpr (Nat.lt_succ_of_le hn.2.1))
  · obtain ⟨e, he⟩ := hs.ends
    have hn : NamedAt (buffer.take size) offset ls e := ⟨hs, Nat.le_of_lt_succ hlt, he⟩
    exact .inl ⟨ls, e, hn, stringExtract_of_named h hn capacity⟩

/-- **Skipping and extracting agree.** In every packet and at every offset, where a name
cannot be skipped it cannot be extracted, and otherwise it ends inside the packet, where
`mdns_string_extract` ends too if it succeeds. -/
theorem stringSkip_spec (h : size ≤ buffer.length) (offset capacity : Nat) :
    (stringSkip buffer size offset = some none ∧
      stringExtract buffer size offset capacity = some ([], offset)) ∨
    ∃ e, Ends (buffer.take size) offset e ∧ offset < e ∧ e ≤ size ∧
      stringSkip buffer size offset = some (some e) ∧
      ((∃ s, stringExtract buffer size offset capacity = some (s, e)) ∨
        stringExtract buffer size offset capacity = some ([], offset)) := by
  have hbounds : ∀ e, Ends (buffer.take size) offset e → offset < e ∧ e ≤ size := fun e he => by
    have hle := he.bounds
    rwa [packet_length h] at hle
  obtain ⟨ls, e, hn, hsome⟩ | ⟨hnone, -⟩ := stringExtract_spec h offset capacity
  · exact .inr ⟨e, hn.2.2, (hbounds e hn.2.2).1, (hbounds e hn.2.2).2, stringSkip_of_named h hn,
      .inl ⟨_, hsome⟩⟩
  · obtain hskip | ⟨e, he, hskip⟩ := skipLoop_spec h (maxSubstrings + 1) offset
    · exact .inl ⟨hskip, hnone⟩
    · exact .inr ⟨e, he, (hbounds e he).1, (hbounds e he).2, hskip, .inr hnone⟩

/-- **Names are read as they are spelled.** In every packet and at every offset there is one
name that both functions find, with the same end inside the packet, or there is none, and
then `mdns_string_extract` leaves the offset, whatever `mdns_string_skip` skips. -/
theorem names_read (h : size ≤ buffer.length) (offset : Nat) :
    (∃ ls e, NamedAt (buffer.take size) offset ls e ∧
      (∀ ls' e', NamedAt (buffer.take size) offset ls' e' → ls' = ls ∧ e' = e) ∧
      offset < e ∧ e ≤ size ∧ stringSkip buffer size offset = some (some e) ∧
      ∀ capacity, stringExtract buffer size offset capacity =
        some ((dotted ls).take capacity, e)) ∨
    ((∀ ls e, ¬ NamedAt (buffer.take size) offset ls e) ∧
      (stringSkip buffer size offset = some none ∨
        ∃ e, Ends (buffer.take size) offset e ∧ offset < e ∧ e ≤ size ∧
          stringSkip buffer size offset = some (some e)) ∧
      ∀ capacity, stringExtract buffer size offset capacity = some ([], offset)) := by
  by_cases hex : ∃ ls e, NamedAt (buffer.take size) offset ls e
  · obtain ⟨ls, e, hn⟩ := hex
    have hbounds := hn.2.2.bounds
    rw [packet_length h] at hbounds
    exact .inl ⟨ls, e, hn, fun _ _ hn' => ⟨hn'.1.unique hn.1, hn'.2.2.unique hn.2.2⟩,
      hbounds.1, hbounds.2, stringSkip_of_named h hn, stringExtract_of_named h hn⟩
  · have hno : ∀ ls e, ¬ NamedAt (buffer.take size) offset ls e := fun ls e hn => hex ⟨ls, e, hn⟩
    have hnone : ∀ capacity, stringExtract buffer size offset capacity = some ([], offset) :=
      fun capacity => by
        obtain ⟨ls, e, hn, -⟩ | ⟨hnone, -⟩ := stringExtract_spec h offset capacity
        · exact absurd hn (hno ls e)
        · exact hnone
    refine .inr ⟨hno, ?_, hnone⟩
    obtain ⟨hskip, -⟩ | ⟨e, he, hlt, hle, hskip, -⟩ := stringSkip_spec h offset 0
    · exact .inl hskip
    · exact .inr ⟨e, he, hlt, hle, hskip⟩

/-- The name `a.`, and behind it `b.` with a reference to it. -/
def referring : List UInt8 := [1, 97, 0, 1, 98, 192, 0]

theorem named_referring : NamedAt (referring.take 7) 3 [[98], [97]] 7 := by
  have hfirst : Spells referring 16 0 [[97]] :=
    (spells_encode 16 (by decide) (show referring.drop 0 = encode [[97]] ++ _ from rfl)).1
  have hdirect : ∀ k j, Leads referring k 0 j → k < 16 := fun k j hlead => by
    obtain ⟨rfl, -⟩ := hlead.of_label (show referring[0]? = some 1 from rfl) (by decide)
    decide
  obtain ⟨hspells, hends⟩ := spells_ref (by decide) (by decide)
    (show referring.drop 3 = packed [[98]] ++ 192 :: 0 :: [] from rfl) hfirst hdirect
  exact ⟨hspells, by decide, hends⟩

theorem names_read_referring :
    stringSkip referring 7 3 = some (some 7) ∧
      stringExtract referring 7 3 10 = some ([98, 46, 97, 46], 7) := by
  obtain ⟨ls, e, -, huniq, -, -, hskip, hextract⟩ | ⟨hno, -⟩ :=
    @names_read referring 7 (by decide) 3
  · obtain ⟨rfl, rfl⟩ := huniq _ _ named_referring
    exact ⟨hskip, hextract 10⟩
  · exact absurd named_referring (hno _ _)

end DroidcamWhip
