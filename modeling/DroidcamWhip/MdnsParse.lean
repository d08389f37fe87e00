import DroidcamWhip.MdnsRecords

/-!
The data of records: `mdns_record_parse_ptr`, `mdns_record_parse_srv` and
`mdns_record_parse_txt`. A result `none` stands for bytes outside of the buffer.
-/

namespace DroidcamWhip

open Bytes Names

/-! ## The code -/

/-- `mdns_record_parse_ptr`. -/
def recordParsePtr (buffer : List UInt8) (size offset length capacity : Nat) :
    Option (List UInt8) :=
  if size ≥ offset + length ∧ length ≥ 2 then
    (stringExtract buffer size offset capacity).map Prod.fst
  else some []

/-- `mdns_record_srv_t`. -/
structure RecordSrv where
  priority : Nat
  weight : Nat
  port : Nat
  name : List UInt8

/-- `mdns_record_parse_srv`. -/
def recordParseSrv (buffer : List UInt8) (size offset length capacity : Nat) :
    Option RecordSrv := do
  if size ≥ offset + length ∧ length ≥ 8 then
    let priority ← ntohs buffer offset
    let weight ← ntohs buffer (offset + 2)
    let port ← ntohs buffer (offset + 4)
    let (name, _) ← stringExtract buffer size (offset + 6) capacity
    return ⟨priority, weight, port, name⟩
  else return ⟨0, 0, 0, []⟩

/-- A printable character. -/
def Printable (b : UInt8) : Prop := 0x20 ≤ b ∧ b ≤ 0x7E

instance (b : UInt8) : Decidable (Printable b) := inferInstanceAs (Decidable (_ ∧ _))

/-- The search for `=` in `mdns_record_parse_txt`, with `left` characters from `c` on. -/
def txtSeparator (buffer : List UInt8) (strdata : Nat) : Nat → Nat → Option Nat
  | 0, _ => some 0
  | left + 1, c => do
      let b ← buffer[strdata + c]?
      if b < 0x20 ∨ b > 0x7E then
        return 0
      if b = 61 then
        return c
      txtSeparator buffer strdata left (c + 1)

/-- The loop of `mdns_record_parse_txt`. -/
def txtLoop (buffer : List UInt8) (fin capacity offset : Nat)
    (records : List (List UInt8 × List UInt8)) : Option (List (List UInt8 × List UInt8)) :=
  if offset < fin ∧ records.length < capacity then do
    let sublength ← buffer[offset]?
    let sublength := sublength.toNat
    let strdata := offset + 1
    let separator ← txtSeparator buffer strdata sublength 0
    if separator = 0 then
      txtLoop buffer fin capacity (offset + (sublength + 1)) records
    else if separator < sublength then
      let key ← slice buffer strdata separator
      let value ← slice buffer (strdata + separator + 1) (sublength - (separator + 1))
      txtLoop buffer fin capacity (offset + (sublength + 1)) (records ++ [(key, value)])
    else
      let key ← slice buffer strdata sublength
      txtLoop buffer fin capacity (offset + (sublength + 1)) (records ++ [(key, [])])
  else some records
termination_by fin - offset

/-- `mdns_record_parse_txt`: the pairs of keys and values. -/
def recordParseTxt (buffer : List UInt8) (size offset length capacity : Nat) :
    Option (List (List UInt8 × List UInt8)) :=
  txtLoop buffer (min size (offset + length)) capacity offset []

/-! ## The strings of a TXT record -/

/-- A character that may stand in a key. -/
def IsKey (b : UInt8) : Prop := Printable b ∧ b ≠ 61

instance (b : UInt8) : Decidable (IsKey b) := inferInstanceAs (Decidable (_ ∧ _))

/-- What stands before the first character that cannot be in a key. -/
def keyOf (c : List UInt8) : List UInt8 := c.takeWhile fun b => IsKey b

/-- The pair that a string stands for. -/
def txtPair (c : List UInt8) : Option (List UInt8 × List UInt8) :=
  if keyOf c ≠ [] ∧ (c)[(keyOf c).length]? = some 61 then
    some (keyOf c, c.drop ((keyOf c).length + 1))
  else none

theorem keyOf_cons {b : UInt8} (c : List UInt8) (hb : IsKey b) : keyOf (b :: c) = b :: keyOf c :=
  List.takeWhile_cons_of_pos (by simpa using hb)

theorem keyOf_cons_of_not {b : UInt8} (c : List UInt8) (hb : ¬ IsKey b) : keyOf (b :: c) = [] :=
  List.takeWhile_cons_of_neg (by simpa using hb)

/-- A string with a key before its first `=`. -/
theorem txtPair_append {key : List UInt8} (value : List UInt8) (hne : key ≠ [])
    (hkey : ∀ b ∈ key, IsKey b) : txtPair (key ++ 61 :: value) = some (key, value) := by
  have hof : keyOf (key ++ 61 :: value) = key := by
    rw [keyOf, List.takeWhile_append_of_pos (by simpa using hkey),
      List.takeWhile_cons_of_neg (by decide), List.append_nil]
  have hget : (key ++ 61 :: value)[key.length]? = some 61 := by simp
  have hdrop : (key ++ 61 :: value).drop (key.length + 1) = value := by
    rw [← List.drop_drop, List.drop_left]
    rfl
  rw [txtPair, hof, if_pos ⟨hne, hget⟩, hdrop]

variable {buffer : List UInt8} {size : Nat}

/-- The search from the middle of a string, whose start may be in a key. -/
theorem txtSeparator_eq {strdata : Nat} (pre : List UInt8) {rest t : List UInt8}
    (h : buffer.drop strdata = pre ++ (rest ++ t)) :
    txtSeparator buffer strdata rest.length pre.length =
      some (if rest[(keyOf rest).length]? = some 61 then pre.length + (keyOf rest).length
        else 0) := by
  induction rest generalizing pre with
  | nil => rfl
  | cons b rest ih =>
    have hb : buffer[strdata + pre.length]? = some b := by
      rw [← List.getElem?_drop, h, List.getElem?_append_right le_rfl]
      simp
    rw [List.length_cons, txtSeparator, hb]
    simp only [Option.bind_eq_bind, Option.bind_some]
    by_cases hprint : b < 0x20 ∨ b > 0x7E
    · have hkey : ¬ IsKey b := by
        rintro ⟨⟨hlow, hhigh⟩, -⟩
        rcases hprint with hlt | hgt
        · exact absurd hlow (UInt8.not_le.mpr hlt)
        · exact absurd hhigh (UInt8.not_le.mpr hgt)
      have hne : b ≠ 61 := by
        rintro rfl
        revert hprint
        decide
      rw [if_pos hprint, keyOf_cons_of_not rest hkey]
      simp [hne]
    · have hlow : Printable b := by
        rw [not_or] at hprint
        exact ⟨UInt8.not_lt.mp hprint.1, UInt8.not_lt.mp hprint.2⟩
      rw [if_neg hprint]
      by_cases heq : b = 61
      · rw [if_pos heq, keyOf_cons_of_not rest fun hkey => hkey.2 heq]
        simp [heq]
      · have hkey : IsKey b := ⟨hlow, heq⟩
        have hnext := ih (pre ++ [b]) (by rw [h]; simp)
        rw [List.length_append, List.length_singleton] at hnext
        rw [if_neg heq, hnext, keyOf_cons rest hkey, List.length_cons, List.getElem?_cons_succ,
          Nat.add_assoc, Nat.add_comm 1]

/-- **A TXT record is read string by string.** The pairs are those of the strings that the
record consists of, up to the capacity. -/
theorem txtLoop_eq {cs : List (List UInt8)} (hcs : ∀ c ∈ cs, c.length < 256) (capacity : Nat)
    {offset : Nat} {t : List UInt8} (h : buffer.drop offset = packed cs ++ t)
    (records : List (List UInt8 × List UInt8)) (hrecords : records.length ≤ capacity) :
    txtLoop buffer (offset + (packed cs).length) capacity offset records =
      some (records ++ (cs.filterMap txtPair).take (capacity - records.length)) := by
  induction cs generalizing offset records with
  | nil =>
    unfold txtLoop
    simp
  | cons c cs ih =>
    have hlen : (UInt8.ofNat c.length).toNat = c.length := by
      have := hcs c (List.mem_cons_self ..)
      rw [UInt8.toNat_ofNat']
      omega
    rw [packed_cons, List.append_assoc] at h
    have hb : buffer[offset]? = some (UInt8.ofNat c.length) := by
      rw [← Nat.add_zero offset, ← List.getElem?_drop, h]
      rfl
    have hstr : buffer.drop (offset + 1) = [] ++ (c ++ (packed cs ++ t)) := by
      rw [← List.drop_drop, h]
      rfl
    have hnext : buffer.drop (offset + (c.length + 1)) = packed cs ++ t := drop_of_drop h
    have hfin : offset + (packed (c :: cs)).length =
        offset + (c.length + 1) + (packed cs).length := by
      rw [packed_cons, List.length_append, counted_length]
      omega
    have hgo := fun rs => ih (fun d hd => hcs d (List.mem_cons_of_mem _ hd)) hnext rs
    have hsep := txtSeparator_eq [] hstr
    rw [List.length_nil, Nat.zero_add] at hsep
    rw [hfin]
    unfold txtLoop
    by_cases hfull : records.length < capacity
    · rw [if_pos ⟨by omega, hfull⟩, hb]
      simp only [Option.bind_eq_bind, Option.bind_some, hlen, hsep]
      by_cases hpair : keyOf c ≠ [] ∧ (c)[(keyOf c).length]? = some 61
      · obtain ⟨hne, hat⟩ := hpair
        have hpos := List.length_pos_iff.mpr hne
        have hlt : (keyOf c).length < c.length := (List.getElem?_eq_some_iff.mp hat).1
        have hbuf := congrArg List.length hstr
        rw [List.length_drop, List.nil_append, List.length_append] at hbuf
        have hkey : slice buffer (offset + 1) (keyOf c).length = some (keyOf c) := by
          rw [slice_eq (by omega), hstr, List.nil_append,
            List.take_append_of_le_length hlt.le]
          exact congrArg some (List.prefix_iff_eq_take.mp (List.takeWhile_prefix _)).symm
        have hvalue : slice buffer (offset + 1 + (keyOf c).length + 1)
            (c.length - ((keyOf c).length + 1)) = some (c.drop ((keyOf c).length + 1)) := by
          rw [slice_eq (by omega), Nat.add_assoc, ← List.drop_drop, hstr, List.nil_append,
            List.drop_append_of_le_length hlt]
          exact congrArg some (List.take_left' (List.length_drop ..))
        have htxt : txtPair c = some (keyOf c, c.drop ((keyOf c).length + 1)) :=
          if_pos ⟨hne, hat⟩
        have hrest : capacity - records.length =
            capacity - (records ++ [(keyOf c, c.drop ((keyOf c).length + 1))]).length + 1 := by
          rw [List.length_append, List.length_singleton]
          omega
        rw [if_pos hat]
        simp only [hpos.ne', if_false, hlt, if_true, hkey, hvalue, Option.bind_some]
        rw [hgo _ (by rw [List.length_append, List.length_singleton]; omega),
          List.filterMap_cons_some htxt, hrest, List.take_succ_cons, List.append_assoc]
        rfl
      · have htxt : txtPair c = none := if_neg hpair
        have hzero : (if (c)[(keyOf c).length]? = some 61 then (keyOf c).length else 0) = 0 := by
          split
          · rename_i hat
            exact List.length_eq_zero_iff.mpr (not_not.mp fun hne => hpair ⟨hne, hat⟩)
          · rfl
        rw [hzero, if_pos rfl, hgo records hrecords, List.filterMap_cons_none htxt]
    · rw [if_neg fun hboth => hfull hboth.2]
      have hzero : capacity - records.length = 0 := by omega
      simp [hzero]

/-- **A TXT record in a packet** gives the pairs of its strings. -/
theorem recordParseTxt_strings (h : size ≤ buffer.length) {cs : List (List UInt8)}
    (hcs : ∀ c ∈ cs, c.length < 256) {offset : Nat}
    (hdata : packed cs <+: (buffer.take size).drop offset) (capacity : Nat) :
    recordParseTxt buffer size offset (packed cs).length capacity =
      some ((cs.filterMap txtPair).take capacity) := by
  obtain ⟨t, ht⟩ := hdata
  have hlen := congrArg List.length ht
  rw [List.length_append, List.length_drop, packet_length h] at hlen
  have hpre : packed cs <+: buffer.drop offset := by
    refine (List.prefix_append _ t).trans ?_
    rw [ht, List.drop_take]
    exact List.take_prefix _ _
  obtain ⟨t', ht'⟩ := hpre
  have hloop := txtLoop_eq hcs capacity ht'.symm [] (Nat.zero_le _)
  rw [List.nil_append, List.length_nil, Nat.sub_zero] at hloop
  rw [recordParseTxt]
  cases cs with
  | nil =>
    unfold txtLoop
    rw [if_neg fun hboth => absurd hboth.1 (by simp)]
    simp
  | cons c cs =>
    rw [packed_cons, List.length_append, counted_length] at hlen
    rw [Nat.min_eq_right (by rw [packed_cons, List.length_append, counted_length]; omega)]
    exact hloop

/-! ## Any data -/

/-- The search stays within a string that is in the buffer. -/
theorem txtSeparator_isSome {strdata left c : Nat} (h : strdata + (c + left) ≤ buffer.length) :
    ∃ k, txtSeparator buffer strdata left c = some k ∧ (k = 0 ∨ k < c + left) := by
  induction left generalizing c with
  | zero => exact ⟨0, rfl, .inl rfl⟩
  | succ left ih =>
    obtain ⟨b, hb⟩ := exists_getElem? (l := buffer) (i := strdata + c) (by omega)
    rw [txtSeparator, hb]
    simp only [Option.bind_eq_bind, Option.bind_some]
    split
    · exact ⟨0, rfl, .inl rfl⟩
    · split
      · exact ⟨c, rfl, .inr (by omega)⟩
      · obtain ⟨k, hk, hlt⟩ := ih (c := c + 1) (by omega)
        exact ⟨k, hk, by omega⟩

/-- **TXT data of any kind** is read inside the buffer, if that goes on for 255 bytes. -/
theorem txtLoop_isSome {fin : Nat} (h : fin + 255 ≤ buffer.length) (capacity offset : Nat)
    (records : List (List UInt8 × List UInt8)) :
    ∃ rs, txtLoop buffer fin capacity offset records = some rs := by
  induction hn : fin - offset using Nat.strongRecOn generalizing offset records with
  | _ n ih =>
    subst hn
    unfold txtLoop
    split
    · rename_i hgo
      obtain ⟨b, hb⟩ := exists_getElem? (l := buffer) (i := offset) (by omega)
      have hbyte := b.toNat_lt
      obtain ⟨k, hk, hlt⟩ := txtSeparator_isSome
        (show offset + 1 + (0 + b.toNat) ≤ buffer.length by omega)
      have hnext := fun rs => ih (fin - (offset + (b.toNat + 1))) (by omega)
        (offset + (b.toNat + 1)) rs rfl
      simp only [hb, Option.bind_eq_bind, Option.bind_some, hk]
      split
      · exact hnext records
      · split
        · rw [slice_eq (by omega), slice_eq (by omega)]
          exact hnext _
        · omega
    · exact ⟨records, rfl⟩

end DroidcamWhip
