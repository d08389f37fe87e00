import DroidcamWhip.Lib.CString
import DroidcamWhip.MdnsString

/-!
The query that `mdns_query_send` puts together: `mdns_string_make` without a table of
strings. A result `none` stands for an access outside of the buffer or the name.
-/

namespace DroidcamWhip

open Bytes Names

/-! ## The code -/

/-- `mdns_string_find`. -/
def stringFind (str : List UInt8) (c : UInt8) (offset : Nat) : Option Nat :=
  ((str.drop offset).idxOf? c).map (offset + ·)

theorem stringFind_le {str : List UInt8} {c : UInt8} {offset pos : Nat}
    (h : stringFind str c offset = some pos) : offset ≤ pos := by
  obtain ⟨k, -, rfl⟩ := Option.map_eq_some_iff.mp h
  exact Nat.le_add_right ..

/-- The loop of `mdns_string_make` from `last_pos` on, and the end of the string: NULL, or
the offset behind it. -/
def makeLoop (capacity : Nat) (name buffer : List UInt8) (data lastPos : Nat) :
    Option (Option (Nat × List UInt8)) :=
  if lastPos < name.length then do
    let pos := stringFind name 46 lastPos
    let subLength := pos.getD name.length - lastPos
    if capacity - data ≤ subLength + 1 then
      return none
    let buffer ← write buffer data [UInt8.ofNat subLength]
    let buffer ← write buffer (data + 1) ((name.drop lastPos).take subLength)
    makeLoop capacity name buffer (data + subLength + 1) (pos.elim name.length (· + 1))
  else do
    if capacity - data = 0 then
      return none
    let buffer ← write buffer data [0]
    return some (data + 1, buffer)
termination_by name.length - lastPos
decreasing_by
  cases hpos : stringFind name 46 lastPos with
  | none =>
    show name.length - name.length < name.length - lastPos
    omega
  | some pos =>
    have hle := stringFind_le hpos
    show name.length - (pos + 1) < name.length - lastPos
    omega

/-- `mdns_string_make`, with NULL for `string_table`. -/
def stringMake (buffer : List UInt8) (capacity data : Nat) (name : List UInt8) :
    Option (Option (Nat × List UInt8)) := do
  let last ← name.getLast?
  makeLoop capacity (if last = 46 then name.dropLast else name) buffer data 0

/-- `struct mdns_header_t` of a query. -/
def queryHeader (queryId : Nat) : List UInt8 :=
  be 2 queryId ++ be 2 0 ++ be 2 1 ++ be 2 0 ++ be 2 0 ++ be 2 0

/-- `mdns_query_send` up to `mdns_multicast_send`: -1, or what is sent. `mdnsPort` says
that the socket is bound to `MDNS_PORT`. -/
def querySend (type : Nat) (name buffer : List UInt8) (capacity queryId : Nat)
    (mdnsPort : Bool) : Option (Option (List UInt8)) := do
  if capacity < 17 + name.length then
    return none
  let rclass := if mdnsPort then 1 else 0x8001
  let buffer ← write buffer 0 (queryHeader queryId)
  match ← stringMake buffer capacity 12 name with
  | none => return none
  | some (data, buffer) =>
      let buffer ← write buffer data (be 2 type)
      let buffer ← write buffer (data + 2) (be 2 rclass)
      return some (buffer.take (data + 4))

/-! ## The name -/

/-- Labels with a dot between each two. -/
def relative : List (List UInt8) → List UInt8
  | [] => []
  | [l] => l
  | l :: ls => l ++ 46 :: relative ls

/-- No label has a dot in it. -/
def Plain (ls : List (List UInt8)) : Prop := ∀ l ∈ ls, (46 : UInt8) ∉ l

instance (ls : List (List UInt8)) : Decidable (Plain ls) :=
  inferInstanceAs (Decidable (∀ l ∈ ls, _))

theorem relative_cons_cons (l l' : List UInt8) (ls : List (List UInt8)) :
    relative (l :: l' :: ls) = l ++ 46 :: relative (l' :: ls) := rfl

theorem dotted_eq_relative {ls : List (List UInt8)} (h : ls ≠ []) :
    dotted ls = relative ls ++ [46] := by
  induction ls with
  | nil => exact absurd rfl h
  | cons l ls ih =>
    cases ls with
    | nil => simp [relative]
    | cons l' ls =>
      rw [dotted_cons, ih (List.cons_ne_nil l' ls), relative_cons_cons]
      simp

theorem stringFind_none {str l : List UInt8} {offset : Nat} (h : str.drop offset = l)
    (hl : (46 : UInt8) ∉ l) : stringFind str 46 offset = none := by
  rw [stringFind, h, List.idxOf?_eq_none_iff.mpr hl]
  rfl

theorem stringFind_dot {str l rest : List UInt8} {offset : Nat}
    (h : str.drop offset = l ++ 46 :: rest) (hl : (46 : UInt8) ∉ l) :
    stringFind str 46 offset = some (offset + l.length) := by
  have hidx : (l ++ 46 :: rest).idxOf? (46 : UInt8) = some l.length := by
    clear h
    induction l with
    | nil => rfl
    | cons b l ih =>
      simp only [List.mem_cons, not_or] at hl
      rw [List.cons_append, List.idxOf?_cons, if_neg (by simpa using Ne.symm hl.1), ih hl.2]
      rfl
  rw [stringFind, h, hidx]
  rfl

/-! ## Making a string -/

variable {capacity : Nat} {name buffer : List UInt8}

theorem encode_cons (l : List UInt8) (ls : List (List UInt8)) :
    encode (l :: ls) = counted l ++ encode ls := by
  rw [encode, packed_cons, List.append_assoc, encode]

/-- One label: it is written where there is room for it and one more byte. -/
theorem makeLoop_label {l : List UInt8} {data lastPos : Nat}
    (hlast : lastPos < name.length) (hcap : capacity ≤ buffer.length)
    (hsub : (stringFind name 46 lastPos).getD name.length - lastPos = l.length)
    (hl : (name.drop lastPos).take l.length = l) :
    makeLoop capacity name buffer data lastPos =
      if capacity - data ≤ l.length + 1 then some none
      else makeLoop capacity name (overwrite buffer data (counted l)) (data + l.length + 1)
        ((stringFind name 46 lastPos).elim name.length (· + 1)) := by
  conv_lhs => unfold makeLoop
  rw [if_pos hlast]
  simp only [hsub, hl]
  by_cases hfull : capacity - data ≤ l.length + 1
  · rw [if_pos hfull, if_pos hfull]
    rfl
  · have hlen : (overwrite buffer data [UInt8.ofNat l.length]).length = buffer.length :=
      overwrite_length ..
    have hone : ([UInt8.ofNat l.length] : List UInt8).length = 1 := rfl
    have hboth := overwrite_overwrite buffer data [UInt8.ofNat l.length] l
      (by rw [hone]; omega)
    rw [if_neg hfull, if_neg hfull, write_eq (by rw [hone]; omega)]
    simp only [Option.bind_eq_bind, Option.bind_some]
    rw [write_eq (by rw [hlen]; omega)]
    simp only [Option.bind_some]
    rw [← hone, hboth]
    rfl

/-- **The loop** writes the labels that are left, if there is room for them. -/
theorem makeLoop_eq {ls : List (List UInt8)} (hplain : Plain ls) (hne : ∀ l ∈ ls, l ≠ [])
    (data : Nat) {lastPos : Nat} (hname : name.drop lastPos = relative ls)
    (hcap : capacity ≤ buffer.length) :
    makeLoop capacity name buffer data lastPos =
      some (if data + (encode ls).length ≤ capacity then
        some (data + (encode ls).length, overwrite buffer data (encode ls)) else none) := by
  induction ls generalizing buffer data lastPos with
  | nil =>
    unfold makeLoop
    rw [if_neg (Nat.not_lt.mpr (List.drop_eq_nil_iff.mp hname))]
    have hlen : (encode []).length = 1 := rfl
    rw [hlen]
    by_cases hfit : data + 1 ≤ capacity
    · have hroom : ¬ capacity - data = 0 := by omega
      rw [if_pos hfit]
      simp only [hroom, if_false]
      rw [write_eq (by simp; omega)]
      rfl
    · have hroom : capacity - data = 0 := by omega
      rw [if_neg hfit]
      simp only [hroom, if_true]
      rfl
  | cons l ls ih =>
    have hl : (46 : UInt8) ∉ l := hplain l (List.mem_cons_self ..)
    have hpos := List.length_pos_iff.mpr (hne l (List.mem_cons_self ..))
    have hlen := congrArg List.length hname
    rw [List.length_drop] at hlen
    have henc : (encode (l :: ls)).length = l.length + 1 + (encode ls).length := by
      rw [encode_cons, List.length_append, counted_length]
    have hmin : 1 ≤ (encode ls).length := by simp [encode]
    -- both shapes of what is left go on behind the label in the same way
    have hstep : ∀ next, lastPos < name.length →
        (stringFind name 46 lastPos).getD name.length - lastPos = l.length →
        (name.drop lastPos).take l.length = l →
        (stringFind name 46 lastPos).elim name.length (· + 1) = next →
        name.drop next = relative ls →
        makeLoop capacity name buffer data lastPos =
          some (if data + (encode (l :: ls)).length ≤ capacity then
            some (data + (encode (l :: ls)).length, overwrite buffer data (encode (l :: ls)))
          else none) := by
      intro next hlast hsub htake hnext hdrop
      rw [makeLoop_label hlast hcap hsub htake, hnext, henc]
      by_cases hfull : capacity - data ≤ l.length + 1
      · rw [if_pos hfull, if_neg (by omega)]
      · rw [if_neg hfull, ih (fun l' h' => hplain l' (List.mem_cons_of_mem _ h'))
          (fun l' h' => hne l' (List.mem_cons_of_mem _ h')) _ hdrop (by rwa [overwrite_length])]
        have hassoc : data + l.length + 1 + (encode ls).length =
            data + (l.length + 1 + (encode ls).length) := by omega
        rw [hassoc]
        by_cases hfit : data + (l.length + 1 + (encode ls).length) ≤ capacity
        · have hboth := overwrite_overwrite buffer data (counted l) (encode ls)
            (by rw [counted_length]; omega)
          rw [counted_length, ← Nat.add_assoc] at hboth
          rw [if_pos hfit, if_pos hfit, hboth, encode_cons]
        · rw [if_neg hfit, if_neg hfit]
    cases ls with
    | nil =>
      have hjoin : name.drop lastPos = l := hname
      have hfind := stringFind_none hjoin hl
      have hwhole : name.length - lastPos = l.length := hlen
      refine hstep name.length (by omega) (by rw [hfind]; exact hwhole) ?_ (by rw [hfind]; rfl)
        (List.drop_length ..)
      rw [hjoin, List.take_length]
    | cons l' ls =>
      rw [relative_cons_cons] at hname
      have hfind := stringFind_dot hname hl
      rw [relative_cons_cons, List.length_append] at hlen
      refine hstep (lastPos + l.length + 1) (by omega) (by rw [hfind]; simp) ?_
        (by rw [hfind]; rfl) ?_
      · rw [hname, List.take_left]
      · rw [Nat.add_assoc, ← List.drop_drop, hname]
        show (l ++ ([46] ++ relative (l' :: ls))).drop (l.length + 1) = _
        rw [← List.append_assoc]
        exact List.drop_left' (by simp)

/-! ## The query -/

/-- Labels that can be written and read again. -/
structure Readable (ls : List (List UInt8)) : Prop where
  fit : Fit ls
  plain : Plain ls
  some : ls ≠ []
  few : ls.length ≤ maxSubstrings

/-- What a query consists of. -/
def queryPacket (type : Nat) (ls : List (List UInt8)) (queryId : Nat) (mdnsPort : Bool) :
    List UInt8 :=
  queryHeader queryId ++ encode ls ++ be 2 type ++ be 2 (if mdnsPort then 1 else 0x8001)

theorem queryHeader_length (queryId : Nat) : (queryHeader queryId).length = 12 := by
  simp [queryHeader]

theorem queryPacket_length (type : Nat) (ls : List (List UInt8)) (queryId : Nat)
    (mdnsPort : Bool) : (queryPacket type ls queryId mdnsPort).length = (encode ls).length + 16 := by
  simp only [queryPacket, List.length_append, queryHeader_length, be_length]
  omega

theorem relative_length {ls : List (List UInt8)} (h : ls ≠ []) :
    (encode ls).length = (relative ls).length + 2 := by
  have hdot := congrArg List.length (dotted_eq_relative h)
  rw [List.length_append, List.length_singleton] at hdot
  rw [encode, List.length_append, packed_length, hdot, List.length_singleton]

theorem relative_getLast? {ls : List (List UInt8)} (hr : Readable ls) :
    ∃ b, (relative ls).getLast? = some b ∧ b ≠ 46 := by
  have hlabel : ∀ l : List UInt8, l ≠ [] → (46 : UInt8) ∉ l →
      ∃ b, l.getLast? = some b ∧ b ≠ 46 := fun l hne hl =>
    ⟨l.getLast hne, List.getLast?_eq_some_getLast hne,
      fun h => hl (h ▸ List.getLast_mem hne)⟩
  obtain ⟨hfit, hplain, hsome, -⟩ := hr
  induction ls with
  | nil => exact absurd rfl hsome
  | cons l ls ih =>
    cases ls with
    | nil => exact hlabel l (hfit l (List.mem_cons_self ..)).1 (hplain l (List.mem_cons_self ..))
    | cons l' ls =>
      obtain ⟨b, hb, hne⟩ := ih (fun m hm => hfit m (List.mem_cons_of_mem _ hm))
        (fun m hm => hplain m (List.mem_cons_of_mem _ hm)) (List.cons_ne_nil l' ls)
      refine ⟨b, ?_, hne⟩
      rw [relative_cons_cons, ← List.singleton_append, ← List.append_assoc, List.getLast?_append, hb]
      rfl

/-- A dot at the end of the name makes no difference. -/
theorem stringMake_eq {ls : List (List UInt8)} (hr : Readable ls)
    (hname : name = relative ls ∨ name = dotted ls) (data : Nat) (hcap : capacity ≤ buffer.length) :
    stringMake buffer capacity data name =
      some (if data + (encode ls).length ≤ capacity then
        some (data + (encode ls).length, overwrite buffer data (encode ls)) else none) := by
  have hloop := makeLoop_eq hr.plain (fun l hl => (hr.fit l hl).1) data
    (show (relative ls).drop 0 = relative ls from List.drop_zero) hcap
  rw [← hloop, stringMake]
  rcases hname with rfl | rfl
  · obtain ⟨b, hb, hne⟩ := relative_getLast? hr
    simp only [hb, Option.bind_eq_bind, Option.bind_some, if_neg hne]
  · rw [dotted_eq_relative hr.some]
    simp

/-- **`mdns_query_send`** sends the query when the buffer has room for it. With the last
byte of the room that it asks for it writes one byte too many, unless the name ends in a
dot. -/
theorem querySend_eq {ls : List (List UInt8)} (hr : Readable ls)
    (hname : name = relative ls ∨ name = dotted ls) (type queryId : Nat) (mdnsPort : Bool) :
    querySend type name buffer buffer.length queryId mdnsPort =
      if buffer.length < 17 + name.length then some none
      else if name = relative ls ∧ buffer.length = 17 + name.length then none
      else some (some (queryPacket type ls queryId mdnsPort)) := by
  have henc := relative_length hr.some
  have hdot := congrArg List.length (dotted_eq_relative hr.some)
  rw [List.length_append, List.length_singleton] at hdot
  unfold querySend
  by_cases hsmall : buffer.length < 17 + name.length
  · rw [if_pos hsmall, if_pos hsmall]
    rfl
  · have hlen : (relative ls).length ≤ name.length := by
      rcases hname with rfl | rfl <;> omega
    have hhead := queryHeader_length queryId
    have htwo : ∀ n, (be 2 n).length = 2 := be_length 2
    have hbody : (queryHeader queryId ++ encode ls).length = 12 + (encode ls).length := by
      rw [List.length_append, hhead]
    have hbody' : (queryHeader queryId ++ encode ls ++ be 2 type).length =
        12 + (encode ls).length + 2 := by rw [List.length_append, hbody, htwo]
    have hmake := overwrite_overwrite buffer 0 (queryHeader queryId) (encode ls)
      (by rw [hhead]; omega)
    rw [hhead, Nat.zero_add] at hmake
    rw [if_neg hsmall, if_neg hsmall, write_eq (by rw [hhead]; omega)]
    simp only [Option.bind_eq_bind, Option.bind_some]
    rw [stringMake_eq hr hname 12 (by rw [overwrite_length]), if_pos (by omega), hmake]
    simp only [Option.bind_some]
    rw [write_overwrite hbody.symm (by rw [htwo]; omega)]
    simp only [Option.bind_some]
    by_cases hover : name = relative ls ∧ buffer.length = 17 + name.length
    · obtain ⟨rfl, hover⟩ := hover
      rw [write, if_neg (by rw [htwo, overwrite_length]; omega), if_pos ⟨rfl, hover⟩]
      rfl
    · have hroom : 12 + (encode ls).length + 4 ≤ buffer.length := by
        rcases hname with rfl | rfl
        · have hmore : buffer.length ≠ 17 + (relative ls).length := fun h => hover ⟨rfl, h⟩
          omega
        · omega
      have hsum : 12 + (encode ls).length + 4 = (encode ls).length + 16 := by omega
      have htake := overwrite_take buffer 0 (queryPacket type ls queryId mdnsPort)
        (by rw [queryPacket_length]; omega)
      rw [Nat.zero_add, queryPacket_length] at htake
      rw [if_neg hover, write_overwrite hbody'.symm (by rw [htwo]; omega)]
      simp only [Option.bind_some]
      rw [hsum]
      exact congrArg (fun p => some (some p)) htake

/-- The name in a query. -/
theorem named_queryPacket {ls : List (List UInt8)} (hr : Readable ls) (type queryId : Nat)
    (mdnsPort : Bool) :
    NamedAt (queryPacket type ls queryId mdnsPort) 12 ls ((encode ls).length + 12) := by
  have hdrop : (queryPacket type ls queryId mdnsPort).drop 12 =
      encode ls ++ (be 2 type ++ be 2 (if mdnsPort then 1 else 0x8001)) := by
    rw [queryPacket, List.append_assoc, List.append_assoc]
    exact List.drop_left' (queryHeader_length queryId)
  obtain ⟨hspells, hends⟩ := spells_encode 16 hr.fit hdrop
  rw [Nat.add_comm 12] at hends
  exact ⟨hspells, hr.few, hends⟩

/-- **The name of a query can be read again.** For a name with or without its last dot,
`mdns_query_send` has too little room, or writes one byte too many, or sends a query from
which whoever receives it reads that name and ends before the type. -/
theorem querySend_extract {ls : List (List UInt8)} (hr : Readable ls)
    (hname : name = relative ls ∨ name = dotted ls) (type queryId : Nat) (mdnsPort : Bool) :
    (buffer.length < 17 + name.length ∧
      querySend type name buffer buffer.length queryId mdnsPort = some none) ∨
    (name = relative ls ∧ buffer.length = 17 + name.length ∧
      querySend type name buffer buffer.length queryId mdnsPort = none) ∨
    ∃ packet, querySend type name buffer buffer.length queryId mdnsPort = some (some packet) ∧
      ∀ rest, (∀ room, stringExtract (packet ++ rest) packet.length 12 room =
          some ((dotted ls).take room, packet.length - 4)) ∧
        stringSkip (packet ++ rest) packet.length 12 = some (some (packet.length - 4)) := by
  have hsend : querySend type name buffer buffer.length queryId mdnsPort = _ :=
    querySend_eq hr hname type queryId mdnsPort
  by_cases hsmall : buffer.length < 17 + name.length
  · rw [if_pos hsmall] at hsend
    exact .inl ⟨hsmall, hsend⟩
  rw [if_neg hsmall] at hsend
  by_cases hover : name = relative ls ∧ buffer.length = 17 + name.length
  · rw [if_pos hover] at hsend
    exact .inr (.inl ⟨hover.1, hover.2, hsend⟩)
  rw [if_neg hover] at hsend
  refine .inr (.inr ⟨queryPacket type ls queryId mdnsPort, hsend, fun rest => ?_⟩)
  have hend : (queryPacket type ls queryId mdnsPort).length - 4 = (encode ls).length + 12 := by
    rw [queryPacket_length]
    rfl
  have hnamed := named_queryPacket hr type queryId mdnsPort
  have htake : (queryPacket type ls queryId mdnsPort ++ rest).take
      (queryPacket type ls queryId mdnsPort).length = queryPacket type ls queryId mdnsPort :=
    List.take_left
  rw [← htake] at hnamed
  have hle : (queryPacket type ls queryId mdnsPort).length ≤
      (queryPacket type ls queryId mdnsPort ++ rest).length := by simp
  rw [hend]
  exact ⟨stringExtract_of_named hle hnamed, stringSkip_of_named hle hnamed⟩

/-- The labels of `DROIDCAM_SERVICE_NAME`. -/
def serviceLabels : List (List UInt8) :=
  [CString.ascii "_droidcamobs", CString.ascii "_tcp", CString.ascii "local"]

theorem readable_serviceLabels : Readable serviceLabels :=
  ⟨by decide, by decide, by decide, by decide⟩

/-- The query of `MDNS::DoReload`, in a buffer of its size. -/
theorem querySend_extract_service :
    ∃ packet, querySend 255 (dotted serviceLabels) (List.replicate 2048 0) 2048 3 false =
        some (some packet) ∧
      ∀ rest, stringSkip (packet ++ rest) packet.length 12 = some (some (packet.length - 4)) := by
  have hlen : (List.replicate 2048 (0 : UInt8)).length = 2048 := List.length_replicate
  have hname : (dotted serviceLabels).length = 24 := by decide +kernel
  have hsend := @querySend_extract _ (List.replicate 2048 0) _ readable_serviceLabels (.inr rfl)
    255 3 false
  rw [hlen, hname] at hsend
  obtain ⟨hsmall, -⟩ | ⟨-, hover, -⟩ | ⟨packet, hpacket, hread⟩ := hsend
  · exact absurd hsmall (by decide)
  · exact absurd hover (by decide)
  · exact ⟨packet, hpacket, fun rest => (hread rest).2⟩

end DroidcamWhip
