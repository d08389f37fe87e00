import DroidcamWhip.MdnsQuery
import DroidcamWhip.QueryCallback

/-!
The records of a message: `mdns_records_parse` and `mdns_query_recv`, which hand them to a
callback. A result `none` stands for a read outside of the buffer.
-/

namespace DroidcamWhip

open Bytes Names

/-! ## The code -/

/-- What a callback is told about a record. -/
structure Entry where
  entryType : EntryType
  queryId : UInt16
  rtype : UInt16
  rclass : UInt16
  ttl : UInt32
  nameOffset : Nat
  nameLength : Nat
  recordOffset : Nat
  recordLength : Nat
  deriving DecidableEq

/-- The fields behind the name of a record, which ends before `offset`. -/
def readEntry (buffer : List UInt8) (type : EntryType) (queryId : UInt16)
    (nameOffset offset : Nat) : Option Entry := do
  let rtype ← ntohs buffer offset
  let rclass ← ntohs buffer (offset + 2)
  let ttl ← ntohl buffer (offset + 4)
  let length ← ntohs buffer (offset + 8)
  return { entryType := type
           queryId := queryId
           rtype := UInt16.ofNat rtype
           rclass := UInt16.ofNat rclass
           ttl := UInt32.ofNat ttl
           nameOffset := nameOffset
           nameLength := offset - nameOffset
           recordOffset := offset + 10
           recordLength := length }

variable {σ : Type}

/-- `mdns_records_parse` for the number of records that are left; a callback returns
whether to stop and what it has changed. -/
def recordsParse (buffer : List UInt8) (size : Nat) (callback : σ → Entry → Option (Int × σ))
    (type : EntryType) (queryId : UInt16) : Nat → Nat → Nat → σ → Option (Nat × Nat × σ)
  | 0, parsed, offset, s => some (parsed, offset, s)
  | records + 1, parsed, nameOffset, s => do
      let offset := (← stringSkip buffer size nameOffset).getD nameOffset
      if offset + 10 > size then
        return (parsed, offset, s)
      let e ← readEntry buffer type queryId nameOffset offset
      let offset := offset + 10
      if e.recordLength ≤ size - offset then
        let (stop, s) ← callback s e
        if stop ≠ 0 then
          return (parsed + 1, offset, s)
        recordsParse buffer size callback type queryId records (parsed + 1)
          (offset + e.recordLength) s
      else
        recordsParse buffer size callback type queryId records parsed (offset + e.recordLength) s

/-- The loop over the questions of a message. -/
def skipQuestions (buffer : List UInt8) (size : Nat) : Nat → Nat → Option (Option Nat)
  | 0, ofs => some (some ofs)
  | questions + 1, ofs => do
      match ← stringSkip buffer size ofs with
      | none => return none
      | some ofs => skipQuestions buffer size questions (ofs + 4)

/-- The sections of a message: `mdns_query_recv` behind the questions. -/
def parseSections (buffer : List UInt8) (size : Nat) (callback : σ → Entry → Option (Int × σ))
    (queryId : UInt16) (answerRrs authorityRrs additionalRrs offset : Nat) (s : σ) :
    Option (Nat × σ) := do
  let (answers, offset, s) ←
    recordsParse buffer size callback .answer queryId answerRrs 0 offset s
  if answers ≠ answerRrs then
    return (answers, s)
  let (authority, offset, s) ←
    recordsParse buffer size callback .authority queryId authorityRrs 0 offset s
  if authority ≠ authorityRrs then
    return (answers + authority, s)
  let (additional, _, s) ←
    recordsParse buffer size callback .additional queryId additionalRrs 0 offset s
  return (answers + authority + additional, s)

/-- `mdns_query_recv` after `recvfrom`, which has put `ret` bytes into the buffer. -/
def queryRecv (buffer : List UInt8) (ret : Int) (callback : σ → Entry → Option (Int × σ))
    (s : σ) (onlyQueryId : Int) : Option (Nat × σ) := do
  if ret ≤ 0 then
    return (0, s)
  let size := ret.toNat
  let queryId ← ntohs buffer 0
  let _flags ← ntohs buffer 2
  let questions ← ntohs buffer 4
  let answerRrs ← ntohs buffer 6
  let authorityRrs ← ntohs buffer 8
  let additionalRrs ← ntohs buffer 10
  if onlyQueryId > 0 ∧ (queryId : Int) ≠ onlyQueryId then
    return (0, s)
  if questions > 1 then
    return (0, s)
  match ← skipQuestions buffer size questions 12 with
  | none => return (0, s)
  | some offset =>
      parseSections buffer size callback (UInt16.ofNat queryId) answerRrs authorityRrs
        additionalRrs offset s

/-- A callback that never stops. -/
def always (f : σ → Entry → Option σ) (s : σ) (e : Entry) : Option (Int × σ) :=
  (f s e).map fun t => (0, t)

/-! ## Any packet -/

/-- Records in order, each behind the one before and inside of `size` bytes. -/
inductive Chain (size : Nat) : Nat → List Entry → Prop
  | nil {i : Nat} : Chain size i []
  | cons {i : Nat} {e : Entry} {es : List Entry} :
      i ≤ e.nameOffset → e.nameOffset + e.nameLength + 10 = e.recordOffset →
      e.recordOffset + e.recordLength ≤ size →
      Chain size (e.recordOffset + e.recordLength) es → Chain size i (e :: es)

namespace Chain

variable {size i j : Nat} {es fs : List Entry}

theorem mono (h : Chain size j es) (hij : i ≤ j) : Chain size i es := by
  cases h with
  | nil => exact .nil
  | cons hi hname hin hrest => exact .cons (hij.trans hi) hname hin hrest

/-- Every record takes ten bytes at least. -/
theorem length_le (h : Chain size i es) : es = [] ∨ 10 * es.length + i ≤ size := by
  induction h with
  | nil => exact .inl rfl
  | cons hi hname hin _ ih =>
    refine .inr ?_
    rw [List.length_cons]
    rcases ih with rfl | ih
    · simp only [List.length_nil]
      omega
    · omega

theorem mem (h : Chain size i es) {e : Entry} (he : e ∈ es) :
    i ≤ e.nameOffset ∧ e.nameOffset + e.nameLength + 10 = e.recordOffset ∧
      e.recordOffset + e.recordLength ≤ size := by
  induction h with
  | nil => cases he
  | cons hi hname hin _ ih =>
    rcases List.mem_cons.mp he with rfl | he
    · exact ⟨hi, hname, hin⟩
    · obtain ⟨hle, hrest⟩ := ih he
      exact ⟨by omega, hrest⟩

theorem append (h : Chain size i es) (hf : Chain size j fs)
    (hj : ∀ e ∈ es, e.recordOffset + e.recordLength ≤ j) (hij : i ≤ j) :
    Chain size i (es ++ fs) := by
  induction h with
  | nil => exact hf.mono hij
  | cons hi hname hin _ ih =>
    refine .cons hi hname hin (ih (fun e he => hj e (List.mem_cons_of_mem _ he)) ?_)
    exact hj _ (List.mem_cons_self ..)

end Chain

variable {buffer : List UInt8} {size : Nat}

theorem ntohs_isSome {i : Nat} (h : i + 2 ≤ buffer.length) : ∃ n, ntohs buffer i = some n :=
  ⟨_, by rw [ntohs, slice_eq h]; rfl⟩

theorem ntohl_isSome {i : Nat} (h : i + 4 ≤ buffer.length) : ∃ n, ntohl buffer i = some n :=
  ⟨_, by rw [ntohl, slice_eq h]; rfl⟩

theorem readEntry_isSome (type : EntryType) (queryId : UInt16) (nameOffset : Nat) {offset : Nat}
    (h : offset + 10 ≤ buffer.length) :
    ∃ e, readEntry buffer type queryId nameOffset offset = some e ∧ e.queryId = queryId ∧
      e.nameOffset = nameOffset ∧ e.nameLength = offset - nameOffset ∧
      e.recordOffset = offset + 10 := by
  obtain ⟨rtype, hrtype⟩ := ntohs_isSome (show offset + 2 ≤ buffer.length by omega)
  obtain ⟨rclass, hrclass⟩ := ntohs_isSome (show offset + 2 + 2 ≤ buffer.length by omega)
  obtain ⟨ttl, httl⟩ := ntohl_isSome (show offset + 4 + 4 ≤ buffer.length by omega)
  obtain ⟨length, hlength⟩ := ntohs_isSome (show offset + 8 + 2 ≤ buffer.length by omega)
  simp only [readEntry, hrtype, hrclass, httl, hlength, Option.bind_eq_bind, Option.bind_some]
  exact ⟨_, rfl, rfl, rfl, rfl, rfl⟩

/-- The next record: there is no room for one, or its fields are read, and it is handed on
if it is inside the packet. -/
theorem recordsParse_step (h : size ≤ buffer.length) (type : EntryType) (queryId : UInt16)
    (records i : Nat) :
    (∃ o, i ≤ o ∧ ∀ {σ : Type} (f : σ → Entry → Option σ) parsed s,
      recordsParse buffer size (always f) type queryId (records + 1) parsed i s =
        some (parsed, o, s)) ∨
    ∃ o e, i ≤ o ∧ o + 10 ≤ size ∧ readEntry buffer type queryId i o = some e ∧
      ∀ {σ : Type} (f : σ → Entry → Option σ) parsed s,
        recordsParse buffer size (always f) type queryId (records + 1) parsed i s =
          if e.recordLength ≤ size - (o + 10) then
            (f s e).bind (recordsParse buffer size (always f) type queryId records (parsed + 1)
              (o + 10 + e.recordLength))
          else recordsParse buffer size (always f) type queryId records parsed
            (o + 10 + e.recordLength) s := by
  obtain ⟨r, hskip, hr⟩ : ∃ r, stringSkip buffer size i = some r ∧ i ≤ r.getD i := by
    obtain ⟨hnone, -⟩ | ⟨e, -, hlt, -, hsome, -⟩ := stringSkip_spec h i 0
    · exact ⟨none, hnone, le_rfl⟩
    · exact ⟨some e, hsome, hlt.le⟩
  by_cases hroom : r.getD i + 10 > size
  · refine .inl ⟨r.getD i, hr, fun f parsed s => ?_⟩
    rw [recordsParse, hskip]
    simp [hroom]
  · obtain ⟨e, he, -⟩ := readEntry_isSome type queryId i
      (show r.getD i + 10 ≤ buffer.length by omega)
    refine .inr ⟨r.getD i, e, hr, by omega, he, fun f parsed s => ?_⟩
    rw [recordsParse, hskip]
    simp only [Option.bind_eq_bind, Option.bind_some, hroom, if_false, he]
    by_cases hin : e.recordLength ≤ size - (r.getD i + 10)
    · rw [if_pos hin, if_pos hin, always]
      cases f s e with
      | none => rfl
      | some t => rfl
    · rw [if_neg hin, if_neg hin]

/-- **The records of any packet** that the callback gets lie in it one behind the other. -/
theorem recordsParse_spec (h : size ≤ buffer.length) (type : EntryType) (queryId : UInt16)
    (records i : Nat) :
    ∃ es j, Chain size i es ∧ (∀ e ∈ es, e.recordOffset + e.recordLength ≤ j) ∧ i ≤ j ∧
      (∀ e ∈ es, e.queryId = queryId) ∧
      ∀ {σ : Type} (f : σ → Entry → Option σ) parsed s,
        recordsParse buffer size (always f) type queryId records parsed i s =
          (es.foldlM f s).map fun t => (parsed + es.length, j, t) := by
  induction records generalizing i with
  | zero =>
    exact ⟨[], i, .nil, by simp, le_rfl, by simp, fun f parsed s => rfl⟩
  | succ records ih =>
    obtain ⟨o, ho, hstop⟩ | ⟨o, e, ho, hroom, he, hnext⟩ :=
      recordsParse_step h type queryId records i
    · exact ⟨[], o, .nil, by simp, ho, by simp, hstop⟩
    · obtain ⟨es, j, hchain, hj, hij, hids, hrun⟩ := ih (o + 10 + e.recordLength)
      by_cases hin : e.recordLength ≤ size - (o + 10)
      · obtain ⟨e', he', hid, hname, hnamelen, hrec⟩ :=
          readEntry_isSome type queryId i (show o + 10 ≤ buffer.length by omega)
        cases Option.some_inj.mp (he.symm.trans he')
        refine ⟨e :: es, j, .cons hname.ge (by omega) (by omega) ?_, ?_, by omega, ?_,
          fun f parsed s => ?_⟩
        · rwa [hrec]
        · intro d hd
          rcases List.mem_cons.mp hd with rfl | hd
          · omega
          · exact hj d hd
        · intro d hd
          rcases List.mem_cons.mp hd with rfl | hd
          · exact hid
          · exact hids d hd
        · rw [hnext, if_pos hin, List.foldlM_cons]
          cases f s e with
          | none => rfl
          | some t =>
            simp only [Option.bind_eq_bind, Option.bind_some, hrun, List.length_cons]
            rw [Nat.add_assoc, Nat.add_comm 1]
      · refine ⟨es, j, hchain.mono (by omega), hj, by omega, hids, fun f parsed s => ?_⟩
        rw [hnext, if_neg hin, hrun]

/-- What the loop over the questions leaves. -/
theorem skipQuestions_spec (h : size ≤ buffer.length) (questions ofs : Nat) :
    ∃ r, skipQuestions buffer size questions ofs = some r ∧ ∀ o, r = some o → ofs ≤ o := by
  induction questions generalizing ofs with
  | zero => exact ⟨some ofs, rfl, fun o ho => (Option.some_inj.mp ho).le⟩
  | succ questions ih =>
    rw [skipQuestions]
    obtain ⟨hnone, -⟩ | ⟨e, -, hlt, -, hsome, -⟩ := stringSkip_spec h ofs 0
    · exact ⟨none, by rw [hnone]; rfl, fun o ho => absurd ho (by simp)⟩
    · obtain ⟨r, hr, hle⟩ := ih (e + 4)
      refine ⟨r, by rw [hsome]; exact hr, fun o ho => ?_⟩
      have := hle o ho
      omega

/-- The records of the sections, up to the first section that is not complete. -/
def handedOn (answerRrs authorityRrs : Nat) (es fs gs : List Entry) : List Entry :=
  if es.length ≠ answerRrs then es else if fs.length ≠ authorityRrs then es ++ fs
  else es ++ fs ++ gs

/-- The callback gets the records of the sections one after the other. -/
theorem parseSections_eq {f : σ → Entry → Option σ} {queryId : UInt16}
    {answerRrs authorityRrs additionalRrs offset j k l : Nat} {es fs gs : List Entry}
    (hes : ∀ parsed s, recordsParse buffer size (always f) .answer queryId answerRrs parsed offset s =
      (es.foldlM f s).map fun t => (parsed + es.length, j, t))
    (hfs : ∀ parsed s, recordsParse buffer size (always f) .authority queryId authorityRrs parsed j
      s = (fs.foldlM f s).map fun t => (parsed + fs.length, k, t))
    (hgs : ∀ parsed s, recordsParse buffer size (always f) .additional queryId additionalRrs parsed
      k s = (gs.foldlM f s).map fun t => (parsed + gs.length, l, t)) (s : σ) :
    parseSections buffer size (always f) queryId answerRrs authorityRrs additionalRrs offset s =
      ((handedOn answerRrs authorityRrs es fs gs).foldlM f s).map fun t =>
        ((handedOn answerRrs authorityRrs es fs gs).length, t) := by
  unfold parseSections handedOn
  rw [hes]
  by_cases hanswers : es.length = answerRrs
  · by_cases hauthorities : fs.length = authorityRrs
    · rw [if_neg (not_not.mpr hanswers), if_neg (not_not.mpr hauthorities), List.foldlM_append,
        List.foldlM_append]
      cases es.foldlM f s with
      | none => rfl
      | some t =>
        simp only [Option.map_some, Option.bind_eq_bind, Option.bind_some, Nat.zero_add, hanswers,
          ne_eq, not_true_eq_false, if_false, hfs]
        cases fs.foldlM f t with
        | none => rfl
        | some u =>
          simp only [Option.map_some, Option.bind_some, Nat.zero_add, hauthorities,
            not_true_eq_false, if_false, hgs]
          cases gs.foldlM f u with
          | none => rfl
          | some v => simp [hanswers, hauthorities, Nat.add_assoc]
    · rw [if_neg (not_not.mpr hanswers), if_pos hauthorities, List.foldlM_append]
      cases es.foldlM f s with
      | none => rfl
      | some t =>
        simp only [Option.map_some, Option.bind_eq_bind, Option.bind_some, Nat.zero_add, hanswers,
          ne_eq, not_true_eq_false, if_false, hfs]
        cases fs.foldlM f t with
        | none => rfl
        | some u => simp [hanswers, hauthorities]
  · rw [if_pos hanswers]
    cases es.foldlM f s with
    | none => rfl
    | some t => simp [hanswers]

theorem ntohs_lt {i n : Nat} (h : ntohs buffer i = some n) : n < 65536 := by
  obtain ⟨xs, hxs, rfl⟩ := Option.map_eq_some_iff.mp h
  have hlt := value_lt xs
  rwa [slice_length hxs] at hlt

/-- **Whatever a packet says**, `mdns_query_recv` hands on records that lie in it behind the
header, one behind the other, and counts them; so there are never more than its bytes
allow, and none of a response to another query. -/
theorem queryRecv_spec {ret : Int} (h : ret.toNat ≤ buffer.length) (hhead : 12 ≤ buffer.length)
    (onlyQueryId : Int) :
    ∃ es, Chain ret.toNat 12 es ∧ 10 * es.length ≤ ret.toNat ∧
      (0 < onlyQueryId → ∀ e ∈ es, (e.queryId.toNat : Int) = onlyQueryId) ∧
      ∀ {σ : Type} (f : σ → Entry → Option σ) s,
        queryRecv buffer ret (always f) s onlyQueryId =
          (es.foldlM f s).map fun t => (es.length, t) := by
  suffices hall : ∃ es, Chain ret.toNat 12 es ∧
      (0 < onlyQueryId → ∀ e ∈ es, (e.queryId.toNat : Int) = onlyQueryId) ∧
      ∀ {σ : Type} (f : σ → Entry → Option σ) s,
        queryRecv buffer ret (always f) s onlyQueryId =
          (es.foldlM f s).map fun t => (es.length, t) by
    obtain ⟨es, hchain, hids, hrun⟩ := hall
    refine ⟨es, hchain, ?_, hids, hrun⟩
    rcases hchain.length_le with rfl | hlen
    · exact Nat.zero_le _
    · omega
  by_cases hret : ret ≤ 0
  · exact ⟨[], .nil, by simp, fun f s => by simp [queryRecv, hret]⟩
  obtain ⟨queryId, hid⟩ := ntohs_isSome (show 0 + 2 ≤ buffer.length by omega)
  obtain ⟨flags, hflags⟩ := ntohs_isSome (show 2 + 2 ≤ buffer.length by omega)
  obtain ⟨questions, hquestions⟩ := ntohs_isSome (show 4 + 2 ≤ buffer.length by omega)
  obtain ⟨answerRrs, hanswer⟩ := ntohs_isSome (show 6 + 2 ≤ buffer.length by omega)
  obtain ⟨authorityRrs, hauthority⟩ := ntohs_isSome (show 8 + 2 ≤ buffer.length by omega)
  obtain ⟨additionalRrs, hadditional⟩ := ntohs_isSome (show 10 + 2 ≤ buffer.length by omega)
  obtain ⟨r, hskip, hofs⟩ := skipQuestions_spec h questions 12
  unfold queryRecv
  simp only [hret, if_false, hid, hflags, hquestions, hanswer, hauthority, hadditional, hskip,
    Option.bind_eq_bind, Option.bind_some]
  by_cases hother : onlyQueryId > 0 ∧ (queryId : Int) ≠ onlyQueryId
  · exact ⟨[], .nil, by simp, fun f s => by simp [hother]⟩
  by_cases hmany : questions > 1
  · exact ⟨[], .nil, by simp, fun f s => by simp [hother, hmany]⟩
  simp only [hother, hmany, if_false]
  cases r with
  | none => exact ⟨[], .nil, by simp, fun f s => rfl⟩
  | some offset =>
    obtain ⟨es, j, hes, hesj, hj, hesid, hrun⟩ :=
      recordsParse_spec h .answer (UInt16.ofNat queryId) answerRrs offset
    obtain ⟨fs, k, hfs, hfsk, hk, hfsid, hrun'⟩ :=
      recordsParse_spec h .authority (UInt16.ofNat queryId) authorityRrs j
    obtain ⟨gs, l, hgs, -, -, hgsid, hrun''⟩ :=
      recordsParse_spec h .additional (UInt16.ofNat queryId) additionalRrs k
    have hstart := hofs offset rfl
    have hboth := hes.append hfs hesj hj
    have hend : ∀ e ∈ es ++ fs, e.recordOffset + e.recordLength ≤ k := by
      intro e he
      rcases List.mem_append.mp he with he | he
      · exact (hesj e he).trans hk
      · exact hfsk e he
    refine ⟨handedOn answerRrs authorityRrs es fs gs, ?_, fun hpos e he => ?_, fun f s =>
      parseSections_eq (hrun f) (hrun' f) (hrun'' f) s⟩
    · unfold handedOn
      split
      · exact hes.mono hstart
      · split
        · exact hboth.mono hstart
        · exact (hboth.append hgs hend (by omega)).mono hstart
    · have hqid : e.queryId = UInt16.ofNat queryId := by
        have hmem : e ∈ es ++ fs ++ gs := by
          unfold handedOn at he
          split at he
          · exact List.mem_append_left _ (List.mem_append_left _ he)
          · split at he
            · exact List.mem_append_left _ he
            · exact he
        rcases List.mem_append.mp hmem with hmem | hmem
        · rcases List.mem_append.mp hmem with hmem | hmem
          · exact hesid e hmem
          · exact hfsid e hmem
        · exact hgsid e hmem
      have hlt := ntohs_lt hid
      have hsame : (queryId : Int) = onlyQueryId := not_not.mp fun hne => hother ⟨hpos, hne⟩
      rw [hqid, UInt16.toNat_ofNat_of_lt' hlt]
      exact hsame

/-! ## Packets that carry a response -/

/-- A resource record. -/
structure Resource where
  owner : List (List UInt8)
  rtype : UInt16
  rclass : UInt16
  ttl : UInt32
  data : List UInt8
  short : data.length < 65536

namespace Resource

/-- The fields between the owner and the data. -/
def fields (r : Resource) : List UInt8 :=
  be 2 r.rtype.toNat ++ be 2 r.rclass.toNat ++ be 4 r.ttl.toNat ++ be 2 r.data.length

/-- The record stands in the message from `i` on, its owner up to `o`. -/
def LiesAt (r : Resource) (m : List UInt8) (i o : Nat) : Prop :=
  NamedAt m i r.owner o ∧ r.fields ++ r.data <+: m.drop o

/-- What the callback is told about the record there. -/
def entry (r : Resource) (type : EntryType) (queryId : UInt16) (i o : Nat) : Entry :=
  ⟨type, queryId, r.rtype, r.rclass, r.ttl, i, o - i, o + 10, r.data.length⟩

theorem fields_length (r : Resource) : r.fields.length = 10 := by simp [fields]

theorem LiesAt.le {r : Resource} {m : List UInt8} {i o : Nat} (h : r.LiesAt m i o) :
    o + 10 + r.data.length ≤ m.length := by
  have hlen := h.2.length_le
  rw [List.length_append, fields_length, List.length_drop] at hlen
  omega

end Resource

/-- Records of one section, from `i` up to `j`, and what the callback is told about them. -/
inductive Section (m : List UInt8) (type : EntryType) (queryId : UInt16) :
    Nat → List Resource → List Entry → Nat → Prop
  | nil {i : Nat} : Section m type queryId i [] [] i
  | cons {i o j : Nat} {r : Resource} {rs : List Resource} {es : List Entry} :
      r.LiesAt m i o → Section m type queryId (o + 10 + r.data.length) rs es j →
      Section m type queryId i (r :: rs) (r.entry type queryId i o :: es) j

theorem Section.length_eq {m : List UInt8} {type : EntryType} {queryId : UInt16} {i j : Nat}
    {rs : List Resource} {es : List Entry} (h : Section m type queryId i rs es j) :
    es.length = rs.length := by
  induction h with
  | nil => rfl
  | cons _ _ ih => rw [List.length_cons, List.length_cons, ih]

/-- What stands in the packet is read. -/
theorem slice_of_drop {xs t : List UInt8} {o : Nat} (h : size ≤ buffer.length)
    (hle : o + xs.length ≤ size) (ho : (buffer.take size).drop o = xs ++ t) :
    slice buffer o xs.length = some xs := by
  rw [slice_eq (by omega), ← take_drop_take hle, ho, List.take_left]

theorem ntohs_of_drop {t : List UInt8} {o n : Nat} (h : size ≤ buffer.length)
    (hle : o + 2 ≤ size) (ho : (buffer.take size).drop o = be 2 n ++ t) :
    ntohs buffer o = some (n % 65536) := by
  have hslice := slice_of_drop h (by rwa [be_length]) ho
  rw [be_length] at hslice
  rw [ntohs, hslice, Option.map_some, value_be]
  rfl

theorem ntohl_of_drop {t : List UInt8} {o n : Nat} (h : size ≤ buffer.length)
    (hle : o + 4 ≤ size) (ho : (buffer.take size).drop o = be 4 n ++ t) :
    ntohl buffer o = some (n % 4294967296) := by
  have hslice := slice_of_drop h (by rwa [be_length]) ho
  rw [be_length] at hslice
  rw [ntohl, hslice, Option.map_some, value_be]
  rfl

/-- The fields of a record that stands there. -/
theorem readEntry_of_lies (h : size ≤ buffer.length) {r : Resource} {i o : Nat}
    (hr : r.LiesAt (buffer.take size) i o) (type : EntryType) (queryId : UInt16) :
    readEntry buffer type queryId i o = some (r.entry type queryId i o) := by
  have hle := hr.le
  rw [packet_length h] at hle
  obtain ⟨t, ht⟩ := hr.2
  have htype : (buffer.take size).drop o = be 2 r.rtype.toNat ++ (be 2 r.rclass.toNat ++
      (be 4 r.ttl.toNat ++ (be 2 r.data.length ++ (r.data ++ t)))) := by
    rw [← ht, Resource.fields]
    simp only [List.append_assoc]
  have hclass := drop_of_drop htype
  rw [be_length] at hclass
  have httl := drop_of_drop hclass
  rw [be_length, Nat.add_assoc] at httl
  have hlength := drop_of_drop httl
  rw [be_length, Nat.add_assoc] at hlength
  have hrtype := r.rtype.toNat_lt
  have hrclass := r.rclass.toNat_lt
  have hrttl := r.ttl.toNat_lt
  rw [readEntry, ntohs_of_drop h (by omega) htype, ntohs_of_drop h (by omega) hclass,
    ntohl_of_drop h (by omega) httl, ntohs_of_drop h (by omega) hlength,
    Nat.mod_eq_of_lt hrtype, Nat.mod_eq_of_lt hrclass, Nat.mod_eq_of_lt hrttl,
    Nat.mod_eq_of_lt r.short]
  simp only [Option.bind_eq_bind, Option.bind_some, UInt16.ofNat_toNat, UInt32.ofNat_toNat]
  rfl

/-- **A section is handed on record by record.** -/
theorem recordsParse_section (h : size ≤ buffer.length) {type : EntryType} {queryId : UInt16}
    {i j : Nat} {rs : List Resource} {es : List Entry}
    (hs : Section (buffer.take size) type queryId i rs es j) (f : σ → Entry → Option σ)
    (parsed : Nat) (s : σ) :
    recordsParse buffer size (always f) type queryId rs.length parsed i s =
      (es.foldlM f s).map fun t => (parsed + es.length, j, t) := by
  induction hs generalizing parsed s with
  | nil => rfl
  | @cons i o j r rs es hr _ ih =>
    have hle := hr.le
    rw [packet_length h] at hle
    have hroom : ¬ o + 10 > size := by omega
    have hin : (r.entry type queryId i o).recordLength ≤ size - (o + 10) := by
      show r.data.length ≤ _
      omega
    rw [List.length_cons, recordsParse, stringSkip_of_named h hr.1]
    simp only [Option.bind_eq_bind, Option.bind_some, Option.getD_some, hroom, if_false,
      readEntry_of_lies h hr, if_pos hin]
    rw [List.foldlM_cons, always]
    cases f s (r.entry type queryId i o) with
    | none => rfl
    | some t =>
      have hnext : recordsParse buffer size (always f) type queryId rs.length (parsed + 1)
          (o + 10 + (r.entry type queryId i o).recordLength) t = _ := ih (parsed + 1) t
      simp only [Option.map_some, Option.bind_eq_bind, Option.bind_some, ne_eq, not_true_eq_false,
        if_false, hnext, List.length_cons]
      rw [Nat.add_assoc, Nat.add_comm 1]

/-- The packet `m` carries a response with these records; the callback is told `es`. -/
structure Carries (m : List UInt8) (queryId flags : UInt16) (questions start : Nat)
    (answers authority additional : List Resource) (es : List Entry) : Prop where
  header : be 2 queryId.toNat ++ be 2 flags.toNat ++ be 2 questions ++ be 2 answers.length ++
    be 2 authority.length ++ be 2 additional.length <+: m
  question : questions = 0 ∧ start = 12 ∨
    questions = 1 ∧ ∃ ls e, NamedAt m 12 ls e ∧ start = e + 4
  counts : answers.length < 65536 ∧ authority.length < 65536 ∧ additional.length < 65536
  sections : ∃ es₁ es₂ es₃ j k l, Section m .answer queryId start answers es₁ j ∧
    Section m .authority queryId j authority es₂ k ∧
    Section m .additional queryId k additional es₃ l ∧ es = es₁ ++ es₂ ++ es₃

/-- **A response is read as it was written.** For a packet that carries a response to the
query, or with any query accepted, the callback gets exactly its records, in order. -/
theorem queryRecv_carries {ret : Int} (h : ret.toNat ≤ buffer.length) {queryId flags : UInt16}
    {questions start : Nat} {answers authority additional : List Resource} {es : List Entry}
    (hc : Carries (buffer.take ret.toNat) queryId flags questions start answers authority
      additional es)
    {onlyQueryId : Int} (hid : onlyQueryId ≤ 0 ∨ onlyQueryId = queryId.toNat)
    (f : σ → Entry → Option σ) (s : σ) :
    queryRecv buffer ret (always f) s onlyQueryId =
      (es.foldlM f s).map fun t => (es.length, t) := by
  obtain ⟨t, ht⟩ := hc.header
  have hlen := congrArg List.length ht
  rw [packet_length h] at hlen
  simp only [List.length_append, be_length] at hlen
  have hret : ¬ ret ≤ 0 := by omega
  have h0 : (buffer.take ret.toNat).drop 0 = be 2 queryId.toNat ++ (be 2 flags.toNat ++
      (be 2 questions ++ (be 2 answers.length ++ (be 2 authority.length ++
        (be 2 additional.length ++ t))))) := by
    rw [List.drop_zero, ← ht]
    simp only [List.append_assoc]
  have h2 := drop_of_drop h0
  rw [be_length] at h2
  have h4 := drop_of_drop h2
  rw [be_length] at h4
  have h6 := drop_of_drop h4
  rw [be_length] at h6
  have h8 := drop_of_drop h6
  rw [be_length] at h8
  have h10 := drop_of_drop h8
  rw [be_length] at h10
  obtain ⟨hanswers, hauthority, hadditional⟩ := hc.counts
  obtain ⟨es₁, es₂, es₃, j, k, l, hs₁, hs₂, hs₃, rfl⟩ := hc.sections
  have hq : questions ≤ 1 ∧
      skipQuestions buffer ret.toNat questions 12 = some (some start) := by
    obtain ⟨rfl, rfl⟩ | ⟨rfl, ls, e, hn, rfl⟩ := hc.question
    · exact ⟨Nat.zero_le _, rfl⟩
    · exact ⟨le_rfl, by rw [skipQuestions, stringSkip_of_named h hn]; rfl⟩
  have hall : handedOn answers.length authority.length es₁ es₂ es₃ = es₁ ++ es₂ ++ es₃ := by
    rw [handedOn, if_neg (not_not.mpr hs₁.length_eq), if_neg (not_not.mpr hs₂.length_eq)]
  have hother : ¬ (onlyQueryId > 0 ∧ ((queryId.toNat : Nat) : Int) ≠ onlyQueryId) := by omega
  have hqid := queryId.toNat_lt
  unfold queryRecv
  rw [ntohs_of_drop h (by omega) h0, ntohs_of_drop h (by omega) h2,
    ntohs_of_drop h (by omega) h4, ntohs_of_drop h (by omega) h6, ntohs_of_drop h (by omega) h8,
    ntohs_of_drop h (by omega) h10, Nat.mod_eq_of_lt hqid, Nat.mod_eq_of_lt (a := questions)
    (by omega), Nat.mod_eq_of_lt hanswers, Nat.mod_eq_of_lt hauthority,
    Nat.mod_eq_of_lt hadditional]
  simp only [hret, if_false, Option.bind_eq_bind, Option.bind_some, hother,
    Nat.not_lt.mpr hq.1, gt_iff_lt, hq.2, UInt16.ofNat_toNat]
  rw [parseSections_eq (recordsParse_section h hs₁ f) (recordsParse_section h hs₂ f)
    (recordsParse_section h hs₃ f), hall]

end DroidcamWhip
