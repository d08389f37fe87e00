import DroidcamWhip.MdnsParse
import DroidcamWhip.Responses

/-!
A search from the bytes of the responses on: what `query_callback` reads of a packet, and
what `mdns_query_recv` with it makes of the list of devices.
-/

namespace DroidcamWhip

open Bytes Names CString

/-! ## The code -/

instance printableDecidable (key : List UInt8) : Decidable (∀ b ∈ key, (0x20 : UInt8) ≤ b ∧ b ≤ 0x7E) :=
  List.decidableBAll _ _

/-- A pair as `query_callback` gets it, if it has a key. -/
def TxtPair.of (key value : List UInt8) : Option TxtPair :=
  if h : key ≠ [] ∧ ∀ b ∈ key, 0x20 ≤ b ∧ b ≤ 0x7E then some ⟨key, value, h.1, h.2⟩ else none

/-- What `query_callback` reads of the packet for a record. The names are in an array for a
serial, so to take 79 bytes of them changes nothing; the pairs are read here also when no
device is found for them. -/
def readRecord (buffer : List UInt8) (size : Nat) (fromaddr : Option (List UInt8)) (e : Entry) :
    Option MdnsRecord := do
  let target ← (if e.entryType = .answer then
    recordParsePtr buffer size e.recordOffset e.recordLength 79 else some [])
  let owner ← (if e.entryType = .additional then
    (stringExtract buffer size e.nameOffset 79).map Prod.fst else some [])
  let _srv ← (if e.entryType = .additional ∧ e.rtype = srvType then
    recordParseSrv buffer size e.recordOffset e.recordLength 256 else some ⟨0, 0, 0, []⟩)
  let pairs ← (if e.entryType = .additional ∧ e.rtype = txtType then
    recordParseTxt buffer size e.recordOffset e.recordLength 512 else some [])
  return { entryType := e.entryType
           queryId := e.queryId
           rtype := e.rtype
           owner := owner.take 79
           target := target.take 79
           pairs := pairs.filterMap fun p => TxtPair.of p.1 p.2
           fromaddr := fromaddr
           owner_le := List.length_take_le ..
           target_le := List.length_take_le .. }

/-- `query_callback` on a packet. -/
def receive (buffer : List UInt8) (size : Nat) (fromaddr : Option (List UInt8))
    (s : DeviceDiscovery) (e : Entry) : Option DeviceDiscovery :=
  (readRecord buffer size fromaddr e).map s.queryCallback

/-- `mdns_query_recv` with `query_callback`, which never stops it. -/
def mdnsRecv (buffer : List UInt8) (ret : Int) (fromaddr : Option (List UInt8))
    (s : DeviceDiscovery) (onlyQueryId : Int) : Option (Nat × DeviceDiscovery) :=
  queryRecv buffer ret (always (receive buffer ret.toNat fromaddr)) s onlyQueryId

/-- The records of a packet: what a callback gets that only takes them down. -/
def packetRecords (buffer : List UInt8) (ret : Int) (fromaddr : Option (List UInt8))
    (onlyQueryId : Int) : Option (List MdnsRecord) :=
  let taken := queryRecv buffer ret (always fun rs e =>
    (readRecord buffer ret.toNat fromaddr e).map fun r => rs ++ [r]) [] onlyQueryId
  taken.map Prod.snd

/-! ## Any packet -/

variable {buffer : List UInt8} {size : Nat}

theorem stringExtract_isSome (h : size ≤ buffer.length) (offset capacity : Nat) :
    ∃ r, stringExtract buffer size offset capacity = some r := by
  obtain ⟨ls, e, -, hsome⟩ | ⟨hnone, -⟩ := stringExtract_spec h offset capacity
  · exact ⟨_, hsome⟩
  · exact ⟨_, hnone⟩

theorem recordParsePtr_isSome (h : size ≤ buffer.length) (offset length capacity : Nat) :
    ∃ s, recordParsePtr buffer size offset length capacity = some s := by
  obtain ⟨r, hr⟩ := stringExtract_isSome h offset capacity
  rw [recordParsePtr]
  split
  · exact ⟨r.1, by rw [hr]; rfl⟩
  · exact ⟨[], rfl⟩

theorem recordParseSrv_isSome (h : size ≤ buffer.length) (offset length capacity : Nat) :
    ∃ srv, recordParseSrv buffer size offset length capacity = some srv := by
  rw [recordParseSrv]
  split
  · rename_i hroom
    obtain ⟨priority, hpriority⟩ := ntohs_isSome (show offset + 2 ≤ buffer.length by omega)
    obtain ⟨weight, hweight⟩ := ntohs_isSome (show offset + 2 + 2 ≤ buffer.length by omega)
    obtain ⟨port, hport⟩ := ntohs_isSome (show offset + 4 + 2 ≤ buffer.length by omega)
    obtain ⟨r, hr⟩ := stringExtract_isSome h (offset + 6) capacity
    exact ⟨⟨priority, weight, port, r.1⟩, by simp [hpriority, hweight, hport, hr]⟩
  · exact ⟨_, rfl⟩

/-- What is read for a record whose TXT data, if it has any, can be read. -/
theorem readRecord_of_txt (h : size ≤ buffer.length) (fromaddr : Option (List UInt8)) (e : Entry)
    (htxt : e.entryType = .additional → e.rtype = txtType →
      ∃ pairs, recordParseTxt buffer size e.recordOffset e.recordLength 512 = some pairs) :
    ∃ r, readRecord buffer size fromaddr e = some r ∧ r.entryType = e.entryType ∧
      r.queryId = e.queryId ∧ r.rtype = e.rtype ∧ r.fromaddr = fromaddr := by
  obtain ⟨target, htarget⟩ : ∃ target, (if e.entryType = .answer then
      recordParsePtr buffer size e.recordOffset e.recordLength 79 else some []) = some target := by
    split
    · exact recordParsePtr_isSome h ..
    · exact ⟨[], rfl⟩
  obtain ⟨owner, howner⟩ : ∃ owner, (if e.entryType = .additional then
      (stringExtract buffer size e.nameOffset 79).map Prod.fst else some []) = some owner := by
    split
    · obtain ⟨r, hr⟩ := stringExtract_isSome h e.nameOffset 79
      exact ⟨r.1, by rw [hr]; rfl⟩
    · exact ⟨[], rfl⟩
  obtain ⟨srv, hsrv⟩ : ∃ srv, (if e.entryType = .additional ∧ e.rtype = srvType then
      recordParseSrv buffer size e.recordOffset e.recordLength 256 else
      some ⟨0, 0, 0, []⟩) = some srv := by
    split
    · exact recordParseSrv_isSome h ..
    · exact ⟨_, rfl⟩
  obtain ⟨pairs, hpairs⟩ : ∃ pairs, (if e.entryType = .additional ∧ e.rtype = txtType then
      recordParseTxt buffer size e.recordOffset e.recordLength 512 else some []) =
        some pairs := by
    split
    · rename_i hboth
      exact htxt hboth.1 hboth.2
    · exact ⟨[], rfl⟩
  simp only [readRecord, htarget, howner, hsrv, hpairs, Option.bind_eq_bind, Option.bind_some]
  exact ⟨_, rfl, rfl, rfl, rfl, rfl⟩

/-- The callback gets the records that have been read, one after the other. -/
theorem foldlM_receive {fromaddr : Option (List UInt8)} {es : List Entry}
    (h : ∀ e ∈ es, ∃ r, readRecord buffer size fromaddr e = some r ∧ r.queryId = e.queryId) :
    ∃ rs : List MdnsRecord, rs.length = es.length ∧
      (∀ r ∈ rs, ∃ e ∈ es, r.queryId = e.queryId) ∧
      (∀ s, es.foldlM (receive buffer size fromaddr) s =
        some (rs.foldl DeviceDiscovery.queryCallback s)) ∧
      ∀ taken, es.foldlM (fun rs e => (readRecord buffer size fromaddr e).map fun r => rs ++ [r])
        taken = some (taken ++ rs) := by
  induction es with
  | nil => exact ⟨[], rfl, by simp, fun s => rfl, fun taken => by simp⟩
  | cons e es ih =>
    obtain ⟨r, hr, hid⟩ := h e (List.mem_cons_self ..)
    obtain ⟨rs, hlen, hids, hrun, htake⟩ := ih fun d hd => h d (List.mem_cons_of_mem _ hd)
    refine ⟨r :: rs, congrArg (· + 1) hlen, fun q hq => ?_, fun s => ?_, fun taken => ?_⟩
    · rcases List.mem_cons.mp hq with rfl | hq
      · exact ⟨e, List.mem_cons_self .., hid⟩
      · obtain ⟨d, hd, heq⟩ := hids q hq
        exact ⟨d, List.mem_cons_of_mem _ hd, heq⟩
    · rw [List.foldlM_cons, receive, hr]
      exact hrun _
    · rw [List.foldlM_cons, hr, List.append_cons]
      exact htake _

/-- The devices after several records. -/
theorem holds_foldl {s : DeviceDiscovery} {ds : List Device} (h : s.Holds ds)
    (rs : List MdnsRecord) :
    (rs.foldl DeviceDiscovery.queryCallback s).Holds (rs.foldl (fun ds r => r.respond ds) ds) := by
  induction rs generalizing s ds with
  | nil => exact h
  | cons r rs ih => exact ih (h.queryCallback r)

/-- **Any packet is worked off safely.** Whatever is received, if the buffer goes on for 255
bytes behind it, nothing outside of the buffer is read, at most a record for every ten bytes
is handed to `query_callback`, all of them of responses to the query, and the list of
devices is left as the records of the packet leave it. -/
theorem mdnsRecv_spec {ret : Int} (h : ret.toNat + 255 ≤ buffer.length)
    (fromaddr : Option (List UInt8)) {s : DeviceDiscovery} {ds : List Device} (hs : s.Holds ds)
    (onlyQueryId : Int) :
    ∃ (rs : List MdnsRecord) (t : DeviceDiscovery),
      packetRecords buffer ret fromaddr onlyQueryId = some rs ∧
      mdnsRecv buffer ret fromaddr s onlyQueryId = some (rs.length, t) ∧
      t.Holds (rs.foldl (fun ds r => r.respond ds) ds) ∧ 10 * rs.length ≤ ret.toNat ∧
      (0 < onlyQueryId → ∀ r ∈ rs, (r.queryId.toNat : Int) = onlyQueryId) := by
  have hsize : ret.toNat ≤ buffer.length := by omega
  obtain ⟨es, hchain, hcount, hids, hrun⟩ :=
    queryRecv_spec hsize (by omega) onlyQueryId
  have hread : ∀ e ∈ es, ∃ r, readRecord buffer ret.toNat fromaddr e = some r ∧
      r.queryId = e.queryId := fun e he => by
    obtain ⟨-, -, hin⟩ := hchain.mem he
    obtain ⟨r, hr, -, hid, -⟩ := readRecord_of_txt hsize fromaddr e
      fun _ _ => txtLoop_isSome (by omega) ..
    exact ⟨r, hr, hid⟩
  obtain ⟨rs, hlen, hrsid, hfold, htake⟩ := foldlM_receive hread
  refine ⟨rs, rs.foldl DeviceDiscovery.queryCallback s, ?_, ?_, holds_foldl hs rs, by omega,
    fun hpos r hr => ?_⟩
  · rw [packetRecords, hrun, htake]
    rfl
  · rw [mdnsRecv, hrun, hfold, hlen]
    rfl
  · obtain ⟨e, he, heq⟩ := hrsid r hr
    rw [heq]
    exact hids hpos e he

/-! ## The answer of a phone -/

namespace Resource

/-- Wherever the data of the record stands in the message, it spells the name. -/
structure Points (r : Resource) (m : List UInt8) (ls : List (List UInt8)) : Prop where
  long : 2 ≤ r.data.length
  spells : ∀ o, r.data <+: m.drop o → ∃ e, NamedAt m o ls e

/-- Data without references. -/
theorem points_encode {r : Resource} {ls : List (List UInt8)} (hr : Readable ls)
    (h : r.data = encode ls) (m : List UInt8) : r.Points m ls := by
  refine ⟨?_, fun o ho => ?_⟩
  · rw [h, relative_length hr.some]
    exact Nat.le_add_left ..
  · obtain ⟨t, ht⟩ := ho
    obtain ⟨hspells, hends⟩ := spells_encode 16 hr.fit (ht.symm.trans (by rw [h]))
    exact ⟨_, hspells, hr.few, hends⟩

end Resource

theorem Section.append_left {m : List UInt8} {type : EntryType} {queryId : UInt16} {i j : Nat}
    {rs rs' : List Resource} {es : List Entry}
    (h : Section m type queryId i (rs ++ rs') es j) :
    ∃ es₁ es₂ k, es = es₁ ++ es₂ ∧ Section m type queryId i rs es₁ k ∧
      Section m type queryId k rs' es₂ j := by
  induction rs generalizing i es with
  | nil => exact ⟨[], es, i, rfl, .nil, h⟩
  | cons r rs ih =>
    cases h with
    | cons hr hrest =>
      obtain ⟨es₁, es₂, k, rfl, h₁, h₂⟩ := ih hrest
      exact ⟨_ :: es₁, es₂, k, rfl, .cons hr h₁, h₂⟩

namespace MdnsRecord

theorem respond_of_ne {r : MdnsRecord} {ds : List Device} (hadd : r.entryType = .additional)
    (htype : r.rtype ≠ txtType) : r.respond ds = ds := by
  unfold respond
  cases r.fromaddr with
  | none => rfl
  | some a =>
    show (if r.entryType = .answer then _ else _) = ds
    rw [if_neg (by rw [hadd]; decide), if_neg fun hboth => htype hboth.2]

theorem respond_txt {r : MdnsRecord} {ds : List Device} {a : List UInt8} {i : Nat}
    (hadd : r.entryType = .additional) (htype : r.rtype = txtType) (ha : r.fromaddr = some a)
    (hi : (ds.findIdx? fun d => d.Matches r.owner) = some i) :
    r.respond ds = ds.modify i (rename (text a) r.pairs) := by
  unfold respond
  rw [ha]
  show (if r.entryType = .answer then _ else _) = _
  rw [if_neg (by rw [hadd]; decide), if_pos ⟨hadd, htype⟩, hi]

theorem respond_answer {r : MdnsRecord} {ds : List Device} {a : List UInt8}
    (hanswer : r.entryType = .answer) (ha : r.fromaddr = some a)
    (hnew : ∀ d ∈ ds, ¬ d.Matches r.target) (hroom : ds.length < devicesLimit) :
    r.respond ds = ds ++ [r.newDevice a] := by
  unfold respond
  rw [ha]
  show (if r.entryType = .answer then _ else _) = _
  rw [if_pos hanswer, if_neg]
  rintro (⟨d, hd, hmatch⟩ | hfull)
  · exact hnew d hd hmatch
  · exact absurd hfull hroom.ne

end MdnsRecord

/-- Additional records that are not TXT leave the devices alone. -/
theorem receive_section_of_ne (h : size ≤ buffer.length) {queryId : UInt16} {i j : Nat}
    {rs : List Resource} {es : List Entry}
    (hs : Section (buffer.take size) .additional queryId i rs es j)
    (hne : ∀ r ∈ rs, r.rtype ≠ txtType) (fromaddr : Option (List UInt8)) {s : DeviceDiscovery}
    {ds : List Device} (hd : s.Holds ds) :
    ∃ t, es.foldlM (receive buffer size fromaddr) s = some t ∧ t.Holds ds := by
  induction hs generalizing s with
  | nil => exact ⟨s, rfl, hd⟩
  | @cons i o j r rs es hr _ ih =>
    have htype := hne r (List.mem_cons_self ..)
    obtain ⟨rec, hrec, hentry, -, hrtype, -⟩ :=
      readRecord_of_txt h fromaddr (r.entry .additional queryId i o)
        fun _ heq => absurd heq htype
    have hnext := hd.queryCallback rec
    rw [rec.respond_of_ne hentry (fun heq => htype (hrtype.symm.trans heq))] at hnext
    obtain ⟨t, ht, hholds⟩ := ih (fun q hq => hne q (List.mem_cons_of_mem _ hq)) hnext
    refine ⟨t, ?_, hholds⟩
    rw [List.foldlM_cons, receive, hrec]
    exact ht

/-- The records of a phone that is called `model` and whose service is called `inst`: one
that points to the service, and among the additional ones one TXT record, of the service, in
which `name=` and the model stand last of what `query_callback` takes for a name. -/
structure Phone where
  inst : List (List UInt8)
  model : List UInt8
  ptr : Resource
  before : List Resource
  txt : Resource
  after : List Resource
  strings : List (List UInt8)
  pre : List (List UInt8 × List UInt8)
  post : List (List UInt8 × List UInt8)
  others : ∀ r ∈ before ++ after, r.rtype ≠ txtType
  rtype : txt.rtype = txtType
  owner : txt.owner = inst
  data : txt.data = packed strings
  strings_lt : ∀ c ∈ strings, c.length < 256
  pairs : strings.filterMap txtPair = pre ++ (ascii "name", model) :: post
  last : ∀ p ∈ post, ¬ p.1 <+: ascii "name"
  few : pre.length + post.length < 512
  model_ne : model ≠ []
  short : (dotted inst).length ≤ 79
  clean : 0 ∉ dotted inst

namespace Phone

/-- The packet `m` carries the answer of the phone. -/
structure Answers (p : Phone) (m : List UInt8) (queryId : UInt16) (es : List Entry) : Prop where
  carries : ∃ flags questions start,
    Carries m queryId flags questions start [p.ptr] [] (p.before ++ p.txt :: p.after) es
  points : p.ptr.Points m p.inst

theorem of_eq_some {key value : List UInt8} (hne : key ≠ [])
    (hprint : ∀ b ∈ key, 0x20 ≤ b ∧ b ≤ 0x7E) :
    TxtPair.of key value = some ⟨key, value, hne, hprint⟩ := dif_pos ⟨hne, hprint⟩

/-- The pair that names the phone. -/
def namePair (p : Phone) : TxtPair := ⟨ascii "name", p.model, by decide, by decide⟩

theorem of_namePair (p : Phone) :
    TxtPair.of (ascii "name") p.model = some p.namePair := of_eq_some _ _

theorem used_namePair (p : Phone) : p.namePair.Used := ⟨p.model_ne, List.prefix_rfl⟩

/-- The name that is read from the TXT record. -/
theorem getLast?_used (p : Phone) :
    ((((p.strings.filterMap txtPair).take 512).filterMap fun r => TxtPair.of r.1 r.2).filter
      fun q => q.Used).getLast? = some p.namePair := by
  have hlen : (p.strings.filterMap txtPair).length ≤ 512 := by
    have hfew := p.few
    rw [p.pairs, List.length_append, List.length_cons]
    omega
  have hpost : ((p.post.filterMap fun r => TxtPair.of r.1 r.2).filter fun q => q.Used) = [] := by
    rw [List.filter_eq_nil_iff]
    intro q hq hused
    obtain ⟨r, hr, hof⟩ := List.mem_filterMap.mp hq
    have hkey : q.key = r.1 := by
      unfold TxtPair.of at hof
      split at hof
      · cases hof
        rfl
      · cases hof
    have hpre := (of_decide_eq_true hused).2
    rw [hkey] at hpre
    exact p.last r hr hpre
  have hcons : (((ascii "name", p.model) :: p.post).filterMap fun r => TxtPair.of r.1 r.2) =
      p.namePair :: p.post.filterMap fun r => TxtPair.of r.1 r.2 := by
    simp only [List.filterMap_cons, p.of_namePair]
  rw [List.take_of_length_le hlen, p.pairs, List.filterMap_append, hcons, List.filter_append,
    List.filter_cons, if_pos (decide_eq_true p.used_namePair), hpost, List.getLast?_append]
  rfl

end Phone

/-- What is read of a name that has room. -/
theorem extract_fst (h : size ≤ buffer.length) {i e : Nat} {ls : List (List UInt8)}
    (hn : NamedAt (buffer.take size) i ls e) (hshort : (dotted ls).length ≤ 79) :
    (stringExtract buffer size i 79).map Prod.fst = some (dotted ls) := by
  rw [stringExtract_of_named h hn, List.take_of_length_le hshort]
  rfl

theorem Resource.LiesAt.data {r : Resource} {m : List UInt8} {i o : Nat} (h : r.LiesAt m i o) :
    r.data <+: m.drop (o + 10) := by
  obtain ⟨t, ht⟩ := h.2
  rw [List.append_assoc] at ht
  have hdrop := drop_of_drop ht.symm
  rw [r.fields_length] at hdrop
  exact ⟨t, hdrop.symm⟩

theorem readRecord_answer (h : size ≤ buffer.length) {r : Resource} {i o : Nat}
    {ls : List (List UInt8)} (hr : r.LiesAt (buffer.take size) i o)
    (hpoints : r.Points (buffer.take size) ls) (hshort : (dotted ls).length ≤ 79)
    (queryId : UInt16) (fromaddr : Option (List UInt8)) :
    ∃ rec, readRecord buffer size fromaddr (r.entry .answer queryId i o) = some rec ∧
      rec.entryType = .answer ∧ rec.queryId = queryId ∧ rec.target = dotted ls ∧
      rec.fromaddr = fromaddr := by
  have hle := hr.le
  rw [packet_length h] at hle
  obtain ⟨e, hn⟩ := hpoints.spells _ hr.data
  have hptr : recordParsePtr buffer size (o + 10) r.data.length 79 = some (dotted ls) := by
    rw [recordParsePtr, if_pos ⟨hle, hpoints.long⟩, extract_fst h hn hshort]
  refine ⟨_, by simp [readRecord, Resource.entry, hptr]; rfl, rfl, rfl, ?_, rfl⟩
  exact List.take_of_length_le hshort

theorem readRecord_txt (h : size ≤ buffer.length) {r : Resource} {i o : Nat}
    {cs : List (List UInt8)} (hr : r.LiesAt (buffer.take size) i o) (htype : r.rtype = txtType)
    (hdata : r.data = packed cs) (hcs : ∀ c ∈ cs, c.length < 256)
    (hshort : (dotted r.owner).length ≤ 79) (queryId : UInt16)
    (fromaddr : Option (List UInt8)) :
    ∃ rec, readRecord buffer size fromaddr (r.entry .additional queryId i o) = some rec ∧
      rec.entryType = .additional ∧ rec.rtype = txtType ∧ rec.owner = dotted r.owner ∧
      rec.pairs = ((cs.filterMap txtPair).take 512).filterMap (fun p => TxtPair.of p.1 p.2) ∧
      rec.fromaddr = fromaddr := by
  have hpre := hr.data
  rw [hdata] at hpre
  have htxt := recordParseTxt_strings h hcs hpre 512
  have howner := extract_fst h hr.1 hshort
  have hsrv : ¬ txtType = srvType := by decide
  refine ⟨_, by simp [readRecord, Resource.entry, howner, htype, hsrv, hdata, htxt]; rfl, rfl,
    rfl, ?_, rfl, rfl⟩
  exact List.take_of_length_le hshort

/-- The device that an answer makes is found under its name. -/
theorem MdnsRecord.newDevice_str {r : MdnsRecord} (hclean : 0 ∉ r.target) (a : List UInt8) :
    (r.newDevice a).serial.str = r.target ∧ (r.newDevice a).address.str = (text a).take 63 := by
  have hserial : (r.newDevice a).serial = (Chars.zero 80).store 0 r.target := by
    show (Chars.zero 80).store 0 (r.target.take r.target.length) = _
    rw [List.take_length]
  have hlen : r.target.length < 80 := Nat.lt_succ_of_le r.target_le
  refine ⟨by rw [hserial, Chars.str_store_zero hclean hlen], ?_⟩
  refine Chars.str_store_zero (fun h => zero_notMem_text a (List.mem_of_mem_take h)) ?_
  have := List.length_take_le 63 (text a)
  omega

theorem MdnsRecord.newDevice_matches {r : MdnsRecord} (hclean : 0 ∉ r.target) (a : List UInt8) :
    (r.newDevice a).Matches r.target := by
  have hstr : text (r.newDevice a).serial.bytes = r.target := (newDevice_str hclean a).1
  rw [Device.Matches, strncmp_eq_zero_iff, hstr, text_of_notMem hclean]

/-- The first device of that name is the one behind the others. -/
theorem findIdx?_last {ds : List Device} {d : Device} {name : List UInt8}
    (hnew : ∀ e ∈ ds, ¬ e.Matches name) (hd : d.Matches name) :
    ((ds ++ [d]).findIdx? fun e => e.Matches name) = some ds.length := by
  rw [List.findIdx?_append, List.findIdx?_eq_none_iff.mpr (by simpa using hnew)]
  simp [List.findIdx?_cons, hd]

theorem modify_last (ds : List Device) (d : Device) (f : Device → Device) :
    (ds ++ [d]).modify ds.length f = ds ++ [f d] := by
  induction ds with
  | nil => rfl
  | cons e ds ih => exact congrArg (e :: ·) ih

/-- What the records of a packet that carries the answer of a phone do. -/
theorem foldlM_phone (h : size ≤ buffer.length) {p : Phone} {queryId : UInt16} {es : List Entry}
    (hp : p.Answers (buffer.take size) queryId es) {s : DeviceDiscovery} {ds : List Device}
    (hs : s.Holds ds) (hroom : ds.length < devicesLimit)
    (hnew : ∀ d ∈ ds, ¬ d.Matches (dotted p.inst)) (a : List UInt8) :
    ∃ t d, es.foldlM (receive buffer size (some a)) s = some t ∧ t.Holds (ds ++ [d]) ∧
      d.serial.str = dotted p.inst ∧ d.handle = (queryId.toNat : Int) ∧
      d.address.str = (text a).take 63 ∧ d.model.str = shown p.model (text a) := by
  obtain ⟨flags, questions, start, hc⟩ := hp.carries
  obtain ⟨es₁, es₂, es₃, j, k, l, hs₁, hs₂, hs₃, rfl⟩ := hc.sections
  cases hs₁ with
  | @cons _ o _ _ _ _ hptr hnil =>
    cases hnil
    cases hs₂
    obtain ⟨before, rest, kb, rfl, hsb, hs₃⟩ := hs₃.append_left
    cases hs₃ with
    | @cons _ o' _ _ _ after htxt hsa =>
      -- the answer makes a device
      obtain ⟨rec, hrec, hanswer, hqid, htarget, hfrom⟩ :=
        readRecord_answer h hptr hp.points p.short queryId (some a)
      have hclean : 0 ∉ rec.target := htarget ▸ p.clean
      have hadd := hs.queryCallback rec
      rw [rec.respond_answer hanswer hfrom (htarget ▸ hnew) hroom] at hadd
      -- the records before the TXT record change nothing
      obtain ⟨t, ht, hbefore⟩ := receive_section_of_ne h hsb
        (fun r hr => p.others r (List.mem_append_left _ hr)) (some a) hadd
      -- the TXT record gives the device its model
      obtain ⟨txt, hread, htype, hrtype, howner, hpairs, hfrom'⟩ :=
        readRecord_txt h htxt p.rtype p.data p.strings_lt (p.owner ▸ p.short) queryId (some a)
      have hmatch := rec.newDevice_matches hclean a
      rw [htarget] at hmatch
      have hindex := findIdx?_last hnew hmatch
      rw [← p.owner, ← howner] at hindex
      have hnamed := hbefore.queryCallback txt
      rw [txt.respond_txt htype hrtype hfrom' hindex, modify_last] at hnamed
      obtain ⟨u, hu, hholds⟩ := receive_section_of_ne h hsa
        (fun r hr => p.others r (List.mem_append_right _ hr)) (some a) hnamed
      have hkeep := MdnsRecord.rename_frame (text a) txt.pairs (rec.newDevice a)
      obtain ⟨hserial, haddress⟩ := rec.newDevice_str hclean a
      refine ⟨u, _, ?_, hholds, ?_, ?_, ?_, ?_⟩
      · simp only [List.append_nil, List.foldlM_append, List.foldlM_cons, List.foldlM_nil,
          receive, hrec, hread, Option.map_some, Option.bind_eq_bind, Option.bind_some,
          Option.pure_def]
        rw [ht]
        exact hu
      · rw [hkeep]
        exact hserial.trans htarget
      · rw [hkeep]
        show (rec.queryId.toNat : Int) = _
        rw [hqid]
      · rw [hkeep]
        exact haddress
      · rw [MdnsRecord.rename_model, hpairs, p.getLast?_used]
        rfl

theorem mdnsRecv_answers {ret : Int} (h : ret.toNat ≤ buffer.length) {p : Phone}
    {queryId : UInt16} {es : List Entry} (hp : p.Answers (buffer.take ret.toNat) queryId es)
    {onlyQueryId : Int} (hid : onlyQueryId ≤ 0 ∨ onlyQueryId = queryId.toNat)
    (fromaddr : Option (List UInt8)) (s : DeviceDiscovery) :
    mdnsRecv buffer ret fromaddr s onlyQueryId =
      (es.foldlM (receive buffer ret.toNat fromaddr) s).map fun t => (es.length, t) := by
  obtain ⟨flags, questions, start, hc⟩ := hp.carries
  exact queryRecv_carries h hc hid _ s

/-- **A phone that answers is found.** A packet that carries the answer of a phone, wherever
its names are compressed and whatever additional records it has besides one TXT record, adds
the phone behind the devices found before, if there is room for it and no serial among them
begins with its service: with the service as the serial, the sender's address, and the model
with the address in brackets. -/
theorem mdnsRecv_phone {ret : Int} (h : ret.toNat ≤ buffer.length) {p : Phone}
    {queryId : UInt16} {es : List Entry} (hp : p.Answers (buffer.take ret.toNat) queryId es)
    {onlyQueryId : Int} (hid : onlyQueryId ≤ 0 ∨ onlyQueryId = queryId.toNat)
    {s : DeviceDiscovery} {ds : List Device} (hs : s.Holds ds) (hroom : ds.length < devicesLimit)
    (hnew : ∀ d ∈ ds, ¬ d.Matches (dotted p.inst)) (a : List UInt8) :
    ∃ t d, mdnsRecv buffer ret (some a) s onlyQueryId = some (es.length, t) ∧
      t.Holds (ds ++ [d]) ∧ d.serial.str = dotted p.inst ∧ d.handle = (queryId.toNat : Int) ∧
      d.address.str = (text a).take 63 ∧ d.model.str = shown p.model (text a) := by
  obtain ⟨t, d, hrun, hall⟩ := foldlM_phone h hp hs hroom hnew a
  exact ⟨t, d, by rw [mdnsRecv_answers h hp hid, hrun]; rfl, hall⟩

/-! ## An answer with compressed names -/

def pixelPtr : Resource :=
  ⟨serviceLabels, ptrType, 1, 10, counted (ascii "Pixel") ++ [192, 12], by decide⟩

def pixelTxt : Resource :=
  ⟨ascii "Pixel" :: serviceLabels, txtType, 1, 10, packed [ascii "name=Pixel 9"], by decide⟩

/-- Behind the header the query's name, the PTR record, and the TXT record. -/
def pixelPacket : List UInt8 :=
  be 2 3 ++ be 2 0x8400 ++ be 2 0 ++ be 2 1 ++ be 2 0 ++ be 2 1 ++ (encode serviceLabels ++
    (pixelPtr.fields ++ pixelPtr.data ++ (192 :: 47 :: (pixelTxt.fields ++ pixelTxt.data))))

def pixel : Phone where
  inst := ascii "Pixel" :: serviceLabels
  model := ascii "Pixel 9"
  ptr := pixelPtr
  before := []
  txt := pixelTxt
  after := []
  strings := [ascii "name=Pixel 9"]
  pre := []
  post := []
  others := by simp
  rtype := rfl
  owner := rfl
  data := rfl
  strings_lt := by decide +kernel
  pairs := by decide +kernel
  last := by simp
  few := by decide +kernel
  model_ne := by decide +kernel
  short := by decide +kernel
  clean := by decide +kernel

theorem named_service : NamedAt pixelPacket 12 serviceLabels 37 := by
  obtain ⟨hspells, hends⟩ := spells_encode 16 (by decide)
    (show pixelPacket.drop 12 = encode serviceLabels ++ _ from rfl)
  exact ⟨hspells, by decide, hends⟩

theorem named_pixel {i : Nat} (h : pixelPtr.data <+: pixelPacket.drop i) :
    NamedAt pixelPacket i pixel.inst (i + 8) := by
  obtain ⟨t, ht⟩ := h
  have hfirst : Spells pixelPacket 16 12 serviceLabels := named_service.1
  obtain ⟨hspells, hends⟩ := @spells_ref pixelPacket i 16 [ascii "Pixel"] t 192 12 serviceLabels
    (by decide) (by decide) ht.symm hfirst fun k j hlead => by
      obtain ⟨rfl, -⟩ := hlead.of_label (show pixelPacket[12]? = some 12 from rfl) (by decide)
      decide
  exact ⟨hspells, by decide, hends⟩

theorem named_txt : NamedAt pixelPacket 55 pixel.inst 57 := by
  have hname := named_pixel (show pixelPtr.data <+: pixelPacket.drop 47 from ⟨_, rfl⟩)
  obtain ⟨hspells, hends⟩ := @spells_ref pixelPacket 55 16 [] _ 192 47 pixel.inst (by decide)
    (by decide) rfl hname.1 fun k j hlead => by
      obtain ⟨rfl, -⟩ := hlead.of_label (show pixelPacket[47]? = some 5 from rfl) (by decide)
      decide
  exact ⟨hspells, by decide, hends⟩

theorem answers_pixel : pixel.Answers pixelPacket 3
    [pixelPtr.entry .answer 3 12 37, pixelTxt.entry .additional 3 55 57] := by
  refine ⟨⟨0x8400, 0, 12, ⟨_, rfl⟩, .inl ⟨rfl, rfl⟩, by decide, ?_⟩,
    by decide, fun o ho => ⟨_, named_pixel ho⟩⟩
  refine ⟨_, [], _, 55, 55, 80, .cons ⟨named_service, ⟨_, rfl⟩⟩ .nil, .nil,
    .cons ⟨named_txt, ⟨_, rfl⟩⟩ .nil, rfl⟩

theorem mdnsRecv_phone_pixel : ∃ t d,
    mdnsRecv pixelPacket 80 (some (ascii "192.168.1.5")) DeviceDiscovery.new 3 = some (2, t) ∧
      t.Holds [d] ∧ d.model.str = ascii "Pixel 9 [WIFI] (192.168.1.5)" := by
  obtain ⟨t, d, hrun, hholds, -, -, -, hmodel⟩ := @mdnsRecv_phone pixelPacket 80 (by decide) pixel
    3 _ answers_pixel 3 (.inr rfl) DeviceDiscovery.new [] DeviceDiscovery.holds_new (by decide)
    (by simp) (ascii "192.168.1.5")
  exact ⟨t, d, hrun, hholds, hmodel.trans (by decide)⟩

end DroidcamWhip
