import Mathlib.Data.List.Forall2
import DroidcamWhip.MdnsSearch

/-!
`MDNS::DoReload`: the queries over three sockets, the loop that waits for responses, and
what is closed behind it. The buffers of the three lie one behind the other in what one
`malloc` returns; a result `none` stands for an access outside of it.
-/

namespace DroidcamWhip

open Bytes Names CString

/-! ## The code -/

/-- `PARALLEL`. -/
def parallel : Nat := 3

/-- `capacity` of `MDNS::DoReload`. -/
def packetCapacity : Nat := 2048

/-- `MDNS_RECORDTYPE_ANY`. -/
def anyType : Nat := 255

/-- What the system says about one of the sockets: its descriptor or an error, whether it
is bound to the port of mDNS, and whether the query goes out. -/
structure SocketAnswer where
  sock : Int
  mdnsPort : Bool
  sent : Bool

/-- `struct query`; its buffer is the one of its place in `socks`. -/
structure Query where
  sock : Int
  queryId : Int

/-- The body of the loop over `socks`. -/
def openQuery (i : Nat) (a : SocketAnswer) (memory : List UInt8) :
    Option (Query × List UInt8) := do
  if a.sock < 0 then
    return (⟨0, 0⟩, memory)
  let buffer := (memory.drop (i * packetCapacity)).take packetCapacity
  match ← querySend anyType serviceName buffer packetCapacity (a.sock.toNat % 65536)
      a.mdnsPort with
  | none => return (⟨a.sock, -1⟩, memory)
  | some packet =>
      return (⟨a.sock, if a.sent then (a.sock.toNat % 65536 : Nat) else -1⟩,
        overwrite memory (i * packetCapacity) packet)

def openQueries : Nat → List SocketAnswer → List UInt8 → Option (List Query × List UInt8)
  | _, [], memory => some ([], memory)
  | i, a :: as, memory => do
      let (q, memory) ← openQuery i a memory
      let (qs, memory) ← openQueries (i + 1) as memory
      return (q :: qs, memory)

/-- `maxfd` behind that loop. -/
def maxfd (queries : List Query) : Int :=
  queries.foldl (fun fd q => if q.sock > fd then q.sock else fd) 0

/-- What `recvfrom` has put into a buffer, if it has not failed. -/
structure Datagram where
  ret : Int
  bytes : List UInt8
  fromaddr : Option (List UInt8)
  len : bytes.length = ret.toNat
  fits : ret ≤ packetCapacity

/-- A round of the loop: the result of `select`, what can be received from each of the
sockets that are set in `read_fds`, and the time behind it. -/
structure Poll where
  rc : Int
  datagrams : List (Option Datagram)
  now : Nat

structure MdnsState where
  memory : List UInt8
  discovery : DeviceDiscovery

def recvQuery (i : Nat) (q : Query) (d : Datagram) (s : MdnsState) : Option MdnsState := do
  let memory := overwrite s.memory (i * packetCapacity) d.bytes
  let (_, discovery) ←
    mdnsRecv (memory.drop (i * packetCapacity)) d.ret d.fromaddr s.discovery q.queryId
  return ⟨memory, discovery⟩

/-- The loop over `socks` behind `select`. -/
def recvQueries : Nat → List Query → List (Option Datagram) → MdnsState → Option MdnsState
  | i, _ :: qs, none :: ds, s => recvQueries (i + 1) qs ds s
  | i, q :: qs, some d :: ds, s => do
      let s ← (if q.queryId ≠ 0 then recvQuery i q d s else some s)
      recvQueries (i + 1) qs ds s
  | _, _, _, s => some s

/-- The loop, and whether it has ended. -/
def pollLoop (queries : List Query) (timeEnd : Nat) :
    List Poll → MdnsState → Option (MdnsState × Bool)
  | [], s => some (s, false)
  | p :: ps, s =>
      if p.rc < 0 then some (s, true)
      else do
        let s ← (if p.rc = 0 then some s else recvQueries 0 queries p.datagrams s)
        if p.now < timeEnd then pollLoop queries timeEnd ps s else return (s, true)

/-- `MDNS::DoReload`: the devices, and which sockets it has closed if it has ended. -/
def mdnsDoReload (memory : List UInt8) (answers : List SocketAnswer) (start : Nat)
    (polls : List Poll) (s : DeviceDiscovery) :
    Option (DeviceDiscovery × Option (List Int)) := do
  let (queries, memory) ← openQueries 0 answers memory
  let closed := (queries.map Query.sock).filter fun sock => 0 < sock
  if maxfd queries = 0 then
    return (s, some closed)
  let (t, ended) ← pollLoop queries (1750 + start) polls ⟨memory, s⟩
  return (t.discovery, if ended then some closed else none)

/-! ## The queries -/

/-- What `malloc` returns. -/
def Allocated (memory : List UInt8) : Prop := memory.length = packetCapacity * parallel

theorem serviceName_eq : serviceName = dotted serviceLabels := by decide +kernel

/-- Every buffer has room for the query. -/
theorem querySend_service {buffer : List UInt8} (h : buffer.length = packetCapacity)
    (queryId : Nat) (mdnsPort : Bool) :
    querySend anyType serviceName buffer packetCapacity queryId mdnsPort =
      some (some (queryPacket anyType serviceLabels queryId mdnsPort)) := by
  have hroom : 17 + serviceName.length < packetCapacity := by decide +kernel
  rw [← h] at hroom ⊢
  rw [querySend_eq readable_serviceLabels (.inr serviceName_eq), if_neg (Nat.not_lt.mpr hroom.le),
    if_neg fun hover => hroom.ne' hover.2]

/-- The query that a socket is left with. -/
def SocketAnswer.query (a : SocketAnswer) : Query :=
  if a.sock < 0 then ⟨0, 0⟩
  else ⟨a.sock, if a.sent then (a.sock.toNat % 65536 : Nat) else -1⟩

theorem openQuery_eq {i : Nat} (hi : i < parallel) (a : SocketAnswer) {memory : List UInt8}
    (hm : Allocated memory) :
    ∃ memory', openQuery i a memory = some (a.query, memory') ∧ Allocated memory' := by
  unfold openQuery SocketAnswer.query
  by_cases hneg : a.sock < 0
  · rw [if_pos hneg, if_pos hneg]
    exact ⟨memory, rfl, hm⟩
  · have hlen : ((memory.drop (i * packetCapacity)).take packetCapacity).length =
        packetCapacity := by
      rw [List.length_take, List.length_drop, hm]
      simp only [packetCapacity, parallel] at hi ⊢
      omega
    rw [if_neg hneg, if_neg hneg]
    simp only [querySend_service hlen, Option.bind_eq_bind, Option.bind_some]
    exact ⟨_, rfl, (overwrite_length ..).trans hm⟩

theorem openQueries_eq {i : Nat} {answers : List SocketAnswer} (hi : i + answers.length ≤ parallel)
    {memory : List UInt8} (hm : Allocated memory) :
    ∃ memory', openQueries i answers memory =
      some (answers.map SocketAnswer.query, memory') ∧ Allocated memory' := by
  induction answers generalizing i memory with
  | nil => exact ⟨memory, rfl, hm⟩
  | cons a as ih =>
    rw [List.length_cons] at hi
    obtain ⟨memory₁, hopen, hm₁⟩ := openQuery_eq (show i < parallel by omega) a hm
    obtain ⟨memory₂, hrest, hm₂⟩ := ih (show i + 1 + as.length ≤ parallel by omega) hm₁
    refine ⟨memory₂, ?_, hm₂⟩
    rw [openQueries, hopen]
    simp only [Option.bind_eq_bind, Option.bind_some, hrest]
    rfl

/-! ## What is received -/

/-- The record is of a response to the query that was sent over the socket, or none was. -/
def SocketAnswer.Hears (a : SocketAnswer) (r : MdnsRecord) : Prop :=
  0 ≤ a.sock ∧ (a.sent = true → r.queryId.toNat = a.sock.toNat % 65536)

/-- A datagram that has come over a socket. -/
structure SocketDatagram where
  socket : SocketAnswer
  datagram : Datagram

/-- The records are those of the packet, whatever lies behind it in the buffer, and all of
a response to the query. -/
structure SocketDatagram.Reads (x : SocketDatagram) (rs : List MdnsRecord) : Prop where
  packet : ∃ behind, packetRecords (x.datagram.bytes ++ behind) x.datagram.ret
    x.datagram.fromaddr x.socket.query.queryId = some rs
  heard : ∀ r ∈ rs, x.socket.Hears r

/-- The devices after the records of the datagrams, in their order. -/
def Led (xs : List SocketDatagram) (ds ds' : List Device) : Prop :=
  ∃ rss : List (List MdnsRecord), List.Forall₂ SocketDatagram.Reads xs rss ∧
    ds' = rss.flatten.foldl (fun ds r => r.respond ds) ds

section

variable {xs ys : List SocketDatagram} {ds ds' ds'' : List Device}

/-- A device is found under the name, or there is no room for one. -/
def Sought (name : List UInt8) (ds : List Device) : Prop :=
  (∃ d ∈ ds, d.Matches name) ∨ ds.length = devicesLimit

theorem Sought.respond {name : List UInt8} (h : Sought name ds) (r : MdnsRecord) :
    Sought name (r.respond ds) := by
  unfold MdnsRecord.respond
  cases r.fromaddr with
  | none => exact h
  | some a =>
    dsimp only
    split
    · split
      · exact h
      · rename_i hfree
        rw [not_or] at hfree
        obtain ⟨d, hd, hmatch⟩ := h.resolve_right hfree.2
        exact .inl ⟨d, List.mem_append_left _ hd, hmatch⟩
    · split
      · cases (ds.findIdx? fun d => d.Matches r.owner) with
        | none => exact h
        | some i =>
          obtain ⟨d, hd, hmatch⟩ | hfull := h
          · obtain ⟨j, hj⟩ := List.mem_iff_getElem?.mp hd
            refine .inl ?_
            by_cases hij : i = j
            · subst hij
              refine ⟨MdnsRecord.rename (text a) r.pairs d, List.mem_iff_getElem?.mpr ⟨i, ?_⟩, ?_⟩
              · show (ds.modify i _)[i]? = _
                rw [List.getElem?_modify_eq, hj]
                rfl
              · rw [MdnsRecord.rename_frame]
                exact hmatch
            · refine ⟨d, List.mem_iff_getElem?.mpr ⟨j, ?_⟩, hmatch⟩
              show (ds.modify i _)[j]? = _
              rw [List.getElem?_modify_ne _ _ hij, hj]
          · exact .inr ((List.length_modify ..).trans hfull)
      · exact h

theorem Led.sought {name : List UInt8} (h : Led xs ds ds') (hname : Sought name ds) :
    Sought name ds' := by
  obtain ⟨rss, -, rfl⟩ := h
  generalize rss.flatten = rs
  clear * - hname
  induction rs generalizing ds with
  | nil => exact hname
  | cons r rs ih => exact ih (hname.respond r)

theorem Led.refl (ds : List Device) : Led [] ds ds := ⟨[], .nil, rfl⟩

theorem Led.trans (h : Led xs ds ds') (h' : Led ys ds' ds'') : Led (xs ++ ys) ds ds'' := by
  obtain ⟨rss, hrss, rfl⟩ := h
  obtain ⟨rss', hrss', rfl⟩ := h'
  refine ⟨rss ++ rss', List.rel_append hrss hrss', ?_⟩
  rw [List.flatten_append, List.foldl_append]

end

/-- The state holds the devices. -/
structure MdnsState.Keeps (s : MdnsState) (ds : List Device) : Prop where
  memory : Allocated s.memory
  holds : s.discovery.Holds ds

/-- The packet in the buffer of the last socket leaves 255 bytes of it. -/
def Datagram.Spares (d : Datagram) (i : Nat) : Prop :=
  i + 1 = parallel → d.ret + 255 ≤ packetCapacity

variable {s t : MdnsState} {ds : List Device}

/-- The buffer with the packet and what lies behind it. -/
theorem buffer_length {i : Nat} {d : Datagram} (hs : s.Keeps ds) :
    ((overwrite s.memory (i * packetCapacity) d.bytes).drop (i * packetCapacity)).length =
      (parallel - i) * packetCapacity := by
  rw [List.length_drop, overwrite_length, hs.memory, Nat.sub_mul, Nat.mul_comm parallel]

theorem buffer_take {i : Nat} (hi : i < parallel) {d : Datagram} (hs : s.Keeps ds) :
    ((overwrite s.memory (i * packetCapacity) d.bytes).drop (i * packetCapacity)).take
      d.ret.toNat = d.bytes := by
  have hfits := d.fits
  have hlen := hs.memory
  have hroom : i * packetCapacity + d.bytes.length ≤ s.memory.length := by
    rw [hlen, d.len]
    simp only [packetCapacity, parallel] at hi hfits ⊢
    omega
  have htake := congrArg (List.drop (i * packetCapacity))
    (overwrite_take s.memory (i * packetCapacity) d.bytes hroom)
  rw [List.drop_take, Nat.add_sub_cancel_left, List.drop_left' (by
    rw [List.length_take_of_le (by omega)])] at htake
  rw [← d.len]
  exact htake

/-- The packet carries the answer of the phone to the query of the socket, if one was sent. -/
structure Datagram.Bears (d : Datagram) (a : SocketAnswer) (p : Phone) : Prop where
  listens : 0 < a.sock
  asks : a.sock.toNat % 65536 ≠ 0
  answers : ∃ queryId es, p.Answers d.bytes queryId es ∧
    (a.sent = true → queryId.toNat = a.sock.toNat % 65536)
  fromaddr : ∃ addr, d.fromaddr = some addr

theorem query_of_pos {a : SocketAnswer} (h : 0 < a.sock) : a.query =
    ⟨a.sock, if a.sent then (a.sock.toNat % 65536 : Nat) else -1⟩ :=
  if_neg (by omega)

theorem Datagram.Bears.queryId_ne {d : Datagram} {a : SocketAnswer} {p : Phone}
    (h : d.Bears a p) : a.query.queryId ≠ 0 := by
  have hasks := h.asks
  rw [query_of_pos h.listens]
  show (if a.sent then ((a.sock.toNat % 65536 : Nat) : Int) else -1) ≠ 0
  split <;> omega

/-- The buffer has room for what is read behind the packet. -/
theorem Datagram.Spares.room {i : Nat} (hi : i < parallel) {d : Datagram} (hd : d.Spares i)
    (hs : s.Keeps ds) : d.ret.toNat + 255 ≤
      ((overwrite s.memory (i * packetCapacity) d.bytes).drop (i * packetCapacity)).length := by
  have hfits := d.fits
  rw [buffer_length hs]
  simp only [Datagram.Spares, packetCapacity, parallel] at hi hd hfits ⊢
  obtain rfl | rfl | rfl : i = 0 ∨ i = 1 ∨ i = 2 := by omega
  · omega
  · omega
  · have := hd rfl
    omega

/-- A socket hears what is read for its query. -/
theorem SocketAnswer.hears_of_query {a : SocketAnswer} (hid : a.query.queryId ≠ 0)
    {r : MdnsRecord} (hr : 0 < a.query.queryId → (r.queryId.toNat : Int) = a.query.queryId) :
    a.Hears r := by
  unfold SocketAnswer.query at hid hr
  split at hid
  · exact absurd rfl hid
  · rename_i hneg
    rw [if_neg hneg] at hr
    refine ⟨Int.not_lt.mp hneg, fun hsent => ?_⟩
    simp only [hsent, if_true] at hid hr
    have := hr (by omega)
    omega

theorem Datagram.Bears.asked {d : Datagram} {a : SocketAnswer} {p : Phone} (h : d.Bears a p)
    {queryId : UInt16} (hsent : a.sent = true → queryId.toNat = a.sock.toNat % 65536) :
    a.query.queryId ≤ 0 ∨ a.query.queryId = queryId.toNat := by
  rw [query_of_pos h.listens]
  cases hquery : a.sent with
  | false => exact .inl (show (-1 : Int) ≤ 0 by decide)
  | true => exact .inr (by rw [hsent hquery]; rfl)

theorem recvQuery_spec {i : Nat} (hi : i < parallel) {a : SocketAnswer} {d : Datagram}
    (hid : a.query.queryId ≠ 0) (hs : s.Keeps ds) (hd : d.Spares i) :
    ∃ t ds', recvQuery i a.query d s = some t ∧ t.Keeps ds' ∧ Led [⟨a, d⟩] ds ds' ∧
      ∀ p, d.Bears a p → Sought (dotted p.inst) ds' := by
  have hroom := hd.room hi hs
  obtain ⟨rs, t, hread, hrun, hholds, -, hids⟩ :=
    mdnsRecv_spec hroom d.fromaddr hs.holds a.query.queryId
  have hled : Led [⟨a, d⟩] ds (rs.foldl (fun ds r => r.respond ds) ds) := by
    rw [← List.take_append_drop d.ret.toNat (List.drop _ _), buffer_take hi hs] at hread
    exact ⟨[rs], .cons ⟨⟨_, hread⟩, fun r hr => a.hears_of_query hid fun h => hids h r hr⟩ .nil,
      by rw [List.flatten_singleton]⟩
  refine ⟨⟨overwrite s.memory (i * packetCapacity) d.bytes, t⟩, _, ?_,
    ⟨(overwrite_length ..).trans hs.memory, hholds⟩, hled, fun p hp => ?_⟩
  · rw [recvQuery]
    simp only [hrun]
    rfl
  · by_cases hname : Sought (dotted p.inst) ds
    · exact hled.sought hname
    -- the phone is new and there is room for it
    obtain ⟨hnew, hfree⟩ := not_or.mp hname
    have hfew := lt_of_le_of_ne hs.holds.length_le hfree
    obtain ⟨queryId, es, hanswers, hsent⟩ := hp.answers
    obtain ⟨addr, hfrom⟩ := hp.fromaddr
    rw [← buffer_take hi hs] at hanswers
    obtain ⟨u, e, hphone, hu, hserial, -⟩ := foldlM_phone (by omega) hanswers hs.holds hfew
      (fun e he hmatch => hnew ⟨e, he, hmatch⟩) addr
    have hsame := mdnsRecv_answers (by omega) hanswers (hp.asked hsent) d.fromaddr s.discovery
    rw [hfrom, hphone, ← hfrom, hrun] at hsame
    obtain rfl : t = u := congrArg Prod.snd (Option.some_inj.mp hsame)
    rw [hholds.unique hu]
    refine .inl ⟨e, by simp, ?_⟩
    rw [Device.Matches, strncmp_eq_zero_iff, ← hserial, Chars.str,
      text_of_notMem (zero_notMem_text _)]

/-- What the loop over `socks` gets, in its order: nothing over a socket without a query. -/
def served (answers : List SocketAnswer) (datagrams : List (Option Datagram)) :
    List SocketDatagram :=
  (answers.zip datagrams).filterMap fun x =>
    if x.1.query.queryId = 0 then none else x.2.map (SocketDatagram.mk x.1)

/-- One of the packets carries the answer of the phone. -/
def Bearing (answers : List SocketAnswer) (datagrams : List (Option Datagram)) (p : Phone) :
    Prop :=
  ∃ (j : Nat) (a : SocketAnswer) (d : Datagram), answers[j]? = some a ∧
    datagrams[j]? = some (some d) ∧ d.Bears a p

/-- What a part of the search makes of the devices: it gets the datagrams `xs`, and the
phones with `Q` have answered in it. -/
structure Searched (xs : List SocketDatagram) (Q : Phone → Prop) (ds ds' : List Device) : Prop where
  led : Led xs ds ds'
  sought : ∀ p, Q p → Sought (dotted p.inst) ds'

theorem Searched.refl (ds : List Device) : Searched [] (fun _ => False) ds ds :=
  ⟨.refl ds, fun _ h => h.elim⟩

section

variable {xs ys : List SocketDatagram} {Q R : Phone → Prop} {ds ds' ds'' : List Device}

theorem Searched.imp (h : Searched xs Q ds ds') (hR : ∀ p, R p → Q p) : Searched xs R ds ds' :=
  ⟨h.led, fun p hp => h.sought p (hR p hp)⟩

theorem Searched.trans (h : Searched xs Q ds ds') (h' : Searched ys R ds' ds'') :
    Searched (xs ++ ys) (fun p => Q p ∨ R p) ds ds'' :=
  ⟨h.led.trans h'.led, fun p hp =>
    hp.elim (fun hq => h'.led.sought (h.sought p hq)) (h'.sought p)⟩

end

/-- One turn of the loop over `socks`. -/
theorem recvQueries_cons {i : Nat} (hi : i < parallel) {a : SocketAnswer} {d : Option Datagram}
    (hs : s.Keeps ds) (hd : ∀ d', d = some d' → d'.Spares i) (as : List SocketAnswer)
    (datagrams : List (Option Datagram)) :
    ∃ t ds', recvQueries i ((a :: as).map SocketAnswer.query) (d :: datagrams) s =
        recvQueries (i + 1) (as.map SocketAnswer.query) datagrams t ∧ t.Keeps ds' ∧
      Searched (served [a] [d]) (fun p => ∃ d', d = some d' ∧ d'.Bears a p) ds ds' := by
  cases d with
  | none =>
    have hnothing : served [a] [none] = [] := by simp [served]
    rw [hnothing]
    exact ⟨s, ds, rfl, hs, (Searched.refl ds).imp (by rintro p ⟨_, hd, -⟩; cases hd)⟩
  | some d =>
    by_cases hid : a.query.queryId = 0
    · have hnothing : served [a] [some d] = [] := by simp [served, hid]
      rw [hnothing]
      refine ⟨s, ds, by simp [recvQueries, hid], hs, (Searched.refl ds).imp ?_⟩
      rintro p ⟨_, heq, hbears⟩
      cases heq
      exact hbears.queryId_ne hid
    · have hsome : served [a] [some d] = [⟨a, d⟩] := by simp [served, hid]
      obtain ⟨t, ds', hrun, ht, hled, hsought⟩ := recvQuery_spec hi hid hs (hd d rfl)
      rw [hsome]
      refine ⟨t, ds', by simp [recvQueries, hid, hrun], ht, hled, ?_⟩
      rintro p ⟨_, heq, hbears⟩
      cases heq
      exact hsought p hbears

theorem recvQueries_spec {i : Nat} {answers : List SocketAnswer}
    (hi : i + answers.length ≤ parallel) {datagrams : List (Option Datagram)} (hs : s.Keeps ds)
    (hd : ∀ j (d : Datagram), datagrams[j]? = some (some d) → d.Spares (i + j)) :
    ∃ t ds', recvQueries i (answers.map SocketAnswer.query) datagrams s = some t ∧ t.Keeps ds' ∧
      Searched (served answers datagrams) (Bearing answers datagrams) ds ds' := by
  induction answers generalizing i datagrams s ds with
  | nil =>
    refine ⟨s, ds, by simp [recvQueries], hs, (Searched.refl ds).imp ?_⟩
    rintro p ⟨j, a, d, ha, -⟩
    cases ha
  | cons a as ih =>
    rw [List.length_cons] at hi
    cases datagrams with
    | nil =>
      refine ⟨s, ds, by simp [recvQueries], hs, (Searched.refl ds).imp ?_⟩
      rintro p ⟨j, a, d, -, hd, -⟩
      cases hd
    | cons d datagrams =>
      have hrest : ∀ j (d : Datagram), datagrams[j]? = some (some d) → d.Spares (i + 1 + j) := by
        intro j d hj
        rw [Nat.add_assoc, Nat.add_comm 1]
        exact hd (j + 1) d hj
      obtain ⟨t, ds₁, hone, ht, hfirst⟩ := recvQueries_cons (a := a) (d := d) (by omega) hs
        (fun d' hd' => hd 0 d' (congrArg some hd')) as datagrams
      obtain ⟨u, ds₂, hrun, hu, hlater⟩ := ih (by omega) ht hrest
      have hsplit : served (a :: as) (d :: datagrams) =
          served [a] [d] ++ served as datagrams := List.filterMap_append (l := [(a, d)])
      rw [hsplit]
      refine ⟨u, ds₂, hone.trans hrun, hu, (hfirst.trans hlater).imp ?_⟩
      rintro p ⟨j, b, e, hb, he, hbears⟩
      cases j with
      | zero =>
        cases hb
        cases he
        exact .inl ⟨e, rfl, hbears⟩
      | succ j => exact .inr ⟨j, b, e, hb, he, hbears⟩

/-- No packet comes too close to the end of the last buffer. -/
def Poll.Spares (p : Poll) : Prop :=
  ∀ j (d : Datagram), p.datagrams[j]? = some (some d) → d.Spares j

/-- The loop goes on behind the round. -/
def Poll.GoesOn (p : Poll) (timeEnd : Nat) : Prop := 0 ≤ p.rc ∧ p.now < timeEnd

instance (p : Poll) (timeEnd : Nat) : Decidable (p.GoesOn timeEnd) :=
  inferInstanceAs (Decidable (_ ∧ _))

/-- The phone answers in the round. -/
def Poll.Brings (q : Poll) (answers : List SocketAnswer) (p : Phone) : Prop :=
  0 < q.rc ∧ Bearing answers q.datagrams p

/-- What comes in a round. -/
def Poll.received (q : Poll) (answers : List SocketAnswer) : List SocketDatagram :=
  if 0 < q.rc then served answers q.datagrams else []

/-- One round of the loop. -/
theorem pollLoop_cons {answers : List SocketAnswer} (hlen : answers.length ≤ parallel)
    {q : Poll} (hq : q.Spares) (hs : s.Keeps ds) (timeEnd : Nat) (qs : List Poll) :
    ∃ t ds', t.Keeps ds' ∧ Searched (q.received answers) (q.Brings answers) ds ds' ∧
      pollLoop (answers.map SocketAnswer.query) timeEnd (q :: qs) s =
        if q.GoesOn timeEnd then pollLoop (answers.map SocketAnswer.query) timeEnd qs t
        else some (t, true) := by
  unfold Poll.received
  by_cases herr : q.rc < 0
  · rw [if_neg (by omega)]
    refine ⟨s, ds, hs, (Searched.refl ds).imp fun p hp => ?_, ?_⟩
    · exact absurd hp.1 (by omega)
    · rw [pollLoop, if_pos herr, if_neg fun h => absurd h.1 (Int.not_le.mpr herr)]
  · have hgo : q.GoesOn timeEnd ↔ q.now < timeEnd := and_iff_right (Int.not_lt.mp herr)
    simp only [hgo]
    by_cases hzero : q.rc = 0
    · rw [if_neg (by omega)]
      refine ⟨s, ds, hs, (Searched.refl ds).imp fun p hp => ?_, ?_⟩
      · exact absurd hp.1 (by omega)
      · rw [pollLoop, if_neg herr, if_pos hzero]
        rfl
    · obtain ⟨t, ds', hrun, ht, hsearched⟩ := recvQueries_spec
        (show 0 + answers.length ≤ parallel by omega) hs fun j d hj => by
          rw [Nat.zero_add]
          exact hq j d hj
      rw [if_pos (by omega)]
      refine ⟨t, ds', ht, hsearched.imp fun p hp => hp.2, ?_⟩
      rw [pollLoop, if_neg herr, if_neg hzero, hrun]
      rfl

/-- The phone answers before the loop ends. -/
def Heeded (answers : List SocketAnswer) (timeEnd : Nat) (polls : List Poll) (p : Phone) : Prop :=
  ∃ before q after, polls = before ++ q :: after ∧ (∀ r ∈ before, r.GoesOn timeEnd) ∧
    q.Brings answers p

/-- The rounds of the loop, with the one behind which it ends. -/
def rounds (timeEnd : Nat) : List Poll → List Poll
  | [] => []
  | q :: qs => q :: if q.GoesOn timeEnd then rounds timeEnd qs else []

theorem pollLoop_spec {answers : List SocketAnswer} (hlen : answers.length ≤ parallel)
    {polls : List Poll} (hpolls : ∀ q ∈ polls, q.Spares) (hs : s.Keeps ds) (timeEnd : Nat) :
    ∃ t ds', t.Keeps ds' ∧ Searched ((rounds timeEnd polls).flatMap (·.received answers))
        (Heeded answers timeEnd polls) ds ds' ∧
      pollLoop (answers.map SocketAnswer.query) timeEnd polls s =
        some (t, !decide (∀ q ∈ polls, q.GoesOn timeEnd)) := by
  induction polls generalizing s ds with
  | nil =>
    refine ⟨s, ds, hs, (Searched.refl ds).imp ?_, by simp [pollLoop]⟩
    rintro p ⟨before, q, after, hnil, -⟩
    exact absurd hnil (by simp)
  | cons q qs ih =>
    obtain ⟨t, ds₁, ht, hfirst, hstep⟩ :=
      pollLoop_cons hlen (hpolls q (List.mem_cons_self ..)) hs timeEnd qs
    have hsplit : ∀ p, Heeded answers timeEnd (q :: qs) p →
        q.Brings answers p ∨ q.GoesOn timeEnd ∧ Heeded answers timeEnd qs p := by
      rintro p ⟨before, r, after, heq, hbefore, hbrings⟩
      cases before with
      | nil =>
        cases heq
        exact .inl hbrings
      | cons b before =>
        cases heq
        rw [List.forall_mem_cons] at hbefore
        exact .inr ⟨hbefore.1, before, r, after, rfl, hbefore.2, hbrings⟩
    rw [rounds, List.flatMap_cons]
    by_cases hgo : q.GoesOn timeEnd
    · rw [if_pos hgo]
      obtain ⟨u, ds₂, hu, hlater, hrun⟩ := ih (fun r hr => hpolls r (List.mem_cons_of_mem _ hr)) ht
      refine ⟨u, ds₂, hu, (hfirst.trans hlater).imp fun p hp => (hsplit p hp).imp_right And.right,
        ?_⟩
      rw [hstep, if_pos hgo, hrun]
      simp [hgo]
    · rw [if_neg hgo, List.flatMap_nil, List.append_nil]
      refine ⟨t, ds₁, ht, hfirst.imp fun p hp => (hsplit p hp).resolve_right (hgo ·.1), ?_⟩
      rw [hstep, if_neg hgo]
      simp [hgo]

/-! ## Sockets -/

theorem maxfd_eq_zero_iff (answers : List SocketAnswer) :
    maxfd (answers.map SocketAnswer.query) = 0 ↔ ∀ a ∈ answers, a.sock ≤ 0 := by
  have hmax : ∀ (queries : List Query) (fd : Int), 0 ≤ fd →
      (queries.foldl (fun fd q => if q.sock > fd then q.sock else fd) fd = 0 ↔
        fd = 0 ∧ ∀ q ∈ queries, q.sock ≤ 0) ∧
        0 ≤ queries.foldl (fun fd q => if q.sock > fd then q.sock else fd) fd := by
    intro queries
    induction queries with
    | nil => exact fun fd hfd => ⟨by simp, hfd⟩
    | cons q qs ih =>
      intro fd hfd
      rw [List.foldl_cons]
      split
      · rename_i hgt
        obtain ⟨hiff, hle⟩ := ih q.sock (by omega)
        refine ⟨hiff.trans ⟨fun h => by omega, fun h => ?_⟩, hle⟩
        have := h.2 q (List.mem_cons_self ..)
        omega
      · rename_i hle
        obtain ⟨hiff, hpos⟩ := ih fd hfd
        refine ⟨hiff.trans (and_congr_right fun hzero => ?_), hpos⟩
        rw [List.forall_mem_cons]
        exact (and_iff_right (by omega)).symm
  rw [maxfd, (hmax _ 0 le_rfl).1, List.forall_mem_map]
  refine (and_iff_right rfl).trans (forall₂_congr fun a _ => ?_)
  unfold SocketAnswer.query
  split
  · exact iff_of_true le_rfl (by omega)
  · rfl

theorem closed_eq (answers : List SocketAnswer) :
    ((answers.map SocketAnswer.query).map Query.sock).filter (fun sock => 0 < sock) =
      (answers.map SocketAnswer.sock).filter fun sock => 0 < sock := by
  induction answers with
  | nil => rfl
  | cons a as ih =>
    have hone : a.query.sock = if a.sock < 0 then 0 else a.sock := by
      unfold SocketAnswer.query
      split <;> rfl
    simp only [List.map_cons, List.filter_cons, ih, hone]
    split <;> rename_i hneg
    · have hno : ¬ 0 < a.sock := by omega
      simp [hno]
    · rfl

/-- The datagrams that a search gets, in their order. -/
def heard (answers : List SocketAnswer) (start : Nat) (polls : List Poll) : List SocketDatagram :=
  if ∃ a ∈ answers, 0 < a.sock then
    (rounds (1750 + start) polls).flatMap (·.received answers)
  else []

/-- The whole search. -/
theorem mdnsDoReload_eq {memory : List UInt8} (hm : Allocated memory)
    {answers : List SocketAnswer} (hlen : answers.length = parallel) (start : Nat)
    {polls : List Poll} (hpolls : ∀ q ∈ polls, q.Spares) {discovery : DeviceDiscovery}
    (hs : discovery.Holds ds) :
    ∃ t ds', t.Holds ds' ∧
      Searched (heard answers start polls) (Heeded answers (1750 + start) polls) ds ds' ∧
      mdnsDoReload memory answers start polls discovery =
        some (t, if (∃ a ∈ answers, 0 < a.sock) ∧ ∀ q ∈ polls, q.GoesOn (1750 + start) then none
          else some ((answers.map SocketAnswer.sock).filter fun sock => 0 < sock)) := by
  obtain ⟨memory', hopen, hm'⟩ := openQueries_eq (show 0 + answers.length ≤ parallel by omega) hm
  unfold mdnsDoReload
  simp only [hopen, Option.bind_eq_bind, Option.bind_some, closed_eq]
  by_cases hnone : maxfd (answers.map SocketAnswer.query) = 0
  · have hall := (maxfd_eq_zero_iff answers).mp hnone
    have hheard : heard answers start polls = [] :=
      if_neg fun ⟨a, ha, hpos⟩ => absurd (hall a ha) (Int.not_le.mpr hpos)
    rw [hheard]
    refine ⟨discovery, ds, hs, (Searched.refl ds).imp ?_, ?_⟩
    · rintro p ⟨-, -, -, -, -, -, j, a, d, ha, -, hbears⟩
      have := hall a (List.mem_of_getElem? ha)
      have := hbears.listens
      omega
    · rw [if_pos hnone, if_neg]
      · rfl
      · rintro ⟨⟨a, ha, hpos⟩, -⟩
        exact absurd (hall a ha) (Int.not_le.mpr hpos)
  · have hsome : ∃ a ∈ answers, 0 < a.sock := by
      by_contra hno
      push Not at hno
      exact hnone ((maxfd_eq_zero_iff answers).mpr hno)
    obtain ⟨t, ds', ht, hsearched, hrun⟩ := pollLoop_spec hlen.le hpolls
      (show MdnsState.Keeps ⟨memory', discovery⟩ ds from ⟨hm', hs⟩) (1750 + start)
    rw [heard, if_pos hsome]
    refine ⟨t.discovery, ds', ht.holds, hsearched, ?_⟩
    rw [if_neg hnone, hrun]
    by_cases hgo : ∀ q ∈ polls, q.GoesOn (1750 + start)
    · rw [if_pos ⟨hsome, hgo⟩, decide_eq_true hgo]
      rfl
    · rw [if_neg fun h => hgo h.2, decide_eq_false hgo]
      rfl

/-- **A search over three sockets.** Whatever the sockets receive, as long as no packet comes
too close to the end of the last buffer, nothing outside of what `malloc` has returned is
accessed, and the devices are what the records of the datagrams that it gets, in their order,
make of the devices before, all of them of responses to its queries. The search goes on until
`select` fails or the time is over, or ends at once without a socket; at its end it closes
the sockets but the descriptor 0. -/
theorem mdnsDoReload_safe {memory : List UInt8} (hm : Allocated memory)
    {answers : List SocketAnswer} (hlen : answers.length = parallel) (start : Nat)
    {polls : List Poll} (hpolls : ∀ q ∈ polls, q.Spares) {discovery : DeviceDiscovery}
    (hs : discovery.Holds ds) :
    ∃ t ds', t.Holds ds' ∧ Led (heard answers start polls) ds ds' ∧
      mdnsDoReload memory answers start polls discovery =
        some (t, if (∃ a ∈ answers, 0 < a.sock) ∧ ∀ q ∈ polls, q.GoesOn (1750 + start) then none
          else some ((answers.map SocketAnswer.sock).filter fun sock => 0 < sock)) := by
  obtain ⟨t, ds', ht, hsearched, hrun⟩ := mdnsDoReload_eq hm hlen start hpolls hs
  exact ⟨t, ds', ht, hsearched.led, hrun⟩

def threeSockets : List SocketAnswer := [⟨3, false, true⟩, ⟨4, false, true⟩, ⟨5, false, false⟩]

def pixelDatagram : Datagram :=
  ⟨80, pixelPacket, some (ascii "192.168.1.5"), by decide, by decide⟩

/-- A packet for the first socket, and then nothing until the time is over. -/
def pixelPolls : List Poll := [⟨1, [some pixelDatagram, none, none], 10⟩, ⟨0, [], 1760⟩]

theorem allocated_zeros : Allocated (List.replicate 6144 0) := List.length_replicate

theorem spares_pixelPolls : ∀ q ∈ pixelPolls, q.Spares := by
  have hfirst : pixelDatagram.Spares 0 := fun h => absurd h (by decide)
  simp only [pixelPolls, List.forall_mem_cons, Poll.Spares]
  refine ⟨fun j d hd => ?_, (fun j d hd => by cases hd), by simp⟩
  obtain rfl | rfl | rfl | hj : j = 0 ∨ j = 1 ∨ j = 2 ∨ 3 ≤ j := by omega
  · cases hd
    exact hfirst
  · cases hd
  · cases hd
  · rw [List.getElem?_eq_none (by simpa using hj)] at hd
    cases hd

theorem mdnsDoReload_safe_pixel : ∃ t rs,
    mdnsDoReload (List.replicate 6144 0) threeSockets 0 pixelPolls DeviceDiscovery.new =
      some (t, some [3, 4, 5]) ∧
    (∃ behind, packetRecords (pixelPacket ++ behind) 80 (some (ascii "192.168.1.5")) 3 = some rs) ∧
    t.Holds (rs.foldl (fun ds r => r.respond ds) []) := by
  obtain ⟨t, ds, hholds, ⟨rss, hreads, rfl⟩, hrun⟩ := @mdnsDoReload_safe [] _ allocated_zeros
    threeSockets rfl 0 _ spares_pixelPolls _ DeviceDiscovery.holds_new
  have hheard : heard threeSockets 0 pixelPolls = [⟨⟨3, false, true⟩, pixelDatagram⟩] := rfl
  rw [if_neg fun h => absurd (h.2 _ (List.mem_of_getElem? (i := 1) rfl)) (by decide)] at hrun
  rw [hheard] at hreads
  obtain ⟨rs, _, hread, ⟨⟩, rfl⟩ := List.forall₂_cons_left_iff.mp hreads
  rw [List.flatten_singleton] at hholds
  exact ⟨t, rs, hrun, hread.packet, hholds⟩

end DroidcamWhip
