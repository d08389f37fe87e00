import DroidcamWhip.Pipeline
import DroidcamWhip.Lib.Custody

/-!
Packet ownership: every packet a decoder has allocated is in exactly one of its
two queues and the hands of the two threads, and `alloc_count` counts them. What
the decoding thread pulls is what `read_frame` returned, in order and unaltered.
-/

namespace DroidcamWhip

/-! ## Effect of the pool operations -/

@[simp] theorem Decoder.setPacket_queues (d : Decoder) (a : Nat) (p : DataPacket) :
    (d.setPacket a p).recieveQueue = d.recieveQueue ∧
      (d.setPacket a p).decodeQueue = d.decodeQueue ∧
      (d.setPacket a p).issued = d.issued ∧ (d.setPacket a p).allocCount = d.allocCount :=
  ⟨rfl, rfl, rfl, rfl⟩

/-- Filling a packet changes that packet only, and not the size of its block. -/
theorem fill_done {d d' : Decoder} {a : Nat} {req : Request} {sock sock' : Sock}
    (h : fill d a req sock = .done d' sock') :
    ∃ p, d' = d.setPacket a p ∧ p.data.length = (d.heap a).data.length ∧
      p.used = req.config.length + req.len ∧ req.config <+: p.bytes := by
  simp only [fill] at h
  split at h
  · cases h
  · split at h
    · cases h
    · rename_i hroom
      split at h <;> cases h
      refine ⟨_, rfl, by simp, rfl, List.prefix_take_iff.mpr ⟨?_, Nat.le_add_right _ _⟩⟩
      have hw := bytes_of_writes (d.heap a) req.config (recvBlock (d.heap a) sock req.len).data
        (Nat.le_of_not_lt hroom)
      exact (List.prefix_append _ _).trans (hw ▸ List.take_prefix _ _)

theorem fill_short {d d' : Decoder} {a : Nat} {req : Request} {sock sock' : Sock}
    (h : fill d a req sock = .short d' sock') : ∃ p, d' = d.setPacket a p := by
  simp only [fill] at h
  split at h
  · cases h
  · split at h
    · cases h
    · split at h <;> cases h
      exact ⟨_, rfl⟩

/-- The receiving thread leaves the decoding thread and the record of its work
alone, and sets `failed` only. -/
theorem recvMove_record {e : Env} {s t : Pipeline} (hm : RecvMove e s t) :
    t.decodePc = s.decodePc ∧ t.pulled = s.pulled ∧ t.decoded = s.decoded ∧
      t.dec.kind = s.dec.kind ∧ s.arrivals <+: t.arrivals ∧
      (s.dec.failed = true → t.dec.failed = true) := by
  cases hm
  case short hpc hf =>
    obtain ⟨p, rfl⟩ := fill_short hf
    exact ⟨rfl, rfl, rfl, rfl, List.prefix_refl _, id⟩
  case filled hpc hf =>
    obtain ⟨p, rfl, _⟩ := fill_done hf
    exact ⟨rfl, rfl, rfl, rfl, List.prefix_append _ _, id⟩
  case initFails => exact ⟨rfl, rfl, rfl, rfl, List.prefix_refl _, fun _ => rfl⟩
  all_goals exact ⟨rfl, rfl, rfl, rfl, List.prefix_refl _, id⟩

/-! ## Custody -/

/-- The four places a packet can be in. -/
def Pipeline.places (s : Pipeline) : List (List Nat) :=
  [s.dec.recieveQueue, s.dec.decodeQueue, s.recvPc.hand, s.decodePc.hand]

structure Owned (s : Pipeline) : Prop where
  held : Custody.Held s.places s.dec.issued
  count : s.dec.allocCount = s.dec.issued

theorem owned_init (kind : Kind) (sock : Sock) : Owned (.init kind sock) :=
  ⟨fun a => by simp [Pipeline.places, Pipeline.init, Decoder.new, RecvPc.hand, DecodePc.hand], rfl⟩

theorem afterEnqueue_hand (kind : Kind) : (afterEnqueue kind).hand = [] := by
  rcases afterEnqueue_cases kind with h | h | h <;> simp [h, RecvPc.hand]

/-- A step of the receiving thread moves packets between places, or allocates
one into its own hand. -/
theorem recvMove_places {e : Env} {s t : Pipeline} (hm : RecvMove e s t) :
    (t.dec.issued = s.dec.issued ∧ t.dec.allocCount = s.dec.allocCount ∧
        ∀ b, Custody.occurrences t.places b = Custody.occurrences s.places b) ∨
      (t.dec.issued = s.dec.issued + 1 ∧ t.dec.allocCount = s.dec.allocCount + 1 ∧
        ∀ b, Custody.occurrences t.places b =
          Custody.occurrences s.places b + if b = s.dec.issued then 1 else 0) := by
  cases hm
  case allocate hpc =>
    refine .inr ⟨rfl, rfl, fun b => ?_⟩
    have hnew : [s.dec.issued].count b = if b = s.dec.issued then 1 else 0 := by
      by_cases hb : b = s.dec.issued
      · simp [hb]
      · simp [hb, Ne.symm hb]
    simp only [Pipeline.places, Custody.occurrences_cons, Custody.occurrences_nil,
      Decoder.newPacket, hpc, RecvPc.hand, hnew, List.count_nil]
    omega
  case short hpc hf =>
    obtain ⟨p, rfl⟩ := fill_short hf
    exact .inl ⟨rfl, rfl, fun b => by simp [Pipeline.places, hpc, RecvPc.hand]⟩
  case filled hpc hf =>
    obtain ⟨p, rfl, _⟩ := fill_done hf
    exact .inl ⟨rfl, rfl, fun b => by simp [Pipeline.places, hpc, RecvPc.hand]⟩
  case pop hpc hq =>
    refine .inl ⟨rfl, rfl, fun b => ?_⟩
    simp only [Pipeline.places, Custody.occurrences_cons, Custody.occurrences_nil,
      Decoder.reusePacket, hpc, hq, RecvPc.hand, List.count_cons, List.count_nil]
    omega
  case giveBack hpc | discardFailed hpc | discard hpc =>
    refine .inl ⟨rfl, rfl, fun b => ?_⟩
    simp only [Pipeline.places, Custody.occurrences_cons, Custody.occurrences_nil,
      Decoder.pushEmptyPacket, hpc, RecvPc.hand, List.count_append, List.count_nil]
    omega
  case enqueue hpc =>
    refine .inl ⟨rfl, rfl, fun b => ?_⟩
    have hnone := afterEnqueue_hand s.dec.kind
    simp only [Pipeline.places, Custody.occurrences_cons, Custody.occurrences_nil,
      Decoder.enqueue, hpc, hnone, List.count_append]
    simp only [RecvPc.hand, List.count_nil]
    omega
  case full hpc =>
    rcases hpc with hpc | hpc <;>
      exact .inl ⟨rfl, rfl, fun b => by simp [Pipeline.places, hpc, RecvPc.hand]⟩
  all_goals exact .inl ⟨rfl, rfl, fun b => by simp [Pipeline.places, *, RecvPc.hand]⟩

theorem decodeMove_places {s t : Pipeline} (hm : DecodeMove s t) :
    t.dec.issued = s.dec.issued ∧ t.dec.allocCount = s.dec.allocCount ∧
      ∀ b, Custody.occurrences t.places b = Custody.occurrences s.places b := by
  cases hm
  case pop hpc hq =>
    refine ⟨rfl, rfl, fun b => ?_⟩
    simp only [Pipeline.places, Custody.occurrences_cons, Custody.occurrences_nil, hpc, hq,
      DecodePc.hand, List.count_cons, List.count_nil]
    omega
  case push hpc =>
    refine ⟨rfl, rfl, fun b => ?_⟩
    simp only [Pipeline.places, Custody.occurrences_cons, Custody.occurrences_nil,
      Decoder.pushEmptyPacket, hpc, DecodePc.hand, List.count_append, List.count_nil]
    omega
  all_goals exact ⟨rfl, rfl, fun b => by simp [Pipeline.places, *, DecodePc.hand]⟩

theorem owned_step {s t : Pipeline} {a : Act} (hi : Owned s) (h : pipeline.step s a = some t) :
    Owned t := by
  obtain ⟨hh, hc⟩ := hi
  cases step_move h with
  | recv hm =>
    rcases recvMove_places hm with ⟨hn, ha, ho⟩ | ⟨hn, ha, ho⟩
    · exact ⟨hn ▸ hh.move ho, by omega⟩
    · exact ⟨hn ▸ hh.issue ho, by omega⟩
  | leave hpc =>
    exact ⟨hh.move fun b => by simp [Pipeline.places, hpc, RecvPc.hand], hc⟩
  | decode _ hm =>
    obtain ⟨hn, ha, ho⟩ := decodeMove_places hm
    exact ⟨hn ▸ hh.move ho, by omega⟩

theorem owned_of_reachable {s : Pipeline} (h : pipeline.Reachable s) : Owned s := by
  refine h.invariant ?_ fun _ _ _ _ hi _ hs => owned_step hi hs
  rintro _ ⟨kind, sock, rfl⟩
  exact owned_init kind sock

/-! ## Contents and order -/

/-- The packets that `push_ready_packet` queued. -/
def accepted (verdicts : List (Arrival × Bool)) : List Arrival :=
  (verdicts.filter (·.2)).map (·.1)

/-- The arrival that the receiving thread has not yet queued or discarded. -/
def RecvPc.pending : RecvPc → List Arrival
  | .failedTest _ x | .readyTest _ x | .pushStart _ x | .discard _ x | .enqueue _ x => [x]
  | _ => []

structure Faithful (s : Pipeline) : Prop where
  fifo : s.pulled ++ s.dec.decodeQueue.map s.dec.heap = (accepted s.verdicts).map (·.packet)
  inHand : ∀ a ∈ s.decodePc.hand, s.pulled.getLast? = some (s.dec.heap a)
  current : ∀ x ∈ s.recvPc.pending, ∀ a ∈ s.recvPc.hand, s.dec.heap a = x.packet
  order : (s.verdicts.map (·.1) ++ s.recvPc.pending).Sublist s.arrivals

theorem accepted_append (v w : List (Arrival × Bool)) :
    accepted (v ++ w) = accepted v ++ accepted w := by
  simp [accepted]

theorem accepted_append_true (v : List (Arrival × Bool)) (x : Arrival) :
    accepted (v ++ [(x, true)]) = accepted v ++ [x] := by
  simp [accepted]

theorem accepted_append_false (v : List (Arrival × Bool)) (x : Arrival) :
    accepted (v ++ [(x, false)]) = accepted v := by
  simp [accepted]

theorem map_update_of_notMem {f : Nat → DataPacket} {a : Nat} {p : DataPacket} {q : List Nat}
    (h : a ∉ q) : q.map (Function.update f a p) = q.map f :=
  List.map_congr_left fun _ hb => Function.update_of_ne (ne_of_mem_of_not_mem hb h) p f

theorem afterEnqueue_pending (kind : Kind) : (afterEnqueue kind).pending = [] := by
  rcases afterEnqueue_cases kind with h | h | h <;> simp [h, RecvPc.pending]

/-- A packet that is neither queued for decoding nor in the decoding thread's
hand can be written without either noticing. -/
theorem faithful_write {s : Pipeline} {a : Nat} {p : DataPacket}
    (hi : Faithful s) (hq : a ∉ s.dec.decodeQueue) (hd : a ∉ s.decodePc.hand) :
    s.pulled ++ s.dec.decodeQueue.map (Function.update s.dec.heap a p) =
        (accepted s.verdicts).map (·.packet) ∧
      ∀ b ∈ s.decodePc.hand, s.pulled.getLast? = some (Function.update s.dec.heap a p b) := by
  refine ⟨(map_update_of_notMem hq).symm ▸ hi.fifo, fun b hb => ?_⟩
  rw [Function.update_of_ne (ne_of_mem_of_not_mem hb hd)]
  exact hi.inHand b hb

theorem faithful_init (kind : Kind) (sock : Sock) : Faithful (.init kind sock) :=
  ⟨rfl, by simp [Pipeline.init, DecodePc.hand], by simp [Pipeline.init, RecvPc.pending],
    List.Sublist.refl _⟩

theorem faithful_recv {e : Env} {s t : Pipeline} (ho : Owned s) (hi : Faithful s)
    (hm : RecvMove e s t) : Faithful t := by
  have hfresh : s.dec.issued ∉ s.dec.decodeQueue ∧ s.dec.issued ∉ s.decodePc.hand := by
    have := ho.held s.dec.issued
    simp only [Pipeline.places, Custody.occurrences_cons, Custody.occurrences_nil] at this
    rw [if_neg (by omega)] at this
    simp only [← List.count_pos_iff]
    omega
  have hown : ∀ a ∈ s.recvPc.hand, a ∉ s.dec.decodeQueue ∧ a ∉ s.decodePc.hand := fun a ha =>
    ⟨fun h => ((ho.held.apart a).2.1 h).1 ha, (ho.held.apart a).2.2 ha⟩
  have ⟨hfifo, hhand, hcur, horder⟩ := hi
  have hdone : (s.verdicts.map (·.1) ++ ([] : List Arrival)).Sublist s.arrivals :=
    (List.append_nil _).symm ▸ (List.sublist_append_left _ _).trans horder
  cases hm
  case pop a q hpc hq =>
    obtain ⟨hdq, _, hdh⟩ := (ho.held.apart a).1 (by simp [hq])
    obtain ⟨h₁, h₂⟩ := faithful_write hi hdq hdh
    exact ⟨h₁, h₂, by simp [RecvPc.pending], hdone⟩
  case allocate hpc =>
    obtain ⟨h₁, h₂⟩ := faithful_write hi hfresh.1 hfresh.2
    exact ⟨h₁, h₂, by simp [RecvPc.pending], hdone⟩
  case short a dec sock hpc hf =>
    obtain ⟨p, rfl⟩ := fill_short hf
    obtain ⟨hdq, hdh⟩ := hown a (by simp [hpc, RecvPc.hand])
    obtain ⟨h₁, h₂⟩ := faithful_write hi hdq hdh
    exact ⟨h₁, h₂, by simp [RecvPc.pending], hdone⟩
  case filled req a dec sock hpc hf =>
    obtain ⟨p, rfl, _⟩ := fill_done hf
    obtain ⟨hdq, hdh⟩ := hown a (by simp [hpc, RecvPc.hand])
    obtain ⟨h₁, h₂⟩ := faithful_write hi hdq hdh
    refine ⟨h₁, h₂, ?_, ?_⟩
    · simp [RecvPc.pending, RecvPc.hand, Pipeline.arrival]
    · rw [List.append_nil] at hdone
      exact hdone.append (List.Sublist.refl _)
  case notFailed a x hpc _ | ready a x hpc _ | initOk a x hpc _ | drop a x hpc _
      | keep a x hpc _ =>
    rw [hpc] at hcur horder
    exact ⟨hfifo, hhand, hcur, horder⟩
  case discard a x hpc =>
    rw [hpc] at horder
    refine ⟨?_, hhand, by simp [RecvPc.pending], ?_⟩
    · simpa [Decoder.pushEmptyPacket, accepted_append, accepted] using hfifo
    · simpa [RecvPc.pending] using horder
  case enqueue a x hpc =>
    -- the packet moves from the hand, whose contents are the arrival's, to the queue
    have hx : s.dec.heap a = x.packet :=
      hcur x (by simp [hpc, RecvPc.pending]) a (by simp [hpc, RecvPc.hand])
    rw [hpc] at horder
    refine ⟨?_, hhand, by simp [afterEnqueue_pending], ?_⟩
    · simp [Decoder.enqueue, accepted_append, ← hfifo, hx]
      rfl
    · simp only [afterEnqueue_pending, List.map_append, List.map_cons, List.map_nil,
        List.append_nil]
      exact horder
  all_goals exact ⟨hfifo, hhand, by simp [RecvPc.pending, *], by simpa [RecvPc.pending, *] using hdone⟩

theorem faithful_decode {s t : Pipeline} (hi : Faithful s) (hm : DecodeMove s t) :
    Faithful t := by
  have ⟨hfifo, hhand, hcur, horder⟩ := hi
  cases hm
  case pop a q hpc hq =>
    refine ⟨?_, by simp [DecodePc.hand], hcur, horder⟩
    simpa [hq] using hfifo
  case push hpc => exact ⟨hfifo, by simp [DecodePc.hand], hcur, horder⟩
  all_goals
    refine ⟨hfifo, ?_, hcur, horder⟩
    first
      | exact hhand
      | simp [DecodePc.hand, *]

theorem faithful_of_reachable {s : Pipeline} (h : pipeline.Reachable s) : Faithful s := by
  refine h.invariant ?_ fun s a t hr hi _ hs => ?_
  · rintro _ ⟨kind, sock, rfl⟩
    exact faithful_init kind sock
  · cases step_move hs with
    | recv hm => exact faithful_recv (owned_of_reachable hr) hi hm
    | leave hpc => exact ⟨hi.fifo, hi.inHand, by simp [RecvPc.pending],
        by simpa [RecvPc.pending, hpc] using hi.order⟩
    | decode _ hm => exact faithful_decode hi hm

/-! ## What the two queues promise -/

/-- The pulled packets are the first accepted ones, in order and unaltered. -/
theorem pulled_initial {s : Pipeline} (h : pipeline.Reachable s) :
    s.pulled <+: (accepted s.verdicts).map (·.packet) :=
  ⟨_, (faithful_of_reachable h).fifo⟩

theorem accepted_sublist {s : Pipeline} (h : pipeline.Reachable s) :
    (accepted s.verdicts).Sublist s.arrivals :=
  (List.filter_sublist.map _).trans
    ((List.sublist_append_left _ _).trans (faithful_of_reachable h).order)

/-- Catching up starts behind a queued packet. -/
theorem accepted_of_catchup {s : Pipeline} (h : pipeline.Reachable s)
    (hs : s.dec.catchup = true ∨ s.recvPc.testing) : accepted s.verdicts ≠ [] := by
  refine h.invariant (I := fun s => s.dec.catchup = true ∨ s.recvPc.testing →
    accepted s.verdicts ≠ []) ?_ ?_ hs
  · rintro _ ⟨kind, sock, rfl⟩ h
    simp [Pipeline.init, Decoder.new, RecvPc.testing] at h
  · intro s a t _ hi _ hstep
    cases step_move hstep with
    | leave hpc => exact fun h => hi (h.imp_right (by simp [RecvPc.testing]))
    | decode _ hm =>
      obtain ⟨_, _, hcatch, _, hpc⟩ := decodeMove_queue hm
      obtain ⟨_, _, hv, _, _⟩ := decodeMove_record hm
      rw [hcatch, hpc, hv]
      exact hi
    | recv hm =>
      cases hm
      case keep => simp [RecvPc.testing]
      case discard a x hpc =>
        rw [accepted_append_false]
        exact fun h => hi (h.imp_right (by simp [RecvPc.testing]))
      case enqueue a x hpc =>
        rw [accepted_append_true]
        simp
      case aacLow hpc => exact fun _ => hi (.inr (.inl hpc))
      case full hpc => exact fun _ => hi (.inr hpc)
      case short hpc hf =>
        obtain ⟨p, rfl⟩ := fill_short hf
        exact fun h => hi (h.imp_right (by simp [RecvPc.testing]))
      case filled hpc hf =>
        obtain ⟨p, rfl, _⟩ := fill_done hf
        exact fun h => hi (h.imp_right (by simp [RecvPc.testing]))
      case wait => exact hi
      all_goals exact fun h => hi (h.imp_right (by simp [RecvPc.testing]))

/-- How far `decode_video` is behind the pulls. -/
def DecodePc.behind (pc : DecodePc) (failed : Bool) (decoded pulled : List DataPacket) : Prop :=
  match pc with
  | .failedTest _ => (failed = true ∧ decoded <+: pulled) ∨ decoded = pulled.dropLast
  | .decoding _ => decoded = pulled.dropLast
  | .markFailed _ => decoded <+: pulled
  | _ => decoded = pulled ∨ (failed = true ∧ decoded <+: pulled)

theorem behind_failed {pc : DecodePc} {failed failed' : Bool} {decoded pulled : List DataPacket}
    (hf : failed = true → failed' = true) (h : pc.behind failed decoded pulled) :
    pc.behind failed' decoded pulled := by
  cases pc <;> simp only [DecodePc.behind] at h ⊢
  case failedTest => exact h.imp_left (.imp_left hf)
  case decoding | markFailed => exact h
  all_goals exact h.imp_right (.imp_left hf)

theorem behind_decode {s t : Pipeline} (hf : Faithful s)
    (hi : s.decodePc.behind s.dec.failed s.decoded s.pulled) (hm : DecodeMove s t) :
    t.decodePc.behind t.dec.failed t.decoded t.pulled := by
  have hhand := hf.inHand
  cases hm
  case found hpc _ | popNothing hpc _ | push hpc =>
    rw [hpc] at hi
    exact hi
  case sleep => exact hi
  case pop a q hpc hq =>
    rw [hpc] at hi
    rcases hi with hi | ⟨hfail, hi⟩
    · exact .inr (by simp [hi])
    · exact .inl ⟨hfail, hi.trans (List.prefix_append _ _)⟩
  case failed a hpc hfail =>
    rw [hpc] at hi
    rcases hi with hi | hi
    · exact .inr hi
    · exact .inr ⟨hfail, hi ▸ List.dropLast_prefix _⟩
  case notFailed a hpc hfail =>
    rw [hpc] at hi
    exact hi.resolve_left (by simp [hfail])
  case decoded a hpc | decodeFails a hpc =>
    rw [hpc] at hi hhand
    have hlast := hhand a (by simp [DecodePc.hand])
    have heq : s.decoded ++ [s.dec.heap a] = s.pulled := by
      rw [hi]
      exact List.dropLast_append_getLast? _ hlast
    first
      | exact .inl heq
      | exact heq ▸ List.prefix_refl _
  case markFailed a hpc =>
    rw [hpc] at hi
    exact .inr ⟨rfl, hi⟩

/-- `decode_video` is given the packets pulled, in order, up to the first failure. -/
theorem decoded_initial {s : Pipeline} (h : pipeline.Reachable s) : s.decoded <+: s.pulled := by
  have hi : s.decodePc.behind s.dec.failed s.decoded s.pulled := by
    refine h.invariant (I := fun s => s.decodePc.behind s.dec.failed s.decoded s.pulled) ?_ ?_
    · rintro _ ⟨kind, sock, rfl⟩
      exact .inl rfl
    · intro s a t hr hi _ hs
      cases step_move hs with
      | leave => exact hi
      | decode _ hm => exact behind_decode (faithful_of_reachable hr) hi hm
      | recv hm =>
        obtain ⟨hpc, hp, hd, _, _, hf⟩ := recvMove_record hm
        rw [hpc, hp, hd]
        exact behind_failed hf hi
  cases hpc : s.decodePc <;> simp only [hpc, DecodePc.behind] at hi
  case failedTest =>
    rcases hi with hi | hi
    · exact hi.2
    · exact hi ▸ List.dropLast_prefix _
  case decoding => exact hi ▸ List.dropLast_prefix _
  case markFailed => exact hi
  all_goals
    rcases hi with hi | hi
    · exact hi ▸ List.prefix_refl _
    · exact hi.2

/-- **Custody.** In every state that the two threads reach before the decoder is
gone, each packet allocated is in one of the queues or hands, once, and
`alloc_count` is their number. Packets are pulled in the order and with the
contents in which `read_frame` returned them; when the wait of `release_decoder`
finds the pool full, no packet is queued or being decoded; and once neither
thread holds a packet, `~Decoder` frees each of them once and counts to zero. -/
theorem packets_conserved {s : Pipeline} (h : pipeline.Reachable s) :
    (∀ a, s.dec.recieveQueue.count a + s.dec.decodeQueue.count a +
        s.recvPc.hand.count a + s.decodePc.hand.count a = if a < s.dec.issued then 1 else 0) ∧
      s.dec.allocCount = s.dec.recieveQueue.length + s.dec.decodeQueue.length +
        s.recvPc.hand.length + s.decodePc.hand.length ∧
      (s.pulled.map DataPacket.frame).Sublist (s.arrivals.map (·.packet.frame)) ∧
      (s.recvPc = .releasing → s.dec.allocCount ≤ s.dec.recieveQueue.length →
        s.dec.decodeQueue = [] ∧ s.decodePc.hand = []) ∧
      (s.recvPc.hand = [] → s.decodePc.hand = [] →
        s.dec.destroy.2 = 0 ∧ s.dec.destroy.1.Perm (List.range s.dec.issued)) := by
  obtain ⟨hheld, hcount⟩ := owned_of_reachable h
  have htotal := hheld.total
  simp only [Pipeline.places, List.map_cons, List.map_nil, List.sum_cons, List.sum_nil] at htotal
  refine ⟨fun a => ?_, by omega, ?_, ?_, ?_⟩
  · have ha := hheld a
    simp only [Pipeline.places, Custody.occurrences_cons, Custody.occurrences_nil] at ha
    omega
  · have hsub := ((pulled_initial h).sublist.trans ((accepted_sublist h).map _)).map DataPacket.frame
    rwa [List.map_map] at hsub
  · intro _ hfull
    constructor <;> apply List.eq_nil_of_length_eq_zero <;> omega
  · intro hrecv hdecode
    have hperm := (Custody.held_iff_perm _ _).mp hheld
    rw [Decoder.destroy_eq]
    constructor
    · simp only [hrecv, hdecode, List.length_nil] at htotal
      omega
    · simpa [Pipeline.places, hrecv, hdecode] using hperm

/-- One key frame received, queued and pulled. -/
theorem packets_conserved_keyFrame : ∃ s, pipeline.Reachable s ∧ s.pulled ≠ [] ∧
    (s.pulled.map DataPacket.frame).Sublist (s.arrivals.map (·.packet.frame)) := by
  obtain ⟨s, hs, hp⟩ := pipeline.reachable_of_replay (fun s => s.pulled.length = 1)
    (.init (.ffmpeg .h264) ⟨encodeHeader 7 5 ++ [0, 0, 0, 1, 101], false, 0⟩)
    (List.replicate 8 (.recv .quiet) ++ List.replicate 2 (.decode true))
    ⟨_, _, rfl⟩ (by decide +kernel)
  refine ⟨s, hs, ?_, (packets_conserved hs).2.2.1⟩
  rintro h
  simp [h] at hp

end DroidcamWhip
