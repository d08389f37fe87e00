import DroidcamWhip.Ownership

/-!
Bounds on the backlog of a decoder. The catch-up flag and the two size tests of
`push_ready_packet` bound `decodeQueue`, although the decoding thread shortens it
between them; and since a packet is allocated only when the pool is empty, that
bounds `alloc_count` as well.
-/

namespace DroidcamWhip

/-- The longest `decodeQueue` of a decoder. -/
def Kind.backlog : Kind → Nat
  | .ffmpeg _ => 31
  | .mjpeg => 2

structure Bounded (s : Pipeline) : Prop where
  queue : s.dec.decodeQueue.length ≤ s.dec.kind.backlog
  enqueue : ∀ a x, s.recvPc = .enqueue a x → s.dec.decodeQueue.length < s.dec.kind.backlog
  flowing : s.dec.kind ≠ .mjpeg → s.dec.catchup = false → ¬ s.recvPc.testing →
    s.dec.decodeQueue.length < s.dec.kind.backlog
  allocating : ∀ req, s.recvPc = .pullNew req → s.dec.issued ≤ s.dec.kind.backlog + 1
  issued : s.dec.issued ≤ s.dec.kind.backlog + 2

theorem bounded_init (kind : Kind) (sock : Sock) : Bounded (.init kind sock) := by
  have hpos : 0 < kind.backlog := by cases kind <;> simp [Kind.backlog]
  exact ⟨Nat.zero_le _, by simp [Pipeline.init], fun _ _ _ => hpos, by simp [Pipeline.init],
    Nat.zero_le _⟩

/-- A packet that `push_ready_packet` does not discard finds room in the queue. -/
theorem room_of_not_discards {s : Pipeline} (hi : Bounded s) {p : DataPacket} {oob : UInt8}
    (hpc : ¬ s.recvPc.testing) (hd : s.dec.discards p oob = false) :
    s.dec.decodeQueue.length < s.dec.kind.backlog := by
  cases hk : s.dec.kind with
  | mjpeg =>
    simp only [Decoder.discards, hk, decide_eq_false_iff_not] at hd
    simp only [Kind.backlog]
    omega
  | ffmpeg id =>
    cases hc : s.dec.catchup with
    | false => simpa only [hk] using hi.flowing (by simp [hk]) hc hpc
    | true =>
      simp only [Decoder.discards, hk, hc, Bool.true_and, Bool.or_eq_false_iff,
        decide_eq_false_iff_not] at hd
      simp only [Kind.backlog]
      omega

theorem DecodePc.hand_length (pc : DecodePc) : pc.hand.length ≤ 1 := by
  cases pc <;> simp [DecodePc.hand]

theorem bounded_recv {e : Env} {s t : Pipeline} (ho : Owned s) (hi : Bounded s)
    (hm : RecvMove e s t) : Bounded t := by
  have ⟨hqueue, henq, hflow, halloc, hissued⟩ := hi
  cases hm
  case poolEmpty req hpc hq =>
    -- all packets are queued or in the hand of the decoding thread
    have htotal := ho.held.total
    have hhand := s.decodePc.hand_length
    simp only [Pipeline.places, hq, hpc, RecvPc.hand, List.map_cons, List.map_nil,
      List.sum_cons, List.sum_nil, List.length_nil] at htotal
    refine ⟨hqueue, by simp, fun hk hc _ => hflow hk hc (by simp [RecvPc.testing, hpc]), ?_,
      hissued⟩
    intro _ _
    simp only
    omega
  case allocate req hpc =>
    exact ⟨hqueue, by simp, fun hk hc _ => hflow hk hc (by simp [RecvPc.testing, hpc]), by simp,
      Nat.succ_le_succ (halloc req hpc)⟩
  case pop hpc hq =>
    exact ⟨hqueue, by simp, fun hk hc _ => hflow hk hc (by simp [RecvPc.testing, hpc]), by simp,
      hissued⟩
  case short hpc hf =>
    obtain ⟨p, rfl⟩ := fill_short hf
    exact ⟨hqueue, by simp, fun hk hc _ => hflow hk hc (by simp [RecvPc.testing, hpc]), by simp,
      hissued⟩
  case filled hpc hf =>
    obtain ⟨p, rfl, _⟩ := fill_done hf
    exact ⟨hqueue, by simp, fun hk hc _ => hflow hk hc (by simp [RecvPc.testing, hpc]), by simp,
      hissued⟩
  case keep hpc hd =>
    have hroom := room_of_not_discards hi (by simp [RecvPc.testing, hpc]) hd
    exact ⟨hqueue, fun _ _ _ => hroom, fun _ _ _ => hroom, by simp, hissued⟩
  case enqueue a x hpc =>
    have hroom := henq a x hpc
    refine ⟨?_, ?_, fun hk _ hpc' => absurd (afterEnqueue_testing hk) hpc', ?_, hissued⟩
    · simp only [Decoder.enqueue, List.length_append, List.length_singleton]
      omega
    · intro b y h
      simpa [RecvPc.hand] using (congrArg RecvPc.hand h).symm.trans (afterEnqueue_hand _)
    · intro req h
      rcases afterEnqueue_cases s.dec.kind with h' | h' | h' <;> simp [h'] at h
  case aacLow hpc => exact ⟨hqueue, by simp, fun _ _ h => absurd (.inr rfl) h, by simp, hissued⟩
  case full hpc => exact ⟨hqueue, by simp, by simp, by simp, hissued⟩
  case notFull hpc hl =>
    refine ⟨hqueue, by simp, fun hk _ _ => ?_, by simp, hissued⟩
    cases hkind : s.dec.kind with
    | mjpeg => exact absurd hkind hk
    | ffmpeg id => exact Nat.lt_succ_of_le hl
  case wait hpc => exact hi
  all_goals
    exact ⟨hqueue, by simp, fun hk hc _ => hflow hk hc (by simp [RecvPc.testing, *]), by simp,
      hissued⟩

theorem bounded_decode {s t : Pipeline} (hi : Bounded s) (hm : DecodeMove s t) : Bounded t := by
  obtain ⟨hqueue, henq, hflow, halloc, hissued⟩ := hi
  obtain ⟨hlen, hkind, hcatchup, hiss, hpc⟩ := decodeMove_queue hm
  constructor <;> rw [hkind]
  · exact hlen.trans hqueue
  · intro a x h
    exact hlen.trans_lt (henq a x (hpc ▸ h))
  · intro hk hc ht
    exact hlen.trans_lt (hflow hk (hcatchup ▸ hc) (hpc ▸ ht))
  · intro req h
    exact hiss ▸ halloc req (hpc ▸ h)
  · exact hiss ▸ hissued

theorem bounded_of_reachable {s : Pipeline} (h : pipeline.Reachable s) : Bounded s := by
  refine h.invariant ?_ fun s a t hr hi _ hs => ?_
  · rintro _ ⟨kind, sock, rfl⟩
    exact bounded_init kind sock
  · cases step_move hs with
    | recv hm => exact bounded_recv (owned_of_reachable hr) hi hm
    | leave hpc =>
      exact ⟨hi.queue, by simp,
        fun hk hc _ => hi.flowing hk hc (by simp [RecvPc.testing, hpc]), by simp, hi.issued⟩
    | decode _ hm => exact bounded_decode hi hm

/-- **Backlog and memory are bounded.** -/
theorem backlog_bounded {s : Pipeline} (h : pipeline.Reachable s) :
    (∀ id, s.dec.kind = .ffmpeg id →
        s.dec.decodeQueue.length ≤ 31 ∧ s.dec.allocCount ≤ 33) ∧
      (s.dec.kind = .mjpeg → s.dec.decodeQueue.length ≤ 2 ∧ s.dec.allocCount ≤ 4) := by
  have hi := bounded_of_reachable h
  have hcount := (owned_of_reachable h).count
  have hq := hi.queue
  have hn := hi.issued
  constructor
  · intro id hk
    simp only [hk, Kind.backlog] at hq hn
    omega
  · intro hk
    simp only [hk, Kind.backlog] at hq hn
    omega

/-- Three JPEG packets sent to a decoding thread that never runs: two are queued
and the third is back in the pool. -/
theorem backlog_bounded_jpeg : ∃ s, pipeline.Reachable s ∧ s.dec.kind = .mjpeg ∧
    s.verdicts.length = 3 ∧ s.dec.decodeQueue.length ≤ 2 ∧ s.dec.allocCount ≤ 4 := by
  obtain ⟨s, hs, hp⟩ := pipeline.reachable_of_replay
    (fun s => s.dec.kind = .mjpeg ∧ s.verdicts.length = 3)
    (.init .mjpeg ⟨encodeHeader 1 1 ++ [7] ++ (encodeHeader 2 1 ++ [7]) ++
      (encodeHeader 3 1 ++ [7]), false, 0⟩)
    (List.replicate 24 (.recv .quiet)) ⟨_, _, rfl⟩ (by decide +kernel)
  obtain ⟨hk, hv⟩ := of_decide_eq_true hp
  exact ⟨s, hs, hk, hv, (backlog_bounded hs).2 hk⟩

end DroidcamWhip
