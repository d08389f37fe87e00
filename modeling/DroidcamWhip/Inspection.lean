import DroidcamWhip.CatchUp

/-!
The bytes of a packet that `FFMpegDecoder::push_ready_packet` looks at to find the
NAL type while it catches up. It does not compare them with `used`, and the
parser lets packets of a single byte through.
-/

namespace DroidcamWhip

/-! ## The reads -/

/-- A read of `packet->data[index]` for a packet with `used` bytes. -/
structure HeaderRead where
  index : Nat
  used : Nat
  deriving DecidableEq

/-- `push_ready_packet` gets past the test of the queue, to a codec whose NAL
types it knows. -/
def Decoder.inspects (d : Decoder) : Bool :=
  d.catchup && d.decodeQueue.length ≤ 1 && (d.kind = .ffmpeg .h264 || d.kind = .ffmpeg .h265)

/-- The reads of `headerByte`. -/
def headerReads (p : DataPacket) (oob : UInt8) : List HeaderRead :=
  [⟨2, p.used⟩, if p.data.getD 2 oob = 1 then ⟨3, p.used⟩ else ⟨4, p.used⟩]

/-- The reads that `push_ready_packet` makes in a step. -/
def Pipeline.headerReads (s : Pipeline) : Act → List HeaderRead
  | .recv e =>
      match s.recvPc with
      | .pushStart a _ =>
          if s.dec.inspects then DroidcamWhip.headerReads (s.dec.heap a) e.oob else []
      | _ => []
  | _ => []

/-- A packet with a NAL header where it is looked for: five bytes, or four
whose third ends a short start code. -/
def DataPacket.Classifiable (p : DataPacket) : Prop :=
  4 < p.used ∨ (p.used = 4 ∧ p.bytes[2]? = some 1)

/-- The step does not look for the NAL type in a packet that was received without
one. -/
def InspectsHeader (s : Pipeline) : Act → Prop
  | .recv _ => ∀ a x, s.recvPc = .pushStart a x → s.dec.inspects = true → x.packet.Classifiable
  | _ => True

/-- A classifiable packet is read within its bytes. -/
theorem headerReads_inside {p : DataPacket} (h : p.Classifiable) (oob : UInt8) :
    ∀ r ∈ headerReads p oob, r.index < r.used := by
  rcases h with hlong | ⟨hfour, hstart⟩
  · intro r hr
    simp only [headerReads, List.mem_cons, List.not_mem_nil, or_false] at hr
    rcases hr with rfl | rfl
    · exact Nat.lt_trans (by decide : 2 < 4) hlong
    · split
      · exact Nat.lt_trans (by decide : 3 < 4) hlong
      · exact hlong
  · rw [headerReads, if_pos (DataPacket.data_getD hstart oob), hfour]
    decide

/-- In a packet that is not classifiable, one of the reads is beyond its bytes. -/
theorem headerReads_outside {p : DataPacket} (hroom : p.used ≤ p.data.length)
    (h : ¬ p.Classifiable) (oob : UInt8) : ∃ r ∈ headerReads p oob, r.used ≤ r.index := by
  have hsecond : 3 ≤ p.used → p.used ≤ 3 ∨ p.data.getD 2 oob ≠ 1 := by
    intro hthree
    rcases Nat.lt_or_ge 3 p.used with hfour | hle
    · right
      intro hone
      have hused : p.used = 4 := Nat.le_antisymm (Nat.le_of_not_lt fun hlt => h (.inl hlt)) hfour
      have hget : p.bytes[2]? = some (p.data.getD 2 oob) := by
        rw [DataPacket.bytes, List.getElem?_take_of_lt hthree,
          List.getElem?_eq_getElem (by omega), List.getD_eq_getElem?_getD,
          List.getElem?_eq_getElem (by omega), Option.getD_some]
      exact h (.inr ⟨hused, hone ▸ hget⟩)
    · exact .inl hle
  have hle : p.used ≤ 4 := Nat.le_of_not_lt fun hlt => h (.inl hlt)
  rcases Nat.lt_or_ge p.used 3 with hshort | hthree
  · exact ⟨⟨2, p.used⟩, by simp [headerReads], Nat.le_of_lt_succ hshort⟩
  · refine ⟨_, List.mem_cons_of_mem _ (List.mem_singleton_self _), ?_⟩
    rcases hsecond hthree with hlow | hfour
    · split
      · exact hlow
      · exact hle
    · rw [if_neg hfour]
      exact hle

/-! ## Runs -/

/-- The packet in the receiving thread's hand is the one that arrived. -/
theorem heap_of_pushStart {s : Pipeline} (h : pipeline.Reachable s) {a : Nat} {x : Arrival}
    (hpc : s.recvPc = .pushStart a x) : s.dec.heap a = x.packet :=
  (faithful_of_reachable h).current x (by simp [hpc, RecvPc.pending]) a (by simp [hpc, RecvPc.hand])

/-- The request that the receiving thread is reading the payload of. -/
def RecvPc.requests : RecvPc → List Request
  | .pullTest req | .pullPop req | .pullNew req | .fill req _ => [req]
  | _ => []

/-- A payload read in full was stored in full. -/
theorem fill_stored {d d' : Decoder} {a : Nat} {req : Request} {sock sock' : Sock}
    (hv : req.Valid) (h : fill d a req sock = .done d' sock') :
    (d'.heap a).used ≤ (d'.heap a).data.length := by
  obtain ⟨p, rfl, hlen, hused, _⟩ := fill_done h
  have hlt : req.len < 2 ^ 32 := Nat.lt_of_le_of_lt hv.len_le (by decide)
  simp only [fill] at h
  split at h
  · cases h
  · split at h
    · cases h
    · rename_i hroom
      split at h
      · cases h
      · rename_i hret
        have hread : (recvBlock (d.heap a) sock req.len).data.length = req.len := by
          unfold recvBlock at hret ⊢
          split at hret
          · -- `recv` into NULL fails, and `(size_t) -1` is no length
            simp only [sizeT] at hret
            omega
          · rw [if_neg ‹_›]
            exact (netRecvAll_full hlt (not_not.mp hret)).2
        simp only [Decoder.setPacket, Function.update_self, hlen, hused]
        omega

structure Stored (s : Pipeline) : Prop where
  request : ∀ req ∈ s.recvPc.requests, req.Valid
  arrivals : ∀ x ∈ s.arrivals, x.packet.used ≤ x.packet.data.length

theorem stored_recv {e : Env} {s t : Pipeline} (hi : Stored s) (hm : RecvMove e s t) :
    Stored t := by
  have ⟨hreq, harr⟩ := hi
  cases hm
  case headers req hc sock hpc hr =>
    have hv := (readHeaders_sound [] false s.sock (by decide)).2 req (by rw [hr])
    exact ⟨by simpa [RecvPc.requests] using hv.1, harr⟩
  case filled req a dec sock hpc hf =>
    refine ⟨by simp [RecvPc.requests], fun x hx => ?_⟩
    rcases List.mem_append.mp hx with hx | hx
    · exact harr x hx
    · rw [List.mem_singleton.mp hx]
      exact fill_stored (hreq req (by simp [hpc, RecvPc.requests])) hf
  case poolEmpty hpc _ | poolFilled hpc _ | pop hpc _ | allocate hpc =>
    rw [hpc] at hreq
    exact ⟨hreq, harr⟩
  case wait => exact hi
  case enqueue a x hpc =>
    refine ⟨?_, harr⟩
    rcases afterEnqueue_cases s.dec.kind with h | h | h <;> simp [h, RecvPc.requests]
  all_goals exact ⟨by simp [RecvPc.requests], harr⟩

/-- What `read_frame` returns lies in the packet's block. -/
theorem stored_of_reachable {s : Pipeline} (h : pipeline.Reachable s) : Stored s := by
  refine h.invariant ?_ fun s a t _ hi _ hs => ?_
  · rintro _ ⟨kind, sock, rfl⟩
    exact ⟨by simp [Pipeline.init, RecvPc.requests], by simp [Pipeline.init]⟩
  · cases step_move hs with
    | leave => exact ⟨by simp [RecvPc.requests], hi.arrivals⟩
    | decode _ hm =>
      obtain ⟨hpc, _, _, harr, _⟩ := decodeMove_record hm
      exact ⟨hpc ▸ hi.request, harr ▸ hi.arrivals⟩
    | recv hm => exact stored_recv hi hm

/-- The reads of a step that meets the condition. -/
theorem headerReads_step {s : Pipeline} {a : Act} (h : pipeline.Reachable s)
    (hg : InspectsHeader s a) : ∀ r ∈ s.headerReads a, r.index < r.used := by
  intro r hr
  unfold Pipeline.headerReads at hr
  split at hr
  · split at hr
    · rename_i a x hpc
      split at hr
      · have hx := hg a x hpc ‹_›
        rw [heap_of_pushStart h hpc] at hr
        exact headerReads_inside hx _ r hr
      · simp at hr
    · simp at hr
  · simp at hr

/-- **Classification.** In a run that looks for the NAL type only in packets that
were received with one, every byte that is read was received. -/
theorem inspected_received {s : Pipeline × List HeaderRead}
    (h : (pipeline.traced Pipeline.headerReads).Reach (fun s a => InspectsHeader s.1 a) s) :
    ∀ r ∈ s.2, r.index < r.used :=
  h.recorded fun _ _ _ hr hg _ => headerReads_step hr.reachable hg

theorem inspectsHeader_of_pending {s : Pipeline} (h : ∀ x ∈ s.recvPc.pending, 4 < x.packet.used)
    (a : Act) : InspectsHeader s a := by
  cases a with
  | recv e =>
    intro a x hpc _
    exact .inl (h x (by simp [hpc, RecvPc.pending]))
  | leave => trivial
  | decode ok => trivial

/-- A key frame of five bytes ends a catch-up. -/
theorem inspected_received_idr :
    ∃ s, (pipeline.traced Pipeline.headerReads).Reach (fun s a => InspectsHeader s.1 a) s ∧
      s.2 = [⟨2, 5⟩, ⟨4, 5⟩] ∧ ∀ r ∈ s.2, r.index < r.used := by
  obtain ⟨s, hs, hp⟩ := (pipeline.traced Pipeline.headerReads).reach_of_replay
    (fun s _ => ∀ x ∈ s.1.recvPc.pending, 4 < x.packet.used)
    (fun s => s.2 = [⟨2, 5⟩, ⟨4, 5⟩]) ((backlogRun idrSlice).1, []) (backlogRun idrSlice).2
    (fun _ a hg => inspectsHeader_of_pending (of_decide_eq_true hg) a)
    (.start ⟨⟨_, _, rfl⟩, rfl⟩) (by decide +kernel)
  exact ⟨s, hs, of_decide_eq_true hp, inspected_received hs⟩

/-- A packet of one byte ends a catch-up: its third and fifth byte are read. -/
theorem inspected_stale : ¬ ∀ s, (pipeline.traced Pipeline.headerReads).Reachable s →
    ∀ r ∈ s.2, r.index < r.used := by
  intro hall
  obtain ⟨s, hs, hp⟩ := (pipeline.traced Pipeline.headerReads).reachable_of_replay
    (fun s => s.2 = [⟨2, 1⟩, ⟨4, 1⟩]) ((backlogRun [9]).1, []) (backlogRun [9]).2
    ⟨⟨_, _, rfl⟩, rfl⟩ (by decide +kernel)
  have hread := hall s hs ⟨2, 1⟩ (by simp [of_decide_eq_true hp])
  exact absurd hread (by decide)

/-- A step that does not meet the condition reads beyond the packet. -/
theorem inspectsHeader_needed {s : Pipeline} {a : Act} (h : pipeline.Reachable s)
    (hg : ¬ InspectsHeader s a) : ∃ r ∈ s.headerReads a, r.used ≤ r.index := by
  cases a with
  | leave => exact absurd trivial hg
  | decode ok => exact absurd trivial hg
  | recv e =>
    simp only [InspectsHeader, not_forall] at hg
    obtain ⟨a, x, hpc, hins, hx⟩ := hg
    have hmem : x ∈ s.arrivals :=
      (faithful_of_reachable h).order.subset (by simp [hpc, RecvPc.pending])
    obtain ⟨r, hr, hle⟩ := headerReads_outside ((stored_of_reachable h).arrivals x hmem) hx e.oob
    refine ⟨r, ?_, hle⟩
    simpa only [Pipeline.headerReads, hpc, hins, if_true, heap_of_pushStart h hpc] using hr

end DroidcamWhip
