import DroidcamWhip.Conversion
import DroidcamWhip.Inspection

/-!
The buffers that grow when something larger arrives: the packets of a decoder's
pool and `bgr_frame`. `DataPacket::resize` keeps the old block when `brealloc`
fails, but its callers do not ask whether it did; `frame_to_bgr` stores what
`brealloc` returned, and the size that was wanted.
-/

namespace DroidcamWhip

/-! ## Requests -/

/-- A decoder's pool, the state of `frame_to_bgr`, and the size of the last
`bgr_frame` that there was. -/
structure Buffers where
  dec : Decoder
  conv : Conversion
  last : Option Nat

/-- A request for a buffer, or what becomes of one between two requests: a packet
goes back to the pool or is queued or pulled for decoding, or `read_frame` stores bytes in it. -/
inductive BufferAct where
  | pull (n : Nat) (alloc : Alloc)
  | push (a : Nat)
  | queue (a : Nat)
  | next
  | store (a off : Nat) (xs : List UInt8)
  | frame (f : ObsFrame) (answer : PushAnswer)

namespace Buffers

def init (kind : Kind) (configured : VideoSize) : Buffers :=
  ⟨.new kind, .start configured, none⟩

def step (s : Buffers) : BufferAct → Buffers
  | .pull n alloc => { s with dec := (s.dec.pullEmptyPacket n alloc).2 }
  | .push a => { s with dec := s.dec.pushEmptyPacket a }
  | .queue a => { s with dec := s.dec.enqueue a }
  | .next => { s with dec := { s.dec with decodeQueue := s.dec.decodeQueue.tail } }
  | .store a off xs => { s with dec := s.dec.setPacket a ((s.dec.heap a).write off xs) }
  | .frame f answer =>
      let c := (s.conv.frameToBgr f answer).2
      { s with conv := c, last := (c.bgr.block.map Block.capacity).or s.last }

end Buffers

/-- `pull_empty_packet(n)` calls `brealloc`. -/
def Decoder.poolGrows (d : Decoder) (n : Nat) : Bool :=
  match d.recieveQueue with
  | [] => 0 < n
  | a :: _ => (d.heap a).size < n

/-- `frame_to_bgr` calls `brealloc`. -/
def Conversion.bgrGrows (c : Conversion) (f : ObsFrame) : Bool :=
  framePixFmt f.format ≠ .none && c.bgr.size < f.needed

/-- The packet returned has room for what was asked, so that `read_frame` stays
inside it, and is the old one as it was if it could not grow. -/
structure PullHonoured (d : Decoder) (n : Nat) (alloc : Alloc) : Prop where
  room : n ≤ ((d.pullEmptyPacket n alloc).2.heap (d.pullEmptyPacket n alloc).1).data.length
  inside : ∀ req sock, req.config.length + req.len = n →
    fill (d.pullEmptyPacket n alloc).2 (d.pullEmptyPacket n alloc).1 req sock ≠ .crash
  kept : ∀ a ∈ d.recieveQueue.head?, alloc = none →
    (d.pullEmptyPacket n alloc).2.heap a = { d.heap a with used := 0 }

/-- A failed growth leaves `bgr_frame` and `bgr_frame_size` alone, and a frame that
fits the last buffer is converted if `sws` can do it. -/
structure FrameHonoured (s : Buffers) (f : ObsFrame) (a : PushAnswer) : Prop where
  kept : s.conv.bgrGrows f = true → a.alloc = none → (s.conv.frameToBgr f a).2.bgr = s.conv.bgr
  served : ∀ m ∈ s.last, f.needed.toNat ≤ m → framePixFmt f.format ≠ .none →
    a.context = true → a.scaled = true → (s.conv.frameToBgr f a).1 = true

def Buffers.Honoured (s : Buffers) : BufferAct → Prop
  | .pull n alloc => PullHonoured s.dec n alloc
  | .frame f answer => FrameHonoured s f answer
  | _ => True

/-- The request does not call `brealloc`, or gets a block from it. -/
def Buffers.Served (s : Buffers) : BufferAct → Prop
  | .pull n alloc => s.dec.poolGrows n = true → alloc ≠ none
  | .frame f answer => s.conv.bgrGrows f = true → answer.alloc ≠ none
  | _ => True

/-- `P` holds of every request of the list, each in the state it is made in. -/
def Buffers.All (P : Buffers → BufferAct → Prop) : Buffers → List BufferAct → Prop
  | _, [] => True
  | s, r :: rs => P s r ∧ Buffers.All P (s.step r) rs

/-! ## The pool -/

/-- `resize` is all or nothing. -/
theorem DataPacket.resize_none (p : DataPacket) (n : Nat) : p.resize n none = p := by
  unfold resize
  split <;> rfl

/-- `read_frame` stays inside a packet that has the room it asked for. -/
theorem fill_inside {d : Decoder} {a : Nat} {req : Request}
    (hroom : req.config.length + req.len ≤ (d.heap a).data.length) (sock : Sock) :
    fill d a req sock ≠ .crash := by
  have hread : (recvBlock (d.heap a) sock req.len).data.length ≤ req.len := by
    unfold recvBlock
    split
    · exact Nat.zero_le _
    · exact netRecvAll_le sock req.len
  simp only [fill]
  rw [if_neg (by omega), if_neg (by omega)]
  intro hcrash
  split at hcrash <;> cases hcrash

/-- A failed growth is not reported: the packet is then too small. -/
theorem room_iff (d : Decoder) (n : Nat) (alloc : Alloc) :
    n ≤ ((d.pullEmptyPacket n alloc).2.heap (d.pullEmptyPacket n alloc).1).data.length ↔
      (d.poolGrows n = true → alloc ≠ none) := by
  cases alloc with
  | some g => exact iff_of_true (pullEmptyPacket_room d n g) nofun
  | none =>
    unfold Decoder.pullEmptyPacket Decoder.poolGrows
    cases d.recieveQueue with
    | nil =>
      simp only [Decoder.newPacket, DataPacket.new_none, Function.update_self, DataPacket.empty,
        List.length_nil, decide_eq_true_eq, ne_eq, not_true_eq_false, imp_false]
      omega
    | cons a q =>
      have hsize := (d.heap a).size_eq
      simp only [Decoder.reusePacket, DataPacket.resize_none, Function.update_self,
        decide_eq_true_eq, ne_eq, not_true_eq_false, imp_false]
      omega

theorem pullHonoured_iff (d : Decoder) (n : Nat) (alloc : Alloc) :
    PullHonoured d n alloc ↔ (d.poolGrows n = true → alloc ≠ none) := by
  rw [← room_iff]
  constructor
  · exact PullHonoured.room
  · intro hroom
    refine ⟨hroom, fun req sock hn => fill_inside (hn ▸ hroom) sock, ?_⟩
    rintro a ha rfl
    cases hq : d.recieveQueue with
    | nil => simp [hq] at ha
    | cons b q =>
      simp only [hq, List.head?_cons, Option.mem_def, Option.some.injEq] at ha
      subst ha
      simp [Decoder.pullEmptyPacket, hq, Decoder.reusePacket, DataPacket.resize_none]

/-! ## `bgr_frame` -/

theorem scale_bgr (f : ObsFrame) (a : PushAnswer) (c : Conversion) :
    (c.scale f a).2.bgr = c.bgr := by
  unfold Conversion.scale
  split
  · rfl
  · dsimp only
    split <;> rfl

theorem frameToBgr_bgr (f : ObsFrame) (a : PushAnswer) (c : Conversion) :
    (c.frameToBgr f a).2.bgr =
      if framePixFmt f.format = .none then c.bgr else c.bgr.grow f.needed a.alloc := by
  unfold Conversion.frameToBgr
  split
  · rfl
  · exact scale_bgr ..

/-- With a buffer and no failure of `sws`, a frame is converted. -/
theorem frameToBgr_served {f : ObsFrame} {a : PushAnswer} {c : Conversion}
    (hf : framePixFmt f.format ≠ .none) (hb : (c.bgr.grow f.needed a.alloc).block ≠ none)
    (hctx : a.context = true) (hs : a.scaled = true) : (c.frameToBgr f a).1 = true := by
  obtain ⟨b, hb⟩ := Option.ne_none_iff_exists'.mp hb
  obtain ⟨x, hx⟩ := Option.isSome_iff_exists.mp (c.toBgr.want_isSome f.swsKey f.swsContext)
  simp [Conversion.frameToBgr, hf, Conversion.scale, hb, hctx, hx, hs]

/-- A failed growth is stored as if it had succeeded, without the buffer. -/
theorem frameHonoured_iff {s : Buffers} (hlast : s.last = s.conv.bgr.block.map Block.capacity)
    (f : ObsFrame) (a : PushAnswer) :
    FrameHonoured s f a ↔ (s.conv.bgrGrows f = true → a.alloc ≠ none) := by
  constructor
  · rintro ⟨hkept, _⟩ hgrow hnull
    have hbgr := frameToBgr_bgr f a s.conv ▸ hkept hgrow hnull
    obtain ⟨hf, hlt⟩ : framePixFmt f.format ≠ .none ∧ s.conv.bgr.size < f.needed := by
      simpa [Conversion.bgrGrows] using hgrow
    rw [if_neg hf, BgrFrame.grow, if_pos hlt] at hbgr
    have hsize : f.needed = s.conv.bgr.size := congrArg BgrFrame.size hbgr
    exact UInt64.lt_irrefl _ (hsize ▸ hlt)
  · intro hgrow
    refine ⟨fun h hnull => absurd hnull (hgrow h), fun m hm hfits hf hctx hs => ?_⟩
    refine frameToBgr_served hf ?_ hctx hs
    unfold BgrFrame.grow
    split
    · rename_i hlt
      have halloc := hgrow (by simp [Conversion.bgrGrows, hf, hlt])
      simpa using halloc
    · intro hnull
      rw [hlast, hnull] at hm
      cases hm

/-- As long as nothing fails, the last buffer is the one there is. -/
theorem last_step {s : Buffers} (hlast : s.last = s.conv.bgr.block.map Block.capacity)
    {r : BufferAct} (hr : s.Served r) :
    (s.step r).last = (s.step r).conv.bgr.block.map Block.capacity := by
  cases r with
  | frame f a =>
    have hbgr := frameToBgr_bgr f a s.conv
    simp only [Buffers.step]
    cases hb : (s.conv.frameToBgr f a).2.bgr.block with
    | some b => rfl
    | none =>
      -- then there was none before
      have hold : s.conv.bgr.block = none := by
        rw [hbgr] at hb
        split at hb
        · exact hb
        · rename_i hf
          unfold BgrFrame.grow at hb
          split at hb
          · rename_i hlt
            have halloc := hr (by simp [Conversion.bgrGrows, hf, hlt])
            simp [halloc] at hb
          · exact hb
      rw [hlast, hold]
      rfl
  | pull | push | queue | next | store => exact hlast

theorem honoured_iff {s : Buffers} (hlast : s.last = s.conv.bgr.block.map Block.capacity)
    (r : BufferAct) : s.Honoured r ↔ s.Served r := by
  cases r with
  | pull n alloc => exact pullHonoured_iff s.dec n alloc
  | frame f a => exact frameHonoured_iff hlast f a
  | push | queue | next | store => exact Iff.rfl

theorem all_honoured_iff {s : Buffers} (hlast : s.last = s.conv.bgr.block.map Block.capacity)
    (rs : List BufferAct) : s.All Buffers.Honoured rs ↔ s.All Buffers.Served rs := by
  induction rs generalizing s with
  | nil => exact Iff.rfl
  | cons r rs ih =>
    simp only [Buffers.All, honoured_iff hlast r]
    exact and_congr_right fun hr => ih (last_step hlast hr)

/-- **All or nothing.** Requests for buffers are honoured, whatever their sizes
and order, exactly as long as `brealloc` returns a block for each that grows. -/
theorem growth_honoured_iff (kind : Kind) (configured : VideoSize) (rs : List BufferAct) :
    (Buffers.init kind configured).All Buffers.Honoured rs ↔
      (Buffers.init kind configured).All Buffers.Served rs :=
  all_honoured_iff rfl rs

/-- A growth fails: the smaller frame before it is then not converted any more. -/
theorem growth_forgotten :
    ¬ (Buffers.init .mjpeg ⟨640, 480⟩).All Buffers.Honoured
      [.frame (.i420 640 480) .good, .frame (.i420 1280 720) { PushAnswer.good with alloc := none },
        .frame (.i420 640 480) .good] := by
  rintro ⟨_, _, ⟨_, hserved⟩, _⟩
  exact absurd (hserved 921600 rfl (by decide) (by decide) rfl rfl) (by decide)

/-! ## `read_frame` -/

/-- The step does not get NULL for a packet that has to grow. -/
def PoolServed (s : Pipeline) : Act → Prop
  | .recv e =>
      (∀ req a q, s.recvPc = .pullPop req → s.dec.recieveQueue = a :: q →
        (s.dec.heap a).size < req.config.length + req.len → e.alloc ≠ none) ∧
      ∀ req, s.recvPc = .pullNew req → e.alloc ≠ none
  | _ => True

/-- The receiving thread has room for what it reads, and has not overrun a packet. -/
def RecvPc.roomy (dec : Decoder) : RecvPc → Prop
  | .fill req a => req.config.length + req.len ≤ (dec.heap a).data.length
  | .crashed held => held = []
  | _ => True

theorem roomy_recv {e : Env} {s t : Pipeline} (hg : PoolServed s (.recv e))
    (hi : s.recvPc.roomy s.dec) (hm : RecvMove e s t) : t.recvPc.roomy t.dec := by
  cases hm
  case pop req a q hpc hq =>
    have hsize := (s.dec.heap a).size_eq
    simp only [RecvPc.roomy, Decoder.reusePacket, Function.update_self]
    cases halloc : e.alloc with
    | some g =>
      rw [DataPacket.resize_length]
      exact Nat.le_max_right _ _
    | none =>
      have hfits := mt (hg.1 req a q hpc hq) (not_not.mpr halloc)
      rw [DataPacket.resize_none]
      omega
  case allocate req hpc =>
    obtain ⟨g, halloc⟩ := Option.ne_none_iff_exists'.mp (hg.2 req hpc)
    simp [RecvPc.roomy, Decoder.newPacket, halloc, DataPacket.new_length]
  case overrun req a hpc hf =>
    rw [hpc] at hi
    exact absurd hf (fill_inside hi s.sock)
  case popNothing => rfl
  case enqueue =>
    rcases afterEnqueue_cases s.dec.kind with h | h | h <;> simp [h, RecvPc.roomy]
  case wait => exact hi
  all_goals trivial

/-- **No overrun.** As long as the pool gets the memory it asks for, `read_frame`
stays inside its packets, under all interleavings with the decoding thread. -/
theorem roomy_of_reach {s : Pipeline} (h : pipeline.Reach PoolServed s) :
    s.recvPc.roomy s.dec := by
  refine h.invariant (I := fun s => s.recvPc.roomy s.dec) ?_ fun s a t _ hi hg hs => ?_
  · rintro _ ⟨kind, sock, rfl⟩
    trivial
  · cases step_move hs with
    | recv hm => exact roomy_recv hg hi hm
    | leave => trivial
    | decode _ hm =>
      have hpc := (decodeMove_record hm).1
      have hheap := decodeMove_heap hm
      cases h : s.recvPc <;> simp only [h, RecvPc.roomy, hpc, hheap] at hi ⊢
      all_goals exact hi

end DroidcamWhip
