import DroidcamWhip.Ownership
import Mathlib.Data.List.Induction

/-!
What `push_ready_packet` loses while it catches up. A discarded packet takes the
config block in front of it along, and the packet on which decoding resumes is
chosen by the type of its first NAL unit only.
-/

namespace DroidcamWhip

/-! ## Config blocks -/

/-- Some queued packet starts with this config block. -/
def Carried (verdicts : List (Arrival × Bool)) (config : List UInt8) : Prop :=
  config = [] ∨ ∃ y ∈ accepted verdicts, config <+: y.packet.bytes

/-- The pulled packets whose stream position has a config block are preceded by
a pulled packet that carries it, or carry it themselves. -/
def ConfigKept (s : Pipeline) : Prop :=
  ∀ (i : Nat) (q : Arrival), i < s.pulled.length → (accepted s.verdicts)[i]? = some q → q.recent ≠ [] →
    s.pulled[i]? = some q.packet ∧
      ∃ j ≤ i, ∃ p, s.pulled[j]? = some p ∧ q.recent <+: p.bytes

/-- The step does not discard the only packet with some config block. -/
def KeepsConfig (s : Pipeline) : Act → Prop
  | .recv e => ∀ a x, s.recvPc = .pushStart a x → x.config ≠ [] →
      s.dec.discards (s.dec.heap a) e.oob = true → Carried s.verdicts x.config
  | _ => True

/-- Each packet of the list is at or behind one that carries its config block. -/
def Introduced (qs : List Arrival) : Prop :=
  ∀ (i : Nat) (q : Arrival), qs[i]? = some q → q.recent ≠ [] →
    ∃ j ≤ i, ∃ y : Arrival, qs[j]? = some y ∧ q.recent <+: y.packet.bytes

theorem Carried.mono {v w : List (Arrival × Bool)} {config : List UInt8}
    (h : Carried v config) : Carried (v ++ w) config := by
  rcases h with h | ⟨y, hy, hpre⟩
  · exact .inl h
  · exact .inr ⟨y, by simp [accepted_append, hy], hpre⟩

/-- Where the last config block is, at each point of the receiving thread. -/
def RecvPc.configAt (pc : RecvPc) (failed : Bool) (recent : List UInt8)
    (verdicts : List (Arrival × Bool)) : Prop :=
  match pc with
  | .between => failed = true ∨ Carried verdicts recent
  | .pullTest req | .pullPop req | .pullNew req | .fill req _ =>
      failed = true ∨ Carried verdicts recent ∨ req.config = recent
  | .failedTest _ x => failed = true ∨ Carried verdicts recent ∨ x.config = recent
  | .readyTest _ x | .pushStart _ x | .enqueue _ x =>
      Carried verdicts recent ∨ x.config = recent
  | .discard _ _ | .aacTest | .fullTest => Carried verdicts recent
  | .discardFailed _ => failed = true
  | _ => True

structure Configured (s : Pipeline) : Prop where
  place : s.recvPc.configAt s.dec.failed s.recent s.verdicts
  pending : ∀ x ∈ s.recvPc.pending, x.recent = s.recent ∧ x.config <+: x.packet.bytes
  history : Introduced (accepted s.verdicts)

theorem configured_init (kind : Kind) (sock : Sock) : Configured (.init kind sock) :=
  ⟨.inr (.inl rfl), by simp [Pipeline.init, RecvPc.pending],
    fun _ _ h => by simp [Pipeline.init, accepted] at h⟩

/-- Queuing a packet that carries its config block, or whose config block has
been carried, keeps the history. -/
theorem introduced_append {v : List (Arrival × Bool)} {x : Arrival}
    (hh : Introduced (accepted v)) (hx : Carried v x.recent ∨ x.recent <+: x.packet.bytes) :
    Introduced (accepted v ++ [x]) := by
  have hkeep : ∀ {j : Nat} {y : Arrival}, (accepted v)[j]? = some y →
      (accepted v ++ [x])[j]? = some y := by
    intro j y hy
    rw [List.getElem?_append_left (List.getElem?_eq_some_iff.mp hy).1, hy]
  intro i q hq hne
  rcases Nat.lt_or_ge i (accepted v).length with hi | hi
  · rw [List.getElem?_append_left hi] at hq
    obtain ⟨j, hj, y, hy, hpre⟩ := hh i q hq hne
    exact ⟨j, hj, y, hkeep hy, hpre⟩
  · -- the packet just queued
    have hqx : q = x := by
      rw [List.getElem?_append_right hi] at hq
      simpa using List.mem_of_getElem? hq
    subst hqx
    rcases hx with (h | ⟨y, hy, hpre⟩) | hpre
    · exact absurd h hne
    · obtain ⟨j, hj⟩ := List.mem_iff_getElem?.mp hy
      have hlt := (List.getElem?_eq_some_iff.mp hj).1
      exact ⟨j, by omega, y, hkeep hj, hpre⟩
    · exact ⟨i, Nat.le_refl _, q, hq, hpre⟩

theorem configured_recv {e : Env} {s t : Pipeline} (hg : KeepsConfig s (.recv e))
    (hi : Configured s) (hm : RecvMove e s t) : Configured t := by
  have ⟨hplace, hpend, hhist⟩ := hi
  cases hm
  case headers req hc sock hpc hr =>
    rw [hpc] at hplace
    refine ⟨?_, by simp [RecvPc.pending], hhist⟩
    by_cases hconf : req.config = []
    · simpa [RecvPc.configAt, hconf] using hplace.imp_right .inl
    · exact .inr (.inr (by simp [hconf]))
  case short hpc hf => exact ⟨trivial, by simp [RecvPc.pending], hhist⟩
  case filled req a dec sock hpc hf =>
    obtain ⟨p, rfl, _, _, hpre⟩ := fill_done hf
    rw [hpc] at hplace
    refine ⟨hplace, ?_, hhist⟩
    simp only [RecvPc.pending, List.mem_singleton, forall_eq, Pipeline.arrival]
    exact ⟨trivial, by simpa [Decoder.setPacket] using hpre⟩
  case failed a x hpc hf => exact ⟨hf, by simp [RecvPc.pending], hhist⟩
  case notFailed a x hpc hf =>
    rw [hpc] at hplace hpend
    exact ⟨hplace.resolve_left (by simp [hf]), hpend, hhist⟩
  case discardFailed a hpc =>
    rw [hpc] at hplace
    exact ⟨.inl hplace, by simp [RecvPc.pending], hhist⟩
  case initFails a x hpc hr => exact ⟨rfl, by simp [RecvPc.pending], hhist⟩
  case drop a x hpc hd =>
    rw [hpc] at hplace hpend
    refine ⟨?_, hpend, hhist⟩
    rcases hplace with hcarried | hx
    · exact hcarried
    · by_cases hne : x.config = []
      · exact .inl (hx ▸ hne)
      · exact hx ▸ hg a x hpc hne hd
  case discard a x hpc =>
    rw [hpc] at hplace
    exact ⟨.inr hplace.mono, by simp [RecvPc.pending], (accepted_append_false s.verdicts x).symm ▸ hhist⟩
  case enqueue a x hpc =>
    rw [hpc] at hplace hpend
    obtain ⟨hrec, hpre⟩ := hpend x (by simp [RecvPc.pending])
    have hor : Carried s.verdicts s.recent ∨ s.recent <+: x.packet.bytes := by
      rcases hplace with h | h
      · exact .inl h
      · exact .inr (h ▸ hpre)
    have hcarried : Carried (s.verdicts ++ [(x, true)]) s.recent := by
      rcases hor with h | h
      · exact h.mono
      · exact .inr ⟨x, by simp [accepted_append_true], h⟩
    refine ⟨?_, by simp [afterEnqueue_pending],
      (accepted_append_true s.verdicts x).symm ▸ introduced_append hhist (hrec ▸ hor)⟩
    rcases afterEnqueue_cases s.dec.kind with h | h | h <;> simp only [h, RecvPc.configAt]
    · exact .inr hcarried
    · exact hcarried
    · exact hcarried
  case full hpc =>
    refine ⟨.inr ?_, by simp [RecvPc.pending], hhist⟩
    rcases hpc with hpc | hpc <;> simpa [hpc, RecvPc.configAt] using hplace
  case notFull hpc hl =>
    rw [hpc] at hplace
    exact ⟨.inr hplace, by simp [RecvPc.pending], hhist⟩
  case poolEmpty hpc _ | poolFilled hpc _ | pop hpc _ | allocate hpc | aacLow hpc =>
    rw [hpc] at hplace
    exact ⟨hplace, by simp [RecvPc.pending], hhist⟩
  case ready hpc _ | initOk hpc _ | keep hpc _ =>
    rw [hpc] at hplace hpend
    exact ⟨hplace, hpend, hhist⟩
  case wait => exact hi
  all_goals exact ⟨trivial, by simp [RecvPc.pending], hhist⟩

theorem configAt_failed {pc : RecvPc} {failed failed' : Bool} {recent : List UInt8}
    {v : List (Arrival × Bool)} (hf : failed = true → failed' = true)
    (h : pc.configAt failed recent v) : pc.configAt failed' recent v := by
  cases pc <;> simp only [RecvPc.configAt] at h ⊢
  case between | pullTest | pullPop | pullNew | fill | failedTest => exact h.imp_left hf
  case discardFailed => exact hf h
  all_goals exact h

theorem configured_of_reach {s : Pipeline} (h : pipeline.Reach KeepsConfig s) :
    Configured s := by
  refine h.invariant ?_ fun s a t _ hi hg hs => ?_
  · rintro _ ⟨kind, sock, rfl⟩
    exact configured_init kind sock
  · cases step_move hs with
    | recv hm => exact configured_recv hg hi hm
    | leave hpc => exact ⟨trivial, by simp [RecvPc.pending], hi.history⟩
    | decode _ hm =>
      obtain ⟨hpc, hrec, hv, _, _, hf⟩ := decodeMove_record hm
      refine ⟨?_, hpc ▸ hrec ▸ hi.pending, hv ▸ hi.history⟩
      rw [hpc, hrec, hv]
      exact configAt_failed hf hi.place

/-- **Config blocks.** As long as no packet is discarded that alone carries its
config block, every pulled packet is at or behind one that carries the last
config block in front of it. -/
theorem config_kept {s : Pipeline} (h : pipeline.Reach KeepsConfig s) : ConfigKept s := by
  intro i q hi hq hne
  obtain ⟨j, hj, y, hy, hpre⟩ := (configured_of_reach h).history i q hq hne
  have hpulled : ∀ {k : Nat} {z : Arrival}, k < s.pulled.length →
      (accepted s.verdicts)[k]? = some z → s.pulled[k]? = some z.packet := by
    intro k z hk hz
    obtain ⟨r, hr⟩ := pulled_initial h.reachable
    have hk' := congrArg (fun l => l[k]?) hr
    simpa only [List.getElem?_append_left hk, List.getElem?_map, hz, Option.map_some] using hk'
  exact ⟨hpulled hi hq, j, hj, y.packet, hpulled (by omega) hy, hpre⟩

/-- An H.264 parameter set and an IDR slice, each behind a start code. -/
def parameterSet : List UInt8 := [0, 0, 0, 1, 103]
def idrSlice : List UInt8 := [0, 0, 0, 1, 101]

/-- Nothing is discarded while the catch-up flag is down. -/
theorem keepsConfig_of_flowing {s : Pipeline} (hk : s.dec.kind = .ffmpeg .h264)
    (hc : s.dec.catchup = false) (a : Act) : KeepsConfig s a := by
  cases a with
  | recv e =>
    intro a x _ _ hd
    simp [Decoder.discards, hk, hc] at hd
  | leave => trivial
  | decode ok => trivial

/-- One key frame with its config block in front, pulled. -/
theorem config_kept_first : ∃ s, pipeline.Reach KeepsConfig s ∧ s.pulled ≠ [] ∧ ConfigKept s := by
  obtain ⟨s, hs, hp⟩ := pipeline.reach_of_replay
    (fun s _ => s.dec.kind = .ffmpeg .h264 ∧ s.dec.catchup = false)
    (fun s => s.pulled.length = 1)
    (.init (.ffmpeg .h264)
      ⟨encodeHeader noPts 5 ++ parameterSet ++ encodeHeader 7 5 ++ idrSlice, false, 0⟩)
    (List.replicate 8 (.recv .quiet) ++ List.replicate 2 (.decode true))
    (fun _ a hg => keepsConfig_of_flowing (of_decide_eq_true hg).1 (of_decide_eq_true hg).2 a)
    (.start ⟨_, _, rfl⟩) (by decide +kernel)
  refine ⟨s, hs, ?_, config_kept hs⟩
  rintro h
  simp [h] at hp

/-- Thirty-one frames wait when a new config block arrives. The frame that
carries it is discarded, and the next one is decoded without it. -/
theorem config_lost : ¬ ∀ s, pipeline.Reachable s → s.dec.kind = .ffmpeg .h264 →
    s.dec.failed = false → ConfigKept s := by
  intro hall
  obtain ⟨s, hs, hp⟩ := pipeline.reachable_of_replay
    (fun s => s.dec.kind = .ffmpeg .h264 ∧ s.dec.failed = false ∧ s.pulled.length = 32 ∧
      (accepted s.verdicts)[31]?.map (·.recent) = some parameterSet ∧
      ∀ p ∈ s.pulled, ¬ parameterSet <+: p.bytes)
    (.init (.ffmpeg .h264)
      ⟨(List.range 31).flatMap (fun k => encodeHeader (.ofNat k) 5 ++ idrSlice) ++
        encodeHeader noPts 5 ++ parameterSet ++ encodeHeader 31 5 ++ idrSlice ++
        encodeHeader 32 5 ++ idrSlice, false, 0⟩)
    (List.replicate (31 * 9 + 8) (.recv .quiet) ++ List.replicate (31 * 5) (.decode true) ++
      List.replicate 9 (.recv .quiet) ++ List.replicate 2 (.decode true))
    ⟨_, _, rfl⟩ (by decide +kernel)
  obtain ⟨hk, hf, hlen, hrec, hnone⟩ := of_decide_eq_true hp
  obtain ⟨q, hq, hr⟩ := Option.map_eq_some_iff.mp hrec
  obtain ⟨_, j, _, p, hp, hpre⟩ := hall s hs hk hf 31 q (by omega) hq (by simp [hr, parameterSet])
  exact hnone p (List.mem_of_getElem? hp) (hr ▸ hpre)

/-! A step against the condition costs a packet its config block. -/

/-- Queued packets stay recorded. -/
theorem accepted_step {s t : Pipeline} {a : Act} (h : pipeline.step s a = some t) :
    accepted s.verdicts <+: accepted t.verdicts := by
  cases step_move h with
  | leave => exact List.prefix_refl _
  | decode _ hm =>
    obtain ⟨_, _, hv, _⟩ := decodeMove_record hm
    exact hv ▸ List.prefix_refl _
  | recv hm =>
    cases hm
    case discard a x hpc =>
      exact (accepted_append_false s.verdicts x).symm ▸ List.prefix_refl _
    case enqueue a x hpc =>
      rw [accepted_append_true]
      exact List.prefix_append _ _
    all_goals exact List.prefix_refl _

theorem accepted_run {as : List Act} {s t : Pipeline} (hrun : as.foldlM pipeline.step s = some t) :
    accepted s.verdicts <+: accepted t.verdicts := by
  induction as generalizing s with
  | nil =>
    cases hrun
    exact List.prefix_refl _
  | cons a as ih =>
    rw [List.foldlM_cons] at hrun
    obtain ⟨u, hu, hrest⟩ := Option.bind_eq_some_iff.mp hrun
    exact (accepted_step hu).trans (ih hrest)

/-- Every run behind a step against the condition in which the next packet that is queued
still has the lost config block in front of it, and does not carry it itself, breaks the
property once that packet is pulled. -/
theorem keepsConfig_needed {s : Pipeline} {e : Env} (h : pipeline.Reachable s)
    (hg : ¬ KeepsConfig s (.recv e)) :
    ∃ a x, s.recvPc = .pushStart a x ∧ ∀ (as : List Act) (u : Pipeline) (q : Arrival),
      (.recv e :: as).foldlM pipeline.step s = some u →
      (accepted u.verdicts)[(accepted s.verdicts).length]? = some q →
      q.recent = x.config → ¬ x.config <+: q.packet.bytes →
      (accepted s.verdicts).length < u.pulled.length → ¬ ConfigKept u := by
  simp only [KeepsConfig, not_forall] at hg
  obtain ⟨a, x, hpc, hne, _, hlost⟩ := hg
  refine ⟨a, x, hpc, fun as u q hrun hq hrecent hbare hpulled hkept => ?_⟩
  obtain ⟨_, j, hj, p, hp, hpre⟩ := hkept _ q hpulled hq (hrecent ▸ hne)
  obtain ⟨r, hr⟩ := accepted_run hrun
  -- the packet that carries the block is a queued one
  obtain ⟨y, hy, rfl⟩ : ∃ y, (accepted u.verdicts)[j]? = some y ∧ y.packet = p := by
    obtain ⟨rest, hrest⟩ := pulled_initial (h.run hrun)
    have hlt := (List.getElem?_eq_some_iff.mp hp).1
    have hmap : ((accepted u.verdicts).map (·.packet))[j]? = some p := by
      rw [← hrest, List.getElem?_append_left hlt, hp]
    rwa [List.getElem?_map, Option.map_eq_some_iff] at hmap
  rw [hrecent] at hpre
  rcases Nat.lt_or_eq_of_le hj with hj | rfl
  · -- it was queued before the step
    rw [← hr, List.getElem?_append_left hj] at hy
    exact hlost (.inr ⟨y, List.mem_of_getElem? hy, hpre⟩)
  · cases hq.symm.trans hy
    exact hbare hpre

/-! ## Random access -/

/-- NAL units at which decoding can start: IDR slices of H.264, IRAP slices of
HEVC. -/
def isKeySlice : Kind → List UInt8 → Bool
  | .ffmpeg .h264, unit => AnnexB.avcType (AnnexB.header unit) = 5
  | .ffmpeg .h265, unit =>
      16 ≤ AnnexB.hevcType (AnnexB.header unit) ∧ AnnexB.hevcType (AnnexB.header unit) ≤ 21
  | _, _ => false

def hasKeySlice (kind : Kind) (bs : List UInt8) : Bool :=
  (AnnexB.nalUnits bs).any (isKeySlice kind)

/-- Where packets were discarded between two that were queued one after the
other, the second holds a key slice. -/
def ResumesAtKey (s : Pipeline) : Prop :=
  ∀ (l mid r : List (Arrival × Bool)) (p q : Arrival),
    s.verdicts = l ++ (p, true) :: (mid ++ (q, true) :: r) → mid ≠ [] →
    (∀ v ∈ mid, v.2 = false) → hasKeySlice s.dec.kind q.packet.bytes = true

/-- The last packet given to `push_ready_packet` was discarded. -/
def lastDropped (verdicts : List (Arrival × Bool)) : Bool :=
  verdicts.getLast?.any fun v => !v.2

/-- The packet that ends a catch-up does not merely begin with a NAL unit that
is neither taken for a P or B frame nor a key slice: it then holds one. -/
def KeyFirst (s : Pipeline) : Act → Prop
  | .recv _ => ∀ a x u us, s.recvPc = .pushStart a x → s.dec.catchup = true →
      s.dec.decodeQueue.length ≤ 1 → lastDropped s.verdicts = true →
      AnnexB.nalUnits x.packet.bytes = u :: us →
      isInterFrame s.dec.kind (AnnexB.header u) = false → isKeySlice s.dec.kind u = false →
      hasKeySlice s.dec.kind x.packet.bytes = true
  | _ => True

/-- On well-formed packets the byte that `push_ready_packet` inspects is the
header of the first NAL unit. -/
theorem headerByte_eq {p : DataPacket} (h : AnnexB.WellFormed p.bytes) (oob : UInt8) :
    ∃ u us, AnnexB.nalUnits p.bytes = u :: us ∧ headerByte p oob = AnnexB.header u := by
  obtain ⟨u, us, hu, hb⟩ := h.first_header
  refine ⟨u, us, hu, ?_⟩
  have hlen := (List.getElem?_eq_some_iff.mp hb).1
  have hthree : 3 ≤ AnnexB.headerIndex p.bytes := by
    unfold AnnexB.headerIndex
    split <;> omega
  have htwo : p.data.getD 2 oob = p.bytes.getD 2 0 := by
    have h2 := List.getElem?_eq_getElem (l := p.bytes) (i := 2) (by omega)
    rw [DataPacket.data_getD h2 oob, List.getD_eq_getElem?_getD, h2, Option.getD_some]
  rw [headerByte, htwo]
  unfold AnnexB.headerIndex at hb
  split at hb <;> rename_i hone
  · rw [if_pos hone]
    exact DataPacket.data_getD hb oob
  · rw [if_neg hone]
    exact DataPacket.data_getD hb oob

structure Resuming (s : Pipeline) : Prop where
  waiting : (∀ a x, s.recvPc ≠ .enqueue a x) → lastDropped s.verdicts = true →
    s.dec.catchup = true
  discarding : ∀ a x, s.recvPc = .discard a x → s.dec.catchup = true
  resuming : ∀ a x, s.recvPc = .enqueue a x → lastDropped s.verdicts = true →
    hasKeySlice s.dec.kind x.packet.bytes = true
  history : ResumesAtKey s

theorem lastDropped_append (v : List (Arrival × Bool)) (x : Arrival) (b : Bool) :
    lastDropped (v ++ [(x, b)]) = !b := by
  simp [lastDropped]

/-- Discarded packets behind a queued one are the last ones. -/
theorem lastDropped_of_mid {l mid : List (Arrival × Bool)} {p : Arrival} (hne : mid ≠ [])
    (hmid : ∀ v ∈ mid, v.2 = false) : lastDropped (l ++ (p, true) :: mid) = true := by
  obtain ⟨init, v, rfl⟩ := List.eq_nil_or_concat mid |>.resolve_left hne
  have hv := hmid v (by simp)
  rw [lastDropped, List.concat_eq_append, ← List.cons_append, ← List.append_assoc,
    List.getLast?_append]
  simp [hv]

theorem resumesAtKey_append {s t : Pipeline} {x : Arrival} {b : Bool} (h : ResumesAtKey s)
    (hv : t.verdicts = s.verdicts ++ [(x, b)]) (hk : t.dec.kind = s.dec.kind)
    (hb : b = true → lastDropped s.verdicts = true →
      hasKeySlice s.dec.kind x.packet.bytes = true) : ResumesAtKey t := by
  intro l mid r p q hsplit hne hmid
  rw [hk]
  rw [hv] at hsplit
  rcases List.eq_nil_or_concat r with rfl | ⟨r, v, rfl⟩
  · -- `q` is the packet just queued
    have hcons : l ++ (p, true) :: (mid ++ [(q, true)]) = (l ++ (p, true) :: mid) ++ [(q, true)] := by
      simp
    obtain ⟨hinit, hlast⟩ := List.append_inj' (hsplit.trans hcons) rfl
    simp only [List.cons.injEq, Prod.mk.injEq, and_true] at hlast
    obtain ⟨rfl, rfl⟩ := hlast
    exact hb rfl (hinit ▸ lastDropped_of_mid hne hmid)
  · have hcons : l ++ (p, true) :: (mid ++ (q, true) :: r.concat v) =
        (l ++ (p, true) :: (mid ++ (q, true) :: r)) ++ [v] := by
      simp
    obtain ⟨hinit, _⟩ := List.append_inj' (hsplit.trans hcons) rfl
    exact h l mid r p q hinit hne hmid

/-- A packet that is examined on a well-formed stream while catching up, and not
discarded, starts with a NAL unit that is not taken for a P or B frame. -/
theorem keep_first {s : Pipeline} {a : Nat} {x : Arrival} {oob : UInt8} (hi : Faithful s)
    (hwf : ∀ y ∈ s.arrivals, AnnexB.WellFormed y.packet.bytes) (hpc : s.recvPc = .pushStart a x)
    (hk : s.dec.kind ≠ .mjpeg) (hc : s.dec.catchup = true)
    (hd : s.dec.discards (s.dec.heap a) oob = false) :
    s.dec.decodeQueue.length ≤ 1 ∧ ∃ u us, AnnexB.nalUnits x.packet.bytes = u :: us ∧
      isInterFrame s.dec.kind (AnnexB.header u) = false := by
  have hx : s.dec.heap a = x.packet :=
    hi.current x (by simp [hpc, RecvPc.pending]) a (by simp [hpc, RecvPc.hand])
  have hmem : x ∈ s.arrivals := hi.order.subset (by simp [hpc, RecvPc.pending])
  obtain ⟨u, us, hu, hbyte⟩ := headerByte_eq (hwf x hmem) oob
  cases hkind : s.dec.kind with
  | mjpeg => exact absurd hkind hk
  | ffmpeg id =>
    simp only [Decoder.discards, hkind, hc, hx, hbyte, Bool.true_and, Bool.or_eq_false_iff,
      decide_eq_false_iff_not] at hd
    exact ⟨by omega, u, us, hu, hd.2⟩

theorem resuming_recv {e : Env} {s t : Pipeline} (hg : KeyFirst s (.recv e)) (hf : Faithful s)
    (hwf : ∀ y ∈ s.arrivals, AnnexB.WellFormed y.packet.bytes) (hk : s.dec.kind ≠ .mjpeg)
    (hi : Resuming s) (hm : RecvMove e s t) : Resuming t := by
  have ⟨hwait, hdisc, hres, hhist⟩ := hi
  cases hm
  case drop a x hpc hd =>
    have hcatch : s.dec.catchup = true := by
      cases hkind : s.dec.kind with
      | mjpeg => exact absurd hkind hk
      | ffmpeg id =>
        simp only [Decoder.discards, hkind, Bool.and_eq_true] at hd
        exact hd.1
    exact ⟨fun _ _ => hcatch, fun _ _ _ => hcatch, by simp, hhist⟩
  case keep a x hpc hd =>
    refine ⟨fun h => absurd rfl (h a x), by simp, ?_, hhist⟩
    rintro b y hpc' hlast
    cases hpc'
    have hcatch := hwait (by simp [hpc]) hlast
    obtain ⟨hlen, u, us, hu, hinter⟩ := keep_first hf hwf hpc hk hcatch hd
    cases hslice : isKeySlice s.dec.kind u with
    | true => exact List.any_eq_true.mpr ⟨u, by simp [hu], hslice⟩
    | false => exact hg a x u us hpc hcatch hlen hlast hu hinter hslice
  case discard a x hpc =>
    exact ⟨fun _ _ => hdisc a x hpc, by simp, by simp,
      resumesAtKey_append hhist rfl rfl (by simp)⟩
  case enqueue a x hpc =>
    refine ⟨fun _ h => by simp [lastDropped_append] at h, ?_, ?_,
      resumesAtKey_append hhist rfl rfl fun _ => hres a x hpc⟩
    all_goals rcases afterEnqueue_cases s.dec.kind with h | h | h <;> simp [h]
  case full hpc => exact ⟨fun _ _ => rfl, by simp, by simp, hhist⟩
  case short hpc hfill =>
    obtain ⟨p, rfl⟩ := fill_short hfill
    exact ⟨fun _ h => hwait (by simp [hpc]) h, by simp, by simp, hhist⟩
  case filled hpc hfill =>
    obtain ⟨p, rfl, _⟩ := fill_done hfill
    exact ⟨fun _ h => hwait (by simp [hpc]) h, by simp, by simp, hhist⟩
  case wait => exact hi
  all_goals exact ⟨fun _ h => hwait (by simp [*]) h, by simp, by simp, hhist⟩

theorem resuming_of_reach {s : Pipeline} (h : pipeline.Reach KeyFirst s)
    (hk : s.dec.kind ≠ .mjpeg) (hwf : ∀ y ∈ s.arrivals, AnnexB.WellFormed y.packet.bytes) :
    Resuming s := by
  induction h with
  | start h0 =>
    obtain ⟨kind, sock, rfl⟩ := h0
    exact ⟨by simp [Pipeline.init, lastDropped], by simp [Pipeline.init], by simp [Pipeline.init],
      fun l mid r p q h => by simp [Pipeline.init] at h⟩
  | next hr hg hs ih =>
    cases step_move hs with
    | recv hm =>
      obtain ⟨_, _, _, hkind, hpre, _⟩ := recvMove_record hm
      have hwf' := fun y hy => hwf y (hpre.subset hy)
      exact resuming_recv hg (faithful_of_reachable hr.reachable) hwf' (hkind ▸ hk)
        (ih (hkind ▸ hk) hwf') hm
    | leave hpc =>
      have hi := ih hk hwf
      exact ⟨fun _ h => hi.waiting (by simp [hpc]) h, by simp, by simp, hi.history⟩
    | decode _ hm =>
      obtain ⟨_, hkind, hcatch, _, hpc⟩ := decodeMove_queue hm
      obtain ⟨_, _, hv, harr, _⟩ := decodeMove_record hm
      have hi := ih (hkind ▸ hk) (harr ▸ hwf)
      refine ⟨?_, ?_, ?_, ?_⟩
      · rw [hpc, hv, hcatch]
        exact hi.waiting
      · rw [hpc, hcatch]
        exact hi.discarding
      · rw [hpc, hv, hkind]
        exact hi.resuming
      · intro l mid r p q h
        rw [hkind]
        exact hi.history l mid r p q (hv ▸ h)

/-- A P slice, and one behind an access unit delimiter. -/
def pSlice : List UInt8 := [0, 0, 0, 1, 65, 7]
def delimitedPSlice : List UInt8 := [0, 0, 0, 1, 9, 16, 0, 0, 0, 1, 65, 7]

/-- Thirty-one key frames wait, a P slice is discarded, the queue drains, and
`resume` arrives. -/
def backlogRun (resume : List UInt8) : Pipeline × List Act :=
  (.init (.ffmpeg .h264)
    ⟨(List.range 31).flatMap (fun k => encodeHeader (.ofNat k) 5 ++ idrSlice) ++
      encodeHeader 31 6 ++ pSlice ++ encodeHeader 32 resume.length ++ resume, false, 0⟩,
    List.replicate (31 * 9 + 8) (.recv .quiet) ++ List.replicate (31 * 5) (.decode true) ++
      List.replicate 8 (.recv .quiet))

/-- The packet on which decoding resumed at the end of that run. -/
def resumption (s : Pipeline) : Option Arrival :=
  match s.verdicts.drop 30 with
  | [(_, true), (_, false), (q, true)] => some q
  | _ => none

theorem resumption_split {s : Pipeline} {q : Arrival} (h : resumption s = some q) :
    ∃ p d, s.verdicts = s.verdicts.take 30 ++ (p, true) :: ([(d, false)] ++ [(q, true)]) := by
  unfold resumption at h
  split at h
  · rename_i p d q' hdrop
    cases h
    refine ⟨p, d, ?_⟩
    calc s.verdicts = s.verdicts.take 30 ++ s.verdicts.drop 30 := (List.take_append_drop ..).symm
      _ = _ := by rw [hdrop]; rfl
  · cases h

/-- **Random access.** On well-formed packets, decoding resumes at key slices as
long as every catch-up ends on a packet that holds one if its first NAL unit
could be taken for one. -/
theorem resumes_at_key {s : Pipeline} (h : pipeline.Reach KeyFirst s)
    (hk : s.dec.kind = .ffmpeg .h264 ∨ s.dec.kind = .ffmpeg .h265)
    (hwf : ∀ x ∈ s.arrivals, AnnexB.WellFormed x.packet.bytes) : ResumesAtKey s :=
  (resuming_of_reach h (by rcases hk with hk | hk <;> simp [hk]) hwf).history

/-- The backlog clears on an IDR slice. -/
theorem resumes_at_key_idr : ∃ s q, pipeline.Reach KeyFirst s ∧ resumption s = some q ∧
    s.dec.kind = .ffmpeg .h264 ∧ (∀ x ∈ s.arrivals, AnnexB.WellFormed x.packet.bytes) ∧
    ResumesAtKey s := by
  obtain ⟨s, hs, hp⟩ := pipeline.reach_of_replay (G := KeyFirst)
    (fun s _ => match s.recvPc with
      | .pushStart _ x => 1 < s.dec.decodeQueue.length || hasKeySlice s.dec.kind x.packet.bytes
      | _ => true)
    (fun s => (resumption s).isSome ∧ s.dec.kind = .ffmpeg .h264 ∧
      ∀ x ∈ s.arrivals, AnnexB.WellFormed x.packet.bytes)
    (backlogRun idrSlice).1 (backlogRun idrSlice).2
    (by
      intro s a hg
      cases a with
      | recv e =>
        intro a x u us hpc _ hlen _ _ _ _
        simpa [hpc, Nat.not_lt.mpr hlen] using hg
      | leave => trivial
      | decode ok => trivial)
    (.start ⟨_, _, rfl⟩) (by decide +kernel)
  obtain ⟨hq, hk, hwf⟩ := of_decide_eq_true hp
  obtain ⟨q, hq⟩ := Option.isSome_iff_exists.mp hq
  exact ⟨s, q, hs, hq, hk, hwf, resumes_at_key hs (.inl hk) hwf⟩

/-- The backlog clears on a P slice that an access unit delimiter precedes. -/
theorem resumes_at_delimiter : ¬ ∀ s, pipeline.Reachable s →
    (s.dec.kind = .ffmpeg .h264 ∨ s.dec.kind = .ffmpeg .h265) →
    (∀ x ∈ s.arrivals, AnnexB.WellFormed x.packet.bytes) → ResumesAtKey s := by
  intro hall
  obtain ⟨s, hs, hp⟩ := pipeline.reachable_of_replay
    (fun s => (resumption s).any (fun q => !hasKeySlice (.ffmpeg .h264) q.packet.bytes) ∧
      s.dec.kind = .ffmpeg .h264 ∧ ∀ x ∈ s.arrivals, AnnexB.WellFormed x.packet.bytes)
    (backlogRun delimitedPSlice).1 (backlogRun delimitedPSlice).2
    ⟨_, _, rfl⟩ (by decide +kernel)
  obtain ⟨hq, hk, hwf⟩ := of_decide_eq_true hp
  obtain ⟨q, hq, hnone⟩ := Option.any_eq_true .. |>.mp hq
  obtain ⟨p, d, hv⟩ := resumption_split hq
  have hkey := hall s hs (.inl hk) hwf _ [(d, false)] [] p q hv (by simp) (by simp)
  simp [← hk, hkey] at hnone

/-! The condition cannot be weakened: a packet that breaks it is queued. -/

theorem exists_last_accepted {v : List (Arrival × Bool)} (h : accepted v ≠ []) :
    ∃ l p mid, v = l ++ (p, true) :: mid ∧ ∀ w ∈ mid, w.2 = false := by
  induction v using List.reverseRecOn with
  | nil => exact absurd rfl h
  | append_singleton v w ih =>
    obtain ⟨x, b⟩ := w
    cases b with
    | true => exact ⟨v, x, [], rfl, by simp⟩
    | false =>
      rw [accepted_append_false] at h
      obtain ⟨l, p, mid, rfl, hmid⟩ := ih h
      exact ⟨l, p, mid ++ [(x, false)], by simp, by simpa [or_imp, forall_and] using hmid⟩

/-- A step against the condition is followed by a resumption without key slice. -/
theorem keyFirst_needed {s : Pipeline} {e : Env} (h : pipeline.Reachable s)
    (hk : s.dec.kind = .ffmpeg .h264 ∨ s.dec.kind = .ffmpeg .h265)
    (hwf : ∀ x ∈ s.arrivals, AnnexB.WellFormed x.packet.bytes) (hg : ¬ KeyFirst s (.recv e)) :
    ∃ t u, pipeline.step s (.recv e) = some t ∧ pipeline.step t (.recv e) = some u ∧
      ¬ ResumesAtKey u := by
  simp only [KeyFirst, not_forall] at hg
  obtain ⟨a, x, u, us, hpc, hcatch, hlen, hlast, hu, hinter, _, hkey⟩ := hg
  have hi := faithful_of_reachable h
  have hx : s.dec.heap a = x.packet :=
    hi.current x (by simp [hpc, RecvPc.pending]) a (by simp [hpc, RecvPc.hand])
  have hmem : x ∈ s.arrivals := hi.order.subset (by simp [hpc, RecvPc.pending])
  obtain ⟨u', us', hu', hbyte⟩ := headerByte_eq (hwf x hmem) e.oob
  obtain ⟨rfl, rfl⟩ := List.cons.inj (hu.symm.trans hu')
  have hd : s.dec.discards (s.dec.heap a) e.oob = false := by
    rcases hk with hk | hk <;>
      simpa [Decoder.discards, hk, hcatch, hx, hbyte, hlen] using hk ▸ hinter
  obtain ⟨l, p, mid, hv, hmid⟩ := exists_last_accepted (accepted_of_catchup h (.inl hcatch))
  refine ⟨_, _, by simp [pipeline, Pipeline.step, Pipeline.recvStep, hpc, hd]; rfl,
    by simp [pipeline, Pipeline.step, Pipeline.recvStep]; rfl, fun hres => hkey ?_⟩
  refine hres l mid [] p x (by simp [hv]) ?_ hmid
  rintro rfl
  simp [hv, lastDropped] at hlast

end DroidcamWhip
