import DroidcamWhip.ObsSource

/-!
The connection that `video_thread` keeps: one socket at a time, closed once,
received from only after its request went out, and never fed into a decoder of
another connection.
-/

namespace DroidcamWhip

namespace ObsSource

/-- A video connection stands. -/
def Up (s : ObsSource) : Prop := s.videoRunning = true ∧ s.sock.isSome = true

def Down (s : ObsSource) : Prop := s.videoRunning = false ∧ s.sock = none

/-- The connection at each point of `video_thread`. -/
def linkAt (s : ObsSource) : Prop :=
  match s.video with
  | .loop | .body | .running => s.Up ∨ (s.Down ∧ s.videoDecoder = none)
  | .resetTest | .recvEnter | .receiving _ | .closeFailed => s.Up
  | .connect => s.Down ∧ s.videoDecoder = none
  | .send =>
      s.videoRunning = false ∧ s.sock.isSome = true ∧ s.wire = [] ∧ s.videoDecoder = none
  | .cleanup | .exit => s.Up ∨ s.Down
  | _ => s.Down

end ObsSource

structure Linked (s : ObsSource) : Prop where
  log : s.opened.map some = s.closed ++ s.sock.toList.map some
  place : s.linkAt

theorem linked_init (format : VideoFormat) : Linked (.init format) :=
  ⟨rfl, .inr ⟨⟨rfl, rfl⟩, rfl⟩⟩

/-- Closing the socket in use settles the log. -/
theorem netClose_log {s : ObsSource} (hl : s.opened.map some = s.closed ++ s.sock.toList.map some)
    (hs : s.sock.isSome = true) : s.opened.map some = s.netClose.closed := by
  obtain ⟨fd, hfd⟩ := Option.isSome_iff_exists.mp hs
  simpa [ObsSource.netClose, hfd] using hl

theorem closeValid_log {s : ObsSource}
    (hl : s.opened.map some = s.closed ++ s.sock.toList.map some) :
    s.closeValid.sock = none ∧ s.closeValid.opened.map some = s.closeValid.closed := by
  unfold ObsSource.closeValid
  split
  · rename_i hs
    exact ⟨hs, by simpa [hs] using hl⟩
  · rename_i hs
    exact ⟨rfl, netClose_log hl (Option.isSome_iff_ne_none.mpr hs)⟩

theorem linked_video {e : VideoEnv} {s t : ObsSource} (hi : Linked s) (hm : VideoMove e s t) :
    Linked t := by
  have ⟨hlog, hplace⟩ := hi
  unfold ObsSource.linkAt at hplace
  cases hm
  case enter hpc | active hpc | notAsked hpc | resetAsked hpc =>
    rw [hpc] at hplace
    exact ⟨hlog, hplace⟩
  case quit hpc | inactive hpc =>
    rw [hpc] at hplace
    exact ⟨hlog, hplace.imp_right And.left⟩
  case isRunning hpc hr =>
    rw [hpc] at hplace
    refine ⟨hlog, hplace.resolve_right fun h => ?_⟩
    simp [h.1.1] at hr
  case notRunning hpc hr =>
    rw [hpc] at hplace
    refine ⟨hlog, hplace.resolve_left fun h => ?_⟩
    simp [h.1] at hr
  case newDecoder hpc hd | oldDecoder hpc hd =>
    rw [hpc] at hplace
    exact ⟨hlog, hplace⟩
  case receive d p hpc hp =>
    rw [hpc] at hplace
    refine ⟨hlog, ?_⟩
    cases hp' : p.recvPc <;> simp only [ObsSource.linkAt, afterRecv]
    case between => exact .inl hplace
    all_goals exact hplace
  case closeFailed hpc =>
    rw [hpc] at hplace
    have hclosed := netClose_log hlog hplace.2
    exact ⟨by simpa [ObsSource.netClose] using hclosed, .inr ⟨rfl, rfl⟩⟩
  case noConnection hpc =>
    rw [hpc] at hplace
    exact ⟨by simpa [hplace.1.2] using hlog, .inr ⟨hplace.1.1, rfl⟩⟩
  case connected fd hpc =>
    rw [hpc] at hplace
    refine ⟨?_, hplace.1.1, rfl, rfl, hplace.2⟩
    simpa [hplace.1.2] using hlog
  case sent hpc hs =>
    rw [hpc] at hplace
    exact ⟨hlog, .inl ⟨rfl, hplace.2.1⟩⟩
  case notSent hpc =>
    rw [hpc] at hplace
    have hclosed := netClose_log (s := s.sendReq e) hlog hplace.2.1
    exact ⟨by simpa [ObsSource.netClose] using hclosed, .inr ⟨hplace.1, rfl⟩⟩
  case cleanup hpc | exit hpc =>
    obtain ⟨hsock, hclosed⟩ := closeValid_log hlog
    exact ⟨by simpa [hsock] using hclosed, rfl, hsock⟩
  case noDecoder final hpc hd =>
    rw [hpc] at hplace
    cases final
    · exact ⟨hlog, .inr ⟨hplace, hd⟩⟩
    · exact ⟨hlog, hplace⟩
  case wait final d p hpc hp =>
    rw [hpc] at hplace
    refine ⟨hlog, ?_⟩
    cases hp' : p.recvPc <;> simp only [ObsSource.linkAt, afterWait] <;> exact hplace
  case null final hpc =>
    rw [hpc] at hplace
    cases final
    · exact ⟨hlog, .inr ⟨hplace, rfl⟩⟩
    · exact ⟨hlog, hplace⟩
  case retire hpc _ _ | delete hpc _ | join hpc _ =>
    rw [hpc] at hplace
    exact ⟨hlog, hplace⟩

/-- `video_decode_thread` has no part in the connection. -/
theorem threadMove_frame {ok : Bool} {s t : ObsSource} (hm : ThreadMove ok s t) :
    t.video = s.video ∧ t.videoRunning = s.videoRunning ∧ t.sock = s.sock ∧ t.conn = s.conn ∧
      t.videoDecoder = s.videoDecoder ∧ t.created = s.created ∧ t.opened = s.opened ∧
      t.closed = s.closed ∧ t.wire = s.wire ∧ t.fed = s.fed := by
  cases hm <;> exact ⟨rfl, rfl, rfl, rfl, rfl, rfl, rfl, rfl, rfl, rfl⟩

theorem linked_of_reachable {s : ObsSource} (h : obsSource.Reachable s) : Linked s := by
  refine h.invariant ?_ fun s a t _ hi _ hs => ?_
  · rintro _ ⟨format, rfl⟩
    exact linked_init format
  · cases obsSource_move hs with
    | video hm => exact linked_video hi hm
    | decode hm =>
      obtain ⟨hpc, hrun, hsock, _, hdec, _, hopen, hclosed, hwire, _⟩ := threadMove_frame hm
      constructor
      · rw [hopen, hclosed, hsock]
        exact hi.log
      · unfold ObsSource.linkAt ObsSource.Up ObsSource.Down
        rw [hpc, hrun, hsock, hdec, hwire]
        exact hi.place
    | stop | reset | flags => exact ⟨hi.log, hi.place⟩

/-! ## Decoders and connections -/

/-- Every decoder has been used on one connection only, and the present one on
the present connection. -/
structure Fed (s : ObsSource) : Prop where
  known : ∀ x ∈ s.fed, x.1 < s.created
  one : ∀ x ∈ s.fed, ∀ y ∈ s.fed, x.1 = y.1 → x.2 = y.2
  current : ∀ d, s.videoDecoder = some d →
    d < s.created ∧ ∀ x ∈ s.fed, x.1 = d → x.2 = s.opened.length

theorem fed_append {fed : List (Nat × Nat)} {d n : Nat}
    (ho : ∀ x ∈ fed, ∀ y ∈ fed, x.1 = y.1 → x.2 = y.2) (hd : ∀ x ∈ fed, x.1 = d → x.2 = n) :
    ∀ x ∈ fed ++ [(d, n)], ∀ y ∈ fed ++ [(d, n)], x.1 = y.1 → x.2 = y.2 := by
  intro x hx y hy hxy
  rw [List.mem_append, List.mem_singleton] at hx hy
  rcases hx with hx | rfl <;> rcases hy with hy | rfl
  · exact ho x hx y hy hxy
  · exact hd x hx hxy
  · exact (hd y hy hxy.symm).symm
  · rfl

theorem fed_video {e : VideoEnv} {s t : ObsSource} (hl : Linked s) (hi : Fed s)
    (hm : VideoMove e s t) : Fed t := by
  have ⟨hknown, hone, hcur⟩ := hi
  have hplace := hl.place
  unfold ObsSource.linkAt at hplace
  cases hm
  case newDecoder hpc hd =>
    have hfresh : ∀ x ∈ s.fed, x.1 = s.created → x.2 = s.opened.length := fun x hx hxd =>
      absurd hxd (Nat.ne_of_lt (hknown x hx))
    refine ⟨?_, fed_append hone hfresh, ?_⟩
    · intro x hx
      rcases List.mem_append.mp hx with hx | hx
      · exact Nat.lt_succ_of_lt (hknown x hx)
      · rw [List.mem_singleton.mp hx]
        exact Nat.lt_succ_self _
    · rintro d ⟨⟩
      refine ⟨Nat.lt_succ_self _, fun x hx hxd => ?_⟩
      rcases List.mem_append.mp hx with hx | hx
      · exact hfresh x hx hxd
      · exact congrArg Prod.snd (List.mem_singleton.mp hx)
  case oldDecoder d hpc hd =>
    obtain ⟨hlt, hsame⟩ := hcur d hd
    refine ⟨?_, fed_append hone hsame, fun d' hd' => ?_⟩
    · intro x hx
      rcases List.mem_append.mp hx with hx | hx
      · exact hknown x hx
      · rw [List.mem_singleton.mp hx]
        exact hlt
    · obtain ⟨hlt', hsame'⟩ := hcur d' hd'
      refine ⟨hlt', fun x hx hxd => ?_⟩
      rcases List.mem_append.mp hx with hx | hx
      · exact hsame' x hx hxd
      · exact congrArg Prod.snd (List.mem_singleton.mp hx)
  case connected fd hpc =>
    rw [hpc] at hplace
    refine ⟨hknown, hone, fun d hd => ?_⟩
    rw [show s.videoDecoder = none from hplace.2] at hd
    cases hd
  case null => exact ⟨hknown, hone, fun d hd => by cases hd⟩
  case cleanup | exit =>
    unfold ObsSource.closeValid
    split <;> exact ⟨hknown, hone, hcur⟩
  all_goals exact ⟨hknown, hone, hcur⟩

theorem fed_of_reachable {s : ObsSource} (h : obsSource.Reachable s) : Fed s := by
  refine h.invariant ?_ fun s a t hr hi _ hs => ?_
  · rintro _ ⟨format, rfl⟩
    exact ⟨by simp [ObsSource.init], by simp [ObsSource.init], by simp [ObsSource.init]⟩
  · cases obsSource_move hs with
    | video hm => exact fed_video (linked_of_reachable hr) hi hm
    | decode hm =>
      obtain ⟨_, _, _, _, hdec, hcre, hopen, _, _, hfed⟩ := threadMove_frame hm
      constructor
      · rw [hfed, hcre]
        exact hi.known
      · rw [hfed]
        exact hi.one
      · rw [hdec, hcre, hfed, hopen]
        exact hi.current
    | stop | reset | flags => exact ⟨hi.known, hi.one, hi.current⟩

/-! ## Requests -/

/-- What `VIDEO_REQ` is filled with in a step. -/
def ObsSource.formatted (s : ObsSource) : SourceAct → List VideoReq
  | .video e => if s.video = .send then [e.req] else []
  | _ => []

/-- Each socket gets one request; while a connection stands, the text of the last is
all that has been sent on it. -/
structure Asked (s : ObsSource × List VideoReq) : Prop where
  count : s.1.opened.length = s.2.length + if s.1.video = .send then 1 else 0
  sent : s.1.videoRunning = true → ∃ r ∈ s.2.getLast?, s.1.wire = r.text s.1.format

/-- A step that sends nothing. -/
theorem Asked.keep {s t : ObsSource} {reqs : List VideoReq} (hi : Asked (s, reqs))
    (hopen : t.opened = s.opened) (hsend : s.video ≠ .send) (hsend' : t.video ≠ .send)
    (hrun : t.videoRunning = true → s.videoRunning = true) (hwire : t.wire = s.wire)
    (hformat : t.format = s.format) : Asked (t, reqs) := by
  have ⟨hcount, hsent⟩ := hi
  refine ⟨?_, fun h => ?_⟩
  · rw [if_neg hsend] at hcount
    rw [hopen, if_neg hsend']
    exact hcount
  · rw [hwire, hformat]
    exact hsent (hrun h)

theorem closeValid_frame (s : ObsSource) :
    s.closeValid.opened = s.opened ∧ s.closeValid.videoRunning = s.videoRunning ∧
      s.closeValid.wire = s.wire ∧ s.closeValid.format = s.format := by
  unfold ObsSource.closeValid
  split <;> exact ⟨rfl, rfl, rfl, rfl⟩

theorem afterRecv_ne_send (d : Nat) (pc : RecvPc) : afterRecv d pc ≠ .send := by
  unfold afterRecv
  split <;> nofun

theorem afterWait_ne_send (final : Bool) (d : Nat) (pc : RecvPc) :
    afterWait final d pc ≠ .send := by
  unfold afterWait
  split <;> nofun

theorem asked_video {e : VideoEnv} {s t : ObsSource} {reqs : List VideoReq} (hl : Linked s)
    (hi : Asked (s, reqs)) (hm : VideoMove e s t) :
    Asked (t, reqs ++ s.formatted (.video e)) := by
  have ⟨hcount, hsent⟩ := hi
  have hplace := hl.place
  unfold ObsSource.linkAt at hplace
  have hnone : s.video ≠ .send → reqs ++ s.formatted (.video e) = reqs := fun h => by
    simp [ObsSource.formatted, h]
  cases hm
  case connected fd hpc =>
    rw [hpc] at hplace
    rw [hnone (by simp [hpc])]
    refine ⟨?_, fun hrun => ?_⟩
    · simpa [hpc] using hcount
    · cases hplace.1.1.symm.trans hrun
  case sent hpc hs =>
    rw [hpc] at hplace
    have hreq : s.formatted (.video e) = [e.req] := by simp [ObsSource.formatted, hpc]
    rw [hreq]
    refine ⟨?_, fun _ => ⟨e.req, by simp, ?_⟩⟩
    · simpa [ObsSource.sendReq, hpc] using hcount
    · simp only [ObsSource.sendReq, hplace.2.2.1, List.nil_append]
      rw [netSendAll_sent hs, VideoReq.buffer_eq]
  case notSent hpc =>
    rw [hpc] at hplace
    have hreq : s.formatted (.video e) = [e.req] := by simp [ObsSource.formatted, hpc]
    rw [hreq]
    refine ⟨?_, fun hrun => ?_⟩
    · simpa [ObsSource.sendReq, ObsSource.netClose, hpc] using hcount
    · cases hplace.1.symm.trans hrun
  case cleanup hpc | exit hpc =>
    obtain ⟨hopen, _, hwire, hformat⟩ := closeValid_frame s
    rw [hnone (by simp [hpc])]
    exact hi.keep hopen (by simp [hpc]) nofun nofun hwire hformat
  case closeFailed hpc =>
    rw [hnone (by simp [hpc])]
    exact hi.keep rfl (by simp [hpc]) nofun nofun rfl rfl
  case receive hpc _ =>
    rw [hnone (by simp [hpc])]
    exact hi.keep rfl (by simp [hpc]) (afterRecv_ne_send _ _) id rfl rfl
  case wait hpc _ =>
    rw [hnone (by simp [hpc])]
    exact hi.keep rfl (by simp [hpc]) (afterWait_ne_send _ _ _) id rfl rfl
  case noDecoder final hpc _ | null final hpc =>
    rw [hnone (by simp [hpc])]
    exact hi.keep rfl (by simp [hpc]) (by cases final <;> nofun) id rfl rfl
  case quit hpc | enter hpc | active hpc | inactive hpc | resetAsked hpc | notAsked hpc |
      noConnection hpc | isRunning hpc _ | notRunning hpc _ | newDecoder hpc _ |
      oldDecoder hpc _ | retire hpc _ _ | delete hpc _ | join hpc _ =>
    rw [hnone (by simp [hpc])]
    exact hi.keep rfl (by simp [hpc]) nofun id rfl rfl

theorem asked_of_reachable {s : ObsSource × List VideoReq}
    (h : (obsSource.traced ObsSource.formatted).Reachable s) : Asked s := by
  refine h.invariant ?_ fun s a t hr hi _ hs => ?_
  · rintro ⟨s, reqs⟩ ⟨⟨format, hinit⟩, hreqs⟩
    obtain rfl : s = .init format := hinit
    obtain rfl : reqs = [] := hreqs
    exact ⟨rfl, nofun⟩
  · obtain ⟨s, reqs⟩ := s
    obtain ⟨t, reqs'⟩ := t
    obtain ⟨hstep, hreqs⟩ := Runs.Machine.traced_step hs
    obtain rfl : reqs' = reqs ++ s.formatted a := hreqs
    replace hstep : obsSource.step s a = some t := hstep
    cases obsSource_move hstep with
    | video hm => exact asked_video (linked_of_reachable (hr.of_traced (G := Runs.Any))) hi hm
    | decode hm =>
      obtain ⟨hpc, hrun, _, _, _, _, hopen, _, hwire, _⟩ := threadMove_frame hm
      have hformat : t.format = s.format := by cases hm <;> rfl
      have ⟨hcount, hsent⟩ := hi
      constructor
      · simpa [ObsSource.formatted, hopen, hpc] using hcount
      · simpa [ObsSource.formatted, hrun, hwire, hformat] using hsent
    | stop | reset | flags =>
      have ⟨hcount, hsent⟩ := hi
      constructor
      · simpa [ObsSource.formatted] using hcount
      · simpa [ObsSource.formatted] using hsent

/-! ## The connection -/

/-- The socket in use is the only one open: all others have been passed to
`net_close`, each once and in the order in which they were opened. -/
def ObsSource.OnlyOpen (s : ObsSource) (fd : Nat) : Prop :=
  s.sock = some fd ∧ s.opened.map some = s.closed ++ [some fd]

/-- **Connections.** In every state of every run, at most one socket is open; when
`video_thread` has returned, each has been closed once; `recv_video_frame` is
called on an open socket, on which `VIDEO_REQ` as it was filled for this connection
has been sent once and nothing else; `video_running` means that this socket is open;
and no decoder is left when `connect_device` is called, so none is ever fed from two
connections. -/
theorem connection_kept {s : ObsSource} {reqs : List VideoReq}
    (h : (obsSource.traced ObsSource.formatted).Reachable (s, reqs)) :
    ((s.sock = none ∧ s.opened.map some = s.closed) ∨ ∃ fd, s.OnlyOpen fd) ∧
      (s.video = .done ∨ s.video = .finished → s.opened.map some = s.closed) ∧
      (s.video = .recvEnter ∨ (∃ d, s.video = .receiving d) →
        (∃ fd, s.OnlyOpen fd) ∧ reqs.length = s.opened.length ∧
          ∃ r ∈ reqs.getLast?, s.wire = r.text s.format) ∧
      (s.videoRunning = true → ∃ fd, s.OnlyOpen fd) ∧
      (s.video = .connect → s.videoDecoder = none) ∧
      ∀ x ∈ s.fed, ∀ y ∈ s.fed, x.1 = y.1 → x.2 = y.2 := by
  have hrun := h.of_traced (G := Runs.Any)
  obtain ⟨hlog, hplace⟩ := linked_of_reachable hrun
  obtain ⟨hcount, hsent⟩ := asked_of_reachable h
  have hopen : s.sock.isSome = true → ∃ fd, s.OnlyOpen fd := by
    intro hs
    obtain ⟨fd, hfd⟩ := Option.isSome_iff_exists.mp hs
    exact ⟨fd, hfd, by simpa [hfd] using hlog⟩
  have hshut : s.sock = none → s.opened.map some = s.closed := fun hs => by
    simpa [hs] using hlog
  have hrecv : s.Up → s.video ≠ .send → (∃ fd, s.OnlyOpen fd) ∧ reqs.length = s.opened.length ∧
      ∃ r ∈ reqs.getLast?, s.wire = r.text s.format := by
    intro hup hpc
    rw [if_neg hpc] at hcount
    exact ⟨hopen hup.2, hcount.symm, hsent hup.1⟩
  unfold ObsSource.linkAt at hplace
  refine ⟨?_, ?_, ?_, ?_, ?_, (fed_of_reachable hrun).one⟩
  · cases hs : s.sock with
    | none => exact .inl ⟨rfl, hshut hs⟩
    | some fd => exact .inr (hopen (by simp [hs]))
  · rintro (hpc | hpc) <;> rw [hpc] at hplace <;> exact hshut hplace.2
  · rintro (hpc | ⟨d, hpc⟩) <;> rw [hpc] at hplace <;> exact hrecv hplace (by simp [hpc])
  · intro hrun
    apply hopen
    cases hpc : s.video <;> simp_all [ObsSource.Up, ObsSource.Down]
  · intro hpc
    rw [hpc] at hplace
    exact hplace.2

/-- Allocation, `init`, `connect_device` and `net_send_all` succeed. -/
def VideoEnv.quiet (fd : Nat) (stream : Sock) : VideoEnv :=
  ⟨.quiet, some fd, stream, ⟨1280, 720, 0, "linux".toList, false, linux_fits⟩, [1000]⟩

/-- A connection that ends before the first frame, and a second one on a
descriptor of the same number, each with its request. -/
theorem connection_kept_twice : ∃ s reqs,
    (obsSource.traced ObsSource.formatted).Reachable (s, reqs) ∧ s.opened = [5, 5] ∧
    s.created = 2 ∧ (∃ fd, s.OnlyOpen fd) ∧ reqs.length = 2 ∧
    ∃ r ∈ reqs.getLast?, r.width = 1280 ∧ s.wire = r.text .avc := by
  obtain ⟨⟨s, reqs⟩, hs, hp⟩ := (obsSource.traced ObsSource.formatted).reachable_of_replay
    (fun s => s.1.opened = [5, 5] ∧ s.1.created = 2 ∧ s.1.video = .receiving 1 ∧
      s.1.format = .avc ∧ s.2.all fun r => r.width = 1280)
    (.init .avc, []) (List.replicate 27 (.video (.quiet 5 ⟨[], false, 0⟩)))
    ⟨⟨_, rfl⟩, rfl⟩ (by decide +kernel)
  obtain ⟨ho, hc, hpc, hformat, hwidth⟩ := of_decide_eq_true hp
  obtain ⟨hfd, hlen, r, hr, hwire⟩ := (connection_kept hs).2.2.1 (.inr ⟨1, hpc⟩)
  refine ⟨s, reqs, hs, ho, hc, hfd, by rw [hlen, ho]; rfl, r, hr, ?_, hformat ▸ hwire⟩
  exact of_decide_eq_true (List.all_eq_true.mp hwidth r (List.mem_of_mem_getLast? hr))

end DroidcamWhip
