import DroidcamWhip.Connection
import DroidcamWhip.Conversion

/-!
The size that `video_thread` asks the phone for. `video_width` and `video_height`
are the size given to `droidcam_source_start` and also the size of the current
encoder, which `push_video_frame` stores in the other thread.
-/

namespace DroidcamWhip

/-! ## The two threads -/

/-- Where `video_decode_thread` is with a decoded frame: before the test of
`got_output`, or about to store a member for a new encoder. -/
inductive PushPc where
  | idle
  | ready
  | storeWidth (f : ObsFrame) (a : PushAnswer)
  | storeHeight (f : ObsFrame) (a : PushAnswer)

/-- In `push_video_frame`. -/
def PushPc.busy : PushPc → Bool
  | .storeWidth _ _ | .storeHeight _ _ => true
  | _ => false

/-- A source, what `push_video_frame` works on, the two members they share, and
what `video_thread` has loaded of them for the request it formats. The last two
record the frames that the members were last compared with or stored from. -/
structure Resolution where
  source : ObsSource
  conv : Conversion
  pusher : PushPc
  videoWidth : Int32
  videoHeight : Int32
  loadedWidth : Option Int32
  loadedHeight : Option Int32
  widthFrom : Option ObsFrame
  heightFrom : Option ObsFrame

/-- A step of the source, a load of a member by `video_thread`, the entry into
`push_video_frame`, or its next store. -/
inductive ResolutionAct where
  | source (a : SourceAct)
  | loadWidth
  | loadHeight
  | push (f : ObsFrame) (a : PushAnswer)
  | store

/-- The next step of `video_decode_thread` is a call of `decode_video`. -/
def ObsSource.decodes (s : ObsSource) : Bool :=
  match s.decode with
  | .working d =>
      match (s.decoders d).recvPc, (s.decoders d).decodePc with
      | .deleted, _ => false
      | _, .decoding _ => true
      | _, _ => false
  | _ => false

namespace Resolution

/-- `droidcam_source_start` with the size `configured`. -/
def init (format : VideoFormat) (configured : VideoSize) : Resolution where
  source := .init format
  conv := .start configured
  pusher := .idle
  videoWidth := configured.width
  videoHeight := configured.height
  loadedWidth := none
  loadedHeight := none
  widthFrom := none
  heightFrom := none

/-- `push_video_frame` needs another encoder for the frame. -/
def renews (s : Resolution) (f : ObsFrame) : Bool :=
  s.conv.encoder.current.isNone || s.videoWidth ≠ f.width.toInt32 ||
    s.videoHeight ≠ f.height.toInt32

/-- The request is formatted with what was loaded, and the decoding thread makes
no other step while it is in `push_video_frame`. -/
def allows (s : Resolution) : SourceAct → Bool
  | .video e =>
      s.source.video ≠ .send ||
        (s.loadedWidth = some e.req.width && s.loadedHeight = some e.req.height)
  | .decode _ => !s.pusher.busy
  | _ => true

/-- What a step of the source does to the rest. -/
def follow (s : Resolution) : SourceAct → Resolution
  | .video _ =>
      if s.source.video = .send then { s with loadedWidth := none, loadedHeight := none } else s
  | .decode ok => { s with pusher := if s.source.decodes && ok then .ready else .idle }
  | _ => s

/-- `push_video_frame` has returned. -/
def finish (f : ObsFrame) (a : PushAnswer) (s : Resolution) : Resolution :=
  { s with conv := (s.conv.pushVideoFrame f a).2, pusher := .idle }

def step (s : Resolution) : ResolutionAct → Option Resolution
  | .source a =>
      if s.allows a then (s.source.step a).map fun t => { s.follow a with source := t } else none
  | .loadWidth =>
      if s.source.video = .send && s.loadedWidth.isNone then
        some { s with loadedWidth := some s.videoWidth }
      else none
  | .loadHeight =>
      if s.source.video = .send && s.loadedHeight.isNone then
        some { s with loadedHeight := some s.videoHeight }
      else none
  | .push f a =>
      match s.pusher with
      | .ready =>
          if (s.conv.frameToBgr f a).1 = false then some (s.finish f a)
          else if s.renews f then some { s with pusher := .storeWidth f a }
          else some { s.finish f a with widthFrom := some f, heightFrom := some f }
      | _ => none
  | .store =>
      match s.pusher with
      | .storeWidth f a =>
          some { s with
            videoWidth := f.width.toInt32, widthFrom := some f, pusher := .storeHeight f a }
      | .storeHeight f a =>
          some { s.finish f a with videoHeight := f.height.toInt32, heightFrom := some f }
      | _ => none

/-- The request that a step formats. -/
def formatted (s : Resolution) : ResolutionAct → List VideoReq
  | .source (.video e) => if s.source.video = .send then [e.req] else []
  | _ => []

end Resolution

/-- The runs of a source that was started with some format and size. -/
def resolution (format : VideoFormat) (configured : VideoSize) :
    Runs.Machine Resolution ResolutionAct where
  start s := s = .init format configured
  step s a := s.step a

def VideoReq.size (r : VideoReq) : VideoSize := ⟨r.width, r.height⟩

/-- A member is loaded only when the last frame that was converted, if any, has
the configured width or height. -/
def LoadsConfigured (configured : VideoSize) (s : Resolution) : ResolutionAct → Prop
  | .loadWidth => ∀ f ∈ s.widthFrom, f.width.toInt32 = configured.width
  | .loadHeight => ∀ f ∈ s.heightFrom, f.height.toInt32 = configured.height
  | _ => True

/-! ## What one step can do -/

/-- Every step, with the test that led to it. -/
inductive ResolutionMove (s : Resolution) : ResolutionAct → Resolution → Prop
  | source {a t} (hallow : s.allows a = true) (hs : obsSource.step s.source a = some t) :
      ResolutionMove s (.source a) { s.follow a with source := t }
  | loadWidth (hpc : s.source.video = .send) :
      ResolutionMove s .loadWidth { s with loadedWidth := some s.videoWidth }
  | loadHeight (hpc : s.source.video = .send) :
      ResolutionMove s .loadHeight { s with loadedHeight := some s.videoHeight }
  | refused {f a} (hpc : s.pusher = .ready) : ResolutionMove s (.push f a) (s.finish f a)
  | renew {f a} (hpc : s.pusher = .ready) :
      ResolutionMove s (.push f a) { s with pusher := .storeWidth f a }
  | keep {f a} (hpc : s.pusher = .ready) (hr : s.renews f = false) :
      ResolutionMove s (.push f a)
        { s.finish f a with widthFrom := some f, heightFrom := some f }
  | storeWidth {f a} (hpc : s.pusher = .storeWidth f a) :
      ResolutionMove s .store { s with
        videoWidth := f.width.toInt32, widthFrom := some f, pusher := .storeHeight f a }
  | storeHeight {f a} (hpc : s.pusher = .storeHeight f a) :
      ResolutionMove s .store
        { s.finish f a with videoHeight := f.height.toInt32, heightFrom := some f }

theorem resolution_move {format : VideoFormat} {configured : VideoSize} {s t : Resolution}
    {a : ResolutionAct} (h : (resolution format configured).step s a = some t) :
    ResolutionMove s a t := by
  change s.step a = some t at h
  cases a with
  | source a =>
    simp only [Resolution.step] at h
    split at h
    · obtain ⟨u, hu, rfl⟩ := Option.map_eq_some_iff.mp h
      exact .source ‹_› hu
    · cases h
  | loadWidth =>
    simp only [Resolution.step] at h
    split at h <;> cases h
    rename_i hpc
    exact .loadWidth (by simpa using (Bool.and_eq_true_iff.mp hpc).1)
  | loadHeight =>
    simp only [Resolution.step] at h
    split at h <;> cases h
    rename_i hpc
    exact .loadHeight (by simpa using (Bool.and_eq_true_iff.mp hpc).1)
  | push f a =>
    simp only [Resolution.step] at h
    split at h
    · split at h
      · cases h
        exact .refused ‹_›
      · split at h <;> cases h
        · exact .renew ‹_›
        · exact .keep ‹_› (Bool.eq_false_iff.mpr ‹_›)
    · cases h
  | store =>
    simp only [Resolution.step] at h
    split at h <;> cases h
    · exact .storeWidth ‹_›
    · exact .storeHeight ‹_›

/-! ## Runs -/

section Runs

variable {format : VideoFormat} {configured : VideoSize}

/-- The source runs as it would alone, and so does the conversion of frames. -/
structure Composed (s : Resolution) : Prop where
  source : obsSource.Reachable s.source
  conv : conversion.Reachable s.conv
  live : s.conv.stopped = false

theorem Composed.finish {s : Resolution} (h : Composed s) (f : ObsFrame) (a : PushAnswer) :
    Composed (s.finish f a) := by
  have hlive : (s.conv.pushVideoFrame f a).2.stopped = false :=
    stopped_pushVideoFrame f a s.conv ▸ h.live
  have hstep : conversion.step s.conv (.push f a) = some (s.conv.pushVideoFrame f a).2 := by
    simp [conversion, Conversion.step, h.live]
  exact ⟨h.source, h.conv.next hstep, hlive⟩

theorem composed_of_reachable {s : Resolution}
    (h : (resolution format configured).Reachable s) : Composed s := by
  refine h.invariant ?_ fun s a t _ hi _ hs => ?_
  · rintro _ rfl
    exact ⟨.start ⟨_, rfl⟩, .start ⟨_, rfl⟩, rfl⟩
  · cases resolution_move hs with
    | @source a t _ hstep =>
      have hconv : (s.follow a).conv = s.conv := by
        unfold Resolution.follow
        split
        · split <;> rfl
        · rfl
        · rfl
      exact ⟨hi.source.next hstep, hconv ▸ hi.conv, hconv ▸ hi.live⟩
    | refused => exact hi.finish _ _
    | keep | storeHeight => exact ⟨hi.source, (hi.finish _ _).conv, (hi.finish _ _).live⟩
    | loadWidth | loadHeight | renew | storeWidth => exact ⟨hi.source, hi.conv, hi.live⟩

/-- The members are the size of the last frame that was converted, or the
configured size. -/
structure Tracked (configured : VideoSize) (s : Resolution) : Prop where
  width : s.videoWidth = (s.widthFrom.map fun f => f.width.toInt32).getD configured.width
  height : s.videoHeight = (s.heightFrom.map fun f => f.height.toInt32).getD configured.height

theorem follow_tracked (s : Resolution) (a : SourceAct) :
    (s.follow a).videoWidth = s.videoWidth ∧ (s.follow a).videoHeight = s.videoHeight ∧
      (s.follow a).widthFrom = s.widthFrom ∧ (s.follow a).heightFrom = s.heightFrom := by
  unfold Resolution.follow
  split
  · split <;> exact ⟨rfl, rfl, rfl, rfl⟩
  · exact ⟨rfl, rfl, rfl, rfl⟩
  · exact ⟨rfl, rfl, rfl, rfl⟩

theorem tracked_of_reachable {s : Resolution}
    (h : (resolution format configured).Reachable s) : Tracked configured s := by
  refine h.invariant ?_ fun s a t _ hi _ hs => ?_
  · rintro _ rfl
    exact ⟨rfl, rfl⟩
  · cases resolution_move hs with
    | @source a t _ _ =>
      obtain ⟨hw, hh, hwf, hhf⟩ := follow_tracked s a
      constructor
      · rw [hw, hwf]
        exact hi.width
      · rw [hh, hhf]
        exact hi.height
    | keep _ hr =>
      simp only [Resolution.renews, Bool.or_eq_false_iff, decide_eq_false_iff_not, not_not] at hr
      exact ⟨hr.1.2, hr.2⟩
    | storeWidth => exact ⟨rfl, hi.height⟩
    | storeHeight => exact ⟨hi.width, rfl⟩
    | loadWidth | loadHeight | refused | renew => exact ⟨hi.width, hi.height⟩

/-- What `video_thread` has loaded for its next request is the configured size. -/
structure LoadedConfigured (configured : VideoSize) (s : Resolution) : Prop where
  width : ∀ w ∈ s.loadedWidth, w = configured.width
  height : ∀ h ∈ s.loadedHeight, h = configured.height

theorem loaded_of_reach {s : Resolution}
    (h : (resolution format configured).Reach (LoadsConfigured configured) s) :
    LoadedConfigured configured s := by
  refine h.invariant ?_ fun s a t hr hi hg hs => ?_
  · rintro _ rfl
    exact ⟨nofun, nofun⟩
  · have htrack := tracked_of_reachable hr.reachable
    cases resolution_move hs with
    | @source a t _ _ =>
      unfold Resolution.follow
      split
      · split
        · exact ⟨nofun, nofun⟩
        · exact ⟨hi.width, hi.height⟩
      · exact ⟨hi.width, hi.height⟩
      · exact ⟨hi.width, hi.height⟩
    | loadWidth =>
      refine ⟨?_, hi.height⟩
      rintro w ⟨⟩
      rw [htrack.width]
      cases hf : s.widthFrom with
      | none => rfl
      | some f => exact hg f hf
    | loadHeight =>
      refine ⟨hi.width, ?_⟩
      rintro w ⟨⟩
      rw [htrack.height]
      cases hf : s.heightFrom with
      | none => rfl
      | some f => exact hg f hf
    | refused | keep | storeHeight => exact ⟨hi.width, hi.height⟩
    | renew | storeWidth => exact ⟨hi.width, hi.height⟩

/-- **Requests.** As long as the members are loaded when no frame of another size
is the last one converted, every request names the configured size. -/
theorem requests_configured {s : Resolution × List VideoReq}
    (h : ((resolution format configured).traced Resolution.formatted).Reach
      (fun s a => LoadsConfigured configured s.1 a) s) : ∀ r ∈ s.2, r.size = configured := by
  refine h.recorded fun s a t hr _ hs r hmem => ?_
  have hload := loaded_of_reach hr
  cases resolution_move hs with
  | @source a t hallow _ =>
    cases a with
    | video e =>
      simp only [Resolution.formatted] at hmem
      split at hmem
      · rename_i hpc
        simp only [Resolution.allows, hpc, ne_eq, not_true_eq_false, decide_false, Bool.false_or,
          Bool.and_eq_true, decide_eq_true_eq] at hallow
        rw [List.mem_singleton.mp hmem, VideoReq.size, hload.width _ hallow.1,
          hload.height _ hallow.2]
      · simp at hmem
    | decode | stop | reset | flags => simp [Resolution.formatted] at hmem
  | loadWidth | loadHeight | refused | renew | keep | storeWidth | storeHeight =>
    simp [Resolution.formatted] at hmem

theorem loadsConfigured_of_all {s : Resolution}
    (hw : s.widthFrom.all fun f => f.width.toInt32 = configured.width)
    (hh : s.heightFrom.all fun f => f.height.toInt32 = configured.height) (a : ResolutionAct) :
    LoadsConfigured configured s a := by
  cases a with
  | loadWidth => exact fun f hf => of_decide_eq_true ((Option.all_eq_true ..).mp hw f hf)
  | loadHeight => exact fun f hf => of_decide_eq_true ((Option.all_eq_true ..).mp hh f hf)
  | source | push | store => trivial

/-- A load against the condition loads another size. -/
theorem loadsConfigured_needed {s t : Resolution} {a : ResolutionAct}
    (h : (resolution format configured).Reachable s) (hg : ¬ LoadsConfigured configured s a)
    (hs : (resolution format configured).step s a = some t) :
    (∃ w ∈ t.loadedWidth, w ≠ configured.width) ∨ ∃ x ∈ t.loadedHeight, x ≠ configured.height := by
  have htrack := tracked_of_reachable h
  cases resolution_move hs with
  | loadWidth =>
    simp only [LoadsConfigured, not_forall] at hg
    obtain ⟨f, hf, hne⟩ := hg
    refine .inl ⟨_, rfl, ?_⟩
    rw [htrack.width, Option.mem_def.mp hf]
    exact hne
  | loadHeight =>
    simp only [LoadsConfigured, not_forall] at hg
    obtain ⟨f, hf, hne⟩ := hg
    refine .inr ⟨_, rfl, ?_⟩
    rw [htrack.height, Option.mem_def.mp hf]
    exact hne
  | source | refused | renew | keep | storeWidth | storeHeight => exact absurd trivial hg

end Runs

/-! ## A reconnect behind one frame -/

/-- A request for `size` on a new connection that carries `stream`. -/
def VideoEnv.asking (size : VideoSize) (stream : Sock) : VideoEnv :=
  { VideoEnv.quiet 5 stream with
    req := ⟨size.width, size.height, 0, "linux".toList, false, linux_fits⟩ }

/-- A source for 1280x720 connects, receives and decodes a packet and pushes the
frame `f`; the connection ends, and the next request is for `asked`. -/
def reconnectRun (f : ObsFrame) (asked : VideoSize) : List ResolutionAct :=
  let first := VideoEnv.asking ⟨1280, 720⟩ ⟨encodeHeader 7 5 ++ [0, 0, 0, 1, 101], false, 0⟩
  let second := VideoEnv.asking asked ⟨[], false, 0⟩
  List.flatten
    [List.replicate 4 (.source (.video first)), [.loadWidth, .loadHeight],
      List.replicate 15 (.source (.video first)), List.replicate 6 (.source (.decode true)),
      [.push f .good], [.store, .store], [.source (.decode true)],
      List.replicate 16 (.source (.video second)), [.loadWidth, .loadHeight],
      [.source (.video second)]]

/-- A frame of the configured size leaves the next request as it was. -/
theorem requests_configured_same : ∃ s,
    ((resolution .avc ⟨1280, 720⟩).traced Resolution.formatted).Reach
      (fun s a => LoadsConfigured ⟨1280, 720⟩ s.1 a) s ∧
    s.1.conv.encodes.length = 1 ∧ s.2.length = 2 ∧ ∀ r ∈ s.2, r.size = ⟨1280, 720⟩ := by
  obtain ⟨s, hs, hp⟩ := ((resolution .avc ⟨1280, 720⟩).traced Resolution.formatted).reach_of_replay
    (fun s _ => (s.1.widthFrom.all fun f => f.width.toInt32 = 1280) &&
      s.1.heightFrom.all fun f => f.height.toInt32 = 720)
    (fun s => s.1.conv.encodes.length = 1 ∧ s.2.length = 2)
    (.init .avc ⟨1280, 720⟩, []) (reconnectRun (.i420 1280 720) ⟨1280, 720⟩)
    (fun s a hg => show LoadsConfigured ⟨1280, 720⟩ s.1 a from
      loadsConfigured_of_all (Bool.and_eq_true_iff.mp hg).1 (Bool.and_eq_true_iff.mp hg).2 a)
    (.start ⟨rfl, rfl⟩) (by decide +kernel)
  obtain ⟨henc, hlen⟩ := of_decide_eq_true hp
  exact ⟨s, hs, henc, hlen, requests_configured hs⟩

/-- The phone is turned: after the next reconnect it is asked for 720x1280. -/
theorem requests_turned : ¬ ∀ s,
    ((resolution .avc ⟨1280, 720⟩).traced Resolution.formatted).Reachable s →
      ∀ r ∈ s.2, r.size = ⟨1280, 720⟩ := by
  intro hall
  obtain ⟨s, hs, hp⟩ :=
    ((resolution .avc ⟨1280, 720⟩).traced Resolution.formatted).reachable_of_replay
      (fun s => s.2.map VideoReq.size = [⟨1280, 720⟩, ⟨720, 1280⟩])
      (.init .avc ⟨1280, 720⟩, []) (reconnectRun (.i420 720 1280) ⟨720, 1280⟩)
      ⟨rfl, rfl⟩ (by decide +kernel)
  have hsizes := of_decide_eq_true hp
  obtain ⟨r, hr, hsize⟩ := List.mem_map.mp (hsizes ▸ List.mem_cons_of_mem _ (List.mem_singleton_self _) :
    (⟨720, 1280⟩ : VideoSize) ∈ s.2.map VideoReq.size)
  exact absurd (hsize.symm.trans (hall s hs r hr)) (by decide)

end DroidcamWhip
