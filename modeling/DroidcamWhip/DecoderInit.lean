import DroidcamWhip.Frame
import DroidcamWhip.Packet
import DroidcamWhip.Lib.Custody

/-!
`FFMpegDecoder::init` and `~FFMpegDecoder`: what a decoder gets from the libraries, with the
choice of a hardware device, and what it gives back. Everything that is handed out is numbered.
-/

namespace DroidcamWhip

open Custody

/-! ## The libraries -/

/-- `enum AVHWDeviceType`. -/
inductive HwDeviceType where
  | d3d12va
  | d3d11va
  | cuda
  | dxva2
  | videotoolbox
  | vaapi
  | vdpau
  | other (id : Nat)
  deriving DecidableEq

/-- What the program is built for, on Windows with `LIBAVCODEC_VERSION_MAJOR`. -/
inductive BuildTarget where
  | windows (libavcodec : Nat)
  | apple
  | linux
  | other

/-- `hw_device_list`. -/
def hwDeviceList : BuildTarget → List HwDeviceType
  | .windows libavcodec =>
      (if libavcodec > 60 then [.d3d12va] else []) ++ [.d3d11va, .cuda, .dxva2]
  | .apple => [.videotoolbox]
  | .linux => [.cuda, .vaapi, .vdpau]
  | .other => []

/-- `AVCodecHWConfig`; `deviceCtx` is `AV_CODEC_HW_CONFIG_METHOD_HW_DEVICE_CTX` in its
methods. -/
structure HwConfig where
  deviceCtx : Bool
  deviceType : HwDeviceType
  pixFmt : AvPixelFormat

/-- What the libraries answer in one `init`: the codec that is found, with its hardware
configurations, which allocations succeed, which devices can be opened, and what
`avcodec_open2` returns. -/
structure InitAnswer where
  codec : Option (List HwConfig)
  context : Bool
  device : HwDeviceType → Bool
  ref : Bool
  opened : Int
  frame : Bool
  frameHw : Bool
  packet : Bool

/-- An `AVCodecContext`: the reference it holds to a device, what is set for audio (the
sample rate and the number of channels), and whether it is open. -/
structure DecoderContext where
  id : Nat
  hwDeviceCtx : Option Nat
  audio : Option (Nat × Nat)
  opened : Bool

/-- The members of an `FFMpegDecoder` that `init` sets. The last two record how many things
have been handed out and which of them were given back. -/
structure DecoderObject where
  codec : Option CodecId
  decoder : Option DecoderContext
  packet : Option Nat
  hwCtx : Option Nat
  frameHw : Option Nat
  frame : Option Nat
  hwPixFmt : AvPixelFormat
  hw : Bool
  made : Nat
  freed : List Nat

/-! ## The code -/

/-- `has_hw_type`. -/
def hasHwType (c : List HwConfig) (type : HwDeviceType) : AvPixelFormat :=
  match c with
  | [] => .none
  | config :: c => if config.deviceCtx ∧ config.deviceType = type then config.pixFmt
      else hasHwType c type

def aacFrequencies : List Nat :=
  [96000, 88200, 64000, 48000, 44100, 32000, 24000, 22050, 16000, 12000, 11025, 8000]

/-- `sr_idx` for the first two bytes of an AAC header. -/
def srIdx (header : UInt8 × UInt8) : Nat :=
  (header.1.toNat <<< 1 ||| header.2.toNat >>> 7) &&& 0x1F

/-- The sample rate and the number of channels, unless the index is out of the table. -/
def aacAudio (header : UInt8 × UInt8) : Option (Nat × Nat) :=
  aacFrequencies[srIdx header]?.map fun rate => (rate, header.2.toNat >>> 3 &&& 0xF)

namespace DecoderObject

/-- `FFMpegDecoder()`. -/
def new : DecoderObject where
  codec := none
  decoder := none
  packet := none
  hwCtx := none
  frameHw := none
  frame := none
  hwPixFmt := .none
  hw := false
  made := 0
  freed := []

/-- Where something that a library has handed out is kept. -/
def take (o : DecoderObject) (put : Nat → DecoderObject) : DecoderObject :=
  { put o.made with made := o.made + 1 }

/-- The loop of `init_hw_decoder`: the device that is opened, if any, and what becomes of
`hw_pix_fmt`. -/
def tryDevices (a : InitAnswer) (c : List HwConfig) :
    List HwDeviceType → AvPixelFormat → Option HwDeviceType × AvPixelFormat
  | [], fmt => (none, fmt)
  | type :: types, _ =>
      if hasHwType c type ≠ .none then
        if a.device type then (some type, hasHwType c type) else tryDevices a c types .none
      else tryDevices a c types .none

/-- `init_hw_decoder`. -/
def initHwDecoder (target : BuildTarget) (a : InitAnswer) (c : List HwConfig)
    (d : DecoderContext) (o : DecoderObject) : DecoderObject :=
  let (device, fmt) := tryDevices a c (hwDeviceList target) o.hwPixFmt
  let o := { o with hwPixFmt := fmt }
  match device with
  | none => o
  | some _ =>
      let o := o.take fun id => { o with hwCtx := some id, hw := true }
      if a.ref then o.take fun id => { o with decoder := some { d with hwDeviceCtx := some id } }
      else o

/-- The frame for pictures that are in a device. -/
def initFrameHw (a : InitAnswer) (o : DecoderObject) : DecoderObject :=
  if o.hw then
    if a.frameHw then o.take fun id => { o with frameHw := some id } else { o with hw := false }
  else o

/-- `init` behind `avcodec_open2`. -/
def initFrames (a : InitAnswer) (o : DecoderObject) : Int × DecoderObject :=
  if ¬ a.frame then (-1, o)
  else
    let o := (o.take fun id => { o with frame := some id }).initFrameHw a
    if ¬ a.packet then (-1, o) else (0, o.take fun id => { o with packet := some id })

/-- `init` from the choice of a device on. -/
def initDevice (target : BuildTarget) (useHw : Bool) (a : InitAnswer) (c : List HwConfig)
    (d : DecoderContext) (o : DecoderObject) : Int × DecoderObject :=
  let o := if useHw then o.initHwDecoder target a c d else o
  if a.opened < 0 then (a.opened, o)
  else initFrames a { o with decoder := o.decoder.map fun d => { d with opened := true } }

/-- `FFMpegDecoder::init`; nothing if it uses a context that has not been allocated. -/
def init (target : BuildTarget) (header : Option (UInt8 × UInt8)) (id : CodecId) (useHw : Bool)
    (a : InitAnswer) (o : DecoderObject) : Option (Int × DecoderObject) :=
  match a.codec with
  | none => some (-1, { o with codec := none })
  | some c =>
      if ¬ a.context then none
      else
        let d : DecoderContext := ⟨o.made, none, none, false⟩
        let o := o.take fun _ => { o with codec := some id, decoder := some d }
        if id = .aac then
          match header with
          | none => some (-1, o)
          | some header =>
              match aacAudio header with
              | none => some (-1, o)
              | some audio =>
                  let d := { d with audio := some audio }
                  some ({ o with decoder := some d }.initDevice target useHw a c d)
        else some (o.initDevice target useHw a c d)

/-- What is kept in the members, and with a context. -/
def kept (o : DecoderObject) : List Nat :=
  o.frameHw.toList ++ o.frame.toList ++ o.hwCtx.toList ++ o.packet.toList ++
    (o.decoder.map DecoderContext.id).toList ++ (o.decoder.bind DecoderContext.hwDeviceCtx).toList

/-- `~FFMpegDecoder`: a context gives its reference back as well. -/
def destroy (o : DecoderObject) : DecoderObject :=
  { o with
    frameHw := none
    frame := none
    hwCtx := none
    packet := none
    decoder := none
    freed := o.freed ++ o.kept }

/-- What `decode_video` works on. -/
def uses (o : DecoderObject) : List (Option Nat) :=
  [o.packet, o.decoder.map DecoderContext.id] ++ (if o.hw then [o.frameHw] else []) ++ [o.frame]

/-- How much of that is not there, or no longer. -/
def missing (o : DecoderObject) : Nat :=
  (o.uses.filter fun id => id.all fun id => id ∈ o.freed).length

end DecoderObject

/-! ## The device -/

/-- A device that can be used: the codec has a configuration for it, with a format, and it can
be opened. -/
def InitAnswer.Usable (a : InitAnswer) (c : List HwConfig) (type : HwDeviceType) : Prop :=
  hasHwType c type ≠ .none ∧ a.device type = true

instance (a : InitAnswer) (c : List HwConfig) (type : HwDeviceType) :
    Decidable (a.Usable c type) :=
  inferInstanceAs (Decidable (_ ∧ _))

namespace DecoderObject

/-- The loop takes the first device of the list that can be used. -/
theorem tryDevices_eq (a : InitAnswer) (c : List HwConfig) (types : List HwDeviceType) :
    tryDevices a c types .none = (types.find? fun type => a.Usable c type).elim (none, .none)
      fun type => (some type, hasHwType c type) := by
  induction types with
  | nil => rfl
  | cons type types ih =>
    rw [tryDevices, List.find?_cons, ih]
    by_cases hfmt : hasHwType c type ≠ .none
    · by_cases hdevice : a.device type = true
      · simp [InitAnswer.Usable, hfmt, hdevice]
      · simp [InitAnswer.Usable, hdevice]
    · simp [InitAnswer.Usable, hfmt]

/-! ## What is kept -/

theorem kept_count (o : DecoderObject) (i : Nat) :
    o.kept.count i = o.frameHw.toList.count i + o.frame.toList.count i + o.hwCtx.toList.count i +
      o.packet.toList.count i + (o.decoder.map DecoderContext.id).toList.count i +
      (o.decoder.bind DecoderContext.hwDeviceCtx).toList.count i := by
  simp only [kept, List.count_append]

theorem count_one (id i : Nat) : [id].count i = if i = id then 1 else 0 := by
  rw [List.count_singleton]
  by_cases h : i = id
  · simp [h]
  · simp [h, Ne.symm h]

/-- What was handed out is kept or has been given back. -/
def Owned (o : DecoderObject) : Prop := Held [o.kept, o.freed] o.made

variable {o : DecoderObject}

theorem Owned.take (h : o.Owned) {put : Nat → DecoderObject}
    (hkept : ∀ i, (put o.made).kept.count i = o.kept.count i + if i = o.made then 1 else 0)
    (hfreed : (put o.made).freed = o.freed) : (o.take put).Owned := by
  refine h.issue fun i => ?_
  have hsame : (o.take put).kept = (put o.made).kept := rfl
  have hfree : (o.take put).freed = o.freed := hfreed
  simp only [occurrences_cons, occurrences_nil, hsame, hfree, hkept i]
  omega

theorem owned_new : Owned new := fun _ => rfl

theorem Owned.destroy (h : o.Owned) : o.destroy.Owned ∧ o.destroy.kept = [] := by
  refine ⟨h.move fun i => ?_, rfl⟩
  simp only [occurrences_cons, occurrences_nil, DecoderObject.destroy, List.count_append]
  simp [kept]
  omega

/-! ## What `init` does -/

/-- A decoder that `init` has only begun with. -/
structure Begun (d : DecoderContext) (o : DecoderObject) : Prop where
  owned : o.Owned
  decoder : o.decoder = some d
  noRef : d.hwDeviceCtx = none
  hwCtx : o.hwCtx = none
  frames : o.frame = none ∧ o.frameHw = none ∧ o.packet = none
  hw : o.hw = false
  hwPixFmt : o.hwPixFmt = .none
  freed : o.freed = []

/-- The choice of a device is over. -/
structure Chosen (device : Option HwDeviceType) (fmt : AvPixelFormat) (o : DecoderObject) :
    Prop where
  owned : o.Owned
  decoder : o.decoder.isSome = true
  hwCtx : o.hwCtx.isSome = device.isSome
  frames : o.frame = none ∧ o.frameHw = none ∧ o.packet = none
  hw : o.hw = device.isSome
  hwPixFmt : o.hwPixFmt = fmt
  freed : o.freed = []

/-- The device that `init` is going to use. -/
def device (target : BuildTarget) (useHw : Bool) (a : InitAnswer) (c : List HwConfig) :
    Option HwDeviceType :=
  if useHw then (hwDeviceList target).find? fun type => a.Usable c type else none

theorem Begun.initHwDecoder {d : DecoderContext} (h : Begun d o) (target : BuildTarget)
    (a : InitAnswer) (c : List HwConfig) :
    Chosen (device target true a c) ((device target true a c).elim .none (hasHwType c))
      (o.initHwDecoder target a c d) := by
  unfold DecoderObject.initHwDecoder
  rw [h.hwPixFmt, tryDevices_eq, device, if_pos rfl]
  cases (hwDeviceList target).find? fun type => a.Usable c type with
  | none =>
    exact ⟨h.owned, by simp [h.decoder], by simp [h.hwCtx], h.frames, by simp [h.hw], rfl, h.freed⟩
  | some type =>
    have hctx : (o.take fun id => { o with
        hwPixFmt := hasHwType c type, hwCtx := some id, hw := true }).Owned :=
      h.owned.take (fun i => by simp [kept_count, h.hwCtx, count_one]; omega) rfl
    dsimp only [Option.elim_some]
    split
    · refine ⟨hctx.take (fun i => ?_) rfl, rfl, rfl, h.frames, rfl, rfl, h.freed⟩
      simp [kept_count, DecoderObject.take, h.decoder, h.noRef, count_one]
    · exact ⟨hctx, by simp [DecoderObject.take, h.decoder], rfl, h.frames, rfl, rfl, h.freed⟩

theorem Chosen.opened {device : Option HwDeviceType} {fmt : AvPixelFormat}
    (h : Chosen device fmt o) : Chosen device fmt
      { o with decoder := o.decoder.map fun d => { d with opened := true } } := by
  refine { h with owned := ?_, decoder := by simp [h.decoder] }
  refine h.owned.move fun i => ?_
  have hid : (o.decoder.map fun d => { d with opened := true }).map DecoderContext.id =
      o.decoder.map DecoderContext.id := Option.map_map ..
  have href : (o.decoder.map fun d => { d with opened := true }).bind
      DecoderContext.hwDeviceCtx = o.decoder.bind DecoderContext.hwDeviceCtx := by
    cases o.decoder <;> rfl
  simp only [occurrences_cons, occurrences_nil, kept_count, hid, href]

/-- What `init` returns and leaves: nothing is lost, and when it succeeds there are a frame and
a packet, and `hw` is set if there is a device and a frame for it. -/
structure Framed (device : Option HwDeviceType) (a : InitAnswer) (s o : DecoderObject)
    (ret : Int) : Prop where
  owned : o.Owned
  freed : o.freed = []
  succeeds : 0 ≤ ret ↔ a.frame = true ∧ a.packet = true
  same : o.codec = s.codec ∧ o.decoder = s.decoder ∧ o.hwCtx = s.hwCtx ∧ o.hwPixFmt = s.hwPixFmt
  there : 0 ≤ ret → o.packet.isSome = true ∧ o.frame.isSome = true ∧
    o.hw = (device.isSome && a.frameHw) ∧ o.frameHw.isSome = o.hw

theorem initFrameHw_eq (h : o.Owned) (hnone : o.frameHw = none) (a : InitAnswer) :
    ∃ hw frameHw made,
      o.initFrameHw a = { o with hw := hw, frameHw := frameHw, made := made } ∧
        (o.initFrameHw a).Owned ∧ hw = (o.hw && a.frameHw) ∧ frameHw.isSome = hw := by
  obtain ⟨codec, decoder, packet, hwCtx, frameHw, frame, hwPixFmt, hw, made, freed⟩ := o
  obtain rfl : frameHw = none := hnone
  cases hw with
  | false => exact ⟨false, none, made, rfl, h, rfl, rfl⟩
  | true =>
    unfold initFrameHw
    rw [if_pos rfl]
    cases a.frameHw with
    | false => exact ⟨false, none, made, rfl, h, rfl, rfl⟩
    | true =>
      have hown : (DecoderObject.take
          ⟨codec, decoder, packet, hwCtx, none, frame, hwPixFmt, true, made, freed⟩ fun id =>
          ⟨codec, decoder, packet, hwCtx, some id, frame, hwPixFmt, true, made, freed⟩).Owned :=
        h.take (fun i => by simp [kept_count, count_one]; omega) rfl
      exact ⟨true, some made, made + 1, rfl, hown, rfl, rfl⟩

theorem Chosen.initFrames {device : Option HwDeviceType} {fmt : AvPixelFormat}
    (h : Chosen device fmt o) (a : InitAnswer) :
    Framed device a o (DecoderObject.initFrames a o).2 (DecoderObject.initFrames a o).1 := by
  obtain ⟨hframe, hframeHw, hpacket⟩ := h.frames
  unfold DecoderObject.initFrames
  by_cases hf : a.frame = true
  · rw [if_neg (not_not_intro hf)]
    have hone : (o.take fun id => { o with frame := some id }).Owned :=
      h.owned.take (fun i => by simp [kept_count, hframe, count_one]; omega) rfl
    obtain ⟨hw, frameHw, made, heq, hown, hhw, hsome⟩ := initFrameHw_eq hone hframeHw a
    rw [heq] at hown ⊢
    have hhw' : hw = (device.isSome && a.frameHw) := by
      rw [hhw, ← h.hw]
      rfl
    by_cases hp : a.packet = true
    · rw [if_neg (not_not_intro hp)]
      refine ⟨hown.take (fun i => ?_) rfl, h.freed, by simp [hf, hp], ⟨rfl, rfl, rfl, rfl⟩,
        fun _ => ⟨rfl, rfl, hhw', hsome⟩⟩
      have hnone : o.packet = none := hpacket
      simp [kept_count, DecoderObject.take, hnone, count_one]
      omega
    · rw [if_pos hp]
      exact ⟨hown, h.freed, by simp [hp], ⟨rfl, rfl, rfl, rfl⟩, by simp⟩
  · rw [if_pos hf]
    exact ⟨h.owned, h.freed, by simp [hf], ⟨rfl, rfl, rfl, rfl⟩, by simp⟩

/-- A decoder that `init` has made ready, with the device that it uses. -/
structure Equipped (id : CodecId) (device : Option HwDeviceType) (fmt : AvPixelFormat)
    (a : InitAnswer) (o : DecoderObject) : Prop where
  codec : o.codec = some id
  decoder : ∃ d, o.decoder = some d ∧ d.opened = true
  packet : o.packet.isSome = true
  frame : o.frame.isSome = true
  hwCtx : o.hwCtx.isSome = device.isSome
  frameHw : o.frameHw.isSome = o.hw
  hw : o.hw = (device.isSome && a.frameHw)
  hwPixFmt : o.hwPixFmt = fmt

/-- What `init` returns and leaves, with a codec that has the configurations `c`. -/
structure Outcome (target : BuildTarget) (id : CodecId) (useHw : Bool) (a : InitAnswer)
    (c : List HwConfig) (ret : Int) (o : DecoderObject) : Prop where
  owned : o.Owned
  freed : o.freed = []
  succeeds : 0 ≤ ret ↔ 0 ≤ a.opened ∧ a.frame = true ∧ a.packet = true
  equipped : 0 ≤ ret → Equipped id (device target useHw a c)
    ((device target useHw a c).elim .none (hasHwType c)) a o

theorem Begun.chosen {d : DecoderContext} (h : Begun d o) (target : BuildTarget) (useHw : Bool)
    (a : InitAnswer) (c : List HwConfig) :
    Chosen (device target useHw a c) ((device target useHw a c).elim .none (hasHwType c))
      (if useHw then o.initHwDecoder target a c d else o) := by
  cases useHw with
  | true => exact h.initHwDecoder target a c
  | false =>
    exact ⟨h.owned, by simp [h.decoder], by simp [h.hwCtx, device], h.frames, by simp [h.hw, device],
      by simp [h.hwPixFmt, device], h.freed⟩

theorem codec_initHwDecoder (o : DecoderObject) (target : BuildTarget) (a : InitAnswer)
    (c : List HwConfig) (d : DecoderContext) :
    (o.initHwDecoder target a c d).codec = o.codec := by
  unfold initHwDecoder
  generalize tryDevices a c (hwDeviceList target) o.hwPixFmt = r
  obtain ⟨device, fmt⟩ := r
  cases device with
  | none => rfl
  | some type =>
    dsimp only
    split
    · rfl
    · rfl

theorem Begun.initDevice {d : DecoderContext} {id : CodecId} (h : Begun d o)
    (hcodec : o.codec = some id) (target : BuildTarget) (useHw : Bool) (a : InitAnswer)
    (c : List HwConfig) : Outcome target id useHw a c (o.initDevice target useHw a c d).1
      (o.initDevice target useHw a c d).2 := by
  have hchosen := h.chosen target useHw a c
  have hid : (if useHw then o.initHwDecoder target a c d else o).codec = some id := by
    split
    · rw [codec_initHwDecoder, hcodec]
    · exact hcodec
  unfold DecoderObject.initDevice
  dsimp only
  by_cases hopen : a.opened < 0
  · rw [if_pos hopen]
    exact ⟨hchosen.owned, hchosen.freed, by dsimp only; omega, fun h => absurd hopen (by omega)⟩
  · rw [if_neg hopen]
    obtain ⟨hown, hfreed, hret, ⟨hsame, hdec, hctx, hfmt⟩, hthere⟩ := hchosen.opened.initFrames a
    refine ⟨hown, hfreed, hret.trans ⟨fun h => ⟨by omega, h⟩, fun h => h.2⟩, fun hpos => ?_⟩
    obtain ⟨hpacket, hframe, hhw, hframeHw⟩ := hthere hpos
    obtain ⟨e, he⟩ := Option.isSome_iff_exists.mp hchosen.decoder
    refine ⟨hsame.trans hid, ⟨{ e with opened := true }, ?_, rfl⟩, hpacket, hframe,
      (congrArg Option.isSome hctx).trans hchosen.hwCtx, hframeHw, hhw, hfmt.trans hchosen.hwPixFmt⟩
    rw [hdec]
    exact congrArg (Option.map _) he

/-- `init` uses nothing that it has not got, unless the context cannot be allocated, and loses
nothing, at whichever point it gives up. -/
theorem init_spec (target : BuildTarget) (header : Option (UInt8 × UInt8)) (id : CodecId)
    (useHw : Bool) (a : InitAnswer) :
    match init target header id useHw a .new with
    | none => a.codec.isSome = true ∧ a.context = false
    | some (ret, o) => o.Owned ∧ o.freed = [] ∧ (a.codec = none → ret = -1) ∧
        ∀ c, a.codec = some c → 0 ≤ ret ∨ id ≠ .aac → Outcome target id useHw a c ret o := by
  unfold init
  cases hcodec : a.codec with
  | none => exact ⟨owned_new, rfl, fun _ => rfl, fun c hc => by cases hc⟩
  | some c =>
    by_cases hctx : a.context = true
    · have hbegun : ∀ audio, Begun ⟨0, none, audio, false⟩ (new.take fun _ =>
          { new with codec := some id, decoder := some ⟨0, none, audio, false⟩ }) := fun audio =>
        ⟨owned_new.take (fun i => by simp [kept_count, new, count_one]; rfl) rfl, rfl, rfl, rfl,
          ⟨rfl, rfl, rfl⟩, rfl, rfl, rfl⟩
      have hout := fun audio => (hbegun audio).initDevice (show _ = some id from rfl) target useHw a c
      dsimp only
      rw [if_neg (not_not_intro hctx)]
      by_cases haac : id = .aac
      · rw [if_pos haac]
        cases header with
        | none =>
          exact ⟨(hbegun none).owned, rfl, nofun,
            fun e _ h => absurd haac (h.resolve_left (by decide))⟩
        | some header =>
          dsimp only
          cases aacAudio header with
          | none =>
            exact ⟨(hbegun none).owned, rfl, nofun,
              fun e _ h => absurd haac (h.resolve_left (by decide))⟩
          | some audio =>
            have h := hout (some audio)
            exact ⟨h.owned, h.freed, nofun, fun e he _ => Option.some.inj he ▸ h⟩
      · rw [if_neg haac]
        have h := hout none
        exact ⟨h.owned, h.freed, nofun, fun e he _ => Option.some.inj he ▸ h⟩
    · dsimp only
      rw [if_pos hctx]
      exact ⟨rfl, Bool.eq_false_iff.mpr hctx⟩

/-- **Hardware is a bonus.** Whether a video decoder can be made ready does not depend on the
devices, and if it is, `hw_pix_fmt` is the format of the first device of the list that can be
used, or none; `hw` is set if there is such a device and a frame for its pictures. -/
theorem init_device {target : BuildTarget} {header : Option (UInt8 × UInt8)} {id : CodecId}
    {useHw : Bool} {a : InitAnswer} {ret : Int} {o : DecoderObject} (hid : id ≠ .aac)
    (h : init target header id useHw a .new = some (ret, o)) :
    (0 ≤ ret ↔ a.codec.isSome = true ∧ 0 ≤ a.opened ∧ a.frame = true ∧ a.packet = true) ∧
      ∀ c, a.codec = some c → 0 ≤ ret →
        (o.hwPixFmt = .none ∧ o.hw = false ∧
            ∀ type ∈ hwDeviceList target, useHw = true → ¬ a.Usable c type) ∨
          ∃ before type after, hwDeviceList target = before ++ type :: after ∧
            useHw = true ∧ a.Usable c type ∧ (∀ other ∈ before, ¬ a.Usable c other) ∧
            o.hwPixFmt = hasHwType c type ∧ o.hw = a.frameHw := by
  have hspec := init_spec target header id useHw a
  rw [h] at hspec
  obtain ⟨-, -, hnone, hout⟩ := hspec
  constructor
  · cases hcodec : a.codec with
    | none => simp [hnone hcodec]
    | some c => simpa using (hout c hcodec (.inr hid)).succeeds
  · intro c hc hret
    have heq := (hout c hc (.inl hret)).equipped hret
    obtain ⟨hfmt, hhw⟩ := And.intro heq.hwPixFmt heq.hw
    cases hdev : device target useHw a c with
    | none =>
      rw [hdev] at hfmt hhw
      refine .inl ⟨hfmt, hhw, fun type hmem huse => ?_⟩
      rw [device, if_pos huse, List.find?_eq_none] at hdev
      simpa using hdev type hmem
    | some type =>
      rw [hdev] at hfmt hhw
      unfold device at hdev
      split at hdev
      · obtain ⟨husable, before, after, hlist, hbefore⟩ := List.find?_eq_some_iff_append.mp hdev
        refine .inr ⟨before, type, after, hlist, ‹_›, by simpa using husable, fun other hmem => ?_,
          hfmt, by simpa using hhw⟩
        simpa using hbefore other hmem
      · cases hdev

end DecoderObject

/-- A machine with VA-API, where CUDA cannot be opened. -/
def InitAnswer.vaapi : InitAnswer where
  codec := some [⟨true, .cuda, .other 117⟩, ⟨false, .vaapi, .nv12⟩, ⟨true, .vaapi, .other 44⟩]
  context := true
  device type := type = .vaapi
  ref := true
  opened := 0
  frame := true
  frameHw := true
  packet := true

theorem init_device_vaapi : ∃ o,
    DecoderObject.init .linux none .h264 true .vaapi .new = some (0, o) ∧ (o.hwPixFmt = .none ∨
      ∃ type, o.hwPixFmt = hasHwType (InitAnswer.vaapi.codec.getD []) type) := by
  refine ⟨_, rfl, ?_⟩
  obtain ⟨-, h⟩ := DecoderObject.init_device (by decide)
    (show DecoderObject.init .linux none .h264 true .vaapi .new = _ from rfl)
  obtain ⟨hnone, -⟩ | ⟨before, type, after, -, -, -, -, hfmt, -⟩ := h _ rfl (Int.le_refl 0)
  · exact .inl hnone
  · exact .inr ⟨type, hfmt⟩

end DroidcamWhip
