import DroidcamWhip.Lib.Runs
import DroidcamWhip.CommandLine

/-!
The GUI mode: the window of `gui_win32.c` on the main thread, the thread that
`gui_start_pipeline` creates for a session, and the source which that thread starts and
stops.
-/

namespace DroidcamWhip

open CString Runs

/-! ## The state -/

/-- The members of `WinGui` that the settings dialog edits. -/
structure Settings where
  phoneIp : Chars 64
  rtspUrl : Chars 256
  port : Int32
  width : Int32
  height : Int32
  fps : Int32
  format : VideoFormat

/-- What a pointer of `droidcam_source_config` points to: an array of `WinGui`, or one of
`gui_pipeline`. -/
inductive StrRef where
  | guiPhoneIp
  | guiRtspUrl
  | phoneIp
  | rtspUrl
  | literal (s : CStr)
  deriving DecidableEq

/-- `struct droidcam_source_config`, with its pointers. -/
structure RunConfig where
  deviceIp : Option StrRef
  deviceId : Option StrRef
  rtspUrl : Option StrRef
  values : SourceConfig
  preview : Bool

/-- Where `gui_pipeline_thread` is: before the call or in the loop that the name tells. -/
inductive WorkerPc where
  | connecting
  | starting
  | failed
  | connected
  | waiting
  | stopping
  | stopped
  | ended
  deriving DecidableEq

/-- Who waits in `gui_stop_pipeline`. -/
inductive Joiner where
  | connect
  | close
  | exit
  deriving DecidableEq

/-- Where the main thread is: between two messages of `gui_run`, in the loop of the settings
dialog, in `pthread_join`, behind `gui_run`, or behind `gui_destroy`. -/
inductive MainPc where
  | messages
  | dialog
  | joining (j : Joiner)
  | leaving
  | finished
  deriving DecidableEq

/-- What a source is started with. -/
structure Chosen where
  ip : List UInt8
  url : List UInt8
  values : SourceConfig

/-- What the settings ask for. -/
def Settings.asked (g : Settings) : Chosen where
  ip := g.phoneIp.str
  url := g.rtspUrl.str
  values :=
    { port := g.port
      width := g.width
      height := g.height
      fps := g.fps
      videoFormat := g.format
      useHw := true
      useHdr := false }

/-- What `droidcam_source_start` finds in its argument. -/
def RunConfig.taken (config : RunConfig) (deref : StrRef → List UInt8) :
    Chosen where
  ip := config.deviceIp.elim [] deref
  url := config.rtspUrl.elim defaultUrl.bytes deref
  values := config.values

/-- `WinGui` and `gui_pipeline`. The source is known by the pointer to the address that it has
kept. The last members record the run: how many threads were created and joined and how many
sources started and stopped, the settings when the last thread was created, what sources were
started with and which addresses they connected to, each with those settings, and how often
something was used behind its end. -/
structure GuiApp where
  settings : Settings
  running : Bool
  status : Chars 256
  threadActive : Bool
  stopRequested : Bool
  source : Option (Option StrRef)
  config : RunConfig
  phoneIp : Chars 64
  rtspUrl : Chars 256
  main : MainPc
  worker : Option WorkerPc
  created : Nat
  joined : Nat
  started : Nat
  stopped : Nat
  chosen : Settings
  given : List (Chosen × Settings)
  dialled : List (List UInt8 × Settings)
  faults : Nat

/-! ## Texts -/

def enterText : List UInt8 := ascii "Enter phone IP in Settings, then click Connect."

def idleText : List UInt8 := ascii "Enter the phone IP in Settings, then click Connect."

def connectingText : List UInt8 := ascii "DroidCam WHIP - Connecting..."

def failedText : List UInt8 := ascii "DroidCam WHIP - Connection failed"

def connectedText : List UInt8 := ascii "DroidCam WHIP - Connected"

def waitingText : List UInt8 := ascii "DroidCam WHIP - Waiting for connection..."

def startFailedText : List UInt8 := ascii "DroidCam WHIP - Failed to start pipeline"

/-! ## The code -/

namespace GuiApp

/-- The string behind a pointer. -/
def deref (s : GuiApp) : StrRef → List UInt8
  | .guiPhoneIp => s.settings.phoneIp.str
  | .guiRtspUrl => s.settings.rtspUrl.str
  | .phoneIp => s.phoneIp.str
  | .rtspUrl => s.rtspUrl.str
  | .literal t => t.bytes

/-- `gui_set_status`. -/
def guiSetStatus (s : GuiApp) (text : List UInt8) : GuiApp :=
  { s with status := (s.status.strncpyFirst 255 text).store 255 [0] }

/-- Something that another thread does with `WinGui` or `gui_pipeline`. -/
def touch (s : GuiApp) : GuiApp :=
  { s with faults := s.faults + if s.main = .finished then 1 else 0 }

/-- `gui_get_config`. -/
def guiGetConfig (s : GuiApp) : RunConfig where
  deviceIp := some .guiPhoneIp
  deviceId := some .guiPhoneIp
  rtspUrl := some .guiRtspUrl
  values :=
    { port := s.settings.port
      width := s.settings.width
      height := s.settings.height
      fps := s.settings.fps
      videoFormat := s.settings.format
      useHw := true
      useHdr := false }
  preview := false

/-- `gui_start_pipeline`, with the result of `pthread_create`, and whether it returns 0. -/
def guiStartPipeline (s : GuiApp) (config : RunConfig) (create : Bool) : GuiApp × Bool :=
  if s.threadActive then (s, true)
  else
    let ip := config.deviceIp.elim [] s.deref
    let url := config.rtspUrl.elim defaultUrl.bytes s.deref
    let s := { s with
      phoneIp := s.phoneIp.strncpyFirst 63 ip
      rtspUrl := s.rtspUrl.strncpyFirst 255 url
      config := { config with
        deviceIp := some .phoneIp
        deviceId := some .phoneIp
        rtspUrl := some .rtspUrl
        preview := true }
      stopRequested := false }
    if create then
      ({ s with
        threadActive := true
        worker := some .connecting
        created := s.created + 1
        chosen := s.settings }, true)
    else ({ s with threadActive := false }.guiSetStatus startFailedText, false)

/-- `request_start`. -/
def requestStart (s : GuiApp) (create : Bool) : GuiApp :=
  if s.running then s
  else
    match s.guiStartPipeline s.guiGetConfig create with
    | (s, true) => { s with running := true }
    | (s, false) => s

/-- `gui_stop_pipeline` up to `pthread_join`, or nothing to wait for. -/
def guiStopPipeline (s : GuiApp) (j : Joiner) (done : GuiApp → GuiApp) : GuiApp :=
  if s.threadActive then { s with stopRequested := true, main := .joining j } else done s

/-- `request_stop` behind the callback. -/
def stopDone (s : GuiApp) : GuiApp := { s with running := false }.guiSetStatus idleText

/-- What follows `gui_stop_pipeline`: back to the messages, or `DestroyWindow`, upon which
`gui_run` returns, or `gui_destroy`. -/
def resume : Joiner → GuiApp → GuiApp
  | .connect, s => { s.stopDone with main := .messages }
  | .close, s => { s.stopDone with main := .leaving }
  | .exit, s => { s with main := .finished }

/-- The settings dialog behind its loop, with the texts of its controls. -/
def saveSettings (s : GuiApp) (ip rtsp port width height fps : List UInt8) (sel : Int) : GuiApp :=
  let orElse (value default : Int32) := if value ≤ 0 then default else value
  { s with
    settings :=
      { phoneIp := s.settings.phoneIp.snprintf (text ip)
        rtspUrl := s.settings.rtspUrl.snprintf (text rtsp)
        port := orElse (atoi (text (port.take 31))) 4747
        width := orElse (atoi (text (width.take 31))) 1280
        height := orElse (atoi (text (height.take 31))) 720
        fps := orElse (atoi (text (fps.take 31))) 25
        format := if sel = 1 then .hevc else if sel = 2 then .mjpg else .avc } }

/-- `gui_pipeline_thread`, with the result of `droidcam_source_start`. -/
def workerStep (s : GuiApp) (start : Bool) : Option GuiApp :=
  match s.worker with
  | none => none
  | some .connecting =>
      some { s.touch.guiSetStatus connectingText with worker := some .starting }
  | some .starting =>
      if start then
        some { s.touch with
          source := some s.config.deviceIp
          given := s.given ++ [(s.config.taken s.deref, s.chosen)]
          started := s.started + 1
          worker := some .connected }
      else some { s.touch with source := none, worker := some .failed }
  | some .failed => some { s.touch.guiSetStatus failedText with worker := some .ended }
  | some .connected => some { s.touch.guiSetStatus connectedText with worker := some .waiting }
  | some .waiting =>
      if s.stopRequested then some { s.touch with worker := some .stopping } else some s.touch
  | some .stopping =>
      some { s.touch with source := none, stopped := s.stopped + 1, worker := some .stopped }
  | some .stopped => some { s.touch.guiSetStatus waitingText with worker := some .ended }
  | some .ended => none

end GuiApp

/-- A message, the answers that a step gets, or a step of another thread. -/
inductive GuiAct where
  | connect (create : Bool)
  | settings
  | save (ip rtsp port width height fps : List UInt8) (sel : Int)
  | cancel
  | close
  | leave
  | join
  | exit
  | worker (start : Bool)
  | dial
  | frame

namespace GuiApp

def step (s : GuiApp) : GuiAct → Option GuiApp
  | .connect create =>
      if s.main ≠ .messages then none
      else if s.running then some (s.guiStopPipeline .connect (resume .connect))
      else some (s.requestStart create)
  | .settings => if s.main = .messages then some { s with main := .dialog } else none
  | .save ip rtsp port width height fps sel =>
      if s.main = .dialog then
        some { s.saveSettings ip rtsp port width height fps sel with main := .messages }
      else none
  | .cancel => if s.main = .dialog then some { s with main := .messages } else none
  | .close =>
      if s.main ≠ .messages then none
      else if s.running then some (s.guiStopPipeline .close (resume .close))
      else some { s with main := .leaving }
  | .leave => if s.main = .messages then some { s with main := .leaving } else none
  | .join =>
      match s.main with
      | .joining j =>
          if s.worker = some .ended then
            some (resume j { s with threadActive := false, worker := none, joined := s.joined + 1 })
          else none
      | _ => none
  | .exit => if s.main = .leaving then some (s.guiStopPipeline .exit (resume .exit)) else none
  | .worker start => s.workerStep start
  | .dial =>
      match s.source with
      | some (some r) => some { s.touch with dialled := s.dialled ++ [(s.deref r, s.chosen)] }
      | _ => none
  | .frame => if s.source.isSome ∧ s.config.preview then some s.touch else none

/-- `main` behind `gui_create`: whatever the settings are, they are terminated. -/
structure Fresh (s : GuiApp) : Prop where
  phoneIp : 0 ∈ s.settings.phoneIp.bytes
  rtspUrl : 0 ∈ s.settings.rtspUrl.bytes
  idle : s.running = false ∧ s.threadActive = false ∧ s.worker = none ∧ s.source = none
  status : s.status.str = enterText
  zeros : s.phoneIp = Chars.zero 64 ∧ s.rtspUrl = Chars.zero 256
  main : s.main = .messages
  counts : s.created = 0 ∧ s.joined = 0 ∧ s.started = 0 ∧ s.stopped = 0
  records : s.given = [] ∧ s.dialled = [] ∧ s.faults = 0

end GuiApp

def guiApp : Machine GuiApp GuiAct := ⟨GuiApp.Fresh, GuiApp.step⟩

end DroidcamWhip
