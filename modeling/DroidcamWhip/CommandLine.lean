import DroidcamWhip.Lib.CString
import DroidcamWhip.VideoRequest

/-!
`main`: the loop over the arguments and the configuration that it leaves, against the
command lines that the usage text describes.
-/

namespace DroidcamWhip

open CString

/-! ## The arguments that `main` knows -/

def guiFlag : CStr := ⟨ascii "--gui", by decide⟩

def portFlag : CStr := ⟨ascii "--port", by decide⟩

def widthFlag : CStr := ⟨ascii "--width", by decide⟩

def heightFlag : CStr := ⟨ascii "--height", by decide⟩

def fpsFlag : CStr := ⟨ascii "--fps", by decide⟩

def formatFlag : CStr := ⟨ascii "--format", by decide⟩

def noHwFlag : CStr := ⟨ascii "--no-hw", by decide⟩

def hdrFlag : CStr := ⟨ascii "--hdr", by decide⟩

/-- `parse_format`. -/
def parseFormat (value : CStr) : VideoFormat :=
  if strcmp value.bytes (ascii "hevc") = 0 ∨ strcmp value.bytes (ascii "h265") = 0 then .hevc
  else if strcmp value.bytes (ascii "jpg") = 0 ∨ strcmp value.bytes (ascii "mjpg") = 0 ∨
      strcmp value.bytes (ascii "mjpeg") = 0 then .mjpg
  else .avc

/-! ## The code -/

/-- What the loop sets of `struct droidcam_source_config`. -/
@[ext]
structure SourceConfig where
  port : Int32
  width : Int32
  height : Int32
  fps : Int32
  videoFormat : VideoFormat
  useHw : Bool
  useHdr : Bool
  deriving DecidableEq

/-- The variables of the loop. -/
@[ext]
structure ParseState where
  phoneIp : Option CStr
  rtspUrl : CStr
  guiMode : Bool
  config : SourceConfig
  deriving DecidableEq

def defaultUrl : CStr := ⟨ascii "rtsp://127.0.0.1:8554/cam_in", by decide⟩

/-- The variables before the loop. -/
def ParseState.defaults : ParseState where
  phoneIp := none
  rtspUrl := defaultUrl
  guiMode := false
  config := ⟨4747, 1280, 720, 25, .avc, true, false⟩

namespace ParseState

def setPort (s : ParseState) (value : CStr) : ParseState :=
  { s with config := { s.config with port := atoi value.bytes } }

def setWidth (s : ParseState) (value : CStr) : ParseState :=
  { s with config := { s.config with width := atoi value.bytes } }

def setHeight (s : ParseState) (value : CStr) : ParseState :=
  { s with config := { s.config with height := atoi value.bytes } }

def setFps (s : ParseState) (value : CStr) : ParseState :=
  { s with config := { s.config with fps := atoi value.bytes } }

def setFormat (s : ParseState) (value : CStr) : ParseState :=
  { s with config := { s.config with videoFormat := parseFormat value } }

def setGui (s : ParseState) : ParseState := { s with guiMode := true }

def clearHw (s : ParseState) : ParseState := { s with config := { s.config with useHw := false } }

def setHdr (s : ParseState) : ParseState := { s with config := { s.config with useHdr := true } }

/-- The last two branches. -/
def positional (s : ParseState) (arg : CStr) : ParseState :=
  match s.phoneIp with
  | none => { s with phoneIp := some arg }
  | some _ => { s with rtspUrl := arg }

end ParseState

/-- The branches that take the next argument, where there is one. -/
def withValue (arg : CStr) : Option (ParseState → CStr → ParseState) :=
  if strcmp arg.bytes portFlag.bytes = 0 then some ParseState.setPort
  else if strcmp arg.bytes widthFlag.bytes = 0 then some ParseState.setWidth
  else if strcmp arg.bytes heightFlag.bytes = 0 then some ParseState.setHeight
  else if strcmp arg.bytes fpsFlag.bytes = 0 then some ParseState.setFps
  else if strcmp arg.bytes formatFlag.bytes = 0 then some ParseState.setFormat
  else none

/-- The branches behind those. -/
def alone (arg : CStr) (s : ParseState) : ParseState :=
  if strcmp arg.bytes noHwFlag.bytes = 0 then s.clearHw
  else if strcmp arg.bytes hdrFlag.bytes = 0 then s.setHdr
  else s.positional arg

/-- The loop, for the arguments that are left. -/
def parseLoop : List CStr → ParseState → ParseState
  | [], s => s
  | arg :: rest, s =>
      if strcmp arg.bytes guiFlag.bytes = 0 then parseLoop rest s.setGui
      else
        match withValue arg, rest with
        | some set, value :: rest => parseLoop rest (set s value)
        | _, rest => parseLoop rest (alone arg s)

/-- `main` up to the end of the loop; `argv` is without the name of the program. -/
def parseArgs (argv : List CStr) : ParseState := parseLoop argv .defaults

/-- The checks behind the loop; otherwise `main` prints its usage and returns 2. -/
def ParseState.Admitted (s : ParseState) : Prop :=
  (s.phoneIp ≠ none ∨ s.guiMode) ∧ 0 < s.config.port ∧ s.config.port ≤ 65535 ∧
    0 < s.config.width ∧ 0 < s.config.height ∧ 0 < s.config.fps

instance (s : ParseState) : Decidable s.Admitted := inferInstanceAs (Decidable (_ ∧ _))

/-! ## The command lines of the usage text -/

/-- An argument that does not begin with `--`. -/
structure Positional extends CStr where
  plain : ¬ ascii "--" <+: bytes

/-- An option of the usage text, with its value. -/
inductive ArgOption where
  | gui
  | port (value : CStr)
  | width (value : CStr)
  | height (value : CStr)
  | fps (value : CStr)
  | format (value : CStr)
  | noHw
  | noCopyVideo
  deriving DecidableEq

def noCopyVideoFlag : CStr := ⟨ascii "--no-copy-video", by decide⟩

def ArgOption.words : ArgOption → List CStr
  | .gui => [guiFlag]
  | .port value => [portFlag, value]
  | .width value => [widthFlag, value]
  | .height value => [heightFlag, value]
  | .fps value => [fpsFlag, value]
  | .format value => [formatFlag, value]
  | .noHw => [noHwFlag]
  | .noCopyVideo => [noCopyVideoFlag]

/-- What stands in a command line. -/
inductive Item where
  | option (o : ArgOption)
  | bare (p : Positional)

def Item.words : Item → List CStr
  | .option o => o.words
  | .bare p => [p.toCStr]

/-- The options around the positionals; the last ones stand behind the URL. -/
structure Placement where
  before : List ArgOption
  phoneIp : Positional
  between : List ArgOption
  url : Option (Positional × List ArgOption)

namespace Placement

/-- The options behind the URL. -/
def after (g : Placement) : List ArgOption := g.url.elim [] Prod.snd

def options (g : Placement) : List ArgOption := g.before ++ g.between ++ g.after

def items (g : Placement) : List Item :=
  g.before.map .option ++ .bare g.phoneIp :: (g.between.map .option ++
    g.url.elim [] fun (url, os) => .bare url :: os.map .option)

def argv (g : Placement) : List CStr := g.items.flatMap Item.words

/-- The same positionals, and the same options in the same order. -/
def Moved (g g' : Placement) : Prop :=
  g'.phoneIp = g.phoneIp ∧ g'.url.map Prod.fst = g.url.map Prod.fst ∧ g'.options = g.options

end Placement

/-! ## What they ask for -/

namespace ArgOption

def port? : ArgOption → Option CStr
  | .port value => some value
  | _ => none

def width? : ArgOption → Option CStr
  | .width value => some value
  | _ => none

def height? : ArgOption → Option CStr
  | .height value => some value
  | _ => none

def fps? : ArgOption → Option CStr
  | .fps value => some value
  | _ => none

def format? : ArgOption → Option CStr
  | .format value => some value
  | _ => none

end ArgOption

/-- The value of the last of the options that have one. -/
def lastValue (value? : ArgOption → Option CStr) (os : List ArgOption) : Option CStr :=
  (os.filterMap value?).getLast?

def askedConfig (os : List ArgOption) : SourceConfig where
  port := (lastValue ArgOption.port? os).elim 4747 fun v => atoi v.bytes
  width := (lastValue ArgOption.width? os).elim 1280 fun v => atoi v.bytes
  height := (lastValue ArgOption.height? os).elim 720 fun v => atoi v.bytes
  fps := (lastValue ArgOption.fps? os).elim 25 fun v => atoi v.bytes
  videoFormat := (lastValue ArgOption.format? os).elim .avc parseFormat
  useHw := decide (.noHw ∉ os)
  useHdr := false

def Placement.asked (g : Placement) : ParseState where
  phoneIp := some g.phoneIp.toCStr
  rtspUrl := g.url.elim defaultUrl fun (url, _) => url.toCStr
  guiMode := decide (.gui ∈ g.options)
  config := askedConfig g.options

/-! ## One turn of the loop -/

section Loop

variable {rest : List CStr} {s : ParseState}

theorem parseLoop_gui : parseLoop (guiFlag :: rest) s = parseLoop rest s.setGui := by
  have h : withValue guiFlag = none := rfl
  simp [parseLoop, h]

theorem parseLoop_value (arg : CStr) {set : ParseState → CStr → ParseState} {value : CStr}
    (hg : arg ≠ guiFlag) (h : withValue arg = some set) :
    parseLoop (arg :: value :: rest) s = parseLoop rest (set s value) := by
  simp [parseLoop, hg, h]

theorem parseLoop_alone (arg : CStr) (hg : arg ≠ guiFlag) (h : withValue arg = none) :
    parseLoop (arg :: rest) s = parseLoop rest (alone arg s) := by
  cases rest with
  | nil => simp [parseLoop, hg, h]
  | cons value rest => simp [parseLoop, hg, h]

end Loop

/-- Where the loop knows nothing of the argument. -/
structure Unknown (arg : CStr) : Prop where
  gui : arg ≠ guiFlag
  value : withValue arg = none
  alone : ∀ s, alone arg s = s.positional arg

theorem Unknown.parseLoop {arg : CStr} (h : Unknown arg) (rest : List CStr) (s : ParseState) :
    parseLoop (arg :: rest) s = parseLoop rest (s.positional arg) := by
  rw [parseLoop_alone arg h.gui h.value, h.alone]

theorem Positional.ne_flag (p : Positional) {flag : CStr} (h : ascii "--" <+: flag.bytes) :
    p.toCStr ≠ flag := by
  intro heq
  exact p.plain (heq ▸ h)

theorem Positional.unknown (p : Positional) : Unknown p.toCStr where
  gui := p.ne_flag (by decide)
  value := by
    have hport : p.toCStr ≠ portFlag := p.ne_flag (by decide)
    have hwidth : p.toCStr ≠ widthFlag := p.ne_flag (by decide)
    have hheight : p.toCStr ≠ heightFlag := p.ne_flag (by decide)
    have hfps : p.toCStr ≠ fpsFlag := p.ne_flag (by decide)
    have hformat : p.toCStr ≠ formatFlag := p.ne_flag (by decide)
    simp [withValue, hport, hwidth, hheight, hfps, hformat]
  alone s := by
    have hhw : p.toCStr ≠ noHwFlag := p.ne_flag (by decide)
    have hhdr : p.toCStr ≠ hdrFlag := p.ne_flag (by decide)
    simp [DroidcamWhip.alone, hhw, hhdr]

/-- The documented option that `main` leaves to its positional branches. -/
theorem noCopyVideo_unknown : Unknown noCopyVideoFlag where
  gui := by decide
  value := rfl
  alone _ := rfl

/-- What the loop makes of an option. -/
def ParseState.apply (s : ParseState) : ArgOption → ParseState
  | .gui => s.setGui
  | .port value => s.setPort value
  | .width value => s.setWidth value
  | .height value => s.setHeight value
  | .fps value => s.setFps value
  | .format value => s.setFormat value
  | .noHw => s.clearHw
  | .noCopyVideo => s.positional noCopyVideoFlag

def ParseState.take (s : ParseState) : Item → ParseState
  | .option o => s.apply o
  | .bare p => s.positional p.toCStr

theorem parseLoop_option (o : ArgOption) (rest : List CStr) (s : ParseState) :
    parseLoop (o.words ++ rest) s = parseLoop rest (s.apply o) := by
  cases o with
  | gui => exact parseLoop_gui
  | port value => exact parseLoop_value portFlag (by decide) rfl
  | width value => exact parseLoop_value widthFlag (by decide) rfl
  | height value => exact parseLoop_value heightFlag (by decide) rfl
  | fps value => exact parseLoop_value fpsFlag (by decide) rfl
  | format value => exact parseLoop_value formatFlag (by decide) rfl
  | noHw => exact parseLoop_alone noHwFlag (by decide) rfl
  | noCopyVideo => exact noCopyVideo_unknown.parseLoop rest s

theorem parseLoop_item (i : Item) (rest : List CStr) (s : ParseState) :
    parseLoop (i.words ++ rest) s = parseLoop rest (s.take i) := by
  cases i with
  | option o => exact parseLoop_option o rest s
  | bare p => exact p.unknown.parseLoop rest s

/-! ## The whole loop -/

theorem parseLoop_items (is : List Item) (s : ParseState) :
    parseLoop (is.flatMap Item.words) s = is.foldl ParseState.take s := by
  induction is generalizing s with
  | nil => rfl
  | cons i is ih => rw [List.flatMap_cons, parseLoop_item, ih, List.foldl_cons]

/-- The loop goes through the parts of the command line one after the other. -/
theorem parseArgs_argv (g : Placement) :
    parseArgs g.argv =
      let s := g.between.foldl ParseState.apply
        ((g.before.foldl ParseState.apply .defaults).positional g.phoneIp.toCStr)
      g.url.elim s fun (url, os) => os.foldl ParseState.apply (s.positional url.toCStr) := by
  have hoptions (os : List ArgOption) (s : ParseState) :
      (os.map Item.option).foldl ParseState.take s = os.foldl ParseState.apply s :=
    List.foldl_map
  have hbare (p : Positional) (is : List Item) (s : ParseState) :
      (Item.bare p :: is).foldl ParseState.take s =
        is.foldl ParseState.take (s.positional p.toCStr) := rfl
  have hrun : parseArgs g.argv = g.items.foldl ParseState.take .defaults :=
    parseLoop_items g.items .defaults
  rw [hrun]
  unfold Placement.items
  cases g.url with
  | none => simp [hoptions, hbare]
  | some u => simp [hoptions, hbare]

@[simp] theorem positional_config (s : ParseState) (arg : CStr) :
    (s.positional arg).config = s.config := by
  unfold ParseState.positional
  cases s.phoneIp <;> rfl

@[simp] theorem positional_guiMode (s : ParseState) (arg : CStr) :
    (s.positional arg).guiMode = s.guiMode := by
  unfold ParseState.positional
  cases s.phoneIp <;> rfl

/-- A part of the state that the positional branches leave alone sees the options only. -/
theorem read_argv {β : Type} (read : ParseState → β) (set : β → ArgOption → β)
    (hset : ∀ s o, read (s.apply o) = set (read s) o)
    (hbare : ∀ s arg, read (s.positional arg) = read s) (g : Placement) :
    read (parseArgs g.argv) = g.options.foldl set (read .defaults) := by
  have hoptions (os : List ArgOption) (s : ParseState) :
      read (os.foldl ParseState.apply s) = os.foldl set (read s) :=
    (List.foldl_hom read fun s o => (hset s o).symm).symm
  rw [parseArgs_argv]
  unfold Placement.options Placement.after
  cases g.url with
  | none => simp [hoptions, hbare]
  | some u => simp [hoptions, hbare]

/-! ## The options -/

/-- What an option does to the configuration. -/
def SourceConfig.set (c : SourceConfig) : ArgOption → SourceConfig
  | .port value => { c with port := atoi value.bytes }
  | .width value => { c with width := atoi value.bytes }
  | .height value => { c with height := atoi value.bytes }
  | .fps value => { c with fps := atoi value.bytes }
  | .format value => { c with videoFormat := parseFormat value }
  | .noHw => { c with useHw := false }
  | .gui | .noCopyVideo => c

theorem apply_config (s : ParseState) (o : ArgOption) :
    (s.apply o).config = s.config.set o := by
  cases o with
  | noCopyVideo => exact positional_config s noCopyVideoFlag
  | _ => rfl

theorem apply_guiMode (s : ParseState) (o : ArgOption) :
    (s.apply o).guiMode = (s.guiMode || decide (o = .gui)) := by
  cases o with
  | gui => simp [ParseState.apply, ParseState.setGui]
  | noCopyVideo => simp [ParseState.apply]
  | _ => exact (Bool.or_false _).symm

/-- Where each option sets a field to its value or leaves it, the last one counts. -/
theorem foldl_value {β : Type} (field : SourceConfig → β) (value? : ArgOption → Option CStr)
    (f : CStr → β) (h : ∀ c o, field (c.set o) = (value? o).elim (field c) f)
    (os : List ArgOption) (c : SourceConfig) :
    field (os.foldl SourceConfig.set c) = (lastValue value? os).elim (field c) f := by
  unfold lastValue
  induction os generalizing c with
  | nil => rfl
  | cons o os ih =>
    rw [List.foldl_cons, ih, h, List.filterMap_cons]
    cases value? o with
    | none => rfl
    | some v =>
      show _ = (v :: os.filterMap value?).getLast?.elim (field c) f
      rw [List.getLast?_cons]
      cases (os.filterMap value?).getLast? <;> rfl

theorem foldl_useHw (os : List ArgOption) (c : SourceConfig) :
    (os.foldl SourceConfig.set c).useHw = (c.useHw && decide (.noHw ∉ os)) := by
  induction os generalizing c with
  | nil => simp
  | cons o os ih =>
    rw [List.foldl_cons, ih]
    cases o <;> simp [SourceConfig.set]

theorem foldl_useHdr (os : List ArgOption) (c : SourceConfig) :
    (os.foldl SourceConfig.set c).useHdr = c.useHdr := by
  induction os generalizing c with
  | nil => rfl
  | cons o os ih =>
    rw [List.foldl_cons, ih]
    cases o <;> rfl

theorem foldl_guiMode (os : List ArgOption) (b : Bool) :
    os.foldl (fun b o => b || decide (o = .gui)) b = (b || decide (.gui ∈ os)) := by
  induction os generalizing b with
  | nil => simp
  | cons o os ih =>
    rw [List.foldl_cons, ih]
    simp [Bool.or_assoc, eq_comm]

/-- The options alone make the configuration. -/
theorem foldl_set (os : List ArgOption) :
    os.foldl SourceConfig.set ParseState.defaults.config = askedConfig os := by
  have hport := foldl_value SourceConfig.port ArgOption.port? (fun v => atoi v.bytes)
    (fun c o => by cases o <;> rfl) os ParseState.defaults.config
  have hwidth := foldl_value SourceConfig.width ArgOption.width? (fun v => atoi v.bytes)
    (fun c o => by cases o <;> rfl) os ParseState.defaults.config
  have hheight := foldl_value SourceConfig.height ArgOption.height? (fun v => atoi v.bytes)
    (fun c o => by cases o <;> rfl) os ParseState.defaults.config
  have hfps := foldl_value SourceConfig.fps ArgOption.fps? (fun v => atoi v.bytes)
    (fun c o => by cases o <;> rfl) os ParseState.defaults.config
  have hformat := foldl_value SourceConfig.videoFormat ArgOption.format? parseFormat
    (fun c o => by cases o <;> rfl) os ParseState.defaults.config
  have hhw := foldl_useHw os ParseState.defaults.config
  have hhdr := foldl_useHdr os ParseState.defaults.config
  apply SourceConfig.ext
  · exact hport
  · exact hwidth
  · exact hheight
  · exact hfps
  · exact hformat
  · exact hhw
  · exact hhdr

/-- Neither the configuration nor the mode depends on where the options stand. -/
theorem parseArgs_config (g : Placement) : (parseArgs g.argv).config = askedConfig g.options := by
  rw [read_argv ParseState.config SourceConfig.set apply_config positional_config, foldl_set]

theorem parseArgs_guiMode (g : Placement) :
    (parseArgs g.argv).guiMode = decide (.gui ∈ g.options) := by
  rw [read_argv ParseState.guiMode (fun b o => b || decide (o = .gui)) apply_guiMode
    positional_guiMode, foldl_guiMode]
  exact Bool.false_or _

/-! ## The positionals -/

/-- Options that `main` knows leave both positionals as they are. -/
theorem foldl_known {os : List ArgOption} (h : .noCopyVideo ∉ os) (s : ParseState) :
    (os.foldl ParseState.apply s).phoneIp = s.phoneIp ∧
      (os.foldl ParseState.apply s).rtspUrl = s.rtspUrl := by
  induction os generalizing s with
  | nil => exact ⟨rfl, rfl⟩
  | cons o os ih =>
    rw [List.mem_cons, not_or] at h
    obtain ⟨hphone, hurl⟩ := ih h.2 (s.apply o)
    rw [List.foldl_cons, hphone, hurl]
    cases o with
    | noCopyVideo => exact absurd rfl h.1
    | _ => exact ⟨rfl, rfl⟩

/-- Behind the phone, the documented flag that `main` does not know becomes the URL. -/
theorem foldl_behind {p : CStr} (os : List ArgOption) {s : ParseState} (hs : s.phoneIp = some p) :
    (os.foldl ParseState.apply s).phoneIp = some p ∧
      (os.foldl ParseState.apply s).rtspUrl =
        if .noCopyVideo ∈ os then noCopyVideoFlag else s.rtspUrl := by
  induction os generalizing s with
  | nil => exact ⟨hs, by simp⟩
  | cons o os ih =>
    have hphone : (s.apply o).phoneIp = some p := by
      cases o with
      | noCopyVideo => simp [ParseState.apply, ParseState.positional, hs]
      | _ => exact hs
    have hurl : (s.apply o).rtspUrl =
        if o = .noCopyVideo then noCopyVideoFlag else s.rtspUrl := by
      cases o with
      | noCopyVideo => simp [ParseState.apply, ParseState.positional, hs]
      | _ => rfl
    obtain ⟨hphone', hurl'⟩ := ih hphone
    rw [List.foldl_cons]
    refine ⟨hphone', ?_⟩
    rw [hurl', hurl]
    by_cases ho : o = .noCopyVideo
    · simp [ho]
    · simp [ho, Ne.symm ho]

/-- Before the phone, it becomes the phone. -/
theorem foldl_before {os : List ArgOption} (h : .noCopyVideo ∈ os) {s : ParseState}
    (hs : s.phoneIp = none) : (os.foldl ParseState.apply s).phoneIp = some noCopyVideoFlag := by
  induction os generalizing s with
  | nil => cases h
  | cons o os ih =>
    rw [List.foldl_cons]
    by_cases ho : o = .noCopyVideo
    · subst ho
      have hphone : (s.apply .noCopyVideo).phoneIp = some noCopyVideoFlag := by
        simp [ParseState.apply, ParseState.positional, hs]
      exact (foldl_behind os hphone).1
    · have hphone : (s.apply o).phoneIp = none := by
        cases o with
        | noCopyVideo => exact absurd rfl ho
        | _ => exact hs
      apply ih _ hphone
      rw [List.mem_cons] at h
      exact h.resolve_left (Ne.symm ho)

/-- The options behind the last positional. -/
def Placement.behind (g : Placement) : List ArgOption := g.url.elim g.between Prod.snd

theorem parseArgs_before {g : Placement} (h : .noCopyVideo ∈ g.before) :
    (parseArgs g.argv).phoneIp = some noCopyVideoFlag := by
  have hbefore := foldl_before h (s := .defaults) rfl
  have hphone (s : ParseState) (arg : CStr) (hs : s.phoneIp = some noCopyVideoFlag) :
      (s.positional arg).phoneIp = some noCopyVideoFlag := by
    simp [ParseState.positional, hs]
  have hbetween := (foldl_behind g.between (hphone _ g.phoneIp.toCStr hbefore)).1
  rw [parseArgs_argv]
  cases g.url with
  | none => exact hbetween
  | some u => exact (foldl_behind u.2 (hphone _ u.1.toCStr hbetween)).1

/-- Where the phone comes out right, the URL is what the loop saw last. -/
theorem parseArgs_positionals {g : Placement} (h : .noCopyVideo ∉ g.before) :
    (parseArgs g.argv).phoneIp = g.asked.phoneIp ∧
      (parseArgs g.argv).rtspUrl =
        if .noCopyVideo ∈ g.behind then noCopyVideoFlag else g.asked.rtspUrl := by
  obtain ⟨hphone, hurl⟩ := foldl_known h .defaults
  have hfirst : ((g.before.foldl ParseState.apply .defaults).positional
      g.phoneIp.toCStr).phoneIp = some g.phoneIp.toCStr := by
    simp only [ParseState.positional, hphone]
    rfl
  have hdefault : ((g.before.foldl ParseState.apply .defaults).positional
      g.phoneIp.toCStr).rtspUrl = defaultUrl := by
    simp only [ParseState.positional, hphone]
    exact hurl
  obtain ⟨hphone', hurl'⟩ := foldl_behind g.between hfirst
  rw [parseArgs_argv]
  unfold Placement.behind Placement.asked
  cases g.url with
  | none => exact ⟨hphone', by rw [Option.elim_none, hurl', hdefault]; rfl⟩
  | some u =>
    have hsecond (s : ParseState) (hs : s.phoneIp = some g.phoneIp.toCStr) :
        s.positional u.1.toCStr = { s with rtspUrl := u.1.toCStr } := by
      simp [ParseState.positional, hs]
    have hlast := foldl_behind u.2 (s := { (g.between.foldl ParseState.apply
      ((g.before.foldl ParseState.apply .defaults).positional g.phoneIp.toCStr)) with
        rtspUrl := u.1.toCStr }) hphone'
    simp only [Option.elim_some, hsecond _ hphone']
    exact hlast

/-- **What is asked for.** The loop makes it exactly where `--no-copy-video` stands neither
before the phone nor behind the last positional. -/
theorem parseArgs_eq_iff (g : Placement) :
    parseArgs g.argv = g.asked ↔ .noCopyVideo ∉ g.before ∧ .noCopyVideo ∉ g.behind := by
  constructor
  · intro heq
    have hbefore : .noCopyVideo ∉ g.before := by
      intro h
      have hphone := parseArgs_before h
      rw [heq] at hphone
      exact g.phoneIp.ne_flag (by decide) (Option.some.inj hphone)
    refine ⟨hbefore, fun h => ?_⟩
    have hurl := (parseArgs_positionals hbefore).2
    rw [heq, if_pos h] at hurl
    cases hu : g.url with
    | none =>
      have hdefault : defaultUrl ≠ noCopyVideoFlag := by decide
      simp only [Placement.asked, hu, Option.elim_none] at hurl
      exact hdefault hurl
    | some u =>
      simp only [Placement.asked, hu, Option.elim_some] at hurl
      exact u.1.ne_flag (by decide) hurl
  · rintro ⟨hbefore, hbehind⟩
    obtain ⟨hphone, hurl⟩ := parseArgs_positionals hbefore
    rw [if_neg hbehind] at hurl
    exact ParseState.ext hphone hurl (parseArgs_guiMode g) (parseArgs_config g)

/-! ## Moving options -/

/-- The same command line with all its options at the front. -/
def Placement.front (g : Placement) : Placement where
  before := g.options
  phoneIp := g.phoneIp
  between := []
  url := g.url.map fun (url, _) => (url, [])

theorem Placement.moved_front (g : Placement) : g.Moved g.front := by
  have hafter : g.front.after = [] := by
    unfold after front
    cases g.url <;> rfl
  refine ⟨rfl, ?_, ?_⟩
  · unfold front
    cases g.url <;> rfl
  · show g.options ++ [] ++ g.front.after = g.options
    rw [hafter, List.append_nil, List.append_nil]

theorem Placement.Moved.asked {g g' : Placement} (h : g.Moved g') : g'.asked = g.asked := by
  obtain ⟨hphone, hurl, hoptions⟩ := h
  have hask (k : Placement) :
      k.asked.rtspUrl = (k.url.map Prod.fst).elim defaultUrl Positional.toCStr := by
    unfold Placement.asked
    cases k.url <;> rfl
  apply ParseState.ext
  · simp only [Placement.asked, hphone]
  · rw [hask, hask, hurl]
  · simp only [Placement.asked, hoptions]
  · simp only [Placement.asked, hoptions]

/-- **Option placement.** A command line means what it says, wherever its options stand,
exactly if `--no-copy-video` is not among them. -/
theorem placement_iff (g : Placement) :
    (parseArgs g.argv = g.asked ∧
      ∀ g', g.Moved g' → parseArgs g'.argv = parseArgs g.argv) ↔
    .noCopyVideo ∉ g.options := by
  constructor
  · rintro ⟨hasked, hmoved⟩
    have hfront : parseArgs g.front.argv = g.front.asked := by
      rw [hmoved _ g.moved_front, hasked, g.moved_front.asked]
    exact ((parseArgs_eq_iff g.front).mp hfront).1
  · intro h
    have hmeant (k : Placement) (hk : .noCopyVideo ∉ k.options) : parseArgs k.argv = k.asked := by
      rw [parseArgs_eq_iff]
      unfold Placement.options Placement.after at hk
      unfold Placement.behind
      cases hu : k.url with
      | none =>
        rw [hu] at hk
        simpa [not_or] using hk
      | some u =>
        rw [hu] at hk
        simp only [Option.elim_some, List.mem_append, not_or] at hk
        exact ⟨hk.1.1, hk.2⟩
    refine ⟨hmeant g h, fun g' hg => ?_⟩
    have h' : .noCopyVideo ∉ g'.options := by
      rw [hg.2.2]
      exact h
    rw [hmeant g' h', hmeant g h, hg.asked]

/-- `--no-copy-video` in front of the phone. -/
def copyFirst : Placement where
  before := [.noCopyVideo]
  phoneIp := ⟨⟨ascii "192.168.1.100", by decide⟩, by decide⟩
  between := []
  url := none

/-- It is taken for the phone. -/
theorem not_placed_copyFirst : parseArgs copyFirst.argv ≠ copyFirst.asked := by
  intro h
  have hphone := parseArgs_before (g := copyFirst) List.mem_cons_self
  rw [h] at hphone
  exact absurd hphone (by decide)

end DroidcamWhip
