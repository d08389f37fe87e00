import DroidcamWhip.DeviceList

/-!
`connect_device` for ADB devices: the local port that is kept from one attempt to the
next, and the window of ports that belongs to each place in the device list.
-/

namespace DroidcamWhip

open CString DeviceDiscovery

/-! ## The code -/

structure AdbMgr where
  discovery : DeviceDiscovery
  disabled : Bool

/-- `DeviceOffline`. -/
def Device.offline (d : Device) : Bool := d.state.bytes.take 6 ≠ ascii "device"

/-- What an attempt does: calls of `AddForward` and `net_connect`, and the commands that
`ClearForwards` runs. -/
inductive UsbEvent where
  | addForward (dev : Nat) (localPort remotePort : Int)
  | removeForward (port : Int)
  | netConnect (port : Int)
  | reload
  deriving DecidableEq

/-- `ClearForwards`. -/
def AdbMgr.clearForwards (adb : AdbMgr) (portStart portLast : Int) : List UsbEvent :=
  if adb.disabled then []
  else (List.range (portLast + 1 - portStart).toNat).map fun k => .removeForward (portStart + k)

/-- What an attempt finds: the device that is asked for, the list as it is by then, whether
`adb forward` succeeds and whether `net_connect` returns a socket. -/
structure UsbAttempt where
  id : List UInt8
  adb : AdbMgr
  forwarded : Bool
  connected : Bool

namespace UsbAttempt

/-- `GetDevice`, and `iter` behind it. -/
def getDevice (a : UsbAttempt) : Option Nat × DeviceDiscovery := a.adb.discovery.getDevice a.id 80

/-- The device that `GetDevice` finds. -/
def device (a : UsbAttempt) : Option Device :=
  a.getDevice.1.bind fun dev => a.adb.discovery.deviceList.getD dev none

/-- `AddForward`. -/
def addForward (a : UsbAttempt) : Bool := !a.adb.disabled && a.forwarded

end UsbAttempt

/-- `connect_device`: the value of `usb_port` afterwards, what was done, and whether a socket
is returned. -/
def connectDevice (port usbPort : Int) (a : UsbAttempt) : Int × List UsbEvent × Bool :=
  match a.getDevice, a.device with
  | (some dev, mgr), some d =>
      if d.offline then (usbPort, [], false)
      else
        let portStart := port + mgr.iter * 10
        let portLast := portStart + 8
        let (usbPort, cleared) :=
          if usbPort < portStart then (portStart, [])
          else if usbPort > portLast then (portStart, a.adb.clearForwards portStart portLast)
          else (usbPort, [])
        let forward := UsbEvent.addForward dev usbPort port
        if ¬ a.addForward then (usbPort + 1, cleared ++ [forward], false)
        else if a.connected then (usbPort, cleared ++ [forward, .netConnect usbPort], true)
        else
          (usbPort, cleared ++ [forward, .netConnect usbPort] ++
            a.adb.clearForwards portStart portLast, false)
  | _, _ => (usbPort, [.reload], false)

/-- An attempt in a sequence of attempts. -/
structure UsbRecord where
  attempt : UsbAttempt
  /-- `usb_port` before the attempt. -/
  before : Int
  events : List UsbEvent

/-- A sequence of attempts, from a value of `usb_port` on. -/
def connectAll (port : Int) : Int → List UsbAttempt → List UsbRecord
  | _, [] => []
  | usbPort, a :: as =>
      let r := connectDevice port usbPort a
      ⟨a, usbPort, r.2.1⟩ :: connectAll port r.1 as

/-- `usb_port` after a sequence of attempts. -/
def usbAfter (port usbPort : Int) (as : List UsbAttempt) : Int :=
  as.foldl (fun u a => (connectDevice port u a).1) usbPort

/-! ## Windows -/

/-- The ports of the place `i` in the device list are this one and the eight behind it. -/
def windowStart (port : Int) (i : Nat) : Int := port + 10 * i

def UsbEvent.localPort? : UsbEvent → Option Int
  | .addForward _ localPort _ => some localPort
  | _ => none

namespace UsbRecord

/-- The list index of the device that was found. -/
def index (r : UsbRecord) : Option Nat := r.attempt.getDevice.1

/-- The local ports given to `AddForward`. -/
def localPorts (r : UsbRecord) : List Int := r.events.filterMap UsbEvent.localPort?

end UsbRecord

/-- The nine removals of a window. -/
def removals (port : Int) (i : Nat) : List UsbEvent :=
  (List.range 9).map fun k => .removeForward (windowStart port i + k)

/-- The device is found at the place `i` of the list, and it is not offline. -/
structure UsbAttempt.Online (a : UsbAttempt) (i : Nat) : Prop where
  found : a.getDevice.1 = some i
  online : ∃ d, a.device = some d ∧ d.offline = false

/-- `AddForward` is called for the place `i` of the list and fails. -/
structure UsbAttempt.Fails (a : UsbAttempt) (i : Nat) : Prop extends a.Online i where
  failed : a.addForward = false

/-- What is asked of the local port in a sequence of attempts. -/
structure Windowed (port usbPort : Int) (as : List UsbAttempt) : Prop where
  /-- `AddForward` gets one port in an attempt for a device that is online. -/
  once : ∀ r ∈ connectAll port usbPort as, ∀ i, r.attempt.Online i → ∃ q, r.localPorts = [q]
  /-- The local port is in the window of the device. -/
  inside : ∀ r ∈ connectAll port usbPort as, ∀ q ∈ r.localPorts, ∃ i, r.index = some i ∧
    windowStart port i ≤ q ∧ q ≤ windowStart port i + 8
  /-- Devices of different index never have a port in common. -/
  apart : ∀ r ∈ connectAll port usbPort as, ∀ r' ∈ connectAll port usbPort as,
    r.index ≠ r'.index → ∀ q ∈ r.localPorts, q ∉ r'.localPorts
  /-- A port behind the one that was kept is the start of the window, cleared before. -/
  wraps : ∀ r ∈ connectAll port usbPort as, r.attempt.adb.disabled = false →
    ∀ q ∈ r.localPorts, q < r.before → ∃ i dev rest, r.index = some i ∧ q = windowStart port i ∧
      r.events = removals port i ++ .addForward dev q port :: rest
  /-- Failing attempts for one device go through its ports in turn, from the start of the
  window where `usb_port` is there or outside the window. -/
  series : ∀ pre fails post i, as = pre ++ fails ++ post → (∀ a ∈ fails, a.Fails i) →
    (usbAfter port usbPort pre ≤ windowStart port i ∨
      windowStart port i + 8 < usbAfter port usbPort pre) →
    (((connectAll port usbPort as).drop pre.length).take fails.length).flatMap
        UsbRecord.localPorts =
      (List.range fails.length).map fun k => windowStart port i + (k % 9 : Nat)

/-! ## One attempt -/

/-- `usb_port` once it is in the window of the place `i`. -/
def mapped (port usbPort : Int) (i : Nat) : Int :=
  if usbPort < windowStart port i then windowStart port i
  else if usbPort > windowStart port i + 8 then windowStart port i
  else usbPort

theorem mapped_inside (port usbPort : Int) (i : Nat) :
    windowStart port i ≤ mapped port usbPort i ∧ mapped port usbPort i ≤ windowStart port i + 8 := by
  unfold mapped
  split
  · omega
  · split <;> omega

theorem clearForwards_localPort (adb : AdbMgr) (portStart portLast : Int) :
    (adb.clearForwards portStart portLast).filterMap UsbEvent.localPort? = [] := by
  unfold AdbMgr.clearForwards
  split
  · rfl
  · rw [List.filterMap_map]
    exact List.filterMap_eq_nil_iff.mpr fun _ _ => rfl

theorem clearForwards_window {adb : AdbMgr} (h : adb.disabled = false) (port : Int) (i : Nat) :
    adb.clearForwards (windowStart port i) (windowStart port i + 8) = removals port i := by
  have hnine : (windowStart port i + 8 + 1 - windowStart port i).toNat = 9 := by omega
  unfold AdbMgr.clearForwards removals
  rw [hnine, if_neg (by simp [h])]

section Attempts

variable (port usbPort : Int) {a : UsbAttempt}

/-- Without a device that is online, nothing is mapped. -/
theorem connectDevice_idle (h : ∀ i, ¬ a.Online i) :
    (connectDevice port usbPort a).1 = usbPort ∧
      (connectDevice port usbPort a).2.1.filterMap UsbEvent.localPort? = [] := by
  unfold connectDevice
  split
  · rename_i dev mgr d hget hdev
    have hoff : d.offline = true := by
      by_contra hoff
      exact h dev ⟨by rw [hget], d, hdev, by simpa using hoff⟩
    rw [if_pos hoff]
    exact ⟨rfl, rfl⟩
  · exact ⟨rfl, rfl⟩

/-- With one, `AddForward` is called once, with a port in its window. -/
theorem connectDevice_online {i : Nat} (h : a.Online i) :
    ∃ rest, rest.filterMap UsbEvent.localPort? = [] ∧
      (connectDevice port usbPort a).1 =
        (if a.addForward then mapped port usbPort i else mapped port usbPort i + 1) ∧
      (connectDevice port usbPort a).2.1 =
        (if usbPort > windowStart port i + 8 then
          a.adb.clearForwards (windowStart port i) (windowStart port i + 8) else []) ++
        .addForward i (mapped port usbPort i) port :: rest := by
  obtain ⟨hfound, d, hdev, hon⟩ := h
  have hiter : a.getDevice.2.iter = i := getDevice_iter hfound
  have hget : a.getDevice = (some i, a.getDevice.2) := Prod.ext hfound rfl
  have hstart : port + (i : Int) * 10 = windowStart port i := by
    unfold windowStart
    omega
  have hclear := clearForwards_localPort a.adb (windowStart port i) (windowStart port i + 8)
  have hmapped : (if usbPort < windowStart port i then (windowStart port i, [])
      else if usbPort > windowStart port i + 8 then
        (windowStart port i, a.adb.clearForwards (windowStart port i) (windowStart port i + 8))
      else (usbPort, [])) =
      (mapped port usbPort i, if usbPort > windowStart port i + 8 then
        a.adb.clearForwards (windowStart port i) (windowStart port i + 8) else []) := by
    unfold mapped
    by_cases hlow : usbPort < windowStart port i
    · rw [if_pos hlow, if_pos hlow, if_neg (by omega)]
    · rw [if_neg hlow, if_neg hlow]
      by_cases hhigh : usbPort > windowStart port i + 8
      · rw [if_pos hhigh, if_pos hhigh, if_pos hhigh]
      · rw [if_neg hhigh, if_neg hhigh, if_neg hhigh]
  unfold connectDevice
  rw [hget, hdev]
  simp only [hon, hiter, hstart, hmapped, Bool.false_eq_true, if_false]
  cases a.addForward with
  | false => exact ⟨[], rfl, rfl, rfl⟩
  | true =>
    cases a.connected with
    | true => exact ⟨[.netConnect (mapped port usbPort i)], rfl, rfl, rfl⟩
    | false =>
      refine ⟨.netConnect (mapped port usbPort i) ::
        a.adb.clearForwards (windowStart port i) (windowStart port i + 8), hclear, rfl, ?_⟩
      simp

theorem localPorts_online {i : Nat} (h : a.Online i) :
    (connectDevice port usbPort a).2.1.filterMap UsbEvent.localPort? =
      [mapped port usbPort i] := by
  obtain ⟨rest, hrest, -, hdone⟩ := connectDevice_online port usbPort h
  have hcleared : (if usbPort > windowStart port i + 8 then
      a.adb.clearForwards (windowStart port i) (windowStart port i + 8)
      else []).filterMap UsbEvent.localPort? = [] := by
    split
    · exact clearForwards_localPort ..
    · rfl
  rw [hdone, List.filterMap_append, hcleared, List.filterMap_cons, hrest]
  rfl

end Attempts

/-! ## Sequences of attempts -/

section Runs

variable {port usbPort : Int}

theorem connectAll_length (as : List UsbAttempt) :
    (connectAll port usbPort as).length = as.length := by
  induction as generalizing usbPort with
  | nil => rfl
  | cons a as ih => rw [connectAll, List.length_cons, ih, List.length_cons]

theorem connectAll_append (as bs : List UsbAttempt) :
    connectAll port usbPort (as ++ bs) =
      connectAll port usbPort as ++ connectAll port (usbAfter port usbPort as) bs := by
  induction as generalizing usbPort with
  | nil => rfl
  | cons a as ih =>
    rw [List.cons_append, connectAll, connectAll, ih]
    rfl

theorem events_of_mem {as : List UsbAttempt} {r : UsbRecord}
    (h : r ∈ connectAll port usbPort as) :
    r.events = (connectDevice port r.before r.attempt).2.1 := by
  induction as generalizing usbPort with
  | nil => cases h
  | cons a as ih =>
    rcases List.mem_cons.mp h with rfl | h
    · rfl
    · exact ih h

/-- A record with a local port is of a device that is online. -/
theorem record_of_localPort {as : List UsbAttempt} {r : UsbRecord} {q : Int}
    (h : r ∈ connectAll port usbPort as) (hq : q ∈ r.localPorts) :
    ∃ i rest, r.index = some i ∧ q = mapped port r.before i ∧
      r.events = (if r.before > windowStart port i + 8 then
          r.attempt.adb.clearForwards (windowStart port i) (windowStart port i + 8) else []) ++
        .addForward i q port :: rest := by
  have hevents := events_of_mem h
  unfold UsbRecord.localPorts at hq
  by_cases hon : ∃ i, r.attempt.Online i
  · obtain ⟨i, hi⟩ := hon
    obtain ⟨rest, -, -, hdone⟩ := connectDevice_online port r.before hi
    rw [hevents, localPorts_online port r.before hi, List.mem_singleton] at hq
    exact ⟨i, rest, hi.found, hq, by rw [hevents, hdone, hq]⟩
  · have hidle := (connectDevice_idle port r.before (not_exists.mp hon)).2
    rw [← hevents] at hidle
    rw [hidle] at hq
    cases hq

/-- No `int` overflows on the way, for a port that `main` admits. -/
theorem usbAfter_bounded (hport : 0 ≤ port ∧ port ≤ 65535)
    (hbefore : 0 ≤ usbPort ∧ usbPort ≤ 65854) (as : List UsbAttempt) :
    0 ≤ usbAfter port usbPort as ∧ usbAfter port usbPort as ≤ 65854 := by
  induction as generalizing usbPort with
  | nil => exact hbefore
  | cons a as ih =>
    apply ih
    show 0 ≤ (connectDevice port usbPort a).1 ∧ (connectDevice port usbPort a).1 ≤ 65854
    by_cases hon : ∃ i, a.Online i
    · obtain ⟨i, hi⟩ := hon
      obtain ⟨-, -, hafter, -⟩ := connectDevice_online port usbPort hi
      have hin := mapped_inside port usbPort i
      have hlimit : i < 32 := getDevice_lt hi.found
      unfold windowStart at hin
      rw [hafter]
      split <;> omega
    · rw [(connectDevice_idle port usbPort (not_exists.mp hon)).1]
      exact hbefore

/-- The port behind the `j`-th one of a window; behind the last one, the first. -/
theorem mapped_next (port : Int) (i : Nat) {j : Nat} (hj : j < 9) :
    mapped port (windowStart port i + j + 1) i = windowStart port i + ((j + 1) % 9 : Nat) := by
  unfold mapped
  rw [if_neg (by omega)]
  split <;> omega

/-- Attempts that fail, from the `j`-th port of the window on. -/
theorem localPorts_fails {i : Nat} {fails : List UsbAttempt} (h : ∀ a ∈ fails, a.Fails i)
    {j : Nat} (hj : j < 9) (hmapped : mapped port usbPort i = windowStart port i + j) :
    (connectAll port usbPort fails).flatMap UsbRecord.localPorts =
      (List.range fails.length).map fun k => windowStart port i + ((j + k) % 9 : Nat) := by
  induction fails generalizing usbPort j with
  | nil => rfl
  | cons a fails ih =>
    have ha := h a List.mem_cons_self
    obtain ⟨-, -, hafter, -⟩ := connectDevice_online port usbPort ha.toOnline
    have hports := localPorts_online port usbPort ha.toOnline
    rw [ha.failed, if_neg (by simp), hmapped] at hafter
    rw [hmapped] at hports
    have hih := ih (fun b hb => h b (List.mem_cons_of_mem a hb)) (Nat.mod_lt (j + 1) (by omega))
      (mapped_next port i hj)
    rw [← hafter] at hih
    rw [connectAll, List.flatMap_cons, hih, List.length_cons, List.range_succ_eq_map,
      List.map_cons, List.map_map]
    show _ ++ _ = _ :: _
    unfold UsbRecord.localPorts
    have hfirst : (j + 0) % 9 = j := Nat.mod_eq_of_lt hj
    rw [hports, hfirst, List.singleton_append]
    congr 1
    apply List.map_congr_left
    intro k _
    show windowStart port i + _ = windowStart port i + _
    rw [Nat.mod_add_mod, Nat.succ_eq_add_one, Nat.add_right_comm, Nat.add_assoc]

end Runs

/-- **The local port.** It keeps to the window of the device, whatever was attempted before. -/
theorem windowed (port usbPort : Int) (as : List UsbAttempt) : Windowed port usbPort as where
  once r hr i hon := by
    have hports := localPorts_online port r.before hon
    rw [← events_of_mem hr] at hports
    exact ⟨mapped port r.before i, hports⟩
  inside r hr q hq := by
    obtain ⟨i, -, hi, rfl, -⟩ := record_of_localPort hr hq
    exact ⟨i, hi, mapped_inside port r.before i⟩
  apart r hr r' hr' hne q hq hq' := by
    obtain ⟨i, -, hi, hport, -⟩ := record_of_localPort hr hq
    obtain ⟨i', -, hi', hport', -⟩ := record_of_localPort hr' hq'
    have hin := mapped_inside port r.before i
    have hin' := mapped_inside port r'.before i'
    have hii : i ≠ i' := fun h => hne (by rw [hi, hi', h])
    unfold windowStart at hin hin'
    omega
  wraps r hr hadb q hq hlt := by
    obtain ⟨i, rest, hi, hport, hevents⟩ := record_of_localPort hr hq
    have hbehind : r.before > windowStart port i + 8 := by
      unfold mapped at hport
      split at hport <;> [omega; split at hport <;> omega]
    rw [if_pos hbehind, clearForwards_window hadb] at hevents
    refine ⟨i, i, rest, hi, ?_, hevents⟩
    rw [hport, mapped, if_neg (by omega), if_pos hbehind]
  series pre fails post i has hfails hstart := by
    have htried : (((connectAll port usbPort as).drop pre.length).take fails.length) =
        connectAll port (usbAfter port usbPort pre) fails := by
      rw [has, List.append_assoc, connectAll_append, connectAll_append,
        List.drop_left' (connectAll_length pre), List.take_left' (connectAll_length fails)]
    have hmapped : mapped port (usbAfter port usbPort pre) i = windowStart port i + (0 : Nat) := by
      unfold mapped
      split
      · simp
      · split <;> omega
    have hall := localPorts_fails hfails (by omega) hmapped
    rw [htried, hall]
    simp

section Phone

/-- A phone that is listed alone and that no port can be forwarded to. -/
def stuckPhone : UsbAttempt where
  id := ascii "4711"
  adb := ⟨DeviceDiscovery.new.put 0
    { Device.named (ascii "4711") 4 with state := (Chars.zero 32).strncpy (ascii "device") }, false⟩
  forwarded := false
  connected := false

theorem stuckPhone_fails : stuckPhone.Fails 0 :=
  ⟨⟨by decide +kernel, _, rfl, by decide +kernel⟩, rfl⟩

/-- Ten failures: the nine ports in order, the nine removals and the first port again. -/
theorem windowed_stuck :
    (connectAll 4747 0 (List.replicate 10 stuckPhone)).flatMap UsbRecord.localPorts =
      [4747, 4748, 4749, 4750, 4751, 4752, 4753, 4754, 4755, 4747] ∧
    ∃ dev rest, (connectAll 4747 0 (List.replicate 10 stuckPhone)).getLast?.map UsbRecord.events =
      some (removals 4747 0 ++ .addForward dev 4747 4747 :: rest) := by
  have h := windowed 4747 0 (List.replicate 10 stuckPhone)
  have hfails : ∀ a ∈ List.replicate 10 stuckPhone, a.Fails 0 := by
    intro a ha
    rw [List.eq_of_mem_replicate ha]
    exact stuckPhone_fails
  have hnine : usbAfter 4747 0 (List.replicate 9 stuckPhone) = 4756 := by decide +kernel
  have hrun : connectAll 4747 0 (List.replicate 10 stuckPhone) =
      connectAll 4747 0 (List.replicate 9 stuckPhone) ++
        [⟨stuckPhone, 4756, (connectDevice 4747 4756 stuckPhone).2.1⟩] := by
    rw [List.replicate_succ', connectAll_append, hnine]
    rfl
  have hlast : ⟨stuckPhone, 4756, (connectDevice 4747 4756 stuckPhone).2.1⟩ ∈
      connectAll 4747 0 (List.replicate 10 stuckPhone) := by
    rw [hrun]
    exact List.mem_append_right _ List.mem_cons_self
  have hport : 4747 ∈ (connectDevice 4747 4756 stuckPhone).2.1.filterMap UsbEvent.localPort? := by
    decide +kernel
  refine ⟨h.series [] _ [] 0 (by simp) hfails (.inl (by decide)), ?_⟩
  obtain ⟨i, dev, rest, hi, -, hevents⟩ := h.wraps _ hlast rfl 4747 hport (by decide)
  have hzero : i = 0 := Option.some.inj (hi.symm.trans stuckPhone_fails.found)
  rw [hzero] at hevents
  refine ⟨dev, rest, ?_⟩
  rw [hrun, List.getLast?_concat]
  exact congrArg some hevents

end Phone

end DroidcamWhip
