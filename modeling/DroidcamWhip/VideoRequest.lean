import Mathlib.Data.List.Basic
import Mathlib.Data.Nat.Digits.Defs

/-!
The request that opens a video connection: `VIDEO_REQ` as `snprintf` formats it,
and `net_send_all`, which puts it on the wire.
-/

namespace DroidcamWhip

inductive VideoFormat where
  | avc
  | mjpg
  | hevc
  deriving DecidableEq, Repr

/-- The second column of `VideoFormatNames`. -/
def VideoFormat.name : VideoFormat → List Char
  | .avc => "avc".toList
  | .mjpg => "jpg".toList
  | .hevc => "hevc".toList

/-- What `VIDEO_REQ` is filled with; `os` is `os_name_version`, the string in a
buffer of 64 characters. -/
structure VideoReq where
  width : Int32
  height : Int32
  usbPort : Int32
  os : List Char
  useHdr : Bool
  os_fits : os.length ≤ 64

theorem linux_fits : "linux".toList.length ≤ 64 := by decide

/-- The conversion `%d`. -/
def decimal (n : Int32) : List Char :=
  if n.toInt < 0 then '-' :: Nat.toDigits 10 n.toInt.natAbs else Nat.toDigits 10 n.toInt.natAbs

@[irreducible]
def VideoReq.text (format : VideoFormat) (r : VideoReq) : List Char :=
  "GET /v5/video/".toList ++ format.name ++
    "/".toList ++ decimal r.width ++ "x".toList ++ decimal r.height ++
    "/port/".toList ++ decimal r.usbPort ++
    "/os/".toList ++ r.os ++ "/obs/".toList ++ "standalone".toList ++
    "/client/".toList ++ "250".toList ++
    "/hdr/".toList ++ decimal (if r.useHdr ∧ format = .hevc then 1 else 0) ++
    "/nonce/".toList ++ decimal 5912 ++ "/".toList

/-- `char video_req[256]` after `snprintf`, up to the terminator. -/
def VideoReq.buffer (format : VideoFormat) (r : VideoReq) : List Char :=
  (r.text format).take 255

theorem decimal_length (n : Int32) : (decimal n).length ≤ 11 := by
  have hlo : -(2 ^ 31) ≤ n.toInt := n.le_toInt
  have hhi : n.toInt < 2 ^ 31 := n.toInt_lt
  have hdigits : (Nat.toDigits 10 n.toInt.natAbs).length ≤ 10 :=
    (Nat.length_toDigits_le_iff (by omega) (by omega)).mpr (by omega)
  unfold decimal
  split
  · rw [List.length_cons]
    omega
  · omega

theorem VideoReq.text_length (format : VideoFormat) (r : VideoReq) :
    (r.text format).length ≤ 255 := by
  have hname : format.name.length ≤ 4 := by cases format <;> decide
  have hw := decimal_length r.width
  have hh := decimal_length r.height
  have hp := decimal_length r.usbPort
  have hd := decimal_length (if r.useHdr ∧ format = .hevc then 1 else 0)
  have hn := decimal_length 5912
  have hos := r.os_fits
  unfold text
  simp only [List.length_append]
  simp
  omega

/-- The request fits its buffer, so nothing of it is cut off. -/
theorem VideoReq.buffer_eq (format : VideoFormat) (r : VideoReq) :
    r.buffer format = r.text format := by
  unfold buffer
  exact List.take_of_length_le (r.text_length format)

/-- `net_send_all`: whether it succeeds, and what it put on the wire. Each answer
of `send` is the number of bytes taken, 0 for a failure; running out of answers
is a failure as well. -/
def netSendAll : List Char → List Nat → Bool × List Char
  | [], _ => (true, [])
  | _ :: _, [] => (false, [])
  | c :: cs, w :: ws =>
      if w = 0 then (false, [])
      else
        let r := netSendAll ((c :: cs).drop w) ws
        (r.1, (c :: cs).take w ++ r.2)

/-- Nothing but the start of the buffer is ever sent. -/
theorem netSendAll_start (buf : List Char) (ws : List Nat) : (netSendAll buf ws).2 <+: buf := by
  induction ws generalizing buf with
  | nil => cases buf <;> exact List.nil_prefix
  | cons w ws ih =>
    cases buf with
    | nil => exact List.nil_prefix
    | cons c cs =>
      unfold netSendAll
      split
      · exact List.nil_prefix
      · show (c :: cs).take w ++ (netSendAll ((c :: cs).drop w) ws).2 <+: c :: cs
        conv_rhs => rw [← List.take_append_drop w (c :: cs)]
        exact (List.prefix_append_right_inj _).mpr (ih _)

/-- A successful `net_send_all` has sent everything, once and in order. -/
theorem netSendAll_sent {buf : List Char} {ws : List Nat} (h : (netSendAll buf ws).1 = true) :
    (netSendAll buf ws).2 = buf := by
  induction ws generalizing buf with
  | nil =>
    cases buf with
    | nil => rfl
    | cons c cs => simp [netSendAll] at h
  | cons w ws ih =>
    cases buf with
    | nil => rfl
    | cons c cs =>
      rw [netSendAll] at h ⊢
      split at h
      · cases h
      · rename_i hw
        rw [if_neg hw]
        simp only at h ⊢
        rw [ih h, List.take_append_drop]

end DroidcamWhip
