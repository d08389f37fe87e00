import DroidcamWhip.Frame
import Mathlib.Data.List.Basic

/-!
The virtual `decode_video` of a decoder, and the calls that `video_decode_thread`
makes of it one after the other. Packets are numbered by the calls they are
passed to.
-/

namespace DroidcamWhip

/-- What a call of `decode_video` returns and leaves in the frame; `output` is
the picture decoded in it when `*got_output` is set. -/
structure DecodeResult where
  ok : Bool
  frame : ObsFrame
  output : Option Picture

/-- A decoder with state `δ`, whose library gives the answers `α` to a call for a
packet. -/
class VideoDecoder (δ : Type) (α : outParam Type) where
  /-- The answers that the library can give. -/
  allows : δ → Nat → α → Bool
  decodeVideo : δ → ObsFrame → Nat → α → δ × DecodeResult

/-- A call of `decode_video`: the `pts` of the packet, and the library's answers. -/
structure Call (α : Type) where
  pts : UInt64
  answer : α

/-- Arguments of a call of `push_video_frame`, with the picture in the frame. -/
structure Pushed where
  frame : ObsFrame
  pts : UInt64
  picture : Picture

/-- What `video_decode_thread` pushes after a call of `decode_video`. -/
def DecodeResult.pushed (r : DecodeResult) (pts : UInt64) : List Pushed :=
  match r.ok, r.output with
  | true, some p => [⟨r.frame.stamp pts, pts, p⟩]
  | _, _ => []

theorem DecodeResult.ok_of_pushed {r : DecodeResult} {pts : UInt64} {x : Pushed}
    (h : x ∈ r.pushed pts) : r.ok = true := by
  by_contra hn
  simp [DecodeResult.pushed, Bool.eq_false_iff.mpr hn] at h

/-- The frame when `video_decode_thread` is done with a call of `decode_video`. -/
def DecodeResult.left (r : DecodeResult) (pts : UInt64) : ObsFrame :=
  match r.ok, r.output with
  | true, some _ => r.frame.stamp pts
  | _, _ => r.frame

namespace VideoDecoder

variable {δ α : Type} [VideoDecoder δ α]

/-- What is pushed in the calls up to the first that fails, after which there are
no more, when the first is for packet `k`. -/
def outputs : δ → ObsFrame → Nat → List (Call α) → List Pushed
  | _, _, _, [] => []
  | d, f, k, c :: cs =>
      let r := decodeVideo d f k c.answer
      r.2.pushed c.pts ++ if r.2.ok then outputs r.1 (r.2.left c.pts) (k + 1) cs else []

/-- The decoder and the frame after calls that have all succeeded. -/
def after : δ → ObsFrame → Nat → List (Call α) → Option (δ × ObsFrame)
  | d, f, _, [] => some (d, f)
  | d, f, k, c :: cs =>
      let r := decodeVideo d f k c.answer
      if r.2.ok then after r.1 (r.2.left c.pts) (k + 1) cs else none

theorem outputs_concat (d : δ) (f : ObsFrame) (k : Nat) (cs : List (Call α)) (c : Call α) :
    outputs d f k (cs ++ [c]) = outputs d f k cs ++
      match after d f k cs with
      | none => []
      | some (e, g) => (decodeVideo e g (k + cs.length) c.answer).2.pushed c.pts := by
  induction cs generalizing d f k with
  | nil => simp [outputs, after]
  | cons b cs ih =>
    simp only [List.cons_append, outputs, after, ih, List.length_cons]
    split
    · rw [List.append_assoc, Nat.add_right_comm k 1, Nat.add_assoc k]
    · simp

theorem after_concat (d : δ) (f : ObsFrame) (k : Nat) (cs : List (Call α)) (c : Call α) :
    after d f k (cs ++ [c]) =
      match after d f k cs with
      | none => none
      | some (e, g) =>
          let r := decodeVideo e g (k + cs.length) c.answer
          if r.2.ok then some (r.1, r.2.left c.pts) else none := by
  induction cs generalizing d f k with
  | nil => rfl
  | cons b cs ih =>
    simp only [List.cons_append, after, ih, List.length_cons]
    split
    · rw [Nat.add_right_comm k 1, Nat.add_assoc k]
    · rfl

end VideoDecoder

end DroidcamWhip
