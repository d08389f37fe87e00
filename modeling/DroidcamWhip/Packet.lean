import DroidcamWhip.Lib.Bytes
import Mathlib.Logic.Function.Basic

/-!
`DataPacket` and `Decoder` of `decoder.h`: the packet buffers, the two queues of
packet addresses and the pool operations on them.
-/

namespace DroidcamWhip

/-- What `brealloc` answers: NULL, or a block whose new bytes hold whatever the
allocator left there. -/
abbrev Alloc := Option (Nat → UInt8)

/-- A packet buffer. `data` is the allocated block, empty when the pointer is
NULL, and `size` is its recorded size. -/
structure DataPacket where
  data : List UInt8
  size : Nat
  used : Nat
  pts : UInt64
  size_eq : size = data.length

namespace DataPacket

/-- The block after a successful `brealloc` to `n` bytes. -/
def grow (g : Nat → UInt8) (data : List UInt8) (n : Nat) : List UInt8 :=
  data ++ (List.range' data.length (n - data.length)).map g

theorem grow_length (g : Nat → UInt8) (data : List UInt8) (n : Nat) (h : data.length ≤ n) :
    (grow g data n).length = n := by
  simp [grow, h]

def resize (p : DataPacket) (newSize : Nat) (alloc : Alloc) : DataPacket :=
  if h : p.size < newSize then
    match alloc with
    | none => p
    | some g =>
        { p with
          data := grow g p.data newSize
          size := newSize
          size_eq := (grow_length g p.data newSize (p.size_eq ▸ h.le)).symm }
  else p

/-- A packet that has no block yet. -/
def empty : DataPacket := ⟨[], 0, 0, 0, rfl⟩

instance : Inhabited DataPacket := ⟨empty⟩

/-- The constructor `DataPacket(new_size)`. -/
def new (newSize : Nat) (alloc : Alloc) : DataPacket := empty.resize newSize alloc

/-- Store bytes into the block, from an offset on. -/
def write (p : DataPacket) (off : Nat) (xs : List UInt8) : DataPacket :=
  { p with data := Bytes.overwrite p.data off xs, size_eq := by simp [p.size_eq] }

/-- The bytes that the packet carries, `data[0 .. used)`. -/
def bytes (p : DataPacket) : List UInt8 := p.data.take p.used

/-- Within its bytes a packet is read as it is. -/
theorem data_getD {p : DataPacket} {k : Nat} {b : UInt8} (h : p.bytes[k]? = some b) (d : UInt8) :
    p.data.getD k d = b := by
  rw [bytes, List.getElem?_take] at h
  split at h
  · rw [List.getD_eq_getElem?_getD, h, Option.getD_some]
  · cases h

@[simp] theorem write_length (p : DataPacket) (off : Nat) (xs : List UInt8) :
    (p.write off xs).data.length = p.data.length := Bytes.overwrite_length ..

theorem resize_length (p : DataPacket) (n : Nat) (g : Nat → UInt8) :
    (p.resize n (some g)).data.length = max p.data.length n := by
  unfold resize
  split
  · have := p.size_eq
    simp only [grow_length g p.data n (by omega)]
    omega
  · have := p.size_eq
    omega

theorem new_length (n : Nat) (g : Nat → UInt8) : (new n (some g)).data.length = n := by
  simp [new, resize_length, empty]

theorem new_none (n : Nat) : new n none = empty := by
  unfold new resize
  split <;> rfl

end DataPacket

/-- The codec an `FFMpegDecoder` was initialised with. -/
inductive CodecId where
  | h264
  | h265
  | aac
  | other (id : Nat)
  deriving DecidableEq, Repr

inductive Kind where
  | ffmpeg (id : CodecId)
  | mjpeg
  deriving DecidableEq, Repr

/-- A `Decoder`: its packets by address, of which the first `issued` have been
allocated, and the members that the two threads share. `catchup` is a member of
`FFMpegDecoder` only. -/
structure Decoder where
  kind : Kind
  heap : Nat → DataPacket
  issued : Nat
  recieveQueue : List Nat
  decodeQueue : List Nat
  allocCount : Nat
  ready : Bool
  failed : Bool
  catchup : Bool

namespace Decoder

/-- The constructors `FFMpegDecoder()` and `MJpegDecoder()`. -/
def new (kind : Kind) : Decoder :=
  { kind, heap := fun _ => .empty, issued := 0, recieveQueue := [], decodeQueue := []
    allocCount := 0, ready := false, failed := false, catchup := false }

def setPacket (d : Decoder) (a : Nat) (p : DataPacket) : Decoder :=
  { d with heap := Function.update d.heap a p }

/-- `pull_empty_packet` when the pool is empty: allocate a packet. -/
def newPacket (d : Decoder) (size : Nat) (alloc : Alloc) : Decoder :=
  { d with
    heap := Function.update d.heap d.issued (.new size alloc)
    issued := d.issued + 1
    allocCount := d.allocCount + 1 }

/-- `pull_empty_packet` when the pool has `a` at its front and `q` behind it. -/
def reusePacket (d : Decoder) (a : Nat) (q : List Nat) (size : Nat) (alloc : Alloc) : Decoder :=
  { d with
    recieveQueue := q
    heap := Function.update d.heap a { (d.heap a).resize size alloc with used := 0 } }

/-- `Decoder::pull_empty_packet`. -/
def pullEmptyPacket (d : Decoder) (size : Nat) (alloc : Alloc) : Nat × Decoder :=
  match d.recieveQueue with
  | [] => (d.issued, d.newPacket size alloc)
  | a :: q => (a, d.reusePacket a q size alloc)

def pushEmptyPacket (d : Decoder) (a : Nat) : Decoder :=
  { d with recieveQueue := d.recieveQueue ++ [a] }

/-- `decodeQueue.add_item`. -/
def enqueue (d : Decoder) (a : Nat) : Decoder :=
  { d with decodeQueue := d.decodeQueue ++ [a] }

/-- One loop of `~Decoder`: delete the packets of a queue and count down. -/
def drain : List Nat → Int → List Nat × Int
  | [], n => ([], n)
  | a :: q, n => (a :: (drain q (n - 1)).1, (drain q (n - 1)).2)

/-- `~Decoder`: the packets deleted, and `alloc_count` at the end. -/
def destroy (d : Decoder) : List Nat × Int :=
  let r := drain d.recieveQueue d.allocCount
  let s := drain d.decodeQueue r.2
  (r.1 ++ s.1, s.2)

theorem drain_eq (q : List Nat) (n : Int) : drain q n = (q, n - q.length) := by
  induction q generalizing n with
  | nil => simp [drain]
  | cons a q ih =>
    simp only [drain, ih, List.length_cons, Nat.cast_add, Nat.cast_one, Prod.mk.injEq, true_and]
    omega

theorem destroy_eq (d : Decoder) :
    d.destroy = (d.recieveQueue ++ d.decodeQueue,
      (d.allocCount : Int) - d.recieveQueue.length - d.decodeQueue.length) := by
  simp [destroy, drain_eq]

end Decoder

end DroidcamWhip
