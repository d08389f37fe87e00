import DroidcamWhip.Packet

/-!
The wire format: `buffer_util.h`, `net_recv_all`, and the header loop of
`read_frame` up to the point where it asks the decoder for a packet.
-/

namespace DroidcamWhip

/-! ## `buffer_util.h` -/

def bufferRead32be (buf : List UInt8) : UInt32 :=
  ((buf.getD 0 0).toUInt32 <<< 24) ||| ((buf.getD 1 0).toUInt32 <<< 16) |||
    ((buf.getD 2 0).toUInt32 <<< 8) ||| (buf.getD 3 0).toUInt32

def bufferRead64be (buf : List UInt8) : UInt64 :=
  let msb := bufferRead32be buf
  let lsb := bufferRead32be (buf.drop 4)
  (msb.toUInt64 <<< 32) ||| lsb.toUInt64

theorem bufferRead32be_toNat (buf : List UInt8) (h : 4 ≤ buf.length) :
    (bufferRead32be buf).toNat = Bytes.value (buf.take 4) := by
  obtain ⟨a, b, c, d, rest, rfl⟩ : ∃ a b c d rest, buf = a :: b :: c :: d :: rest := by
    match buf, h with
    | a :: b :: c :: d :: rest, _ => exact ⟨a, b, c, d, rest, rfl⟩
  have ha := a.toNat_lt
  have hb := b.toNat_lt
  have hc := c.toNat_lt
  have hd := d.toNat_lt
  have h₁ : a.toNat <<< 24 ||| b.toNat <<< 16 = (a.toNat <<< 8 + b.toNat) <<< 16 := by
    rw [Nat.shiftLeft_add_eq_or_of_lt hb, Nat.shiftLeft_or_distrib, ← Nat.shiftLeft_add]
  have h₂ : (a.toNat <<< 8 + b.toNat) <<< 16 ||| c.toNat <<< 8 =
      ((a.toNat <<< 8 + b.toNat) <<< 8 + c.toNat) <<< 8 := by
    rw [Nat.shiftLeft_add_eq_or_of_lt hc, Nat.shiftLeft_or_distrib, ← Nat.shiftLeft_add]
  have hm : ∀ x k, x < 256 → k ≤ 24 → (x <<< k) % 2 ^ 32 = x <<< k := by
    intro x k hx hk
    apply Nat.mod_eq_of_lt
    rw [Nat.shiftLeft_eq]
    calc x * 2 ^ k < 256 * 2 ^ k := by
          exact Nat.mul_lt_mul_of_pos_right hx (Nat.pow_pos (by omega))
      _ ≤ 256 * 2 ^ 24 := Nat.mul_le_mul_left _ (Nat.pow_le_pow_right (by omega) hk)
      _ = 2 ^ 32 := by norm_num
  have hv : (bufferRead32be (a :: b :: c :: d :: rest)).toNat =
      a.toNat <<< 24 ||| b.toNat <<< 16 ||| c.toNat <<< 8 ||| d.toNat := by
    simp only [bufferRead32be, List.getD_cons_zero, List.getD_cons_succ, UInt32.toNat_or,
      UInt32.toNat_shiftLeft, UInt8.toNat_toUInt32]
    change (a.toNat <<< 24) % 2 ^ 32 ||| (b.toNat <<< 16) % 2 ^ 32 |||
      (c.toNat <<< 8) % 2 ^ 32 ||| d.toNat = _
    rw [hm _ 24 ha (by omega), hm _ 16 hb (by omega), hm _ 8 hc (by omega)]
  rw [hv, h₁, h₂, ← Nat.shiftLeft_add_eq_or_of_lt hd]
  simp only [List.take_succ_cons, List.take_zero, Bytes.value, List.length_cons, List.length_nil,
    Nat.shiftLeft_eq]
  omega

theorem bufferRead64be_toNat (buf : List UInt8) (h : 8 ≤ buf.length) :
    (bufferRead64be buf).toNat = Bytes.value (buf.take 8) := by
  have hm := bufferRead32be_toNat buf (by omega)
  have hl := bufferRead32be_toNat (buf.drop 4) (by simp; omega)
  have hlt := (bufferRead32be (buf.drop 4)).toNat_lt
  have hmt := (bufferRead32be buf).toNat_lt
  have hv : (bufferRead64be buf).toNat =
      (bufferRead32be buf).toNat <<< 32 ||| (bufferRead32be (buf.drop 4)).toNat := by
    simp only [bufferRead64be, UInt64.toNat_or, UInt64.toNat_shiftLeft, UInt32.toNat_toUInt64]
    change ((bufferRead32be buf).toNat <<< 32) % 2 ^ 64 ||| _ = _
    rw [Nat.mod_eq_of_lt]
    rw [Nat.shiftLeft_eq]
    omega
  have hsplit : buf.take 8 = buf.take 4 ++ (buf.drop 4).take 4 := by
    rw [← List.take_add]
  rw [hv, ← Nat.shiftLeft_add_eq_or_of_lt hlt, hsplit, Bytes.value_append, hm, hl,
    Nat.shiftLeft_eq]
  simp only [List.length_take, List.length_drop, show min 4 (buf.length - 4) = 4 by omega]
  norm_num

/-! ## `net_recv_all` -/

/-- A connected socket: the bytes it still delivers, whether the stream ends in
an error, and how many times it has been read. -/
structure Sock where
  bytes : List UInt8
  lost : Bool
  reads : Nat

/-- Answer of one `net_recv_all`: its return value and the bytes it stored. -/
structure Recv where
  ret : Int
  data : List UInt8
  sock : Sock

/-- `recv` with `MSG_WAITALL`: the bytes asked for, or where the stream ends
first an error or the fewer bytes that are left. -/
def netRecvAll (sock : Sock) (len : Nat) : Recv :=
  if len ≤ sock.bytes.length then
    ⟨len, sock.bytes.take len,
      { sock with bytes := sock.bytes.drop len, reads := sock.reads + 1 }⟩
  else if sock.lost then ⟨-1, [], { sock with bytes := [], reads := sock.reads + 1 }⟩
  else ⟨sock.bytes.length, sock.bytes, { sock with bytes := [], reads := sock.reads + 1 }⟩

/-- Conversion of a `ssize_t` to `size_t`. -/
def sizeT (r : Int) : Nat := (r % 2 ^ 64).toNat

theorem netRecvAll_reads (sock : Sock) (len : Nat) :
    (netRecvAll sock len).sock.reads = sock.reads + 1 := by
  unfold netRecvAll
  split
  · rfl
  · split <;> rfl

theorem netRecvAll_append (xs rest : List UInt8) (lost : Bool) (reads : Nat) :
    netRecvAll ⟨xs ++ rest, lost, reads⟩ xs.length =
      ⟨xs.length, xs, ⟨rest, lost, reads + 1⟩⟩ := by
  simp [netRecvAll]

theorem sizeT_natCast (n : Nat) (h : n < 2 ^ 64) : sizeT n = n := by
  unfold sizeT
  omega

/-- A read returns the length asked for exactly when it was served in full. -/
theorem netRecvAll_full {sock : Sock} {len : Nat} (hl : len < 2 ^ 32)
    (h : sizeT (netRecvAll sock len).ret = len) :
    sock.bytes = (netRecvAll sock len).data ++ (netRecvAll sock len).sock.bytes ∧
      (netRecvAll sock len).data.length = len := by
  unfold netRecvAll at h ⊢
  split at h
  · rename_i hle
    simp only [if_pos hle, List.take_append_drop, List.length_take, true_and]
    omega
  · split at h
    · simp only [sizeT] at h
      omega
    · simp only [sizeT] at h
      omega

theorem netRecvAll_le (sock : Sock) (len : Nat) : (netRecvAll sock len).data.length ≤ len := by
  unfold netRecvAll
  split
  · simp
  · split
    · simp
    · simp only; omega

/-- A read falls short only where the stream does. -/
theorem netRecvAll_short {sock : Sock} {len : Nat} (hl : len < 2 ^ 32)
    (h : sizeT (netRecvAll sock len).ret ≠ len) : sock.bytes.length < len := by
  by_contra hle
  apply h
  simp only [netRecvAll, if_pos (Nat.le_of_not_lt hle)]
  exact sizeT_natCast len (by omega)

/-! ## The header loop of `read_frame` -/

def noPts : UInt64 := 0xffffffffffffffff
def headerSize : Nat := 12
def maxConfig : Nat := 1024
def maxPacket : Nat := 1024 * 1024 * 16

/-- What the header loop hands on: the config read so far, and the length and
timestamp of the data block that follows. -/
structure Request where
  config : List UInt8
  len : Nat
  pts : UInt64
  deriving DecidableEq

/-- `read_frame` from `AGAIN` to `pull_empty_packet`; `config` is what `config`
and `config_len` hold. Also returns `*has_config` and the socket. -/
def readHeaders (config : List UInt8) (hasConfig : Bool) (sock : Sock) :
    Option Request × Bool × Sock :=
  let r := netRecvAll sock headerSize
  if sizeT r.ret ≠ headerSize then (none, hasConfig, r.sock)
  else
    let pts := bufferRead64be r.data
    let len := (bufferRead32be (r.data.drop 8)).toNat
    if len = noPts.toNat then (none, hasConfig, r.sock)
    else if len = 0 ∨ len > maxPacket then (none, hasConfig, r.sock)
    else if pts = noPts then
      if config.length ≠ 0 then (none, hasConfig, r.sock)
      else if len > maxConfig then (none, hasConfig, r.sock)
      else
        let c := netRecvAll r.sock len
        if sizeT c.ret ≠ len then (none, hasConfig, c.sock)
        -- goto AGAIN
        else readHeaders c.data true c.sock
    else (some ⟨config, len, pts⟩, hasConfig, r.sock)
termination_by if config.length = 0 then 1 else 0
decreasing_by
  have hd := (netRecvAll_full (UInt32.toNat_lt _) (not_not.mp ‹¬sizeT c.ret ≠ len›)).2
  simp only [c, r, len] at *
  rw [hd, if_neg (by omega), if_pos (by omega)]
  omega

end DroidcamWhip
