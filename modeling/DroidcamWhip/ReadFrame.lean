import DroidcamWhip.Wire

/-!
`read_frame` on a decoder's pool, and its framing theorem: a call returns a
packet exactly when the stream starts with one well-formed unit, which it
consumes to the last byte and no further.
-/

namespace DroidcamWhip

/-! ## `read_frame` -/

/-- `net_recv_all` into a packet's block; `recv` refuses a NULL pointer. -/
def recvBlock (p : DataPacket) (sock : Sock) (len : Nat) : Recv :=
  if p.data = [] then ⟨-1, [], { sock with reads := sock.reads + 1 }⟩
  else netRecvAll sock len

/-- How the payload read of `read_frame` ends: in full, short, or with a store
beyond the block. -/
inductive Filled where
  | done (d : Decoder) (sock : Sock)
  | short (d : Decoder) (sock : Sock)
  | crash

/-- `read_frame` after `pull_empty_packet` returned the packet at `a`. -/
def fill (d : Decoder) (a : Nat) (req : Request) (sock : Sock) : Filled :=
  let p := d.heap a
  if p.data.length < req.config.length then .crash
  else
    let r := recvBlock p sock req.len
    if p.data.length < req.config.length + r.data.length then .crash
    else
      let p := (p.write 0 req.config).write req.config.length r.data
      if sizeT r.ret ≠ req.len then .short (d.setPacket a p) r.sock
      else
        .done (d.setPacket a { p with pts := req.pts, used := req.config.length + req.len }) r.sock

inductive Outcome where
  | packet (a : Nat)
  | null
  | crash
  deriving DecidableEq

structure ReadResult where
  outcome : Outcome
  decoder : Decoder
  sock : Sock
  hasConfig : Bool

/-- `read_frame`, in a thread that is alone with the decoder. -/
def readFrame (alloc : Alloc) (d : Decoder) (sock : Sock) : ReadResult :=
  match readHeaders [] false sock with
  | (none, hasConfig, sock) => ⟨.null, d, sock, hasConfig⟩
  | (some req, hasConfig, sock) =>
      let pulled := d.pullEmptyPacket (req.config.length + req.len) alloc
      match fill pulled.2 pulled.1 req sock with
      | .done d sock => ⟨.packet pulled.1, d, sock, hasConfig⟩
      | .short d sock => ⟨.null, d.pushEmptyPacket pulled.1, sock, hasConfig⟩
      | .crash => ⟨.crash, pulled.2, sock, hasConfig⟩

/-! ## Units of the stream -/

def encodeHeader (pts : UInt64) (len : Nat) : List UInt8 :=
  Bytes.be 8 pts.toNat ++ Bytes.be 4 len

/-- An optional config block, absent when `config` is empty, and the data block
behind it. -/
structure FrameUnit where
  config : List UInt8
  pts : UInt64
  payload : List UInt8
  config_le : config.length ≤ maxConfig
  pts_ne : pts ≠ noPts
  payload_pos : 0 < payload.length
  payload_le : payload.length ≤ maxPacket

/-- Header bytes in front of a payload. -/
def encodeHeads (req : Request) : List UInt8 :=
  (if req.config = [] then [] else encodeHeader noPts req.config.length ++ req.config) ++
    encodeHeader req.pts req.len

namespace FrameUnit

def request (u : FrameUnit) : Request := ⟨u.config, u.payload.length, u.pts⟩

def encode (u : FrameUnit) : List UInt8 := encodeHeads u.request ++ u.payload

end FrameUnit

/-- What the header loop lets through. -/
structure Request.Valid (req : Request) : Prop where
  config_le : req.config.length ≤ maxConfig
  pts_ne : req.pts ≠ noPts
  len_pos : 0 < req.len
  len_le : req.len ≤ maxPacket

theorem encodeHeader_length (pts : UInt64) (len : Nat) :
    (encodeHeader pts len).length = headerSize := by
  simp [encodeHeader, headerSize]

theorem encodeHeader_read (pts : UInt64) (len : Nat) (h : len < 2 ^ 32) :
    bufferRead64be (encodeHeader pts len) = pts ∧
      (bufferRead32be ((encodeHeader pts len).drop 8)).toNat = len := by
  constructor
  · apply UInt64.toNat_inj.mp
    rw [bufferRead64be_toNat _ (by simp [encodeHeader])]
    rw [encodeHeader, List.take_left' (Bytes.be_length ..), Bytes.value_be]
    exact Nat.mod_eq_of_lt pts.toNat_lt
  · rw [bufferRead32be_toNat _ (by simp [encodeHeader])]
    rw [encodeHeader, List.drop_left' (Bytes.be_length ..),
      List.take_of_length_le (by simp), Bytes.value_be]
    exact Nat.mod_eq_of_lt h

/-- Any twelve bytes are the header of what is read from them. -/
theorem encodeHeader_spells (h : List UInt8) (hl : h.length = headerSize) :
    encodeHeader (bufferRead64be h) (bufferRead32be (h.drop 8)).toNat = h := by
  simp only [headerSize] at hl
  rw [encodeHeader, bufferRead64be_toNat _ (by omega), bufferRead32be_toNat _ (by simp; omega)]
  have h4 : (h.drop 8).take 4 = h.drop 8 := List.take_of_length_le (by simp; omega)
  have e8 := Bytes.be_value (h.take 8)
  have e4 := Bytes.be_value (h.drop 8)
  rw [show (h.take 8).length = 8 by simp; omega] at e8
  rw [show (h.drop 8).length = 4 by simp; omega] at e4
  rw [h4, e8, e4, List.take_append_drop]

/-! ## The header loop -/

theorem readHeaders_data (req : Request) (hv : req.Valid) (hasConfig : Bool)
    (rest : List UInt8) (lost : Bool) (reads : Nat) :
    readHeaders req.config hasConfig ⟨encodeHeader req.pts req.len ++ rest, lost, reads⟩ =
      (some req, hasConfig, ⟨rest, lost, reads + 1⟩) := by
  obtain ⟨_, hp, hl, hle⟩ := hv
  simp only [maxPacket] at hle
  have hr := netRecvAll_append (encodeHeader req.pts req.len) rest lost reads
  rw [encodeHeader_length] at hr
  obtain ⟨h64, h32⟩ := encodeHeader_read req.pts req.len (by omega)
  rw [readHeaders]
  simp only [hr, h64, h32, hp, ↓reduceIte, sizeT_natCast headerSize (by decide), ne_eq,
    not_true_eq_false]
  rw [if_neg (by simp [noPts]; omega), if_neg (by simp only [maxPacket]; omega)]

theorem readHeaders_config (config rest : List UInt8) (h0 : config ≠ [])
    (hle : config.length ≤ maxConfig) (hasConfig lost : Bool) (reads : Nat) :
    readHeaders [] hasConfig
        ⟨encodeHeader noPts config.length ++ (config ++ rest), lost, reads⟩ =
      readHeaders config true ⟨rest, lost, reads + 2⟩ := by
  have hpos := List.length_pos_iff.mpr h0
  have hle' : config.length ≤ 1024 := hle
  have hr := netRecvAll_append (encodeHeader noPts config.length) (config ++ rest) lost reads
  rw [encodeHeader_length] at hr
  obtain ⟨h64, h32⟩ := encodeHeader_read noPts config.length (by omega)
  rw [readHeaders]
  simp only [hr, h64, h32, ↓reduceIte, sizeT_natCast headerSize (by decide), ne_eq,
    not_true_eq_false, netRecvAll_append, List.length_nil]
  rw [if_neg (by simp [noPts]; omega), if_neg (by simp only [maxPacket]; omega),
    if_neg (by omega), if_neg (by rw [sizeT_natCast _ (by omega)]; simp)]

/-- **Completeness of the header loop.** -/
theorem readHeaders_heads (req : Request) (hv : req.Valid) (rest : List UInt8) (lost : Bool)
    (reads : Nat) :
    ∃ n, (readHeaders [] false ⟨encodeHeads req ++ rest, lost, reads⟩) =
      (some req, decide (req.config ≠ []), ⟨rest, lost, n⟩) := by
  by_cases hc : req.config = []
  · refine ⟨reads + 1, ?_⟩
    have hd := readHeaders_data req hv false rest lost reads
    rw [hc] at hd
    simpa [encodeHeads, hc] using hd
  · refine ⟨reads + 2 + 1, ?_⟩
    simp only [encodeHeads, if_neg hc, List.append_assoc]
    rw [readHeaders_config req.config _ hc hv.config_le, readHeaders_data req hv]
    simp [hc]

/-- What the header loop has consumed when it asks for a packet, entered with
`config` already read. -/
def Headed (config : List UInt8) (req : Request) (before after : List UInt8) : Prop :=
  (req.config = config ∧ before = encodeHeader req.pts req.len ++ after) ∨
    (config = [] ∧ req.config ≠ [] ∧ before = encodeHeads req ++ after)

/-- One header read in full is the header it is read as. -/
theorem header_consumed {sock : Sock}
    (h : sizeT (netRecvAll sock headerSize).ret = headerSize) :
    sock.bytes = encodeHeader (bufferRead64be (netRecvAll sock headerSize).data)
      (bufferRead32be ((netRecvAll sock headerSize).data.drop 8)).toNat ++
      (netRecvAll sock headerSize).sock.bytes := by
  obtain ⟨hb, hl⟩ := netRecvAll_full (by decide) h
  rw [encodeHeader_spells _ hl]
  exact hb

/-- **Soundness of the header loop.** It reads at most three times, once behind
a config block, and hands on only what it consumed in full. -/
theorem readHeaders_sound (config : List UInt8) (hasConfig : Bool) (sock : Sock)
    (hcfg : config.length ≤ maxConfig) :
    (readHeaders config hasConfig sock).2.2.reads ≤
        sock.reads + (if config.length = 0 then 3 else 1) ∧
      ∀ req, (readHeaders config hasConfig sock).1 = some req → req.Valid ∧
        Headed config req sock.bytes (readHeaders config hasConfig sock).2.2.bytes := by
  fun_induction readHeaders config hasConfig sock with
  | case1 config hasConfig sock r _ | case2 config hasConfig sock r _ _ _
  | case3 config hasConfig sock r _ _ _ _ | case4 config hasConfig sock r _ _ _ _ _ _ _
  | case5 config hasConfig sock r _ _ _ _ _ _ _ _ =>
    have hr : r.sock.reads = sock.reads + 1 := netRecvAll_reads ..
    refine ⟨?_, fun req h => nomatch h⟩
    simp only [hr]
    split <;> omega
  | case6 config hasConfig sock r _ _ _ _ _ _ hc _ c _ =>
    have hr : r.sock.reads = sock.reads + 1 := netRecvAll_reads ..
    have hcr : c.sock.reads = r.sock.reads + 1 := netRecvAll_reads ..
    refine ⟨?_, fun req h => nomatch h⟩
    simp only [hcr, hr]
    rw [if_pos (by omega)]
    omega
  | case7 config hasConfig sock r hr pts len _ hb hp hc hm c hcc ih =>
    -- a config block: the second pass has its bytes, so it cannot take another one
    have hcr : c.sock.reads = r.sock.reads + 1 := netRecvAll_reads ..
    have hrr : r.sock.reads = sock.reads + 1 := netRecvAll_reads ..
    obtain ⟨hbytes, hlen⟩ := netRecvAll_full (UInt32.toNat_lt _) (not_not.mp hcc)
    have hcl : c.data.length = len := hlen
    have hne : c.data ≠ [] := List.length_pos_iff.mp (by omega)
    obtain ⟨hreads, hreq⟩ := ih (by omega)
    constructor
    · rw [if_neg (by omega)] at hreads
      rw [if_pos (by omega)]
      omega
    · intro req h
      obtain ⟨hv, ⟨hcfg', hafter⟩ | ⟨hnil, _⟩⟩ := hreq req h
      · have hhead := header_consumed (not_not.mp hr)
        refine ⟨hv, .inr ⟨List.length_eq_zero_iff.mp (by omega), hcfg' ▸ hne, ?_⟩⟩
        have hs : sock.bytes = encodeHeader pts len ++ (c.data ++ c.sock.bytes) := by
          rw [← hbytes]
          exact hhead
        rw [hs, hafter, encodeHeads, hcfg', if_neg hne, hcl, hp]
        simp only [List.append_assoc]
      · exact absurd hnil hne
  | case8 config hasConfig sock r hr pts len _ hb hp =>
    have hrr : r.sock.reads = sock.reads + 1 := netRecvAll_reads ..
    refine ⟨by simp only [hrr]; split <;> omega, ?_⟩
    rintro req ⟨⟩
    have hpos : 0 < len := Nat.pos_of_ne_zero fun h => hb (.inl h)
    have hle : len ≤ maxPacket := Nat.le_of_not_lt fun h => hb (.inr h)
    exact ⟨⟨hcfg, hp, hpos, hle⟩, .inl ⟨rfl, header_consumed (not_not.mp hr)⟩⟩

/-! ## The payload -/

/-- The bytes, length and timestamp that a packet carries. -/
structure Frame where
  bytes : List UInt8
  used : Nat
  pts : UInt64
  deriving DecidableEq

def DataPacket.frame (p : DataPacket) : Frame := ⟨p.bytes, p.used, p.pts⟩

def FrameUnit.frame (u : FrameUnit) : Frame :=
  ⟨u.config ++ u.payload, u.config.length + u.payload.length, u.pts⟩

/-- A pulled packet has room for what was asked, unless `brealloc` failed. -/
theorem pullEmptyPacket_room (d : Decoder) (n : Nat) (g : Nat → UInt8) :
    n ≤ ((d.pullEmptyPacket n (some g)).2.heap (d.pullEmptyPacket n (some g)).1).data.length := by
  unfold Decoder.pullEmptyPacket
  cases d.recieveQueue with
  | nil => simp [Decoder.newPacket, DataPacket.new_length]
  | cons a q => simp [Decoder.reusePacket, DataPacket.resize_length]

theorem bytes_of_writes (p : DataPacket) (config payload : List UInt8)
    (h : config.length + payload.length ≤ p.data.length) :
    ((p.write 0 config).write config.length payload).data.take
      (config.length + payload.length) = config ++ payload := by
  have h₀ : Bytes.overwrite p.data 0 config = config ++ p.data.drop config.length :=
    Bytes.overwrite_zero _ _ (by omega)
  have h₁ : Bytes.overwrite (Bytes.overwrite p.data 0 config) config.length payload =
      config ++ payload ++ (p.data.drop config.length).drop payload.length := by
    rw [Bytes.overwrite_eq _ _ _ (by simpa using h), h₀, List.take_left, ← List.drop_drop,
      List.drop_left]
  simp only [DataPacket.write, h₁]
  exact List.take_left' (by simp)

theorem fill_spec (d : Decoder) (a : Nat) (req : Request) (sock : Sock) (hv : req.Valid)
    (hroom : req.config.length + req.len ≤ (d.heap a).data.length) :
    (∃ d' sock' payload, fill d a req sock = .done d' sock' ∧
        sock'.reads = sock.reads + 1 ∧ sock.bytes = payload ++ sock'.bytes ∧
        payload.length = req.len ∧
        (d'.heap a).frame = ⟨req.config ++ payload, req.config.length + req.len, req.pts⟩) ∨
      (∃ d' sock', fill d a req sock = .short d' sock' ∧
        sock'.reads = sock.reads + 1 ∧ sock.bytes.length < req.len) := by
  have hlt : req.len < 2 ^ 32 := by
    have := hv.len_le
    simp only [maxPacket] at this
    omega
  have hpos := hv.len_pos
  have hblock : recvBlock (d.heap a) sock req.len = netRecvAll sock req.len := by
    unfold recvBlock
    rw [if_neg]
    intro hnil
    simp [hnil] at hroom
    omega
  have hle := netRecvAll_le sock req.len
  simp only [fill, hblock]
  rw [if_neg (by omega), if_neg (by omega)]
  by_cases hs : sizeT (netRecvAll sock req.len).ret = req.len
  · left
    obtain ⟨hbytes, hlen⟩ := netRecvAll_full hlt hs
    rw [if_neg (not_not.mpr hs)]
    refine ⟨_, _, _, rfl, netRecvAll_reads .., hbytes, hlen, ?_⟩
    have hb := bytes_of_writes (d.heap a) req.config (netRecvAll sock req.len).data (by omega)
    simp only [Decoder.setPacket, Function.update_self, DataPacket.frame, DataPacket.bytes,
      ← hb, hlen]
  · right
    rw [if_pos hs]
    exact ⟨_, _, rfl, netRecvAll_reads .., netRecvAll_short hlt hs⟩

/-! ## Framing -/

theorem FrameUnit.request_valid (u : FrameUnit) : u.request.Valid :=
  ⟨u.config_le, u.pts_ne, u.payload_pos, u.payload_le⟩

/-- The unit that a valid request and its payload make up. -/
def Request.unit (req : Request) (hv : req.Valid) (payload : List UInt8)
    (h : payload.length = req.len) : FrameUnit :=
  ⟨req.config, req.pts, payload, hv.config_le, hv.pts_ne, h ▸ hv.len_pos, h ▸ hv.len_le⟩

/-- The packet that a call returns, as it leaves it in the decoder's heap. -/
def ReadResult.frame (r : ReadResult) : Option Frame :=
  match r.outcome with
  | .packet a => some (r.decoder.heap a).frame
  | _ => none

/-- **Completeness of one call.** -/
theorem readFrame_unit (u : FrameUnit) (g : Nat → UInt8) (d : Decoder) (sock : Sock)
    (rest : List UInt8) (hb : sock.bytes = u.encode ++ rest) :
    (readFrame (some g) d sock).frame = some u.frame ∧
      (readFrame (some g) d sock).sock.bytes = rest := by
  obtain ⟨bytes, lost, reads⟩ := sock
  simp only [FrameUnit.encode, List.append_assoc] at hb
  obtain ⟨n, hr⟩ := readHeaders_heads u.request u.request_valid (u.payload ++ rest) lost reads
  have hroom := pullEmptyPacket_room d (u.request.config.length + u.request.len) g
  rcases fill_spec _ _ u.request ⟨u.payload ++ rest, lost, n⟩ u.request_valid hroom with
    ⟨d', sock', payload, hf, _, hbytes, hlen, hframe⟩ | ⟨_, _, _, _, hshort⟩
  · obtain ⟨hp, hrest⟩ := List.append_inj hbytes hlen.symm
    simp only [readFrame, hb, hr, hf, ReadResult.frame, hframe]
    exact ⟨by simp [FrameUnit.frame, FrameUnit.request, hp], hrest.symm⟩
  · simp only [FrameUnit.request, List.length_append] at hshort
    omega

/-- **Soundness of one call.** -/
theorem readFrame_sound (g : Nat → UInt8) (d : Decoder) (sock : Sock) :
    (readFrame (some g) d sock).sock.reads ≤ sock.reads + 4 ∧
      ((∃ (u : FrameUnit) (a : Nat), (readFrame (some g) d sock).outcome = .packet a ∧
          ((readFrame (some g) d sock).decoder.heap a).frame = u.frame ∧
          sock.bytes = u.encode ++ (readFrame (some g) d sock).sock.bytes) ∨
        (readFrame (some g) d sock).outcome = .null) := by
  obtain ⟨hreads, hreq⟩ := readHeaders_sound [] false sock (by simp)
  rw [if_pos List.length_nil] at hreads
  rcases hr : readHeaders [] false sock with ⟨_ | req, hasConfig, sock₁⟩
  · rw [hr] at hreads
    simp only [readFrame, hr]
    exact ⟨by simp only at hreads; omega, .inr trivial⟩
  · rw [hr] at hreads hreq
    obtain ⟨hv, hhead⟩ := hreq req rfl
    have hbytes : sock.bytes = encodeHeads req ++ sock₁.bytes := by
      rcases hhead with ⟨hc, hb⟩ | ⟨_, _, hb⟩
      · simp only [encodeHeads, hc, ↓reduceIte, List.nil_append]
        exact hb
      · exact hb
    have hroom := pullEmptyPacket_room d (req.config.length + req.len) g
    simp only at hreads
    rcases fill_spec _ _ req sock₁ hv hroom with
      ⟨d', sock₂, payload, hf, hrd, hb₁, hlen, hframe⟩ | ⟨d', sock₂, hf, hrd, _⟩
    · simp only [readFrame, hr, hf]
      refine ⟨by omega, .inl ⟨req.unit hv payload hlen, _, rfl, ?_, ?_⟩⟩
      · rw [hframe]
        simp [FrameUnit.frame, Request.unit, hlen]
      · rw [hbytes, hb₁]
        simp [FrameUnit.encode, FrameUnit.request, Request.unit, hlen]
    · simp only [readFrame, hr, hf]
      exact ⟨by omega, .inr trivial⟩

/-- Consecutive calls on one connection, each on the pool it then finds. After
each call, the packet it returned and the bytes it left. -/
def readFrames : List (Decoder × Alloc) → Sock → List (Option Frame × List UInt8)
  | [], _ => []
  | (d, alloc) :: calls, sock =>
      let r := readFrame alloc d sock
      (r.frame, r.sock.bytes) :: readFrames calls r.sock

/-- What the calls are to return on a sequence of units. -/
def framings : List FrameUnit → List UInt8 → List (Option Frame × List UInt8)
  | [], _ => []
  | u :: us, rest => (some u.frame, us.flatMap FrameUnit.encode ++ rest) :: framings us rest

theorem readFrames_units (calls : List (FrameUnit × Decoder × (Nat → UInt8)))
    (rest : List UInt8) (sock : Sock)
    (hb : sock.bytes = (calls.map (·.1)).flatMap FrameUnit.encode ++ rest) :
    readFrames (calls.map fun c => (c.2.1, some c.2.2)) sock =
      framings (calls.map (·.1)) rest := by
  induction calls generalizing sock with
  | nil => rfl
  | cons c calls ih =>
    obtain ⟨u, d, g⟩ := c
    simp only [List.map_cons, List.flatMap_cons, List.append_assoc] at hb
    obtain ⟨hframe, hrest⟩ := readFrame_unit u g d sock _ hb
    simp only [List.map_cons, readFrames, framings, hframe, hrest, ih _ hrest]

/-- **Framing is exact in both directions**, whatever the pool holds, as long as
`brealloc` returns memory. -/
theorem readFrame_exact :
    (∀ (calls : List (FrameUnit × Decoder × (Nat → UInt8))) (rest : List UInt8)
        (lost : Bool) (reads : Nat),
      readFrames (calls.map fun c => (c.2.1, some c.2.2))
          ⟨(calls.map (·.1)).flatMap FrameUnit.encode ++ rest, lost, reads⟩ =
        framings (calls.map (·.1)) rest) ∧
    (∀ (g : Nat → UInt8) (d : Decoder) (sock : Sock),
      (readFrame (some g) d sock).sock.reads ≤ sock.reads + 4 ∧
      ((∃ (u : FrameUnit) (a : Nat), (readFrame (some g) d sock).outcome = .packet a ∧
          ((readFrame (some g) d sock).decoder.heap a).frame = u.frame ∧
          sock.bytes = u.encode ++ (readFrame (some g) d sock).sock.bytes) ∨
        ((readFrame (some g) d sock).outcome = .null ∧
          ∀ (u : FrameUnit) (rest : List UInt8), sock.bytes ≠ u.encode ++ rest))) := by
  refine ⟨fun calls rest lost reads => readFrames_units calls rest _ rfl, fun g d sock => ?_⟩
  obtain ⟨hreads, hout⟩ := readFrame_sound g d sock
  refine ⟨hreads, hout.imp_right fun hnull => ⟨hnull, fun u rest hb => ?_⟩⟩
  have hframe := (readFrame_unit u g d sock rest hb).1
  simp [ReadResult.frame, hnull] at hframe

end DroidcamWhip
