import DroidcamWhip.Proxy

/-!
What the proxy promises: bytes reach the other side in order and complete, and a
connection is closed only when one of its sides is over.
-/

namespace DroidcamWhip

/-! ## Connections -/

namespace Endpoint

/-- A `send` has failed, and not for want of room. -/
def Broken (e : Endpoint) : Prop := ∃ errno, e.failed = some errno ∧ ¬ SendFull errno

/-- A `recv` has returned 0 or less, or a `send` has failed for good. -/
def Over (e : Endpoint) : Prop := e.ended = true ∨ e.Broken

/-- What `dst` has accepted is what was read from `src` except for the bytes
`pending`; if `dst` is broken, it is the beginning of it. -/
def Relays (src dst : Endpoint) (pending : List UInt8) : Prop :=
  (¬ dst.Broken → src.read = dst.accepted ++ pending) ∧ dst.accepted <+: src.read

/-- As long as `dst` is not known to have failed, all bytes are accounted for. -/
def Flow (src dst : Endpoint) (pending : List UInt8) (failing : Bool) : Prop :=
  Pipe.Intact src.read dst.accepted pending ∧ dst.failed = none ∨
    failing = true ∧ pending = [] ∧ dst.Broken ∧ dst.accepted <+: src.read

end Endpoint

namespace Endpoint.Flow

variable {src dst src' dst' : Endpoint} {pending : List UInt8} {failing : Bool}

theorem relays (h : Flow src dst pending failing) : src.Relays dst pending := by
  rcases h with ⟨hintact, _⟩ | ⟨_, _, hbroken, hprefix⟩
  · exact ⟨fun _ => hintact.eq, hintact.isPrefix⟩
  · exact ⟨fun hnot => absurd hbroken hnot, hprefix⟩

theorem intact (h : Flow src dst pending false) :
    Pipe.Intact src.read dst.accepted pending ∧ dst.failed = none :=
  h.resolve_right fun hfailing => Bool.false_ne_true hfailing.1

theorem mono (h : Flow src dst pending failing) {failing' : Bool}
    (hle : failing = true → failing' = true) : Flow src dst pending failing' :=
  h.imp_right fun ⟨hfailing, hrest⟩ => ⟨hle hfailing, hrest⟩

/-- Only what was read from `src` and what `dst` did with it matter. -/
theorem congr (h : Flow src dst pending failing) (hread : src'.read = src.read)
    (haccepted : dst'.accepted = dst.accepted) (hfailed : dst'.failed = dst.failed) :
    Flow src' dst' pending failing := by
  unfold Flow Broken at h ⊢
  rwa [hread, haccepted, hfailed]

end Endpoint.Flow

/-! ## The state of the thread -/

namespace ProxyPc

/-- The position of the iterator. -/
def index : ProxyPc → Option Nat
  | look i _ _ => some i
  | send i _ _ _ _ => some i
  | finish i _ => some i
  | _ => none

/-- The connection that is going to be closed. -/
def erring : ProxyPc → Option Nat
  | look i _ true => some i
  | send i _ _ _ true => some i
  | finish i true => some i
  | _ => none

/-- A `send` of this direction may have failed. -/
def failing (j : Nat) (dir : Direction) : ProxyPc → Bool
  | look i .toClient err => i = j ∧ dir = .toRemote ∧ err
  | send i .toClient _ _ err => i = j ∧ dir = .toRemote ∧ err
  | finish i err => i = j ∧ err
  | _ => false

/-- A turn begins without an error. -/
def Sound : ProxyPc → Prop
  | look _ .toRemote err => err = false
  | send _ .toRemote _ _ err => err = false
  | _ => True

/-- The bytes of a direction that `net_send_all` still has to send. -/
def inFlight (buffer : List UInt8) (j : Nat) (dir : Direction) : ProxyPc → List UInt8
  | send i d off len _ => if i = j ∧ d = dir then Pipe.window buffer off len else []
  | _ => []

variable {pc : ProxyPc} {i j : Nat} {dir : Direction}

theorem failing_eq_false (h : pc.index ≠ some j) : pc.failing j dir = false := by
  cases pc with
  | look i d err =>
    cases d with
    | toRemote => rfl
    | toClient => exact decide_eq_false fun hp => h (congrArg some hp.1)
  | send i d off len err =>
    cases d with
    | toRemote => rfl
    | toClient => exact decide_eq_false fun hp => h (congrArg some hp.1)
  | finish i err => exact decide_eq_false fun hp => h (congrArg some hp.1)
  | top => rfl
  | connecting => rfl
  | waiting => rfl
  | ending => rfl
  | finished => rfl

theorem inFlight_eq_nil {buffer : List UInt8} (h : pc.index ≠ some j) :
    pc.inFlight buffer j dir = [] := by
  cases pc with
  | send i d off len err => exact if_neg fun hp => h (congrArg some hp.1)
  | _ => rfl

theorem erring_index (h : pc.erring = some i) : pc.index = some i := by
  cases pc with
  | look i d err =>
    cases err with
    | true => exact h
    | false => cases h
  | send i d off len err =>
    cases err with
    | true => exact h
    | false => cases h
  | finish i err =>
    cases err with
    | true => exact h
    | false => cases h
  | _ => cases h

end ProxyPc

/-- The bytes read in a direction of the `j`-th connection that have not been sent. -/
def Proxy.inFlight (s : Proxy) (j : Nat) (dir : Direction) : List UInt8 :=
  s.pc.inFlight s.buffer j dir

/-- Every connection relays faithfully in both directions, those that are open and
those that have been closed; one closed in the loop is over. -/
structure Proxy.Faithful (s : Proxy) : Prop where
  live : ∀ j c, s.list[j]? = some c → ∀ dir, ∃ src dst, s.files (c.src dir) = some src ∧
    s.files (c.dst dir) = some dst ∧ src.Relays dst (s.inFlight j dir)
  down : ∀ d ∈ s.down, d.client.Relays d.remote [] ∧ d.remote.Relays d.client [] ∧
    (d.client.Over ∨ d.remote.Over)
  left : ∀ d ∈ s.left, d.client.Relays d.remote [] ∧ d.remote.Relays d.client []
  stopped : s.left ≠ [] → s.pc = .ending ∨ s.pc = .finished

/-! ## The invariant -/

/-- Different connections have different sockets. -/
def ProxyConn.Apart (c c' : ProxyConn) : Prop := ∀ dir dir', c.src dir ≠ c'.src dir'

/-- Both directions of a connection, in a table of open sockets. -/
def Coupled (files : Nat → Option Endpoint) (c : ProxyConn) (pending : Direction → List UInt8)
    (failing : Direction → Bool) : Prop :=
  ∀ dir, ∃ src dst, files (c.src dir) = some src ∧ files (c.dst dir) = some dst ∧
    Endpoint.Flow src dst (pending dir) (failing dir)

/-- One of the sides of a connection is over. -/
def OverAt (files : Nat → Option Endpoint) (c : ProxyConn) : Prop :=
  ∃ dir e, files (c.src dir) = some e ∧ e.Over

structure RelayInv (s : Proxy) : Prop where
  apart : s.list.Pairwise ProxyConn.Apart
  inner : ∀ c ∈ s.list, c.client ≠ c.remote
  flow : ∀ j c, s.list[j]? = some c →
    Coupled s.files c (fun dir => s.inFlight j dir) (fun dir => s.pc.failing j dir)
  closing : ∀ i c, s.pc.erring = some i → s.list[i]? = some c → OverAt s.files c
  sound : s.pc.Sound
  connecting : ∀ client, s.pc = .connecting client →
    (∃ nonblock, s.files client = some (.new nonblock)) ∧
      ∀ c ∈ s.list, ∀ dir, c.src dir ≠ client
  down : ∀ d ∈ s.down, d.client.Relays d.remote [] ∧ d.remote.Relays d.client [] ∧
    (d.client.Over ∨ d.remote.Over)
  left : ∀ d ∈ s.left, d.client.Relays d.remote [] ∧ d.remote.Relays d.client []
  stopped : s.left ≠ [] → s.pc = .ending ∨ s.pc = .finished

theorem RelayInv.faithful {s : Proxy} (h : RelayInv s) : s.Faithful := by
  refine ⟨fun j c hc dir => ?_, h.down, h.left, h.stopped⟩
  obtain ⟨src, dst, hsrc, hdst, hflow⟩ := h.flow j c hc dir
  exact ⟨src, dst, hsrc, hdst, hflow.relays⟩

/-! ## Sockets of other connections -/

theorem ProxyConn.dst_eq (c : ProxyConn) (dir : Direction) : c.dst dir = c.src dir.other := rfl

theorem Direction.other_other (dir : Direction) : dir.other.other = dir := by
  cases dir <;> rfl

theorem Direction.eq_or_other (dir d : Direction) : d = dir ∨ d = dir.other := by
  cases dir <;> cases d <;> first | exact .inl rfl | exact .inr rfl

theorem Coupled.congr {files files' : Nat → Option Endpoint} {c : ProxyConn}
    {pending : Direction → List UInt8} {failing : Direction → Bool}
    (h : Coupled files c pending failing) (hfiles : ∀ dir, files' (c.src dir) = files (c.src dir)) :
    Coupled files' c pending failing := by
  intro dir
  obtain ⟨src, dst, hsrc, hdst, hflow⟩ := h dir
  exact ⟨src, dst, (hfiles dir).trans hsrc, (hfiles dir.other).trans hdst, hflow⟩

theorem Coupled.mono {files : Nat → Option Endpoint} {c : ProxyConn}
    {pending pending' : Direction → List UInt8} {failing failing' : Direction → Bool}
    (h : Coupled files c pending failing) (hpending : ∀ dir, pending' dir = pending dir)
    (hfailing : ∀ dir, failing dir = true → failing' dir = true) :
    Coupled files c pending' failing' := by
  intro dir
  obtain ⟨src, dst, hsrc, hdst, hflow⟩ := h dir
  rw [← hpending dir] at hflow
  exact ⟨src, dst, hsrc, hdst, hflow.mono (hfailing dir)⟩

namespace RelayInv

variable {s t : Proxy} {i j : Nat} {c c' : ProxyConn} {dir : Direction} {e e' : Endpoint}

theorem apart_of_ne (h : RelayInv s) (hc : s.list[i]? = some c) (hc' : s.list[j]? = some c')
    (hne : i ≠ j) (d d' : Direction) : c.src d ≠ c'.src d' := by
  obtain ⟨hi, rfl⟩ := List.getElem?_eq_some_iff.mp hc
  obtain ⟨hj, rfl⟩ := List.getElem?_eq_some_iff.mp hc'
  have hpair := List.pairwise_iff_getElem.mp h.apart
  rcases Nat.lt_or_gt_of_ne hne with hlt | hlt
  · exact hpair i j hi hj hlt d d'
  · exact (hpair j i hj hi hlt d' d).symm

theorem src_ne_dst (h : RelayInv s) (hc : s.list[i]? = some c) (dir : Direction) :
    c.src dir ≠ c.dst dir := by
  have hinner := h.inner c (List.mem_of_getElem? hc)
  cases dir with
  | toRemote => exact hinner
  | toClient => exact hinner.symm

theorem src_isSome (h : RelayInv s) (hc : c ∈ s.list) (dir : Direction) :
    (s.files (c.src dir)).isSome = true := by
  obtain ⟨j, hj⟩ := List.getElem?_of_mem hc
  obtain ⟨src, _, hsrc, _⟩ := h.flow j c hj dir
  rw [hsrc]
  rfl

/-! ## Steps that only move on -/

/-- A step that makes no call and closes nothing. -/
theorem setPc (h : RelayInv s) {pc : ProxyPc} (readFds : List Nat)
    (hpending : ∀ j dir, pc.inFlight s.buffer j dir = s.pc.inFlight s.buffer j dir)
    (hfailing : ∀ j c, s.list[j]? = some c → ∀ dir, s.pc.failing j dir = true →
      pc.failing j dir = true)
    (hover : ∀ i, pc.erring = some i → s.pc.erring = some i) (hsound : pc.Sound)
    (hconnecting : ∀ client, pc ≠ .connecting client)
    (hstopped : s.left ≠ [] → pc = .ending ∨ pc = .finished) :
    RelayInv { s with pc, readFds } where
  apart := h.apart
  inner := h.inner
  flow j c hc := (h.flow j c hc).mono (hpending j) (hfailing j c hc)
  closing i c hi := h.closing i c (hover i hi)
  sound := hsound
  connecting client hpc := absurd hpc (hconnecting client)
  down := h.down
  left := h.left
  stopped := hstopped

/-! ## Steps that change a socket of the connection in turn -/

theorem update (h : RelayInv s) (hc : s.list[i]? = some c) (he : s.files (c.src dir) = some e)
    (hs : s.pc.index = some i) (ht : t.pc.index = some i) (hlist : t.list = s.list)
    (hfiles : t.files = Function.update s.files (c.src dir) (some e')) (hdown : t.down = s.down)
    (hleft : t.left = s.left)
    (hflow : Coupled t.files c (fun dir => t.inFlight i dir) (fun dir => t.pc.failing i dir))
    (hover : t.pc.erring = some i → e'.Over ∨ s.pc.erring = some i ∧ (e.Over → e'.Over))
    (hsound : t.pc.Sound) : RelayInv t := by
  have hleft' : t.left = [] := by
    rw [hleft]
    by_contra hne
    rcases h.stopped hne with hpc | hpc <;> simp [hpc, ProxyPc.index] at hs
  refine ⟨hlist ▸ h.apart, hlist ▸ h.inner, fun j c' hc' => ?_, fun k c' hk hc' => ?_, hsound,
    fun client hpc => ?_, hdown ▸ h.down, hleft ▸ h.left, fun hne => absurd hleft' hne⟩
  · rw [hlist] at hc'
    by_cases hj : j = i
    · subst hj
      obtain rfl := Option.some.inj (hc.symm.trans hc')
      exact hflow
    · have hs' : s.pc.index ≠ some j := by
        rw [hs]
        exact fun heq => hj (Option.some.inj heq).symm
      have ht' : t.pc.index ≠ some j := by
        rw [ht]
        exact fun heq => hj (Option.some.inj heq).symm
      refine ((h.flow j c' hc').congr fun d => ?_).mono (fun d => ?_) fun d hd => ?_
      · rw [hfiles, Function.update_of_ne (h.apart_of_ne hc' hc hj d dir)]
      · exact (ProxyPc.inFlight_eq_nil ht').trans (ProxyPc.inFlight_eq_nil hs').symm
      · exact absurd (ProxyPc.failing_eq_false hs') (Bool.not_eq_false _ ▸ hd)
  · obtain rfl : k = i := Option.some.inj ((ProxyPc.erring_index hk).symm.trans ht)
    rw [hlist] at hc'
    obtain rfl := Option.some.inj (hc.symm.trans hc')
    rcases hover hk with hend | ⟨hk', hmono⟩
    · exact ⟨dir, e', by rw [hfiles, Function.update_self], hend⟩
    · obtain ⟨d, e₀, he₀, hend⟩ := h.closing k c hk' hc
      by_cases hd : c.src d = c.src dir
      · rw [hd, he] at he₀
        cases he₀
        exact ⟨dir, e', by rw [hfiles, Function.update_self], hmono hend⟩
      · exact ⟨d, e₀, by rw [hfiles, Function.update_of_ne hd, he₀], hend⟩
  · rw [hpc] at ht
    cases ht

end RelayInv

/-! ## The calls of a turn -/

section Next

variable {i j : Nat} {dir d : Direction} {err : Bool}

theorem next_index : (Proxy.next i dir err).index = some i := by
  cases dir <;> rfl

theorem next_sound : (Proxy.next i dir err).Sound := by
  cases dir <;> trivial

theorem next_inFlight {buffer : List UInt8} : (Proxy.next i dir err).inFlight buffer j d = [] := by
  cases dir <;> rfl

theorem next_erring (h : (Proxy.next i dir err).erring = some j) : err = true ∧ i = j := by
  cases dir <;> cases err <;> simp_all [Proxy.next, ProxyPc.erring]

/-- After a direction its `send` may have failed. -/
theorem next_failing_self : (Proxy.next i dir true).failing i dir = true := by
  cases dir <;> simp [Proxy.next, ProxyPc.failing]

theorem next_failing_look {err' : Bool} (h : (ProxyPc.look i dir err).failing j d = true)
    (hle : err = true → err' = true) : (Proxy.next i dir err').failing j d = true := by
  cases dir <;> simp_all [Proxy.next, ProxyPc.failing]

theorem next_failing_send {off len : Nat} {err' : Bool}
    (h : (ProxyPc.send i dir off len err).failing j d = true) (hle : err = true → err' = true) :
    (Proxy.next i dir err').failing j d = true := by
  cases dir <;> simp_all [Proxy.next, ProxyPc.failing]

theorem look_failing_self : (ProxyPc.look i dir err).failing i dir = false := by
  cases dir <;> simp [ProxyPc.failing]

theorem send_failing_self {off len : Nat} :
    (ProxyPc.send i dir off len err).failing i dir = false := by
  cases dir <;> simp [ProxyPc.failing]

theorem send_failing {off len : Nat} :
    (ProxyPc.send i dir off len err).failing j d = (ProxyPc.look i dir err).failing j d := by
  cases dir <;> rfl

theorem send_inFlight_self {buffer : List UInt8} {off len : Nat} :
    (ProxyPc.send i dir off len err).inFlight buffer i dir = Pipe.window buffer off len :=
  if_pos ⟨rfl, rfl⟩

/-- The other direction of the same connection has nothing in flight. -/
theorem send_inFlight_other {buffer : List UInt8} {off len : Nat} :
    (ProxyPc.send i dir off len err).inFlight buffer i dir.other = [] :=
  if_neg fun h => by cases dir <;> cases h.2

theorem send_sound {off len : Nat} :
    (ProxyPc.send i dir off len err).Sound ↔ (ProxyPc.look i dir err).Sound := by
  cases dir <;> exact Iff.rfl

theorem send_erring {off len : Nat} :
    (ProxyPc.send i dir off len err).erring = (ProxyPc.look i dir err).erring := by
  cases err <;> rfl

end Next

/-- Both directions of a connection from the side of one of them. -/
theorem Coupled.of_both {files : Nat → Option Endpoint} {c : ProxyConn} {dir : Direction}
    {src dst : Endpoint} {pending : Direction → List UInt8} {failing : Direction → Bool}
    (hsrc : files (c.src dir) = some src) (hdst : files (c.dst dir) = some dst)
    (hthis : Endpoint.Flow src dst (pending dir) (failing dir))
    (hother : Endpoint.Flow dst src (pending dir.other) (failing dir.other)) :
    Coupled files c pending failing := by
  intro d
  rcases dir.eq_or_other d with rfl | rfl
  · exact ⟨src, dst, hsrc, hdst, hthis⟩
  · refine ⟨dst, src, hdst, ?_, hother⟩
    rw [ProxyConn.dst_eq, Direction.other_other, hsrc]

namespace RelayInv

variable {s t : Proxy} {i : Nat} {c : ProxyConn} {dir : Direction} {e e' e₂ : Endpoint} {err : Bool}

theorem both (h : RelayInv s) (hc : s.list[i]? = some c) (dir : Direction) :
    ∃ src dst, s.files (c.src dir) = some src ∧ s.files (c.dst dir) = some dst ∧
      Endpoint.Flow src dst (s.inFlight i dir) (s.pc.failing i dir) ∧
      Endpoint.Flow dst src (s.inFlight i dir.other) (s.pc.failing i dir.other) := by
  obtain ⟨src, dst, hsrc, hdst, hthis⟩ := h.flow i c hc dir
  obtain ⟨dst', src', hdst', hsrc', hother⟩ := h.flow i c hc dir.other
  rw [ProxyConn.dst_eq, Direction.other_other, hsrc] at hsrc'
  rw [← ProxyConn.dst_eq, hdst] at hdst'
  cases hsrc'
  cases hdst'
  exact ⟨src, dst, hsrc, hdst, hthis, hother⟩

/-- A call on the socket `c.src dir` of the connection in turn. -/
theorem turn (h : RelayInv s) (hc : s.list[i]? = some c) (he : s.files (c.src dir) = some e)
    (he₂ : s.files (c.dst dir) = some e₂) (hs : s.pc.index = some i) (ht : t.pc.index = some i)
    (hlist : t.list = s.list)
    (hfiles : t.files = Function.update s.files (c.src dir) (some e')) (hdown : t.down = s.down)
    (hleft : t.left = s.left)
    (hthis : Endpoint.Flow e' e₂ (t.inFlight i dir) (t.pc.failing i dir))
    (hother : Endpoint.Flow e₂ e' (t.inFlight i dir.other) (t.pc.failing i dir.other))
    (hover : t.pc.erring = some i → e'.Over ∨ s.pc.erring = some i ∧ (e.Over → e'.Over))
    (hsound : t.pc.Sound) : RelayInv t := by
  refine h.update hc he hs ht hlist hfiles hdown hleft (Coupled.of_both ?_ ?_ hthis hother) hover
    hsound
  · rw [hfiles, Function.update_self]
  · rw [hfiles, Function.update_of_ne (h.src_ne_dst hc dir).symm, he₂]

theorem received (h : RelayInv s) (hpc : s.pc = .look i dir err) (hc : s.list[i]? = some c)
    (he : s.files (c.src dir) = some e) (d : List UInt8) :
    RelayInv (s.received i dir err (c.src dir) e d) := by
  obtain ⟨src, dst, hsrc, hdst, hthis, hother⟩ := h.both hc dir
  have hsound := h.sound
  rw [he] at hsrc
  cases hsrc
  simp only [Proxy.inFlight, hpc, look_failing_self] at hthis hother hsound
  refine h.turn hc he hdst (by rw [hpc]; rfl) rfl rfl rfl rfl rfl ?_ ?_
    (fun hover => .inr ⟨by rw [hpc]; exact send_erring.symm.trans hover, fun hend => hend⟩)
    (send_sound.mpr hsound)
  · rw [Proxy.inFlight, Proxy.received, send_inFlight_self, Pipe.window_fill]
    exact .inl ⟨hthis.intact.1.fill d, hthis.intact.2⟩
  · rw [Proxy.inFlight, Proxy.received, send_inFlight_other, send_failing]
    exact hother.congr rfl rfl rfl

theorem receivedEnd (h : RelayInv s) (hpc : s.pc = .look i dir err) (hc : s.list[i]? = some c)
    (he : s.files (c.src dir) = some e) : RelayInv (s.receivedEnd i dir (c.src dir) e) := by
  obtain ⟨src, dst, hsrc, hdst, hthis, hother⟩ := h.both hc dir
  rw [he] at hsrc
  cases hsrc
  simp only [Proxy.inFlight, hpc] at hthis hother
  refine h.turn hc he hdst (by rw [hpc]; rfl) next_index rfl rfl rfl rfl ?_ ?_
    (fun _ => .inl (.inl rfl)) next_sound
  · rw [Proxy.inFlight, Proxy.receivedEnd, next_inFlight]
    exact (hthis.congr rfl rfl rfl).mono fun hf => next_failing_look hf fun _ => rfl
  · rw [Proxy.inFlight, Proxy.receivedEnd, next_inFlight]
    exact (hother.congr rfl rfl rfl).mono fun hf => next_failing_look hf fun _ => rfl

theorem accepted (h : RelayInv s) {off len n : Nat} (hpc : s.pc = .send i dir off len err)
    (hn : n ≤ len) (hc : s.list[i]? = some c) (he : s.files (c.dst dir) = some e) :
    RelayInv (s.accepted i dir off len err (c.dst dir) e n) := by
  obtain ⟨src, dst, hsrc, hdst, hthis, hother⟩ := h.both hc dir
  have hsound := h.sound
  rw [he] at hdst
  cases hdst
  simp only [Proxy.inFlight, hpc, send_failing_self] at hthis hother hsound
  have hintact := hthis.intact
  rw [send_inFlight_self, ← Pipe.window_advance s.buffer off hn] at hintact
  have hforth : s.files (c.src dir.other) = some e := he
  have hback : s.files (c.dst dir.other) = some src := by
    rw [ProxyConn.dst_eq, Direction.other_other, hsrc]
  refine h.turn hc hforth hback (by rw [hpc]; rfl) rfl rfl rfl rfl rfl ?_ ?_
    (fun hover => .inr ⟨?_, fun hend => hend⟩) (send_sound.mpr (send_sound.mp hsound))
  · rw [Proxy.inFlight, Proxy.accepted, send_inFlight_other, send_failing]
    rw [send_inFlight_other, send_failing] at hother
    exact hother.congr rfl rfl rfl
  · rw [Direction.other_other, Proxy.inFlight, Proxy.accepted, send_inFlight_self]
    exact .inl ⟨hintact.1.pass, hintact.2⟩
  · rw [hpc]
    exact send_erring.trans (send_erring.symm.trans hover)

theorem sendFailed (h : RelayInv s) {off len : Nat} (hpc : s.pc = .send i dir off len err)
    (hc : s.list[i]? = some c) (he : s.files (c.dst dir) = some e) {errno : Int}
    (hfull : ¬ SendFull errno) : RelayInv (s.sendFailed i dir (c.dst dir) e errno) := by
  obtain ⟨src, dst, hsrc, hdst, hthis, hother⟩ := h.both hc dir
  rw [he] at hdst
  cases hdst
  simp only [Proxy.inFlight, hpc, send_failing_self] at hthis hother
  have hbroken : Endpoint.Broken { e with failed := some errno } := ⟨errno, rfl, hfull⟩
  have hforth : s.files (c.src dir.other) = some e := he
  have hback : s.files (c.dst dir.other) = some src := by
    rw [ProxyConn.dst_eq, Direction.other_other, hsrc]
  refine h.turn hc hforth hback (by rw [hpc]; rfl) next_index rfl rfl rfl rfl ?_ ?_
    (fun _ => .inl (.inr hbroken)) next_sound
  · rw [Proxy.inFlight, Proxy.sendFailed, next_inFlight]
    rw [send_inFlight_other] at hother
    exact (hother.congr rfl rfl rfl).mono fun hf => next_failing_send hf fun _ => rfl
  · rw [Direction.other_other, Proxy.inFlight, Proxy.sendFailed, next_inFlight]
    exact .inr ⟨next_failing_self, rfl, hbroken, hthis.intact.1.isPrefix⟩

end RelayInv

/-! ## Connections that come and go -/

/-- The thread is at a place where nothing is in flight and nothing has failed. -/
structure ProxyPc.Idle (pc : ProxyPc) : Prop where
  inFlight : ∀ buffer j dir, pc.inFlight buffer j dir = []
  failing : ∀ j dir, pc.failing j dir = false
  erring : pc.erring = none
  sound : pc.Sound

theorem ProxyPc.idle_of_index {pc : ProxyPc} (h : pc.index = none) : pc.Idle := by
  have hne : ∀ j, pc.index ≠ some j := fun j => by simp [h]
  refine ⟨fun _ j _ => inFlight_eq_nil (hne j), fun j _ => failing_eq_false (hne j), ?_, ?_⟩
  · by_contra herr
    obtain ⟨i, hi⟩ := Option.ne_none_iff_exists'.mp herr
    exact hne i (erring_index hi)
  · cases pc <;> trivial

theorem ProxyPc.idle_look (i : Nat) : (look i .toRemote false).Idle :=
  ⟨fun _ _ _ => rfl, fun _ _ => rfl, rfl, rfl⟩

/-- Everything that was read has been sent. -/
def Settled (files : Nat → Option Endpoint) (c : ProxyConn) : Prop :=
  Coupled files c (fun _ => []) fun _ => false

/-- Two sockets that are new. -/
theorem settled_new {files : Nat → Option Endpoint} {c : ProxyConn} {a b : Bool}
    (hclient : files c.client = some (.new a)) (hremote : files c.remote = some (.new b)) :
    Settled files c :=
  @Coupled.of_both files c .toRemote _ _ _ _ hclient hremote (.inl ⟨.nil, rfl⟩) (.inl ⟨.nil, rfl⟩)

theorem Settled.relays {files : Nat → Option Endpoint} {c : ProxyConn} (h : Settled files c) :
    ∃ client remote, files c.client = some client ∧ files c.remote = some remote ∧
      client.Relays remote [] ∧ remote.Relays client [] := by
  obtain ⟨client, remote, hclient, hremote, hthis⟩ := h .toRemote
  obtain ⟨remote', client', hremote', hclient', hother⟩ := h .toClient
  cases hremote.symm.trans hremote'
  cases hclient.symm.trans hclient'
  exact ⟨client, remote, hclient, hremote, hthis.relays, hother.relays⟩

namespace RelayInv

variable {s t : Proxy} {i j : Nat} {c : ProxyConn}

/-- Nothing is left over while the thread is in its loop. -/
theorem left_eq_nil (h : RelayInv s) (h₁ : s.pc ≠ .ending) (h₂ : s.pc ≠ .finished) :
    s.left = [] := by
  by_contra hne
  exact (h.stopped hne).elim h₁ h₂

theorem settled (h : RelayInv s) (hidle : s.pc.Idle) (hc : c ∈ s.list) : Settled s.files c := by
  obtain ⟨j, hj⟩ := List.getElem?_of_mem hc
  refine (h.flow j c hj).mono (fun dir => (hidle.inFlight ..).symm) fun dir hf => ?_
  rw [hidle.failing] at hf
  exact hf

theorem settled_of_ne (h : RelayInv s) (hi : s.pc.index = some i) (hj : s.list[j]? = some c)
    (hne : j ≠ i) : Settled s.files c := by
  have hindex : s.pc.index ≠ some j := by
    rw [hi]
    exact fun heq => hne (Option.some.inj heq).symm
  refine (h.flow j c hj).mono (fun dir => (ProxyPc.inFlight_eq_nil hindex).symm) fun dir hf => ?_
  rw [ProxyPc.failing_eq_false hindex] at hf
  exact hf

theorem of_idle (hidle : t.pc.Idle) (hapart : t.list.Pairwise ProxyConn.Apart)
    (hinner : ∀ c ∈ t.list, c.client ≠ c.remote) (hsettled : ∀ c ∈ t.list, Settled t.files c)
    (hconnecting : ∀ client, t.pc = .connecting client →
      (∃ nonblock, t.files client = some (.new nonblock)) ∧
        ∀ c ∈ t.list, ∀ dir, c.src dir ≠ client)
    (hdown : ∀ d ∈ t.down, d.client.Relays d.remote [] ∧ d.remote.Relays d.client [] ∧
      (d.client.Over ∨ d.remote.Over))
    (hleft : ∀ d ∈ t.left, d.client.Relays d.remote [] ∧ d.remote.Relays d.client [])
    (hstopped : t.left ≠ [] → t.pc = .ending ∨ t.pc = .finished) : RelayInv t where
  apart := hapart
  inner := hinner
  flow j c hc := by
    have hc' := hsettled c (List.mem_of_getElem? hc)
    refine hc'.mono (fun dir => hidle.inFlight ..) fun dir hf => ?_
    cases hf
  closing i c hi := by
    rw [hidle.erring] at hi
    cases hi
  sound := hidle.sound
  connecting := hconnecting
  down := hdown
  left := hleft
  stopped := hstopped

/-- The table changes at most where none of the connections is. -/
theorem reset (h : RelayInv s) (hs : s.pc.Idle) (ht : t.pc.Idle) (hlist : t.list = s.list)
    (hfiles : ∀ c ∈ s.list, ∀ dir, t.files (c.src dir) = s.files (c.src dir))
    (hdown : t.down = s.down) (hleft : t.left = s.left)
    (hconnecting : ∀ client, t.pc = .connecting client →
      (∃ nonblock, t.files client = some (.new nonblock)) ∧
        ∀ c ∈ s.list, ∀ dir, c.src dir ≠ client)
    (hstopped : s.left ≠ [] → t.pc = .ending ∨ t.pc = .finished) : RelayInv t := by
  refine of_idle ht ?_ ?_ ?_ ?_ ?_ ?_ ?_
  · rw [hlist]
    exact h.apart
  · rw [hlist]
    exact h.inner
  · rw [hlist]
    exact fun c hc => (h.settled hs hc).congr (hfiles c hc)
  · rw [hlist]
    exact hconnecting
  · rw [hdown]
    exact h.down
  · rw [hleft]
    exact h.left
  · rw [hleft]
    exact hstopped

/-- A descriptor that is not in use belongs to no connection. -/
theorem src_ne_of_none (h : RelayInv s) {fd : Nat} (hfd : s.files fd = none) (hc : c ∈ s.list)
    (dir : Direction) : c.src dir ≠ fd := by
  rintro rfl
  have hsome := h.src_isSome hc dir
  rw [hfd] at hsome
  cases hsome

theorem accept (h : RelayInv s) (hpc : s.pc = .top) {client : Nat} (hnew : s.files client = none)
    (nonblock : Bool) :
    RelayInv { s.setFile client (.new nonblock) with pc := .connecting client } := by
  have hidle : s.pc.Idle := by
    rw [hpc]
    exact ProxyPc.idle_of_index rfl
  refine h.reset hidle (ProxyPc.idle_of_index rfl) rfl (fun c hc dir => ?_) rfl rfl
    (fun client' hclient => ?_) fun hne => ?_
  · exact Function.update_of_ne (h.src_ne_of_none hnew hc dir) ..
  · cases hclient
    exact ⟨⟨nonblock, Function.update_self ..⟩, fun c hc dir => h.src_ne_of_none hnew hc dir⟩
  · exact absurd (h.left_eq_nil (by simp [hpc]) (by simp [hpc])) hne

theorem afterAccept_pc (s : Proxy) : s.afterAccept.pc = .top ∨ s.afterAccept.pc = .waiting := by
  unfold Proxy.afterAccept
  dsimp only
  split
  · exact .inl rfl
  · exact .inr rfl

theorem afterAccept_idle (s : Proxy) : s.afterAccept.pc.Idle := by
  rcases afterAccept_pc s with hpc | hpc <;> rw [hpc] <;> exact ProxyPc.idle_of_index rfl

theorem afterAccept_ne (s : Proxy) (client : Nat) : s.afterAccept.pc ≠ .connecting client := by
  rcases afterAccept_pc s with hpc | hpc <;> rw [hpc] <;> exact ProxyPc.noConfusion

theorem pushConn (h : RelayInv s) {client remote : Nat} (hpc : s.pc = .connecting client)
    (hnew : s.files remote = none) (nonblock : Fcntl) :
    RelayInv (s.pushConn client remote nonblock).afterAccept := by
  obtain ⟨⟨nb, hclient⟩, hne⟩ := h.connecting client hpc
  have hdiff : client ≠ remote := by
    rintro rfl
    rw [hclient] at hnew
    cases hnew
  have hidle : s.pc.Idle := by
    rw [hpc]
    exact ProxyPc.idle_of_index rfl
  refine of_idle (afterAccept_idle _) ?_ ?_ ?_ ?_ h.down h.left fun hleft => ?_
  · refine List.pairwise_append.mpr ⟨h.apart, List.pairwise_singleton .., ?_⟩
    intro c hc c' hc' dir dir'
    obtain rfl := List.mem_singleton.mp hc'
    cases dir' with
    | toRemote => exact hne c hc dir
    | toClient => exact h.src_ne_of_none hnew hc dir
  · intro c hc
    rcases List.mem_append.mp hc with hc | hc
    · exact h.inner c hc
    · obtain rfl := List.mem_singleton.mp hc
      exact hdiff
  · intro c hc
    rcases List.mem_append.mp hc with hc | hc
    · refine (h.settled hidle hc).congr fun dir => ?_
      exact Function.update_of_ne (h.src_ne_of_none hnew hc dir) ..
    · obtain rfl := List.mem_singleton.mp hc
      refine settled_new (a := nb) (b := decide nonblock.Ok) ?_ (Function.update_self ..)
      exact (Function.update_of_ne hdiff ..).trans hclient
  · exact fun client' hclient' => absurd hclient' (afterAccept_ne _ client')
  · exact absurd (h.left_eq_nil (by simp [hpc]) (by simp [hpc])) hleft

theorem connectFail (h : RelayInv s) {client : Nat} (hpc : s.pc = .connecting client) :
    RelayInv (s.netClose client).afterAccept := by
  have hidle : s.pc.Idle := by
    rw [hpc]
    exact ProxyPc.idle_of_index rfl
  refine h.reset hidle (afterAccept_idle _) rfl (fun c hc dir => ?_) rfl rfl
    (fun client' hclient => absurd hclient (afterAccept_ne _ client')) fun hne => ?_
  · exact Function.update_of_ne ((h.connecting client hpc).2 c hc dir) ..
  · exact absurd (h.left_eq_nil (by simp [hpc]) (by simp [hpc])) hne

/-- Closing both sockets of a connection does not touch those of another. -/
theorem close_of_ne (h : RelayInv s) (hc : s.list[i]? = some c) {c' : ProxyConn}
    (hc' : s.list[j]? = some c') (hne : j ≠ i) (dir : Direction) :
    ((s.netClose c.client).netClose c.remote).files (c'.src dir) = s.files (c'.src dir) := by
  refine (Function.update_of_ne ?_ ..).trans (Function.update_of_ne ?_ ..)
  · exact h.apart_of_ne hc' hc hne dir .toClient
  · exact h.apart_of_ne hc' hc hne dir .toRemote

theorem record_eq {client remote : Endpoint} (hclient : s.files c.client = some client)
    (hremote : s.files c.remote = some remote) : s.record c = [⟨client, remote⟩] := by
  simp only [Proxy.record, hclient, hremote]

theorem tearDown (h : RelayInv s) (hpc : s.pc = .finish i true) (hc : s.list[i]? = some c) :
    RelayInv (s.tearDown i c) := by
  have hsub : (s.list.eraseIdx i).Sublist s.list := List.eraseIdx_sublist ..
  have hindex : s.pc.index = some i := by
    rw [hpc]
    rfl
  refine of_idle (ProxyPc.idle_look i) (h.apart.sublist hsub)
    (fun c' hc' => h.inner c' (hsub.subset hc')) (fun c' hc' => ?_)
    (fun client hclient => by cases hclient) ?_ h.left fun hne => ?_
  · obtain ⟨j, hne, hj⟩ := List.mem_eraseIdx_iff_getElem?.mp hc'
    exact (h.settled_of_ne hindex hj hne).congr fun dir => h.close_of_ne hc hj hne dir
  · intro d hd
    rcases List.mem_append.mp hd with hd | hd
    · exact h.down d hd
    · obtain ⟨client, remote, hclient, hremote, hthis, hother⟩ := h.both hc .toRemote
      simp only [Proxy.inFlight, hpc, ProxyPc.inFlight] at hthis hother
      have hrecord : s.record c = [⟨client, remote⟩] := record_eq hclient hremote
      rw [hrecord] at hd
      obtain rfl := List.mem_singleton.mp hd
      obtain ⟨dir, e, he, hend⟩ := h.closing i c (by rw [hpc]; rfl) hc
      refine ⟨hthis.relays, hother.relays, ?_⟩
      cases dir with
      | toRemote =>
        cases hclient.symm.trans he
        exact .inl hend
      | toClient =>
        cases hremote.symm.trans he
        exact .inr hend
  · exact absurd (h.left_eq_nil (by simp [hpc]) (by simp [hpc])) hne

theorem popConn (h : RelayInv s) (hpc : s.pc = .ending) (hc : s.list.getLast? = some c) :
    RelayInv (s.popConn c) := by
  have hidle : s.pc.Idle := by
    rw [hpc]
    exact ProxyPc.idle_of_index rfl
  rw [List.getLast?_eq_getElem?] at hc
  have hsub : s.list.dropLast.Sublist s.list := List.dropLast_sublist ..
  refine of_idle hidle (h.apart.sublist hsub)
    (fun c' hc' => h.inner c' (hsub.subset hc')) (fun c' hc' => ?_)
    (fun client hclient => ?_) h.down ?_ fun _ => .inl hpc
  · change c' ∈ s.list.dropLast at hc'
    obtain ⟨j, hj, rfl⟩ := List.mem_iff_getElem.mp hc'
    rw [List.length_dropLast] at hj
    have hj' : s.list[j]? = some s.list.dropLast[j] := by
      rw [List.getElem_dropLast, List.getElem?_eq_getElem]
    refine (h.settled hidle (hsub.subset hc')).congr fun dir => h.close_of_ne hc hj' ?_ dir
    omega
  · exact absurd (hclient.symm.trans hpc) (by simp)
  · intro d hd
    rcases List.mem_append.mp hd with hd | hd
    · exact h.left d hd
    · obtain ⟨client, remote, hclient, hremote, hrelays⟩ :=
        (h.settled hidle (List.mem_of_getElem? hc)).relays
      rw [record_eq hclient hremote] at hd
      obtain rfl := List.mem_singleton.mp hd
      exact hrelays

end RelayInv

/-! ## Runs -/

/-- No `send` fails for want of room. -/
def Roomy (_ : Proxy) : ProxyAct → Prop
  | .sendFail errno => ¬ SendFull errno
  | _ => True

theorem relayInv_step {s t : Proxy} {act : ProxyAct} (hi : RelayInv s) (hg : Roomy s act)
    (hm : ProxyMove s act t) : RelayInv t := by
  have hleft : ∀ {pc : ProxyPc}, s.pc = pc → pc ≠ .ending → pc ≠ .finished → s.left ≠ [] →
      False := fun hpc h₁ h₂ hne => hne (hi.left_eq_nil (hpc ▸ h₁) (hpc ▸ h₂))
  have hidle : ∀ {pc : ProxyPc}, s.pc = pc → pc.index = none → s.pc.Idle :=
    fun hpc hindex => hpc ▸ ProxyPc.idle_of_index hindex
  cases hm with
  | stop hpc =>
    exact hi.reset (hidle hpc rfl) (ProxyPc.idle_of_index rfl) rfl (fun _ _ _ => rfl) rfl rfl
      (by simp) fun _ => .inl rfl
  | acceptNone hpc =>
    exact hi.reset (hidle hpc rfl) (RelayInv.afterAccept_idle s) rfl (fun _ _ _ => rfl) rfl rfl
      (fun client hclient => absurd hclient (RelayInv.afterAccept_ne s client))
      fun hne => (hleft hpc (by simp) (by simp) hne).elim
  | accept hpc hnew => exact hi.accept hpc hnew _
  | connect hpc hnew => exact hi.pushConn hpc hnew _
  | connectFail hpc => exact hi.connectFail hpc
  | select hpc =>
    exact hi.reset (hidle hpc rfl) (ProxyPc.idle_look 0) rfl (fun _ _ _ => rfl) rfl rfl
      (by simp) fun hne => (hleft hpc (by simp) (by simp) hne).elim
  | selectNone hpc =>
    exact hi.reset (hidle hpc rfl) (ProxyPc.idle_of_index rfl) rfl (fun _ _ _ => rfl) rfl rfl
      (by simp) fun hne => (hleft hpc (by simp) (by simp) hne).elim
  | @lookEnd i dir err hpc hend =>
    have hne : ∀ j c, s.list[j]? = some c → s.pc.index ≠ some j := by
      rintro j c hj heq
      rw [hpc] at heq
      cases heq
      rw [hend] at hj
      cases hj
    refine hi.setPc s.readFds (fun j d => by rw [hpc]; rfl) (fun j c hj d hf => ?_)
      (by simp [ProxyPc.erring]) trivial (by simp) fun hleft' => ?_
    · rw [ProxyPc.failing_eq_false (hne j c hj)] at hf
      cases hf
    · exact (hleft hpc (by simp) (by simp) hleft').elim
  | @lookPast i dir err hpc =>
    refine hi.setPc s.readFds (fun j d => ?_) (fun j c _ d hf => ?_) (fun j hj => ?_) next_sound
      (fun client => ?_) fun hne => (hleft hpc (by simp) (by simp) hne).elim
    · rw [hpc, next_inFlight]
      rfl
    · rw [hpc] at hf
      exact next_failing_look hf id
    · obtain ⟨rfl, rfl⟩ := next_erring hj
      rw [hpc]
      rfl
    · cases dir <;> simp [Proxy.next]
  | recv hpc hc he => exact hi.received hpc hc he _
  | recvEnd hpc hc he => exact hi.receivedEnd hpc hc he
  | send hpc hn hc he => exact hi.accepted hpc hn hc he
  | sendFail hpc _ hc he => exact hi.sendFailed hpc hc he hg
  | @sent i dir off err hpc =>
    refine hi.setPc s.readFds (fun j d => ?_) (fun j c _ d hf => ?_) (fun j hj => ?_) next_sound
      (fun client => ?_) fun hne => (hleft hpc (by simp) (by simp) hne).elim
    · rw [hpc, next_inFlight, ProxyPc.inFlight]
      simp
    · rw [hpc] at hf
      exact next_failing_send hf id
    · obtain ⟨rfl, rfl⟩ := next_erring hj
      rw [hpc]
      rfl
    · cases dir <;> simp [Proxy.next]
  | tearDown hpc hc => exact hi.tearDown hpc hc
  | @keep i hpc =>
    refine hi.setPc s.readFds (fun j d => by rw [hpc]; rfl) (fun j c _ d hf => ?_)
      (by simp [ProxyPc.erring]) rfl (by simp) fun hne => (hleft hpc (by simp) (by simp) hne).elim
    simp [hpc, ProxyPc.failing] at hf
  | finished hpc =>
    exact hi.reset (hidle hpc rfl) (ProxyPc.idle_of_index rfl) rfl (fun _ _ _ => rfl) rfl rfl
      (by simp) fun _ => .inr rfl
  | pop hpc hc => exact hi.popConn hpc hc

theorem relayInv_fresh : RelayInv .fresh :=
  .of_idle (ProxyPc.idle_of_index rfl) .nil (by simp [Proxy.fresh]) (by simp [Proxy.fresh])
    (by simp [Proxy.fresh]) (by simp [Proxy.fresh]) (by simp [Proxy.fresh]) (by simp [Proxy.fresh])

theorem relayInv_of_reach {s : Proxy} (h : proxy.Reach Roomy s) : RelayInv s := by
  refine h.invariant (I := RelayInv) ?_ fun _ _ _ _ hi hg hs => relayInv_step hi hg (proxy_move hs)
  rintro _ rfl
  exact relayInv_fresh

/-- **Faithful relay.** As long as no `send` finds the buffer of its socket full, every
connection relays its bytes in both directions, in order and complete, and is
closed only when a `recv` has returned 0 or less or a `send` has failed, whatever
arrives, in whatever pieces, on however many connections. -/
theorem relay_faithful {s : Proxy} (h : proxy.Reach Roomy s) : s.Faithful :=
  (relayInv_of_reach h).faithful

def ProxyAct.roomy : ProxyAct → Bool
  | .sendFail errno => ¬ SendFull errno
  | _ => true

theorem roomy_of_roomy (s : Proxy) (act : ProxyAct) (h : act.roomy = true) : Roomy s act := by
  cases act with
  | sendFail errno =>
    exact of_decide_eq_true (p := ¬ SendFull errno) h
  | _ => trivial

/-- Three bytes are relayed in two pieces before the client closes its side. -/
theorem relay_faithful_pieces : ∃ s, proxy.Reach Roomy s ∧
    s.down = [⟨⟨false, [1, 2, 3], [], true, none⟩, ⟨true, [], [1, 2, 3], false, none⟩⟩] ∧
    s.Faithful := by
  obtain ⟨s, hs, hp⟩ := proxy.reach_of_replay (fun _ act => act.roomy)
    (fun s => s.down = [⟨⟨false, [1, 2, 3], [], true, none⟩, ⟨true, [], [1, 2, 3], false, none⟩⟩])
    .fresh
    [.accept (some 4) false, .connect 5 ⟨2, 0⟩, .select 1 [4], .recv [1, 2, 3], .send 1, .send 2,
      .tick, .tick, .tick, .tick, .accept none false, .select 1 [4], .recvEnd, .tick, .tick]
    roomy_of_roomy (.start rfl) (by decide +kernel)
  exact ⟨s, hs, of_decide_eq_true hp, relay_faithful hs⟩

/-- The phone accepts one of three bytes and has no room for the others: they are
lost, and the connection is closed though nothing is wrong with it. -/
theorem relay_loses : ¬ ∀ s, proxy.Reachable s → s.Faithful := by
  intro hall
  obtain ⟨s, hs, hp⟩ := proxy.reachable_of_replay
    (fun s => s.down = [⟨⟨false, [1, 2, 3], [], false, none⟩, ⟨true, [], [1], false, some eagain⟩⟩])
    .fresh
    [.accept (some 4) false, .connect 5 ⟨2, 0⟩, .select 1 [4], .recv [1, 2, 3], .send 1,
      .sendFail eagain, .tick, .tick]
    rfl (by decide +kernel)
  have hbroken : ¬ Endpoint.Broken ⟨true, [], [1], false, some eagain⟩ := by
    rintro ⟨errno, herrno, hnot⟩
    cases herrno
    exact hnot (.inl rfl)
  have hdown := (hall s hs).down _ (by rw [of_decide_eq_true hp]; exact List.mem_singleton_self _)
  exact absurd (hdown.1.1 hbroken) (by decide)

/-! ## Sends without room -/

/-- What `net_send_all` still has to send lies in the buffer. -/
def Proxy.Within (s : Proxy) : Prop :=
  ∀ i dir off len err, s.pc = .send i dir off len err → off + len ≤ s.buffer.length

theorem next_ne_send {i j : Nat} {dir d : Direction} {err err' : Bool} {off len : Nat} :
    Proxy.next i dir err ≠ .send j d off len err' := by
  cases dir <;> exact ProxyPc.noConfusion

theorem afterAccept_ne_send (s : Proxy) {i : Nat} {dir : Direction} {off len : Nat} {err : Bool} :
    s.afterAccept.pc ≠ .send i dir off len err := by
  rcases RelayInv.afterAccept_pc s with hpc | hpc <;> rw [hpc] <;> exact ProxyPc.noConfusion

theorem within_step {s t : Proxy} {act : ProxyAct} (hi : s.Within) (hm : ProxyMove s act t) :
    t.Within := by
  intro i dir off len err hpc
  cases hm with
  | recv =>
    cases hpc
    simp [Proxy.received]
  | send hpc' hn =>
    have hlen := hi _ _ _ _ _ hpc'
    cases hpc
    change _ ≤ s.buffer.length
    omega
  | pop hpc' => exact absurd (hpc'.symm.trans hpc) ProxyPc.noConfusion
  | acceptNone => exact absurd hpc (afterAccept_ne_send _)
  | connect => exact absurd hpc (afterAccept_ne_send _)
  | connectFail => exact absurd hpc (afterAccept_ne_send _)
  | lookPast => exact absurd hpc next_ne_send
  | recvEnd => exact absurd hpc next_ne_send
  | sendFail => exact absurd hpc next_ne_send
  | sent => exact absurd hpc next_ne_send
  | _ => cases hpc

theorem within_of_reach {G : Proxy → ProxyAct → Prop} {s : Proxy} (h : proxy.Reach G s) :
    s.Within := by
  refine h.invariant (I := Proxy.Within) ?_ fun _ _ _ _ hi _ hs => within_step hi (proxy_move hs)
  rintro _ rfl i dir off len err hpc
  cases hpc

/-- A send that finds no room breaks the promise at once. -/
theorem relay_roomy_needed {s t : Proxy} {errno : Int} (h : proxy.Reach Roomy s)
    (hstep : proxy.step s (.sendFail errno) = some t) (hfull : SendFull errno) : ¬ t.Faithful := by
  have hinv := relayInv_of_reach h
  have hwithin := within_of_reach h
  intro hfaithful
  cases proxy_move hstep with
  | @sendFail i dir off len err c e _ hpc hlen hc he =>
    obtain ⟨src, dst, hsrc, hdst, hthis, _⟩ := hinv.both hc dir
    rw [he] at hdst
    cases hdst
    simp only [Proxy.inFlight, hpc, send_failing_self] at hthis
    have hintact := hthis.intact.1.eq
    rw [send_inFlight_self] at hintact
    obtain ⟨src', dst', hsrc', hdst', hrelays⟩ := hfaithful.live i c hc dir
    have hfiles : (s.sendFailed i dir (c.dst dir) e errno).files =
        Function.update s.files (c.dst dir) (some { e with failed := some errno }) := rfl
    rw [hfiles, Function.update_of_ne (hinv.src_ne_dst hc dir), hsrc] at hsrc'
    rw [hfiles, Function.update_self] at hdst'
    cases hsrc'
    cases hdst'
    have hwhole : ¬ Endpoint.Broken { e with failed := some errno } := by
      rintro ⟨_, herrno, hnot⟩
      cases herrno
      exact hnot hfull
    have hlost := hrelays.1 hwhole
    rw [Proxy.inFlight, Proxy.sendFailed, next_inFlight, hintact] at hlost
    -- what was left to send is lost
    have hnil := congrArg List.length (List.append_cancel_left hlost)
    have hbound := hwithin i dir off len err hpc
    rw [Pipe.length_window hbound] at hnil
    exact absurd hnil (Nat.pos_iff_ne_zero.mp hlen)

end DroidcamWhip
