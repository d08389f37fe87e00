import Mathlib.Data.List.Perm.Basic
import DroidcamWhip.Lib.Variant
import DroidcamWhip.Relay

/-!
The `Proxy` object of `proxy.cc`, which owns the listening socket and the thread: its
constructor, `Proxy::Start`, which another thread calls any number of times, and its
destructor, which joins the thread. Signals and descriptors are as for the thread alone.
-/

namespace DroidcamWhip

open Runs

/-! ## The object -/

/-- Where the owner of the object is: between two calls; in `Start`, about to store the port,
to test `thread_active`, in `net_listen`, in `pthread_create`, about to store whether it has
created the thread; in the destructor, in `pthread_join` or in `net_close`; behind it. -/
inductive CallerPc where
  | idle
  | storePort (port : Int)
  | test
  | listen
  | create
  | store (ok : Bool)
  | joining
  | closing
  | destroyed
  deriving DecidableEq

/-- `struct Proxy`, with the state of its thread, the listening sockets that are open, what
`Start` has returned, with what it has been called, and what the thread has dialled. -/
structure ProxyObject where
  pc : CallerPc
  threadActive : Bool
  proxyDevice : Option Nat
  portRemote : Int
  proxySock : Option Nat
  portLocal : Int
  thread : Option Proxy
  created : Nat
  listening : List Nat
  calls : List (Nat × Int)
  answers : List Int
  dialled : List (Option Nat × Int)

/-- The system calls of the owner and their answers, and the steps of the thread. `listen` is
`net_listen` and `net_listen_port`. -/
inductive CallerAct where
  | start (dev : Nat) (remotePort : Int)
  | tick
  | listen (sock : Option Nat) (port : Int)
  | create (ok : Bool)
  | destroy
  | thread (act : ProxyAct)

namespace ProxyObject

/-- `Proxy::Proxy`. -/
def new : ProxyObject :=
  { pc := .idle, threadActive := false, proxyDevice := none, portRemote := 0, proxySock := none,
    portLocal := 0, thread := none, created := 0, listening := [], calls := [], answers := [],
    dialled := [] }

/-- `net_close(proxy_sock)`. -/
def closeSock (s : ProxyObject) : ProxyObject :=
  { s with listening := s.listening.filter fun fd => s.proxySock ≠ some fd }

/-- `Start` returns. -/
def answer (s : ProxyObject) (port : Int) : ProxyObject :=
  { s with pc := .idle, answers := s.answers ++ [port] }

/-- What the thread sees of the object: it goes on as long as `thread_active` is set. -/
def allows (s : ProxyObject) : ProxyAct → Bool
  | .stop => !s.threadActive
  | .accept client _ => s.threadActive && client.all fun fd => fd ∉ s.listening
  | .connect rc _ => rc ≤ 0 || rc.toNat ∉ s.listening
  | _ => true

/-- What the thread dials. -/
def dials (s : ProxyObject) : ProxyAct → List (Option Nat × Int)
  | .connect .. => [(s.proxyDevice, s.portRemote)]
  | _ => []

def threadStep (s : ProxyObject) (act : ProxyAct) : Option ProxyObject :=
  s.thread.bind fun p =>
    if s.allows act then
      (p.step act).map fun q => { s with thread := some q, dialled := s.dialled ++ s.dials act }
    else none

def step (s : ProxyObject) (act : CallerAct) : Option ProxyObject :=
  match s.pc, act with
  | _, .thread a => s.threadStep a
  | .idle, .start dev port =>
      some { s with proxyDevice := some dev, calls := s.calls ++ [(dev, port)], pc := .storePort port }
  | .storePort port, .tick => some { s with portRemote := port, pc := .test }
  | .test, .tick =>
      if s.threadActive then some (s.answer s.portLocal)
      else some { s.closeSock with pc := .listen }
  | .listen, .listen none _ =>
      some { s with proxySock := none, portLocal := 0, pc := .store false }
  | .listen, .listen (some fd) port =>
      -- a new descriptor is not in use
      if fd ∈ s.listening ∨ port < 0 ∨ 65536 ≤ port then none
      else
        some { s with
          proxySock := some fd
          listening := fd :: s.listening
          portLocal := port
          pc := if 0 < port then .create else .store false }
  | .create, .create true =>
      some { s with thread := some .fresh, created := s.created + 1, pc := .store true }
  | .create, .create false => some { s with pc := .store false }
  | .store ok, .tick =>
      some { s.answer (if ok then s.portLocal else 0) with threadActive := ok }
  | .idle, .destroy =>
      if s.threadActive then some { s with threadActive := false, pc := .joining }
      else some { s with pc := .destroyed }
  | .joining, .tick =>
      if s.thread.all fun p => p.pc = .finished then some { s with pc := .closing } else none
  | .closing, .tick => some { s.closeSock with pc := .destroyed }
  | _, _ => none

end ProxyObject

def proxyObject : Machine ProxyObject CallerAct where
  start s := s = .new
  step s act := s.step act

/-! ## The sockets of the thread -/

def ProxyConn.sockets (c : ProxyConn) : List Nat := [c.client, c.remote]

/-- The client for which the phone is dialled. -/
def ProxyPc.dialling : ProxyPc → List Nat
  | .connecting client => [client]
  | _ => []

def Proxy.sockets (s : Proxy) : List Nat := s.list.flatMap ProxyConn.sockets

/-- The thread is in its loop. -/
def ProxyPc.Running (pc : ProxyPc) : Prop := pc ≠ .ending ∧ pc ≠ .finished

/-- What the thread has open are the two sockets of every connection and the client it dials
for, and `select` is asked about the sockets of the connections. -/
structure Proxy.Tidy (s : Proxy) : Prop where
  nodup : (s.pc.dialling ++ s.sockets).Nodup
  files : ∀ fd, (s.files fd).isSome = true ↔ fd ∈ s.pc.dialling ++ s.sockets
  set : s.pc.Running → ∀ fd, fd ∈ s.set ↔ fd ∈ s.sockets

namespace Proxy.Tidy

variable {s t : Proxy}

/-- A step that opens and closes nothing. -/
theorem congr (h : s.Tidy) (hpc : t.pc.dialling = s.pc.dialling) (hlist : t.list = s.list)
    (hset : t.set = s.set) (hrun : t.pc.Running → s.pc.Running)
    (hfiles : ∀ fd, (t.files fd).isSome = (s.files fd).isSome) : t.Tidy := by
  have hsockets : t.sockets = s.sockets := by rw [Proxy.sockets, hlist, Proxy.sockets]
  refine ⟨?_, fun fd => ?_, fun ht fd => ?_⟩
  · rw [hpc, hsockets]
    exact h.nodup
  · rw [hfiles, hpc, hsockets]
    exact h.files fd
  · rw [hset, hsockets]
    exact h.set (hrun ht) fd

theorem update_isSome {f : Nat → Option Endpoint} {fd : Nat} {e e' : Endpoint}
    (he : f fd = some e) (fd' : Nat) :
    (Function.update f fd (some e') fd').isSome = (f fd').isSome := by
  rw [Function.update_apply]
  split
  · rename_i heq
    rw [heq, he]
    rfl
  · rfl

/-- A connection is closed and taken from the list. -/
theorem close (h : s.Tidy) {c : ProxyConn} (hpc : s.pc.dialling = []) (hdial : t.pc.dialling = [])
    (hperm : s.list.Perm (c :: t.list))
    (hfiles : t.files = ((s.netClose c.client).netClose c.remote).files)
    (hset : t.pc.Running → s.pc.Running ∧
      t.set = s.set.filter fun fd => fd ≠ c.client ∧ fd ≠ c.remote) : t.Tidy := by
  have hsockets : s.sockets.Perm (c.client :: c.remote :: t.sockets) :=
    hperm.flatMap_right ProxyConn.sockets
  have hnodup := h.nodup
  rw [hpc, List.nil_append, hsockets.nodup_iff, List.nodup_cons, List.nodup_cons] at hnodup
  obtain ⟨hclient, hremote, hrest⟩ := hnodup
  have hne : ∀ fd ∈ t.sockets, fd ≠ c.client ∧ fd ≠ c.remote := by
    refine fun fd hfd => ⟨?_, ?_⟩
    · rintro rfl
      exact hclient (List.mem_cons_of_mem _ hfd)
    · rintro rfl
      exact hremote hfd
  refine ⟨by simpa [hdial] using hrest, fun fd => ?_, fun ht fd => ?_⟩
  · have hmem := h.files fd
    rw [hpc, List.nil_append, hsockets.mem_iff] at hmem
    simp only [hfiles, hdial, List.nil_append, Proxy.netClose, Function.update_apply]
    by_cases hr : fd = c.remote
    · simpa [hr] using hremote
    · by_cases hl : fd = c.client
      · simpa [hl, show ¬ c.client = c.remote from hl ▸ hr] using
          fun hfd => hclient (List.mem_cons_of_mem _ hfd)
      · rw [if_neg hr, if_neg hl, hmem]
        simp [hr, hl]
  · obtain ⟨hs, hset⟩ := hset ht
    rw [hset, List.mem_filter, h.set hs, hsockets.mem_iff, decide_eq_true_eq]
    constructor
    · rintro ⟨hmem, hl, hr⟩
      simpa [hl, hr] using hmem
    · exact fun hfd => ⟨List.mem_cons_of_mem _ (List.mem_cons_of_mem _ hfd), hne fd hfd⟩

theorem accept (h : s.Tidy) (hpc : s.pc = .top) {client : Nat} (hnew : s.files client = none)
    (nonblock : Bool) :
    Proxy.Tidy { s.setFile client (.new nonblock) with pc := .connecting client } := by
  have hmem := h.files
  have hnodup := h.nodup
  simp only [hpc, ProxyPc.dialling, List.nil_append] at hmem hnodup
  have hclient : client ∉ s.sockets := by
    rw [← hmem, hnew]
    exact Bool.false_ne_true
  refine ⟨List.nodup_cons.mpr ⟨hclient, hnodup⟩, fun fd => ?_, fun _ fd => ?_⟩
  · show (Function.update s.files client _ fd).isSome = true ↔ fd ∈ client :: s.sockets
    rw [Function.update_apply, List.mem_cons]
    split
    · rename_i heq
      simp [heq]
    · rename_i hne
      simp [hne, hmem]
  · exact h.set (by simp [hpc, ProxyPc.Running]) fd

theorem afterAccept_dialling (s : Proxy) : s.afterAccept.pc.dialling = [] := by
  rcases RelayInv.afterAccept_pc s with hpc | hpc <;> rw [hpc] <;> rfl

theorem pushConn (h : s.Tidy) {client remote : Nat} (hpc : s.pc = .connecting client)
    (hnew : s.files remote = none) (nonblock : Fcntl) :
    (s.pushConn client remote nonblock).afterAccept.Tidy := by
  have hmem := h.files
  have hnodup := h.nodup
  simp only [hpc, ProxyPc.dialling] at hmem hnodup
  have hsockets : (s.pushConn client remote nonblock).afterAccept.sockets =
      s.sockets ++ [client, remote] := by
    simp [Proxy.sockets, Proxy.pushConn, Proxy.afterAccept, ProxyConn.sockets]
  have hremote : remote ∉ [client] ++ s.sockets := by
    rw [← hmem, hnew]
    exact Bool.false_ne_true
  refine ⟨?_, fun fd => ?_, fun _ fd => ?_⟩
  · rw [afterAccept_dialling, hsockets, List.nil_append, List.nodup_append]
    simp at hnodup hremote ⊢
    grind
  · rw [afterAccept_dialling, hsockets]
    show (Function.update s.files remote _ fd).isSome = true ↔ _
    rw [Function.update_apply]
    split
    · rename_i heq
      simp [heq]
    · rename_i hne
      simp [hne, hmem, or_comm]
  · rw [hsockets]
    show fd ∈ s.set ++ [client, remote] ↔ _
    rw [List.mem_append, List.mem_append, h.set (by simp [hpc, ProxyPc.Running])]

theorem connectFail (h : s.Tidy) {client : Nat} (hpc : s.pc = .connecting client) :
    (s.netClose client).afterAccept.Tidy := by
  have hmem := h.files
  have hnodup := h.nodup
  simp only [hpc, ProxyPc.dialling] at hmem hnodup
  have hclient : client ∉ s.sockets := (List.nodup_cons.mp hnodup).1
  refine ⟨?_, fun fd => ?_, fun _ fd => ?_⟩
  · rw [afterAccept_dialling]
    exact (List.nodup_cons.mp hnodup).2
  · rw [afterAccept_dialling]
    show (Function.update s.files client none fd).isSome = true ↔ fd ∈ s.sockets
    rw [Function.update_apply]
    split
    · rename_i heq
      simpa [heq] using hclient
    · rename_i hne
      simp [hne, hmem]
  · exact h.set (by simp [hpc, ProxyPc.Running]) fd

end Proxy.Tidy

theorem next_dialling {i : Nat} {dir : Direction} {err : Bool} :
    (Proxy.next i dir err).dialling = [] := by
  cases dir <;> rfl

theorem tidy_step {s t : Proxy} {act : ProxyAct} (h : s.Tidy) (hm : ProxyMove s act t) :
    t.Tidy := by
  cases hm
  case acceptNone hpc =>
    refine h.congr ?_ rfl rfl (fun _ => by simp [hpc, ProxyPc.Running]) fun _ => rfl
    rw [Proxy.Tidy.afterAccept_dialling, hpc]
    rfl
  case accept hpc hnew => exact h.accept hpc hnew _
  case connect hpc hnew => exact h.pushConn hpc hnew _
  case connectFail hpc => exact h.connectFail hpc
  case recv hpc hc he | recvEnd hpc hc he | send hpc hn hc he | sendFail hpc hlen hc he =>
    refine h.congr ?_ rfl rfl (fun _ => by simp [hpc, ProxyPc.Running])
      (Proxy.Tidy.update_isSome he)
    rw [hpc]
    first | rfl | exact next_dialling
  case tearDown i c hpc hc =>
    obtain ⟨hi, rfl⟩ := List.getElem?_eq_some_iff.mp hc
    exact h.close (by rw [hpc]; rfl) rfl (List.getElem_cons_eraseIdx_perm hi).symm rfl
      fun _ => ⟨by simp [hpc, ProxyPc.Running], rfl⟩
  case pop c hpc hc =>
    have hperm : s.list.Perm (c :: s.list.dropLast) := by
      conv_lhs => rw [← List.dropLast_append_getLast? c hc]
      exact List.perm_append_singleton c _
    exact h.close (by rw [hpc]; rfl) (by show s.pc.dialling = []; rw [hpc]; rfl) hperm rfl
      fun ht => absurd hpc ht.1
  case lookEnd hpc hend =>
    exact h.congr (by rw [hpc]; rfl) rfl rfl (fun _ => by simp [hpc, ProxyPc.Running]) fun _ => rfl
  case finished hpc =>
    exact h.congr (by rw [hpc]; rfl) rfl rfl (fun ht => absurd rfl ht.2) fun _ => rfl
  all_goals
    rename_i hpc
    refine h.congr ?_ rfl rfl (fun _ => by simp [hpc, ProxyPc.Running]) fun _ => rfl
    rw [hpc]
    first | rfl | exact next_dialling

theorem tidy_of_reachable {s : Proxy} (h : proxy.Reachable s) : s.Tidy := by
  refine h.invariant (I := Proxy.Tidy) ?_ fun _ _ _ _ hi _ hs => tidy_step hi (proxy_move hs)
  rintro _ rfl
  exact ⟨.nil, fun _ => by simp [Proxy.fresh, ProxyPc.dialling, Proxy.sockets],
    fun _ _ => by simp [Proxy.fresh, Proxy.sockets]⟩

/-- The size of a `recv`, and that a `send` accepts something. -/
theorem step_sizes {p q : Proxy} :
    (∀ d, p.step (.recv d) = some q → d.length ≤ bufSize) ∧
      ∀ n, p.step (.send n) = some q → 0 < n := by
  constructor
  · intro d h
    cases hpc : p.pc <;> simp only [Proxy.step, hpc] at h <;> try cases h
    split at h
    · rename_i hlen
      exact hlen.2
    · cases h
  · intro n h
    cases hpc : p.pc <;> simp only [Proxy.step, hpc] at h <;> try cases h
    split at h
    · rename_i hn
      exact hn.1
    · cases h

/-- The position at which a turn is going on. -/
def ProxyPc.busy : ProxyPc → Option Nat
  | .send i .. | .finish i _ => some i
  | _ => none

/-- A turn is about a connection of the list, and has no more to send than it has received. -/
structure Proxy.InTurn (s : Proxy) : Prop where
  index : ∀ i, s.pc.busy = some i → i < s.list.length
  size : ∀ i dir off len err, s.pc = .send i dir off len err → len ≤ bufSize

theorem lookPast_lt {s : Proxy} {i : Nat} {dir : Direction} {err : Bool}
    (hpc : s.pc = .look i dir err)
    (h : s.step .tick = some { s with pc := Proxy.next i dir err }) : i < s.list.length := by
  by_contra hno
  simp only [Proxy.step, hpc, List.getElem?_eq_none (Nat.le_of_not_lt hno)] at h
  have hnext := congrArg (Option.map Proxy.pc) h
  cases dir <;> simp [Proxy.next] at hnext

theorem inTurn_step {s t : Proxy} {act : ProxyAct} (h : s.InTurn) (ht : s.step act = some t) :
    t.InTurn := by
  have hnext : ∀ {i dir err}, i < s.list.length → ∀ j, (Proxy.next i dir err).busy = some j →
      j < s.list.length := by
    intro i dir err hi j hj
    cases dir <;> cases hj
    exact hi
  refine ⟨fun j hj => ?_, fun i dir off len err hpc => ?_⟩
  · cases proxy_move ht
    case acceptNone | connect | connectFail =>
      exfalso
      revert hj
      rcases RelayInv.afterAccept_pc _ with h | h <;> rw [h] <;> exact fun hj => by cases hj
    case lookPast hpc => exact hnext (lookPast_lt hpc ht) j hj
    case recv hpc hc he =>
      cases hj
      exact (List.getElem?_eq_some_iff.mp hc).1
    case recvEnd hpc hc he => exact hnext (List.getElem?_eq_some_iff.mp hc).1 j hj
    case send hpc hn hc he =>
      cases hj
      exact (List.getElem?_eq_some_iff.mp hc).1
    case sendFail hpc hlen hc he => exact hnext (List.getElem?_eq_some_iff.mp hc).1 j hj
    case sent hpc => exact hnext (h.index _ (by rw [hpc]; rfl)) j hj
    case pop c hpc hc =>
      have hj' : s.pc.busy = some j := hj
      rw [hpc] at hj'
      cases hj'
    all_goals cases hj
  · cases proxy_move ht
    case acceptNone | connect | connectFail => exact absurd hpc (afterAccept_ne_send _)
    case lookPast | recvEnd | sendFail | sent => exact absurd hpc next_ne_send
    case recv =>
      cases hpc
      exact step_sizes.1 _ ht
    case send hpc' hn hc he =>
      have hsize := h.size _ _ _ _ _ hpc'
      cases hpc
      omega
    case pop hpc' hc => exact absurd (hpc'.symm.trans hpc) ProxyPc.noConfusion
    all_goals cases hpc

theorem inTurn_of_reachable {s : Proxy} (h : proxy.Reachable s) : s.InTurn := by
  refine h.invariant (I := Proxy.InTurn) ?_ fun _ _ _ _ hi _ hs => inTurn_step hi hs
  rintro _ rfl
  refine ⟨fun i hi => ?_, fun i dir off len err hpc => ?_⟩
  · cases hi
  · cases hpc

/-- When the thread ends it has closed everything. -/
theorem finished_step {s t : Proxy} {act : ProxyAct} (ht : s.step act = some t)
    (hpc : t.pc = .finished) : t.list = [] := by
  cases proxy_move ht
  case finished hend =>
    simp only [Proxy.step, hend] at ht
    split at ht
    · exact List.getLast?_eq_none_iff.mp ‹_›
    · have hpc' := congrArg (Option.map Proxy.pc) ht
      simp [Proxy.popConn, Proxy.netClose, hend] at hpc'
  case acceptNone | connect | connectFail =>
    exfalso
    revert hpc
    rcases RelayInv.afterAccept_pc _ with h | h <;> rw [h] <;> exact ProxyPc.noConfusion
  case pop c hend hc => exact absurd (hend.symm.trans hpc) (by simp)
  case lookPast i dir err _ | recvEnd i dir err _ _ _ _ _ | sendFail i dir _ _ err _ _ _ _ _ _ _ |
      sent i dir _ err _ =>
    cases dir <;> cases hpc
  all_goals cases hpc

theorem list_of_finished {s : Proxy} (h : proxy.Reachable s) (hpc : s.pc = .finished) :
    s.list = [] := by
  refine h.invariant (I := fun s => s.pc = .finished → s.list = []) ?_
    (fun _ _ _ _ _ _ hs => finished_step hs) hpc
  rintro _ rfl hpc
  cases hpc

/-- The thread has looked at `thread_active` before `Start` has stored it, and ends at once. -/
def Proxy.Missed (p : Proxy) : Prop :=
  p = { Proxy.fresh with pc := .ending } ∨ p = { Proxy.fresh with pc := .finished }

theorem missed_step {s t : Proxy} {act : ProxyAct} (h : s.Missed) (ht : s.step act = some t) :
    t.Missed := by
  rcases h with rfl | rfl
  · cases act <;> cases ht
    exact .inr rfl
  · cases act <;> cases ht

/-- It stays in its loop until it sees that it is to stop. -/
theorem running_step {s t : Proxy} {act : ProxyAct} (h : s.pc.Running) (hact : act ≠ .stop)
    (hm : ProxyMove s act t) : t.pc.Running := by
  cases hm
  case stop => exact absurd rfl hact
  case finished hpc => exact absurd hpc h.1
  case pop c hpc hc => exact absurd hpc h.1
  case acceptNone | connect | connectFail =>
    rcases RelayInv.afterAccept_pc _ with h | h <;> rw [h] <;> simp [ProxyPc.Running]
  case lookPast i dir err _ | recvEnd i dir err _ _ _ _ _ | sendFail i dir _ _ err _ _ _ _ _ _ _ |
      sent i dir _ err _ =>
    cases dir <;> exact ⟨ProxyPc.noConfusion, ProxyPc.noConfusion⟩
  all_goals exact ⟨ProxyPc.noConfusion, ProxyPc.noConfusion⟩

/-! ## The steps -/

/-- Every step of the object, with where it is made. -/
inductive ObjectMove (s : ProxyObject) : CallerAct → ProxyObject → Prop
  | thread {act p q} (hp : s.thread = some p) (hallowed : s.allows act = true)
      (hq : p.step act = some q) :
      ObjectMove s (.thread act)
        { s with thread := some q, dialled := s.dialled ++ s.dials act }
  | start {dev port} (hpc : s.pc = .idle) :
      ObjectMove s (.start dev port)
        { s with proxyDevice := some dev, calls := s.calls ++ [(dev, port)], pc := .storePort port }
  | storePort {port} (hpc : s.pc = .storePort port) :
      ObjectMove s .tick { s with portRemote := port, pc := .test }
  | active (hpc : s.pc = .test) (ha : s.threadActive = true) :
      ObjectMove s .tick (s.answer s.portLocal)
  | inactive (hpc : s.pc = .test) (ha : s.threadActive = false) :
      ObjectMove s .tick { s.closeSock with pc := .listen }
  | noSocket {port} (hpc : s.pc = .listen) :
      ObjectMove s (.listen none port)
        { s with proxySock := none, portLocal := 0, pc := .store false }
  | noPort {fd} (hpc : s.pc = .listen) :
      ObjectMove s (.listen (some fd) 0)
        { s with
          proxySock := some fd, listening := fd :: s.listening, portLocal := 0, pc := .store false }
  | listens {fd port} (hpc : s.pc = .listen) (hport : 0 < port) :
      ObjectMove s (.listen (some fd) port)
        { s with
          proxySock := some fd, listening := fd :: s.listening, portLocal := port, pc := .create }
  | creates (hpc : s.pc = .create) :
      ObjectMove s (.create true)
        { s with thread := some .fresh, created := s.created + 1, pc := .store true }
  | createFails (hpc : s.pc = .create) : ObjectMove s (.create false) { s with pc := .store false }
  | store {ok} (hpc : s.pc = .store ok) :
      ObjectMove s .tick { s.answer (if ok then s.portLocal else 0) with threadActive := ok }
  | stop (hpc : s.pc = .idle) (ha : s.threadActive = true) :
      ObjectMove s .destroy { s with threadActive := false, pc := .joining }
  | noThread (hpc : s.pc = .idle) (ha : s.threadActive = false) :
      ObjectMove s .destroy { s with pc := .destroyed }
  | join (hpc : s.pc = .joining) (hend : ∀ p, s.thread = some p → p.pc = .finished) :
      ObjectMove s .tick { s with pc := .closing }
  | close (hpc : s.pc = .closing) : ObjectMove s .tick { s.closeSock with pc := .destroyed }

theorem proxyObject_move {s t : ProxyObject} {act : CallerAct}
    (h : proxyObject.step s act = some t) : ObjectMove s act t := by
  change s.step act = some t at h
  unfold ProxyObject.step at h
  split at h
  case h_1 =>
    obtain ⟨p, hp, h⟩ := Option.bind_eq_some_iff.mp h
    split at h
    · obtain ⟨q, hq, rfl⟩ := Option.map_eq_some_iff.mp h
      exact .thread hp ‹_› hq
    · cases h
  case h_2 =>
    cases h
    exact .start ‹_›
  case h_3 =>
    cases h
    exact .storePort ‹_›
  case h_4 =>
    split at h <;> cases h
    · exact .active ‹_› ‹_›
    · exact .inactive ‹_› (Bool.eq_false_iff.mpr ‹_›)
  case h_5 =>
    cases h
    exact .noSocket ‹_›
  case h_6 fd port hpc =>
    split at h
    · cases h
    · rename_i hfresh
      by_cases hport : 0 < port
      · rw [if_pos hport] at h
        cases h
        exact .listens hpc hport
      · obtain rfl : port = 0 := by omega
        rw [if_neg hport] at h
        cases h
        exact .noPort hpc
  case h_7 =>
    cases h
    exact .creates ‹_›
  case h_8 =>
    cases h
    exact .createFails ‹_›
  case h_9 =>
    cases h
    exact .store ‹_›
  case h_10 =>
    split at h <;> cases h
    · exact .stop ‹_› ‹_›
    · exact .noThread ‹_› (Bool.eq_false_iff.mpr ‹_›)
  case h_11 =>
    split at h <;> cases h
    rename_i hend
    refine .join ‹_› fun p hp => ?_
    simpa [hp] using hend
  case h_12 =>
    cases h
    exact .close ‹_›
  case h_13 => cases h

/-! ## The socket and the thread -/

namespace ProxyObject

/-- Clients can connect. -/
def Listens (s : ProxyObject) : Prop := ∃ fd, s.proxySock = some fd ∧ s.listening = [fd]

/-- The socket of a `Start` that has failed is still open. -/
def LeftOpen (s : ProxyObject) : Prop := s.Listens ∧ s.answers.getLast? = some 0

/-- What there is at each place. -/
def Stage (s : ProxyObject) : Prop :=
  match s.pc with
  | .idle | .storePort _ | .test =>
      s.threadActive = true ∧ s.Listens ∧ 0 < s.portLocal ∧
          (∃ p, s.thread = some p ∧ (p.pc.Running ∨ p.Missed)) ∨
        s.threadActive = false ∧ s.thread = none ∧ (s.listening = [] ∨ s.LeftOpen)
  | .listen => s.threadActive = false ∧ s.thread = none ∧ s.listening = []
  | .create => s.threadActive = false ∧ s.thread = none ∧ s.Listens ∧ 0 < s.portLocal
  | .store true =>
      s.threadActive = false ∧ s.Listens ∧ 0 < s.portLocal ∧
        ∃ p, s.thread = some p ∧ (p = .fresh ∨ p.Missed)
  | .store false => s.threadActive = false ∧ s.thread = none ∧ (s.listening = [] ∨ s.Listens)
  | .joining => s.threadActive = false ∧ s.Listens ∧ s.thread.isSome = true
  | .closing =>
      s.threadActive = false ∧ s.Listens ∧ ∃ p, s.thread = some p ∧ p.pc = .finished
  | .destroyed =>
      s.threadActive = false ∧ (∀ p, s.thread = some p → p.pc = .finished) ∧
        (s.listening = [] ∨ s.LeftOpen)

variable {s t : ProxyObject}

theorem Listens.closeSock (h : s.Listens) : s.closeSock.listening = [] := by
  obtain ⟨fd, hsock, hlisten⟩ := h
  simp [ProxyObject.closeSock, hsock, hlisten]

theorem ended_step {p : Proxy} {act : ProxyAct} (h : p.pc = .finished) : p.step act = none := by
  cases act <;> simp only [Proxy.step, h]

theorem fresh_step {p : Proxy} {act : ProxyAct} (ha : s.threadActive = false)
    (hallowed : s.allows act = true) (h : Proxy.fresh.step act = some p) : p.Missed := by
  cases act <;> simp [Proxy.step, Proxy.fresh, allows, ha] at h hallowed
  exact .inl h.symm

theorem stage_thread {act : ProxyAct} {p q : Proxy} (h : s.Stage) (hp : s.thread = some p)
    (hallowed : s.allows act = true) (hq : p.step act = some q) :
    Stage { s with thread := some q, dialled := s.dialled ++ s.dials act } := by
  have hnone : s.thread ≠ none := by simp [hp]
  unfold Stage at h ⊢
  dsimp only
  have hserve : ∀ u, s.threadActive = true ∧ s.Listens ∧ 0 < s.portLocal ∧
      (∃ p, s.thread = some p ∧ (p.pc.Running ∨ p.Missed)) ∨
        s.threadActive = false ∧ s.thread = none ∧ u →
      s.threadActive = true ∧ s.Listens ∧ 0 < s.portLocal ∧
        (∃ p, some q = some p ∧ (p.pc.Running ∨ p.Missed)) := by
    rintro u (⟨ha, hlisten, hport, p', hp', hserve⟩ | ⟨-, hno, -⟩)
    · obtain rfl := Option.some.inj (hp.symm.trans hp')
      refine ⟨ha, hlisten, hport, q, rfl, hserve.imp (fun hrun => ?_) fun hmiss => ?_⟩
      · refine running_step hrun ?_ (proxy_move hq)
        rintro rfl
        simp [allows, ha] at hallowed
      · exact missed_step hmiss hq
    · exact absurd hno hnone
  split at h
  case h_1 | h_2 | h_3 => exact .inl (hserve _ h)
  case h_4 | h_5 => exact absurd h.2.1 hnone
  case h_6 =>
    obtain ⟨ha, hlisten, hport, p', hp', hthread⟩ := h
    obtain rfl := Option.some.inj (hp.symm.trans hp')
    refine ⟨ha, hlisten, hport, q, rfl, .inr ?_⟩
    rcases hthread with rfl | hmiss
    · exact fresh_step ha hallowed hq
    · exact missed_step hmiss hq
  case h_7 => exact absurd h.2.1 hnone
  case h_8 => exact ⟨h.1, h.2.1, rfl⟩
  case h_9 =>
    obtain ⟨-, -, p', hp', hend⟩ := h
    obtain rfl := Option.some.inj (hp.symm.trans hp')
    rw [ended_step hend] at hq
    cases hq
  case h_10 =>
    rw [ended_step (h.2.1 p hp)] at hq
    cases hq

theorem stage_step {act : CallerAct} (h : s.Stage) (hm : ObjectMove s act t) : t.Stage := by
  cases hm
  case thread hp hallowed hq => exact stage_thread h hp hallowed hq
  case start hpc | storePort hpc =>
    unfold Stage at h
    rw [hpc] at h
    exact h
  case active hpc ha =>
    unfold Stage at h
    rw [hpc] at h
    obtain h | h := h
    · exact .inl h
    · simp [ha] at h
  case inactive hpc ha =>
    unfold Stage at h
    rw [hpc] at h
    obtain h | ⟨-, hthread, hsock⟩ := h
    · simp [ha] at h
    · refine ⟨ha, hthread, ?_⟩
      rcases hsock with hnil | hopen
      · show s.listening.filter _ = []
        rw [hnil]
        rfl
      · exact hopen.1.closeSock
  case noSocket hpc =>
    unfold Stage at h
    rw [hpc] at h
    exact ⟨h.1, h.2.1, .inl h.2.2⟩
  case noPort hpc =>
    unfold Stage at h
    rw [hpc] at h
    exact ⟨h.1, h.2.1, .inr ⟨_, rfl, by rw [h.2.2]⟩⟩
  case listens hpc hport =>
    unfold Stage at h
    rw [hpc] at h
    exact ⟨h.1, h.2.1, ⟨_, rfl, by rw [h.2.2]⟩, hport⟩
  case creates hpc =>
    unfold Stage at h
    rw [hpc] at h
    exact ⟨h.1, h.2.2.1, h.2.2.2, _, rfl, .inl rfl⟩
  case createFails hpc =>
    unfold Stage at h
    rw [hpc] at h
    exact ⟨h.1, h.2.1, .inr h.2.2.1⟩
  case store ok hpc =>
    unfold Stage at h
    rw [hpc] at h
    cases ok with
    | true =>
      obtain ⟨-, hlisten, hport, p, hp, hthread⟩ := h
      refine .inl ⟨rfl, hlisten, hport, p, hp, hthread.imp_left fun hfresh => ?_⟩
      rw [hfresh]
      exact ⟨ProxyPc.noConfusion, ProxyPc.noConfusion⟩
    | false =>
      refine .inr ⟨rfl, h.2.1, h.2.2.imp_right fun hlisten => ⟨hlisten, ?_⟩⟩
      exact List.getLast?_concat
  case stop hpc ha =>
    unfold Stage at h
    rw [hpc] at h
    obtain ⟨-, hlisten, -, p, hp, -⟩ | h := h
    · exact ⟨rfl, hlisten, by rw [hp]; rfl⟩
    · simp [ha] at h
  case noThread hpc ha =>
    unfold Stage at h
    rw [hpc] at h
    obtain h | ⟨-, hthread, hsock⟩ := h
    · simp [ha] at h
    · exact ⟨ha, fun p hp => by simp [hthread] at hp, hsock⟩
  case join hpc hend =>
    unfold Stage at h
    rw [hpc] at h
    obtain ⟨p, hp⟩ := Option.isSome_iff_exists.mp h.2.2
    exact ⟨h.1, h.2.1, p, hp, hend p hp⟩
  case close hpc =>
    unfold Stage at h
    rw [hpc] at h
    obtain ⟨ha, hlisten, p, hp, hend⟩ := h
    refine ⟨ha, fun p' hp' => ?_, .inl hlisten.closeSock⟩
    obtain rfl := Option.some.inj (hp.symm.trans hp')
    exact hend

theorem Stage.alive (h : s.Stage) {p : Proxy} (hp : s.thread = some p) (hpc : p.pc ≠ .finished) :
    s.Listens := by
  unfold Stage at h
  split at h
  case h_1 | h_2 | h_3 =>
    obtain h | h := h
    · exact h.2.1
    · simp [hp] at h
  case h_4 | h_5 | h_7 => simp [hp] at h
  case h_6 | h_8 | h_9 => exact h.2.1
  case h_10 => exact absurd (h.2.1 p hp) hpc

theorem Stage.serves (h : s.Stage) (ha : s.threadActive = true) :
    s.Listens ∧ ∃ p, s.thread = some p ∧ (p.pc.Running ∨ p.Missed) := by
  unfold Stage at h
  split at h
  case h_1 | h_2 | h_3 =>
    obtain h | h := h
    · exact ⟨h.2.1, h.2.2.2⟩
    · simp [ha] at h
  all_goals simp [ha] at h

theorem Stage.single (h : s.Stage) : s.listening.length ≤ 1 := by
  have hone : s.listening = [] ∨ s.Listens → s.listening.length ≤ 1 := by
    rintro (hnil | ⟨fd, -, hlist⟩)
    · simp [hnil]
    · simp [hlist]
  apply hone
  unfold Stage at h
  split at h
  case h_1 | h_2 | h_3 =>
    obtain h | h := h
    · exact .inr h.2.1
    · exact h.2.2.imp_right And.left
  case h_4 => exact .inl h.2.2
  case h_5 => exact .inr h.2.2.1
  case h_6 | h_8 | h_9 => exact .inr h.2.1
  case h_7 => exact h.2.2
  case h_10 => exact h.2.2.imp_right And.left

/-- A new port is only found before there is a thread. -/
theorem Stage.thread_none (h : s.Stage) (hpc : s.pc = .listen ∨ s.pc = .create) :
    s.thread = none := by
  unfold Stage at h
  rcases hpc with hpc | hpc <;> rw [hpc] at h <;> exact h.2.1

/-! ## What `Start` returns -/

/-- The thread is created once, and from then on `Start` returns its port. -/
structure Answers (s : ProxyObject) : Prop where
  created : s.created = s.thread.isSome.toNat
  zeros : s.thread = none ∨ s.pc = .store true → ∀ a ∈ s.answers, a = 0
  port : ∀ a ∈ s.answers, a = 0 ∨ a = s.portLocal
  constant : s.answers.Pairwise fun a b => a ≠ 0 → b = a

theorem Answers.frame (h : s.Answers) (hcreated : t.created = s.created)
    (hthread : t.thread.isSome = s.thread.isSome) (hpc : t.pc ≠ .store true)
    (hport : t.portLocal = s.portLocal ∨ s.thread = none) (hanswers : t.answers = s.answers) :
    t.Answers := by
  have hnone : t.thread = none → s.thread = none := by
    intro hno
    rw [hno] at hthread
    simpa using hthread.symm
  refine ⟨by rw [hcreated, hthread, h.created], fun ht => ?_, fun a ha => ?_, hanswers ▸ h.constant⟩
  · rw [hanswers]
    exact h.zeros (.inl (hnone (ht.resolve_right hpc)))
  · rw [hanswers] at ha
    obtain hport | hno := hport
    · rw [hport]
      exact h.port a ha
    · exact .inl (h.zeros (.inl hno) a ha)

theorem pairwise_snoc {as : List Int} {b : Int} (h : as.Pairwise fun a b => a ≠ 0 → b = a)
    (hb : ∀ a ∈ as, a = 0 ∨ a = b) : (as ++ [b]).Pairwise fun a b => a ≠ 0 → b = a := by
  refine List.pairwise_append.mpr ⟨h, List.pairwise_singleton .., fun a ha b' hb' hne => ?_⟩
  obtain rfl := List.mem_singleton.mp hb'
  exact ((hb a ha).resolve_left hne).symm

theorem answers_step {act : CallerAct} (hs : s.Stage) (h : s.Answers) (hm : ObjectMove s act t) :
    t.Answers := by
  cases hm
  case thread p q hp hallowed hq =>
    exact ⟨by simpa [hp] using h.created, fun ht => h.zeros (.inr (ht.resolve_left (by simp))),
      h.port, h.constant⟩
  case active hpc ha =>
    obtain ⟨-, p, hp, -⟩ := hs.serves ha
    refine ⟨h.created, fun ht => ?_, fun a hmem => ?_, pairwise_snoc h.constant h.port⟩
    · exact absurd ht (by simp [answer, hp])
    · rcases List.mem_append.mp hmem with hmem | hmem
      · exact h.port a hmem
      · exact .inr (List.mem_singleton.mp hmem)
  case creates hpc =>
    have hno := hs.thread_none (.inr hpc)
    have hzeros := h.zeros (.inl hno)
    refine ⟨?_, fun _ => hzeros, fun a hmem => .inl (hzeros a hmem), h.constant⟩
    simp [h.created, hno]
  case store ok hpc =>
    have hzeros : ∀ a ∈ s.answers, a = 0 := by
      cases ok with
      | true => exact h.zeros (.inr hpc)
      | false =>
        unfold Stage at hs
        rw [hpc] at hs
        exact h.zeros (.inl hs.2.1)
    refine ⟨h.created, fun ht => ?_, fun a hmem => ?_,
      pairwise_snoc h.constant fun a hmem => .inl (hzeros a hmem)⟩
    · cases ok with
      | true =>
        unfold Stage at hs
        rw [hpc] at hs
        obtain ⟨-, -, -, p, hp, -⟩ := hs
        exact absurd ht (by simp [answer, hp])
      | false =>
        intro a hmem
        rcases List.mem_append.mp hmem with hmem | hmem
        · exact hzeros a hmem
        · exact List.mem_singleton.mp hmem
    · rcases List.mem_append.mp hmem with hmem | hmem
      · exact .inl (hzeros a hmem)
      · cases ok with
        | true => exact .inr (List.mem_singleton.mp hmem)
        | false => exact .inl (List.mem_singleton.mp hmem)
  case noSocket hpc | noPort hpc | listens hpc hport =>
    exact h.frame rfl rfl (by simp) (.inr (hs.thread_none (.inl hpc))) rfl
  all_goals exact h.frame rfl rfl (by simp) (.inl rfl) rfl

/-! ## What the thread dials -/

/-- `Start` has stored what it has been given. -/
def Told : CallerPc → Prop
  | .test | .listen | .create | .store _ => True
  | _ => False

/-- The thread dials devices and ports that `Start` has been given. -/
structure Dials (s : ProxyObject) : Prop where
  device : s.calls ≠ [] → ∃ dev ∈ s.calls.map Prod.fst, s.proxyDevice = some dev
  asked : ∀ port, s.pc = .storePort port → port ∈ s.calls.map Prod.snd
  remote : Told s.pc ∨ s.thread.isSome = true →
    s.calls ≠ [] ∧ s.portRemote ∈ s.calls.map Prod.snd
  dialled : ∀ d ∈ s.dialled,
    (∃ dev ∈ s.calls.map Prod.fst, d.1 = some dev) ∧ d.2 ∈ s.calls.map Prod.snd

theorem Dials.frame (h : s.Dials) (hdevice : t.proxyDevice = s.proxyDevice)
    (hport : t.portRemote = s.portRemote) (hcalls : t.calls = s.calls)
    (hdialled : t.dialled = s.dialled) (hasked : ∀ port, t.pc ≠ .storePort port)
    (htold : Told t.pc ∨ t.thread.isSome = true →
      Told s.pc ∨ s.thread.isSome = true) : t.Dials := by
  refine ⟨?_, fun port hpc => absurd hpc (hasked port), fun ht => ?_, ?_⟩
  · rw [hcalls, hdevice]
    exact h.device
  · rw [hcalls, hport]
    exact h.remote (htold ht)
  · rw [hdialled, hcalls]
    exact h.dialled

theorem dials_step {act : CallerAct} (h : s.Dials) (hm : ObjectMove s act t) : t.Dials := by
  cases hm
  case thread a p q hp hallowed hq =>
    obtain ⟨hcalls, hport⟩ := h.remote (.inr (by rw [hp]; rfl))
    refine ⟨h.device, h.asked, fun _ => ⟨hcalls, hport⟩, fun d hd => ?_⟩
    rcases List.mem_append.mp hd with hd | hd
    · exact h.dialled d hd
    · cases a <;> simp only [dials, List.not_mem_nil, List.mem_singleton] at hd
      subst hd
      exact ⟨h.device hcalls, hport⟩
  case start dev port hpc =>
    have hmem : ∀ {β : Type} (f : Nat × Int → β) b, b ∈ s.calls.map f →
        b ∈ (s.calls ++ [(dev, port)]).map f := by
      intro β f b hb
      rw [List.map_append]
      exact List.mem_append_left _ hb
    refine ⟨fun _ => ⟨dev, by simp, rfl⟩, fun port' hport => ?_, fun ht => ?_, fun d hd => ?_⟩
    · cases hport
      simp
    · obtain ⟨-, hport⟩ := h.remote (.inr (ht.resolve_left id))
      exact ⟨by simp, hmem _ _ hport⟩
    · obtain ⟨⟨dev', hdev, heq⟩, hport⟩ := h.dialled d hd
      exact ⟨⟨dev', hmem _ _ hdev, heq⟩, hmem _ _ hport⟩
  case storePort port hpc =>
    have hport := h.asked port hpc
    refine ⟨h.device, fun _ hpc' => (by cases hpc'), fun _ => ⟨?_, hport⟩, h.dialled⟩
    intro (hnil : s.calls = [])
    simp [hnil] at hport
  all_goals
    refine h.frame rfl rfl rfl rfl (by simp [answer]) ?_
    simp_all [Told, answer, closeSock]

/-! ## The life of the object -/

/-- What holds of the object, its socket, its thread and the sockets of the thread. -/
structure InOrder (s : ProxyObject) : Prop where
  created : s.created ≤ 1
  single : s.listening.length ≤ 1
  serves : s.threadActive = true →
    s.Listens ∧ ∃ p, s.thread = some p ∧ (p.pc.Running ∨ p.Missed)
  listens : ∀ p, s.thread = some p → p.pc ≠ .finished → s.Listens
  sockets : ∀ p, s.thread = some p → p.Tidy
  answers : s.answers.Pairwise fun a b => a ≠ 0 → b = a
  dialled : ∀ d ∈ s.dialled,
    (∃ dev ∈ s.calls.map Prod.fst, d.1 = some dev) ∧ d.2 ∈ s.calls.map Prod.snd
  closed : s.pc = .destroyed →
    (∀ p, s.thread = some p → ∀ fd, p.files fd = none) ∧ (s.listening = [] ∨ s.LeftOpen)

/-- The thread runs `proxy_run`. -/
def Runs (s : ProxyObject) : Prop := ∀ p, s.thread = some p → proxy.Reachable p

theorem runs_step {act : CallerAct} (h : s.Runs) (hm : ObjectMove s act t) : t.Runs := by
  cases hm
  case thread p q hp hallowed hq =>
    intro p' hp'
    obtain rfl := Option.some.inj hp'
    exact (h p hp).next hq
  case creates =>
    intro p hp
    obtain rfl := Option.some.inj hp
    exact .start rfl
  all_goals exact h

theorem files_of_finished {p : Proxy} (h : proxy.Reachable p) (hend : p.pc = .finished) (fd : Nat) :
    p.files fd = none := by
  have hmem := (tidy_of_reachable h).files fd
  simp only [hend, ProxyPc.dialling, Proxy.sockets, list_of_finished h hend, List.flatMap_nil,
    List.append_nil, List.not_mem_nil, iff_false] at hmem
  simpa using hmem

end ProxyObject

theorem object_invariant {s : ProxyObject} (h : proxyObject.Reachable s) :
    s.Stage ∧ s.Answers ∧ s.Dials ∧ s.Runs := by
  refine h.invariant (I := fun s : ProxyObject => s.Stage ∧ s.Answers ∧ s.Dials ∧ s.Runs) ?_
    fun s a t hr hi hg ht => ?_
  · rintro _ rfl
    refine ⟨.inr ⟨rfl, rfl, .inl rfl⟩, ⟨rfl, fun _ => ?_, ?_, .nil⟩, ⟨?_, ?_, ?_, ?_⟩, ?_⟩
    all_goals simp [ProxyObject.new, ProxyObject.Told, ProxyObject.Runs]
  · have hm := proxyObject_move ht
    exact ⟨ProxyObject.stage_step hi.1 hm, ProxyObject.answers_step hi.1 hi.2.1 hm,
      ProxyObject.dials_step hi.2.2.1 hm, ProxyObject.runs_step hi.2.2.2 hm⟩

/-- **The proxy and its thread.** In every run, whatever the system calls answer and however
the calls of `Start`, the destructor and the steps of the thread are interleaved: at most one
thread is ever created and at most one socket listens; as long as there is a thread it listens,
and `Start` returns the port again; the thread dials what `Start` has been given and has open
what its list holds; and the destructor leaves no socket open but that of a `Start` that has
failed. -/
theorem proxy_object {s : ProxyObject} (h : proxyObject.Reachable s) : s.InOrder := by
  obtain ⟨hstage, hanswers, hdials, hruns⟩ := object_invariant h
  refine ⟨?_, hstage.single, hstage.serves, fun p hp => hstage.alive hp,
    fun p hp => tidy_of_reachable (hruns p hp), hanswers.constant, hdials.dialled, fun hpc => ?_⟩
  · rw [hanswers.created]
    cases s.thread.isSome <;> decide
  · unfold ProxyObject.Stage at hstage
    rw [hpc] at hstage
    exact ⟨fun p hp => ProxyObject.files_of_finished (hruns p hp) (hstage.2.1 p hp), hstage.2.2⟩

/-- A client is served after a second `Start`, and the destructor is called. -/
def servingStart : List CallerAct :=
  [.start 1 4747, .tick, .tick, .listen (some 3) 50000, .create true, .tick,
    .start 1 4747, .tick, .tick, .thread (.accept (some 4) false), .thread (.connect 5 ⟨2, 0⟩),
    .destroy]

/-- The thread sees it behind `select`, closes the connection and ends. -/
def servingEnd : List CallerAct :=
  [.thread (.select 0 []), .thread .stop, .thread .tick, .thread .tick, .tick]

theorem proxy_object_serving : ∃ s, proxyObject.Reachable s ∧ s.pc = .destroyed ∧
    s.answers = [50000, 50000] ∧ s.dialled = [(some 1, 4747)] ∧ s.InOrder := by
  obtain ⟨s, hs, hp⟩ := proxyObject.reachable_of_replay
    (fun s => s.pc = .destroyed ∧ s.answers = [50000, 50000] ∧ s.dialled = [(some 1, 4747)])
    .new (servingStart ++ servingEnd ++ [.tick]) rfl (by decide +kernel)
  obtain ⟨hpc, hanswers, hdialled⟩ := of_decide_eq_true hp
  exact ⟨s, hs, hpc, hanswers, hdialled, proxy_object hs⟩

/-- The thread looks at `thread_active` before `Start` has stored it: nobody listens to the
clients of the port that `Start` returns. -/
example : proxyObject.replay (fun _ _ => true)
    (fun s => s.threadActive ∧ s.answers = [50000] ∧ s.thread.any fun p => p.pc = .finished) .new
    [.start 1 4747, .tick, .tick, .listen (some 3) 50000, .create true, .thread .stop,
      .thread .tick, .tick] = true := by
  decide +kernel

/-! ## The join -/

/-- How many steps a turn of the loop over the list has at most. -/
def turnSteps : Nat := 2 * bufSize + 5

/-- How many steps the turn that has begun has left. -/
def ProxyPc.turn : ProxyPc → Nat
  | .send _ .toRemote _ len _ => len + bufSize + 4
  | .look _ .toClient _ => bufSize + 3
  | .send _ .toClient _ len _ => len + 2
  | .finish _ _ => 1
  | _ => 0

/-- How many steps the thread has ahead of it at most when `thread_active` is cleared. -/
def Proxy.ahead (p : Proxy) : Nat :=
  match p.pc with
  | .finished => 0
  | .ending => p.list.length + 1
  | .top => p.list.length + 2
  | .waiting => turnSteps * p.list.length + p.list.length + 4
  | .connecting _ => turnSteps * (p.list.length + 1) + p.list.length + 6
  | .look i .toRemote _ => turnSteps * (p.list.length - i) + p.list.length + 3
  | .look i .toClient _ | .send i .. | .finish i _ =>
      turnSteps * (p.list.length - (i + 1)) + p.pc.turn + p.list.length + 3

theorem afterAccept_ahead (p : Proxy) :
    p.afterAccept.ahead ≤ turnSteps * p.list.length + p.list.length + 4 := by
  have hlist : p.afterAccept.list = p.list := rfl
  rcases RelayInv.afterAccept_pc p with hpc | hpc
  · simp only [Proxy.ahead, hpc, hlist]
    omega
  · simp only [Proxy.ahead, hpc, hlist, Nat.le_refl]

theorem ahead_le {p : Proxy} (h : proxy.Reachable p) :
    p.ahead ≤ turnSteps * (p.list.length + 1) + p.list.length + 6 := by
  have hsize := (inTurn_of_reachable h).size
  cases hpc : p.pc with
  | look i dir err =>
    cases dir <;> simp only [Proxy.ahead, hpc, ProxyPc.turn, turnSteps, bufSize] <;> omega
  | send i dir off len err =>
    have hlen := hsize i dir off len err hpc
    cases dir <;>
      simp only [Proxy.ahead, hpc, ProxyPc.turn, turnSteps, bufSize] at hlen ⊢ <;> omega
  | _ =>
    simp only [Proxy.ahead, hpc, ProxyPc.turn, turnSteps, bufSize]
    omega

/-- A step of the thread brings it closer to its end, if it accepts nobody. -/
theorem proxyStep_ahead {p q : Proxy} {act : ProxyAct}
    (hact : ∀ client nonblock, act ≠ .accept client nonblock) (h : p.step act = some q) :
    q.ahead < p.ahead := by
  cases proxy_move h
  case acceptNone => exact absurd rfl (hact _ _)
  case accept => exact absurd rfl (hact _ _)
  case stop hpc | selectNone hpc | finished hpc =>
    simp only [Proxy.ahead, hpc]
    omega
  case select hpc =>
    simp only [Proxy.ahead, hpc, Nat.sub_zero]
    omega
  case connect client hpc hnew =>
    refine Nat.lt_of_le_of_lt (afterAccept_ahead _) ?_
    simp only [Proxy.ahead, hpc, Proxy.pushConn, Proxy.setFile, List.length_append,
      List.length_singleton]
    omega
  case connectFail client hpc =>
    refine Nat.lt_of_le_of_lt (afterAccept_ahead _) ?_
    simp only [Proxy.ahead, hpc, Proxy.netClose, turnSteps, bufSize]
    omega
  case lookEnd i dir err hpc hend =>
    cases dir <;> simp only [Proxy.ahead, hpc] <;> omega
  case lookPast i dir err hpc =>
    have hi := lookPast_lt hpc h
    cases dir <;> simp only [Proxy.ahead, hpc, Proxy.next, ProxyPc.turn, turnSteps, bufSize] <;> omega
  case recv i dir err c e d hpc hc he =>
    have hi := (List.getElem?_eq_some_iff.mp hc).1
    have hlen := step_sizes.1 d h
    cases dir <;>
      simp only [Proxy.ahead, hpc, Proxy.received, Proxy.setFile, ProxyPc.turn, turnSteps,
        bufSize] at hlen ⊢ <;> omega
  case recvEnd i dir err c e hpc hc he =>
    have hi := (List.getElem?_eq_some_iff.mp hc).1
    cases dir <;>
      simp only [Proxy.ahead, hpc, Proxy.receivedEnd, Proxy.setFile, Proxy.next, ProxyPc.turn,
        turnSteps, bufSize] <;> omega
  case send i dir off len err c e n hpc hn hc he =>
    have hpos := step_sizes.2 n h
    cases dir <;>
      simp only [Proxy.ahead, hpc, Proxy.accepted, Proxy.setFile, ProxyPc.turn] <;> omega
  case sendFail i dir off len err c e errno hpc hlen hc he =>
    cases dir <;>
      simp only [Proxy.ahead, hpc, Proxy.sendFailed, Proxy.setFile, Proxy.next, ProxyPc.turn] <;>
      omega
  case sent i dir off err hpc =>
    cases dir <;> simp only [Proxy.ahead, hpc, Proxy.next, ProxyPc.turn] <;> omega
  case tearDown i c hpc hc =>
    have hi := (List.getElem?_eq_some_iff.mp hc).1
    simp only [Proxy.ahead, hpc, Proxy.tearDown, Proxy.netClose, List.length_eraseIdx, if_pos hi,
      ProxyPc.turn, turnSteps, bufSize]
    omega
  case keep i hpc =>
    simp only [Proxy.ahead, hpc, ProxyPc.turn, turnSteps, bufSize]
    omega
  case pop c hpc hc =>
    have hpos : 0 < p.list.length := by
      rw [List.length_pos_iff]
      rintro hnil
      simp [hnil] at hc
    simp only [Proxy.ahead, hpc, Proxy.popConn, Proxy.netClose, List.length_dropLast]
    omega

/-- The thread never waits for a socket that is closed, and goes on when its call returns. -/
theorem proxy_can_step {s : ProxyObject} {p : Proxy} (ha : s.threadActive = false)
    (hp : s.thread = some p) (h : proxy.Reachable p) (hpc : p.pc ≠ .finished) :
    ∃ act t, s.step (.thread act) = some t := by
  have htidy := tidy_of_reachable h
  have hturn := (inTurn_of_reachable h).index
  have hopen : ∀ c ∈ p.list, ∀ dir, ∃ e, p.files (c.src dir) = some e := by
    intro c hc dir
    refine Option.isSome_iff_exists.mp ((htidy.files _).mpr (List.mem_append_right _ ?_))
    refine List.mem_flatMap.mpr ⟨c, hc, ?_⟩
    cases dir <;> simp [ProxyConn.sockets, ProxyConn.src]
  suffices h : ∃ act q, s.allows act = true ∧ p.step act = some q by
    obtain ⟨act, q, hallowed, hq⟩ := h
    refine ⟨act, { s with thread := some q, dialled := s.dialled ++ s.dials act }, ?_⟩
    have hstep : s.step (.thread act) = s.threadStep act := by cases s.pc <;> rfl
    simp [hstep, ProxyObject.threadStep, hp, hallowed, hq]
  cases hpc' : p.pc with
  | top => exact ⟨.stop, { p with pc := .ending }, by simp [ProxyObject.allows, ha],
      by simp [Proxy.step, hpc']⟩
  | connecting client => exact ⟨.connect 0 ⟨0, 0⟩, (p.netClose client).afterAccept,
      by simp [ProxyObject.allows], by simp [Proxy.step, hpc']⟩
  | waiting => exact ⟨.select 0 [], { p with pc := .top }, rfl, by simp [Proxy.step, hpc']⟩
  | look i dir err =>
    cases hc : p.list[i]? with
    | none => exact ⟨.tick, { p with pc := .top }, rfl, by simp [Proxy.step, hpc', hc]⟩
    | some c =>
      by_cases hready : c.src dir ∈ p.readFds
      · obtain ⟨e, he⟩ := hopen c (List.mem_of_getElem? hc) dir
        exact ⟨.recvEnd, p.receivedEnd i dir (c.src dir) e, rfl,
          by simp [Proxy.step, hpc', Proxy.onFile, hc, he, hready]⟩
      · exact ⟨.tick, { p with pc := Proxy.next i dir err }, rfl,
          by simp [Proxy.step, hpc', hc, hready]⟩
  | send i dir off len err =>
    obtain ⟨c, hc⟩ : ∃ c, p.list[i]? = some c :=
      ⟨_, List.getElem?_eq_getElem (hturn i (by rw [hpc']; rfl))⟩
    by_cases hlen : len = 0
    · exact ⟨.tick, { p with pc := Proxy.next i dir err }, rfl, by simp [Proxy.step, hpc', hlen]⟩
    · obtain ⟨e, he⟩ := hopen c (List.mem_of_getElem? hc) dir.other
      refine ⟨.send 1, p.accepted i dir off len err (c.dst dir) e 1, rfl, ?_⟩
      simp [Proxy.step, hpc', Proxy.onFile, hc, ProxyConn.dst, he]
      omega
  | finish i err =>
    obtain ⟨c, hc⟩ : ∃ c, p.list[i]? = some c :=
      ⟨_, List.getElem?_eq_getElem (hturn i (by rw [hpc']; rfl))⟩
    refine ⟨.tick, if err then p.tearDown i c else { p with pc := .look (i + 1) .toRemote false },
      rfl, ?_⟩
    simp only [Proxy.step, hpc', hc, Option.map_some]
  | ending =>
    cases hc : p.list.getLast? with
    | none => exact ⟨.tick, { p with pc := .finished }, rfl, by simp only [Proxy.step, hpc', hc]⟩
    | some c => exact ⟨.tick, p.popConn c, rfl, by simp only [Proxy.step, hpc', hc]⟩
  | finished => exact absurd hpc' hpc

namespace ProxyObject

/-- The destructor has cleared `thread_active`. -/
def Closing (s : ProxyObject) : Prop :=
  proxyObject.Reachable s ∧ (s.pc = .joining ∨ s.pc = .closing ∨ s.pc = .destroyed)

def ahead (s : ProxyObject) : Nat := (s.thread.map Proxy.ahead).getD 0

theorem Closing.inactive {s : ProxyObject} (h : s.Closing) : s.threadActive = false := by
  have hstage := (object_invariant h.1).1
  unfold Stage at hstage
  obtain hpc | hpc | hpc := h.2 <;> rw [hpc] at hstage <;> exact hstage.1

end ProxyObject

def CallerAct.isThread : CallerAct → Bool
  | .thread _ => true
  | _ => false

theorem closing_variant : proxyObject.Variant ProxyObject.Closing (fun _ => False)
    CallerAct.isThread ProxyObject.ahead where
  keeps s a t hs ht := by
    refine ⟨hs.1.next ht, ?_⟩
    have hpc := hs.2
    cases proxyObject_move ht
    case thread => exact hpc
    case join => exact .inr (.inl rfl)
    case close => exact .inr (.inr rfl)
    all_goals simp_all
  stays _ _ _ _ _ h := h
  lowers s a t hs ht := by
    refine .inr ?_
    cases proxyObject_move ht
    case thread act p q hp hallowed hq =>
      have hact : ∀ client nonblock, act ≠ .accept client nonblock := by
        rintro client nonblock rfl
        simp [ProxyObject.allows, hs.inactive] at hallowed
      have hlt := proxyStep_ahead hact hq
      simpa [ProxyObject.ahead, hp, CallerAct.isThread] using Nat.succ_le_of_lt hlt
    case creates hpc =>
      have hstop := hs.2
      simp [hpc] at hstop
    all_goals exact Nat.le_refl _

/-- **The destructor returns**, if the calls of the thread do. Once it has cleared
`thread_active`, the thread makes a number of steps at most that its connections bound,
whatever the clients and the phone send, and its next call has an answer with which it goes
on, until `pthread_join` returns. A `send` to a client may wait for it to read: that the
client does is assumed. -/
theorem proxy_join_returns {s : ProxyObject} (h : proxyObject.Reachable s) (hpc : s.pc = .joining)
    {p : Proxy} (hp : s.thread = some p) {as : List CallerAct} {t : ProxyObject}
    (hrun : as.foldlM ProxyObject.step s = some t) :
    as.countP CallerAct.isThread ≤ turnSteps * (p.list.length + 1) + p.list.length + 6 ∧
      (t.pc = .joining → (∃ u, t.step .tick = some u ∧ u.pc = .closing) ∨
        ∃ act u, t.step (.thread act) = some u) := by
  obtain ⟨ht, hle⟩ := closing_variant.run (s := s) ⟨h, .inl hpc⟩ hrun
  have hle := hle.resolve_left id
  have hrank : s.ahead ≤ turnSteps * (p.list.length + 1) + p.list.length + 6 := by
    have hahead := ahead_le ((object_invariant h).2.2.2 p hp)
    simpa [ProxyObject.ahead, hp] using hahead
  refine ⟨by omega, fun hjoin => ?_⟩
  obtain ⟨hstage, -, -, hruns⟩ := object_invariant ht.1
  unfold ProxyObject.Stage at hstage
  rw [hjoin] at hstage
  obtain ⟨q, hq⟩ := Option.isSome_iff_exists.mp hstage.2.2
  by_cases hend : q.pc = .finished
  · exact .inl ⟨{ t with pc := .closing }, by simp [ProxyObject.step, hjoin, hq, hend], rfl⟩
  · exact .inr (proxy_can_step hstage.1 hq (hruns q hq) hend)

/-- The destructor is called while a client is connected. -/
theorem proxy_join_returns_serving : ∃ s t : ProxyObject, s.pc = .joining ∧
    servingEnd.foldlM ProxyObject.step s = some t ∧ t.pc = .closing ∧
      servingEnd.countP CallerAct.isThread ≤ 2 * turnSteps + 7 := by
  obtain ⟨s, hs, hp⟩ := proxyObject.reachable_of_replay
    (fun s => s.pc = .joining ∧ (s.thread.any fun p => p.list.length = 1) = true ∧
      ((servingEnd.foldlM ProxyObject.step s).any fun t => t.pc = .closing) = true)
    .new servingStart rfl (by decide +kernel)
  obtain ⟨hpc, hthread, hend⟩ := of_decide_eq_true hp
  obtain ⟨p, hthread, hlen⟩ := (Option.any_eq_true _ _).mp hthread
  obtain ⟨t, hrun, hend⟩ := (Option.any_eq_true _ _).mp hend
  have hbound := (proxy_join_returns hs hpc hthread hrun).1
  rw [of_decide_eq_true hlen] at hbound
  exact ⟨s, t, hpc, hrun, of_decide_eq_true hend, by omega⟩

end DroidcamWhip
