import Mathlib.Logic.Function.Basic
import DroidcamWhip.Lib.Pipe
import DroidcamWhip.Lib.Runs
import DroidcamWhip.NetConnect

/-!
`proxy.cc`: the thread that relays between local clients and a phone behind USB.
It makes one system call at a time, and every answer of a call is an action. `SIGPIPE` is
taken to be ignored, so that a `send` to a peer that is gone fails, and every descriptor to
be below `FD_SETSIZE`.
-/

namespace DroidcamWhip

/-! ## Sockets -/

/-- An open socket: whether it blocks, what `recv` has returned, what `send` has
accepted, whether a `recv` has returned 0 or less, and the code of a failed `send`. -/
structure Endpoint where
  nonblock : Bool
  read : List UInt8
  accepted : List UInt8
  ended : Bool
  failed : Option Int
  deriving DecidableEq

def Endpoint.new (nonblock : Bool) : Endpoint := ⟨nonblock, [], [], false, none⟩

/-- The codes of a `send` that finds no room in the buffer of the socket. -/
def SendFull (errno : Int) : Prop := errno = eagain ∨ errno = ewouldblock

instance (errno : Int) : Decidable (SendFull errno) := inferInstanceAs (Decidable (_ ∨ _))

/-- From the client to the phone, or back. -/
inductive Direction where
  | toRemote
  | toClient
  deriving DecidableEq

def Direction.other : Direction → Direction
  | toRemote => toClient
  | toClient => toRemote

structure ProxyConn where
  client : Nat
  remote : Nat
  deriving DecidableEq

namespace ProxyConn

/-- The socket that a direction reads from. -/
def src (c : ProxyConn) : Direction → Nat
  | .toRemote => c.client
  | .toClient => c.remote

/-- The socket that a direction writes to. -/
def dst (c : ProxyConn) (dir : Direction) : Nat := c.src dir.other

end ProxyConn

/-! ## The thread -/

def bufSize : Nat := 32768

/-- Where `proxy_run` is: at the top of its loop, in `usbmuxd_connect`, at `select`;
in the loop over the list, where `i` is the position of the iterator, about to
look at one of the two sockets, in `net_send_all` with the part of the buffer that
is left, or done with both; closing what is left; at its end. -/
inductive ProxyPc where
  | top
  | connecting (client : Nat)
  | waiting
  | look (i : Nat) (dir : Direction) (err : Bool)
  | send (i : Nat) (dir : Direction) (off len : Nat) (err : Bool)
  | finish (i : Nat) (err : Bool)
  | ending
  | finished
  deriving DecidableEq

/-- The two sockets of a connection as they were when it was closed. -/
structure Closed where
  client : Endpoint
  remote : Endpoint
  deriving DecidableEq

/-- `proxy_run` and the sockets of the process; `down` are the connections closed
in the loop, and `left` those closed after it. -/
structure Proxy where
  pc : ProxyPc
  list : List ProxyConn
  set : List Nat
  readFds : List Nat
  buffer : List UInt8
  files : Nat → Option Endpoint
  down : List Closed
  left : List Closed

namespace Proxy

/-- `proxy_run` is called; other sockets are none of its business. -/
def fresh : Proxy := ⟨.top, [], [], [], List.replicate bufSize 0, fun _ => none, [], []⟩

def setFile (s : Proxy) (fd : Nat) (e : Endpoint) : Proxy :=
  { s with files := Function.update s.files fd (some e) }

def netClose (s : Proxy) (fd : Nat) : Proxy :=
  { s with files := Function.update s.files fd none }

/-- After `net_accept`: an empty list has nothing to wait for. -/
def afterAccept (s : Proxy) : Proxy :=
  { s with pc := if s.list.length = 0 then .top else .waiting }

/-- A client has been accepted and the phone has been reached. -/
def pushConn (s : Proxy) (client remote : Nat) (nonblock : Fcntl) : Proxy :=
  { s.setFile remote (.new (decide nonblock.Ok)) with
    list := s.list ++ [⟨client, remote⟩], set := s.set ++ [client, remote] }

/-- What comes after a direction. -/
def next (i : Nat) (dir : Direction) (err : Bool) : ProxyPc :=
  match dir with
  | .toRemote => .look i .toClient err
  | .toClient => .finish i err

/-- `net_recv` of `d` into the buffer. -/
def received (s : Proxy) (i : Nat) (dir : Direction) (err : Bool) (fd : Nat) (e : Endpoint)
    (d : List UInt8) : Proxy :=
  { s.setFile fd { e with read := e.read ++ d } with
    buffer := d ++ s.buffer.drop d.length, pc := .send i dir 0 d.length err }

/-- `net_recv` has returned 0 or less. -/
def receivedEnd (s : Proxy) (i : Nat) (dir : Direction) (fd : Nat) (e : Endpoint) : Proxy :=
  { s.setFile fd { e with ended := true } with pc := next i dir true }

/-- `send` has accepted `n` bytes. -/
def accepted (s : Proxy) (i : Nat) (dir : Direction) (off len : Nat) (err : Bool) (fd : Nat)
    (e : Endpoint) (n : Nat) : Proxy :=
  { s.setFile fd { e with accepted := e.accepted ++ (Pipe.window s.buffer off len).take n } with
    pc := .send i dir (off + n) (len - n) err }

/-- `send` has failed, and with it `net_send_all`. -/
def sendFailed (s : Proxy) (i : Nat) (dir : Direction) (fd : Nat) (e : Endpoint)
    (errno : Int) : Proxy :=
  { s.setFile fd { e with failed := some errno } with pc := next i dir true }

/-- The record of a connection that is closed now. -/
def record (s : Proxy) (c : ProxyConn) : List Closed :=
  match s.files c.client, s.files c.remote with
  | some client, some remote => [⟨client, remote⟩]
  | _, _ => []

/-- The end of a turn with an error. -/
def tearDown (s : Proxy) (i : Nat) (c : ProxyConn) : Proxy :=
  { (s.netClose c.client).netClose c.remote with
    list := s.list.eraseIdx i
    set := s.set.filter fun fd => fd ≠ c.client ∧ fd ≠ c.remote
    down := s.down ++ s.record c
    pc := .look i .toRemote false }

/-- A turn of the loop after the main loop. -/
def popConn (s : Proxy) (c : ProxyConn) : Proxy :=
  { (s.netClose c.client).netClose c.remote with
    list := s.list.dropLast
    left := s.left ++ s.record c }

end Proxy

/-- The answers of the system calls: `net_accept`, with whether the new socket blocks;
`usbmuxd_connect` and `set_nonblock`; `select` with the sockets that are ready;
`recv`, which returns data, or 0 or less; `send`, which accepts some bytes, or
fails. `tick` is a step without a call, and `stop` one after `thread_active` has
been cleared. -/
inductive ProxyAct where
  | stop
  | accept (client : Option Nat) (nonblock : Bool)
  | connect (rc : Int) (nonblock : Fcntl)
  | select (rc : Int) (ready : List Nat)
  | recv (data : List UInt8)
  | recvEnd
  | send (n : Nat)
  | sendFail (errno : Int)
  | tick

namespace Proxy

/-- A call on the socket of a connection. -/
def onFile (s : Proxy) (i : Nat) (fd : ProxyConn → Nat) (f : Nat → Endpoint → Option Proxy) :
    Option Proxy :=
  s.list[i]?.bind fun c => (s.files (fd c)).bind fun e => f (fd c) e

def step (s : Proxy) (act : ProxyAct) : Option Proxy :=
  match s.pc, act with
  | .top, .stop => some { s with pc := .ending }
  | .top, .accept none _ => some s.afterAccept
  | .top, .accept (some client) nonblock =>
      -- a new descriptor is not in use
      if s.files client = none then
        some { s.setFile client (.new nonblock) with pc := .connecting client }
      else none
  | .connecting client, .connect rc nonblock =>
      if 0 < rc then
        if s.files rc.toNat = none then some (s.pushConn client rc.toNat nonblock).afterAccept
        else none
      else some (s.netClose client).afterAccept
  | .waiting, .select rc ready =>
      if 0 < rc then
        if ∀ fd ∈ ready, fd ∈ s.set then
          some { s with readFds := ready, pc := .look 0 .toRemote false }
        else none
      else some { s with pc := .top }
  | .look i dir err, .tick =>
      match s.list[i]? with
      | none => some { s with pc := .top }
      | some c => if c.src dir ∈ s.readFds then none else some { s with pc := next i dir err }
  | .look i dir err, .recv d =>
      if 0 < d.length ∧ d.length ≤ bufSize then
        s.onFile i (·.src dir) fun fd e =>
          if fd ∈ s.readFds then some (s.received i dir err fd e d) else none
      else none
  | .look i dir _, .recvEnd =>
      s.onFile i (·.src dir) fun fd e =>
        if fd ∈ s.readFds then some (s.receivedEnd i dir fd e) else none
  | .send i dir off len err, .send n =>
      if 0 < n ∧ n ≤ len then
        s.onFile i (·.dst dir) fun fd e => some (s.accepted i dir off len err fd e n)
      else none
  | .send i dir _ len _, .sendFail errno =>
      if 0 < len then
        s.onFile i (·.dst dir) fun fd e =>
          -- a socket that blocks waits for room
          if SendFull errno ∧ e.nonblock = false then none
          else some (s.sendFailed i dir fd e errno)
      else none
  | .send i dir _ len err, .tick =>
      if len = 0 then some { s with pc := next i dir err } else none
  | .finish i err, .tick =>
      s.list[i]?.map fun c =>
        if err then s.tearDown i c else { s with pc := .look (i + 1) .toRemote false }
  | .ending, .tick =>
      match s.list.getLast? with
      | none => some { s with pc := .finished }
      | some c => some (s.popConn c)
  | _, _ => none

end Proxy

def proxy : Runs.Machine Proxy ProxyAct where
  start s := s = .fresh
  step s act := s.step act

/-- Every step, with where it is made. -/
inductive ProxyMove (s : Proxy) : ProxyAct → Proxy → Prop
  | stop (hpc : s.pc = .top) : ProxyMove s .stop { s with pc := .ending }
  | acceptNone {nonblock} (hpc : s.pc = .top) : ProxyMove s (.accept none nonblock) s.afterAccept
  | accept {client nonblock} (hpc : s.pc = .top) (hnew : s.files client = none) :
      ProxyMove s (.accept (some client) nonblock)
        { s.setFile client (.new nonblock) with pc := .connecting client }
  | connect {rc nonblock client} (hpc : s.pc = .connecting client)
      (hnew : s.files rc.toNat = none) :
      ProxyMove s (.connect rc nonblock) (s.pushConn client rc.toNat nonblock).afterAccept
  | connectFail {rc nonblock client} (hpc : s.pc = .connecting client) :
      ProxyMove s (.connect rc nonblock) (s.netClose client).afterAccept
  | select {rc ready} (hpc : s.pc = .waiting) :
      ProxyMove s (.select rc ready) { s with readFds := ready, pc := .look 0 .toRemote false }
  | selectNone {rc ready} (hpc : s.pc = .waiting) :
      ProxyMove s (.select rc ready) { s with pc := .top }
  | lookEnd {i dir err} (hpc : s.pc = .look i dir err) (hend : s.list[i]? = none) :
      ProxyMove s .tick { s with pc := .top }
  | lookPast {i dir err} (hpc : s.pc = .look i dir err) :
      ProxyMove s .tick { s with pc := Proxy.next i dir err }
  | recv {i dir err c e d} (hpc : s.pc = .look i dir err) (hc : s.list[i]? = some c)
      (he : s.files (c.src dir) = some e) :
      ProxyMove s (.recv d) (s.received i dir err (c.src dir) e d)
  | recvEnd {i dir err c e} (hpc : s.pc = .look i dir err) (hc : s.list[i]? = some c)
      (he : s.files (c.src dir) = some e) :
      ProxyMove s .recvEnd (s.receivedEnd i dir (c.src dir) e)
  | send {i dir off len err c e n} (hpc : s.pc = .send i dir off len err) (hn : n ≤ len)
      (hc : s.list[i]? = some c) (he : s.files (c.dst dir) = some e) :
      ProxyMove s (.send n) (s.accepted i dir off len err (c.dst dir) e n)
  | sendFail {i dir off len err c e errno} (hpc : s.pc = .send i dir off len err)
      (hlen : 0 < len) (hc : s.list[i]? = some c) (he : s.files (c.dst dir) = some e) :
      ProxyMove s (.sendFail errno) (s.sendFailed i dir (c.dst dir) e errno)
  | sent {i dir off err} (hpc : s.pc = .send i dir off 0 err) :
      ProxyMove s .tick { s with pc := Proxy.next i dir err }
  | tearDown {i c} (hpc : s.pc = .finish i true) (hc : s.list[i]? = some c) :
      ProxyMove s .tick (s.tearDown i c)
  | keep {i} (hpc : s.pc = .finish i false) :
      ProxyMove s .tick { s with pc := .look (i + 1) .toRemote false }
  | finished (hpc : s.pc = .ending) : ProxyMove s .tick { s with pc := .finished }
  | pop {c} (hpc : s.pc = .ending) (hc : s.list.getLast? = some c) :
      ProxyMove s .tick (s.popConn c)

theorem onFile_eq_some {s t : Proxy} {i : Nat} {fd : ProxyConn → Nat}
    {f : Nat → Endpoint → Option Proxy} (h : s.onFile i fd f = some t) :
    ∃ c e, s.list[i]? = some c ∧ s.files (fd c) = some e ∧ f (fd c) e = some t := by
  obtain ⟨c, hc, h⟩ := Option.bind_eq_some_iff.mp h
  obtain ⟨e, he, h⟩ := Option.bind_eq_some_iff.mp h
  exact ⟨c, e, hc, he, h⟩

theorem proxy_move {s t : Proxy} {act : ProxyAct} (h : proxy.step s act = some t) :
    ProxyMove s act t := by
  change s.step act = some t at h
  unfold Proxy.step at h
  split at h
  · cases h
    exact .stop ‹_›
  · cases h
    exact .acceptNone ‹_›
  · split at h <;> cases h
    exact .accept ‹_› ‹_›
  · split at h
    · split at h <;> cases h
      exact .connect ‹_› ‹_›
    · cases h
      exact .connectFail ‹_›
  · split at h
    · split at h <;> cases h
      exact .select ‹_›
    · cases h
      exact .selectNone ‹_›
  · split at h
    · cases h
      exact .lookEnd ‹_› ‹_›
    · split at h <;> cases h
      exact .lookPast ‹_›
  · split at h
    · obtain ⟨c, e, hc, he, h⟩ := onFile_eq_some h
      split at h <;> cases h
      exact .recv ‹_› hc he
    · cases h
  · obtain ⟨c, e, hc, he, h⟩ := onFile_eq_some h
    split at h <;> cases h
    exact .recvEnd ‹_› hc he
  · split at h
    · rename_i hn
      obtain ⟨c, e, hc, he, h⟩ := onFile_eq_some h
      cases h
      exact .send ‹_› hn.2 hc he
    · cases h
  · split at h
    · obtain ⟨c, e, hc, he, h⟩ := onFile_eq_some h
      split at h <;> cases h
      exact .sendFail ‹_› ‹_› hc he
    · cases h
  · split at h <;> cases h
    rename_i hlen
    subst hlen
    exact .sent ‹_›
  · rename_i i err hpc
    obtain ⟨c, hc, rfl⟩ := Option.map_eq_some_iff.mp h
    cases err with
    | true => exact .tearDown hpc hc
    | false => exact .keep hpc
  · split at h <;> cases h
    · exact .finished ‹_›
    · exact .pop ‹_› ‹_›
  · cases h

end DroidcamWhip
