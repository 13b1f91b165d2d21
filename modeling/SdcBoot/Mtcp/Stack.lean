/-
# All sockets of mTCP together (`tcp.cpp`, `tcpsockm.cpp`)

Sockets are numbered.  The socket manager keeps those in use in a table, which incoming packets are
matched against and which `drivePackets2` goes through, and the idle ones on a free list.  Most
calls touch one socket; `processSyn` touches two, since a listening socket starts a connection on
a new one, and queues its OWN `connectPacket` there.

The calls of an application, the packets that come in and the rounds of `drivePackets2` are the
steps of one machine.  What a step cannot know is part of the call: the initial sequence number,
whether memory could be had, what time and ARP do.
-/
import SdcBoot.Mtcp.Socket

namespace SdcBoot.Mtcp

open Lib

/-! ## 1. The sockets -/

/-- All sockets.  `held` are the pool buffers that callers got and have not handed on. -/
structure World where
  sock : Nat → TcpSocket
  m : Shared
  held : List Nat

def World.ctx (w : World) (i : Nat) : Ctx := ⟨w.sock i, w.m⟩

def World.put (w : World) (i : Nat) (c : Ctx) : World :=
  { w with sock := Function.update w.sock i c.s, m := c.m }

/-- A routine of one socket. -/
def World.on (w : World) (i : Nat) (f : Ctx → Ctx) : World := w.put i (f (w.ctx i))

/-- `reinit`: the socket is cleared, its `connectPacket` with it. -/
def freshSocket (i : Nat) (iss : UInt32) : TcpSocket where
  self := i
  srcPort := 0
  dstHost := 0
  dstPort := 0
  seqNum := iss
  ackNum := 0
  oldestUnackedSeq := iss
  state := .closed
  disableReads := false
  pendingAccept := false
  forcePureAck := false
  forceProbe := false
  closeReason := 0
  maxEnqueueSize := 0
  remoteWindow := 0
  outgoing := []
  sent := []
  incoming := []
  rcv := ⟨none, 0, 0, 0, 0⟩
  cachedMacAddr := false
  finSeq := none

def zeroHeader : Header := ⟨0, 0, ⟨false, false, false, false, false, false⟩, 0, 0⟩

def zeroBuffer : TcpBuffer := ⟨0, 0, 0, false, false, false, zeroHeader, fun _ => 0⟩

def reinit (i : Nat) (iss : UInt32) (w : World) : World :=
  { w with
    sock := Function.update w.sock i (freshSocket i iss)
    m := w.m.setBuf (.connect i) fun _ => zeroBuffer }

/-- `setRecvBuffer`; `memory` says what `malloc` returns.  False is an error. -/
def setRecvBuffer (size : Nat) (memory : Bool) (r : RcvBuffer) : Bool × RcvBuffer :=
  if size = 0 then (true, r)
  else if size < 512 ∨ 16384 < size then (false, r)
  else if memory then (true, { r with rcvBufSize := size, rcvBuffer := some fun _ => 0 })
  else (false, { r with rcvBufSize := 0 })

def makeActive (m : Shared) (i : Nat) : Shared :=
  if i ∈ m.socketTable then m else { m with socketTable := m.socketTable ++ [i] }

/-! ## 2. Opening connections -/

def connect2 (cfg : Config) (srcPort host dstPort : Nat) (c : Ctx) : Ctx :=
  if c.s.state ≠ .closed then c
  else
    enqueueConnect cfg c.s.self
      { s := { c.s with srcPort := srcPort, dstHost := host, dstPort := dstPort, state := .synSent }
        m := makeActive c.m c.s.self }

/-- `listen`: no other socket listens on the port. -/
def listen (srcPort recvBufferSize : Nat) (i : Nat) (w : World) : World :=
  if (w.sock i).state ≠ .closed then w
  else if ∃ j ∈ w.m.socketTable, (w.sock j).state = .listen ∧ (w.sock j).srcPort = srcPort then w
  else
    w.on i fun c =>
      { s := { c.s with
          srcPort := srcPort, dstHost := 0, dstPort := 0, state := .listen, disableReads := true
          rcv := { c.s.rcv with rcvBufSize := recvBufferSize } }
        m := makeActive c.m i }

/-- `processSyn` on the listening socket `i`: the new socket gets the `connectPacket` of `i`. -/
def processSyn (cfg : Config) (iss : UInt32) (memory : Bool) (g : Segment) (i : Nat) (w : World) :
    World :=
  match w.m.availSocketTable with
  | [] => w
  | j :: rest =>
    let w1 := reinit j iss { w with m := { w.m with availSocketTable := rest } }
    let r := setRecvBuffer (w.sock i).rcv.rcvBufSize memory (w1.sock j).rcv
    if r.1 then
      w1.on j fun c => enqueueConnect cfg i
        { s := { c.s.setMaxEnqueueSize cfg g with
            pendingAccept := true, srcPort := (w.sock i).srcPort, dstHost := g.srcHost
            dstPort := g.srcPort, state := .synRecved, ackNum := g.seqnum + 1, rcv := r.2 }
          m := makeActive c.m j }
    else
      w1.on j fun c =>
        let c1 := destroy { c with s := { c.s with rcv := r.2 } }
        { s := { c1.s with closeReason := 3 }
          m := { c1.m with availSocketTable := j :: c1.m.availSocketTable } }

/-! ## 3. Incoming packets and driving -/

/-- The socket `process` finds for a segment: a connected one first. -/
def World.owner (w : World) (g : Segment) : Option Nat :=
  match w.m.socketTable.find? fun i =>
      (w.sock i).state != .closed && (w.sock i).state != .timeWait &&
        (w.sock i).dstHost == g.srcHost && (w.sock i).dstPort == g.srcPort &&
        (w.sock i).srcPort == g.dstPort with
  | some i => some i
  | none => w.m.socketTable.find? fun i =>
      (w.sock i).state == .listen && (w.sock i).srcPort == g.dstPort

/-- What a segment that comes in may need: a sequence number and memory for a new socket, and what
ARP knows. -/
structure Luck where
  iss : UInt32
  memory : Bool
  resolves : Bool

/-- `process2`, for the socket the segment belongs to. -/
def process2World (cfg : Config) (luck : Luck) (g : Segment) (i : Nat) (w : World) : World :=
  if (w.sock i).state = .listen then
    if g.codeBits = CodeBits.justSyn then processSyn cfg luck.iss luck.memory g i w else w
  else w.on i (process2 cfg luck.resolves g)

def process (cfg : Config) (luck : Luck) (g : Segment) (w : World) : World :=
  match w.owner g with
  | none => w
  | some i => process2World cfg luck g i w

/-- The loop of `drivePackets2` over the table; it ends when a socket was destroyed. -/
def driveTable (cfg : Config) (env : Nat → Env) : List Nat → World → World
  | [], w => w
  | i :: rest, w =>
    let r := driveSocket cfg (env i) (w.ctx i)
    if r.1 then w.put i r.2 else driveTable cfg env rest (w.put i r.2)

def drivePackets2 (cfg : Config) (env : Nat → Env) (w : World) : World :=
  driveTable cfg env w.m.socketTable w

/-! ## 4. The machine -/

/-- The calls.  An application gets a socket from the free list, or has its own, and gives it back
when its close is done. -/
inductive Call where
  | getSocket (iss : UInt32)
  | freeSocket (i : Nat)
  | accept (i : Nat)
  | setRecvBuffer (i size : Nat) (memory : Bool)
  | connect (i srcPort host dstPort : Nat)
  | listen (i srcPort recvBufferSize : Nat)
  | shutdownRead (i : Nat)
  | close (i : Nat)
  | destroy (i : Nat)
  | clearQueues (i : Nat)
  | getXmitBuf
  | returnXmitBuf (n : Nat)
  | fillBuffer (n : Nat) (data : List UInt8)
  | enqueue (i n : Nat)
  | send (i : Nat) (userBuf : List UInt8)
  | recv (i userBufLen : Nat) (resolves : Bool)
  | process (luck : Luck) (g : Segment)
  | drivePackets2 (env : Nat → Env)

def getSocket (iss : UInt32) (w : World) : World :=
  match w.m.availSocketTable with
  | [] => w
  | i :: rest => reinit i iss { w with m := { w.m with availSocketTable := rest } }

/-- A caller hands a buffer to `enqueue`; when it is refused the caller still has it. -/
def userEnqueue (cfg : Config) (i n : Nat) (w : World) : World :=
  let r := enqueue cfg (.pool n) (w.ctx i)
  { w.put i r.2 with held := if r.1 = TCP_RC_GOOD then w.held.erase n else w.held }

def stepWorld (cfg : Config) (w : World) : Call → World
  | .getSocket iss => getSocket iss w
  | .freeSocket i => { w with m := { w.m with availSocketTable := i :: w.m.availSocketTable } }
  | .accept i => w.on i fun c =>
      { s := { c.s with pendingAccept := false }
        m := { c.m with pendingAccepts := c.m.pendingAccepts - 1 } }
  | .setRecvBuffer i size memory => w.on i fun c =>
      { c with s := { c.s with rcv := (Mtcp.setRecvBuffer size memory c.s.rcv).2 } }
  | .connect i srcPort host dstPort => w.on i (connect2 cfg srcPort host dstPort)
  | .listen i srcPort recvBufferSize => Mtcp.listen srcPort recvBufferSize i w
  | .shutdownRead i => w.on i fun c => { c with s := { c.s with disableReads := true } }
  | .close i => w.on i (closeLocal cfg)
  | .destroy i => w.on i Mtcp.destroy
  | .clearQueues i => w.on i Mtcp.clearQueues
  | .getXmitBuf =>
    match w.m.getXmitBuf with
    | (none, _) => w
    | (some n, m) => { w with m := m, held := n :: w.held }
  | .returnXmitBuf n => { w with m := w.m.returnXmitBuf (.pool n), held := w.held.erase n }
  | .fillBuffer n data => { w with m := w.m.setBuf (.pool n) fun b => b.withData data }
  | .enqueue i n => userEnqueue cfg i n w
  | .send i userBuf => w.on i fun c => (Mtcp.send cfg userBuf c).2
  | .recv i userBufLen resolves => w.on i fun c => (Mtcp.recv cfg resolves userBufLen c).2
  | .process luck g => Mtcp.process cfg luck g w
  | .drivePackets2 env => Mtcp.drivePackets2 cfg env w

/-- The bytes `recv` returns; the other calls answer nothing. -/
def answer (cfg : Config) (w : World) : Call → List UInt8
  | .recv i userBufLen resolves =>
    (Mtcp.recv cfg resolves userBufLen (w.ctx i)).1.getD []
  | _ => []

def step (cfg : Config) (w : World) (call : Call) : List UInt8 × World :=
  (answer cfg w call, stepWorld cfg w call)

/-- `TcpBuffer::init` and `TcpSocketMgr::init`: all buffers and sockets are idle. -/
def init (sockets xmitBufs : Nat) : World where
  sock := fun i => freshSocket i 0
  m :=
    { buf := fun _ => zeroBuffer
      xmitBuffers := (List.range xmitBufs).reverse
      socketTable := []
      availSocketTable := (List.range sockets).reverse
      pendingAccepts := 0
      wire := [] }
  held := []

end SdcBoot.Mtcp
