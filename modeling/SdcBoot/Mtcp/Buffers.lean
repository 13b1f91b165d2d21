/-
# Packet buffers (`packet.cpp`, and who frees a packet)

A buffer goes from the free stack to the packet driver, into the receive ring, and up through
`Ip::process` or `Arp::processArp`; every way has to end in one `Buffer_free`, or with the packet in
a reassembly slot, in the ring of a socket or with the user.

The receiver is called by interrupts, at any time.  It shares only the variables of `packet.cpp`
with the program, which disables interrupts where it uses them; so an interrupt comes between two of
these uses.  A routine that frees packets notes them in `freeing`, and each `Buffer_free` is a step
of its own.

The user may free a packet at any time after it was handed to him, and a UDP callback may register
and unregister callbacks before it returns.
-/
import SdcBoot.Lib.Ring
import SdcBoot.Mtcp.Ip

namespace SdcBoot.Mtcp

open Lib

/-! ## 1. The receiver and its variables -/

/-- A pointer to a packet: to one of the PACKET_BUFFERS buffers, or to a BigPacket. -/
inductive PacketId where
  | buffer (b : Nat)
  | big (k : Nat)
  deriving DecidableEq

/-- PACKET_BUFFERS and UDP_MAX_CALLBACKS, with what IP needs. -/
structure PacketConfig where
  ip : IpConfig
  packetBuffers : Nat
  udpMaxCallbacks : Nat

/-- PACKET_RB_SIZE. -/
def PacketConfig.rbSize (cfg : PacketConfig) : Nat := cfg.packetBuffers + 1

/-- The variables of `packet.cpp`.  `receiving` says that the driver has `Buffer_packet_tmp`, and
`frame` is what is in the buffers; `arrived` and `left` note what was put into the ring and what was
taken out. -/
structure PacketPool where
  fs : Nat → Nat
  fsIndex : Nat
  ring : Nat → Nat
  first : Nat
  next : Nat
  packetTmp : Nat
  receiving : Bool
  frame : Nat → Frame
  arrived : List Nat
  left : List Nat

/-- An index of the ring goes on. -/
def PacketConfig.wrap (cfg : PacketConfig) (k : Nat) : Nat :=
  if k + 1 = cfg.rbSize then 0 else k + 1

namespace PacketPool

/-- `receiver`, to allocate a buffer for a packet of `len` bytes. -/
def allocate (len : Nat) (q : PacketPool) : PacketPool :=
  if q.receiving ∨ len > packetBufferLen ∨ q.fsIndex = 0 then q
  else { q with fsIndex := q.fsIndex - 1, packetTmp := q.fs (q.fsIndex - 1), receiving := true }

/-- `receiver`, for a packet that is complete. -/
def complete (cfg : PacketConfig) (f : Frame) (q : PacketPool) : PacketPool :=
  if q.receiving then
    { q with
      frame := Function.update q.frame q.packetTmp f
      ring := Function.update q.ring q.next q.packetTmp
      next := cfg.wrap q.next
      receiving := false
      arrived := q.arrived ++ [q.packetTmp] }
  else q

/-- `Packet_process_internal` takes a packet out of the ring. -/
def dequeue (cfg : PacketConfig) (q : PacketPool) : PacketPool :=
  { q with first := cfg.wrap q.first, left := q.left ++ [q.ring q.first] }

/-- `Buffer_free`, for a buffer. -/
def free (b : Nat) (q : PacketPool) : PacketPool :=
  { q with fs := Function.update q.fs q.fsIndex b, fsIndex := q.fsIndex + 1 }

/-- The free stack. -/
def stack (q : PacketPool) : List Nat := (List.range q.fsIndex).map q.fs

/-- How many packets are in the ring. -/
def entries (cfg : PacketConfig) (q : PacketPool) : Nat :=
  if q.first ≤ q.next then q.next - q.first else q.next + cfg.rbSize - q.first

/-- The packets in the ring. -/
def received (cfg : PacketConfig) (q : PacketPool) : List Nat :=
  window cfg.rbSize q.ring q.first (q.entries cfg)

/-- The buffer that the driver has. -/
def inDriver (q : PacketPool) : List Nat := if q.receiving then [q.packetTmp] else []

end PacketPool

/-! ## 2. The program -/

/-- The program: `current` is the packet that was taken out of the ring and not looked at yet,
`freeing` the packets that are about to be freed, and `user` those the user has.  `incoming` are the
raw packets in the rings of the sockets, each with the number of its socket. -/
structure Packets where
  pool : PacketPool
  fragControl : List (FragControl Nat)
  bigPacketFreeList : List Nat
  bigPacket : Nat → Nat → UInt8
  callbackList : List Nat
  world : World
  incoming : List (Nat × PacketId)
  current : Option Nat
  freeing : List PacketId
  user : List PacketId

/-- What a callback does with the callbacks. -/
inductive UdpCall where
  | registerCallback (port : Nat)
  | unregisterCallback (port : Nat)

def UdpCall.run (cfg : PacketConfig) (ports : List Nat) : UdpCall → List Nat
  | .registerCallback port =>
    if ports.length = cfg.udpMaxCallbacks ∨ port ∈ ports then ports else ports ++ [port]
  | .unregisterCallback port => swapRemove ports port

/-- The packets of the socket `i`. -/
def ofSocket (i : Nat) (incoming : List (Nat × PacketId)) : List (Nat × PacketId) :=
  incoming.filter fun x => x.1 == i

def notOfSocket (i : Nat) (incoming : List (Nat × PacketId)) : List (Nat × PacketId) :=
  incoming.filter fun x => !(x.1 == i)

/-- `processPacketData` puts the packet into the ring of the socket. -/
def TcpSocket.keepsPacket (s : TcpSocket) (cfg : Config) (g : Segment) : Bool :=
  s.state != .listen && s.state != .synSent && s.accepts cfg g && !g.data.isEmpty &&
    !s.disableReads && s.rcv.rcvBuffer.isNone

/-- The socket that `processSyn` takes. -/
def World.synSocket (w : World) (d : Datagram) (i : Nat) : List Nat :=
  if (w.sock i).state = .listen ∧ d.onlySyn = true then w.m.availSocketTable.take 1 else []

/-- The checksum `Udp::process` computes. -/
def Datagram.udpChksum (d : Datagram) : Nat :=
  d.ip_p_chksum (d.words 26 2) (d.words 30 2) 17 d.payloadPtr d.udpLen

/-- `udp->dst`. -/
def Datagram.udpDst (d : Datagram) : Nat := d.ntohs (d.payloadPtr + 2)

namespace Packets

variable (m : Packets)

/-- The packets are going to be freed. -/
def frees (ps : List PacketId) : Packets := { m with freeing := m.freeing ++ ps }

/-- `clearQueues` was called for the socket `i`, if nothing is left in its ring. -/
def cleared (i : Nat) : Packets :=
  if (m.world.sock i).incoming = [] then
    { m with
      incoming := notOfSocket i m.incoming
      freeing := m.freeing ++ (ofSocket i m.incoming).map Prod.snd }
  else m

/-- `incoming.init`. -/
def reinit (i : Nat) : Packets := { m with incoming := notOfSocket i m.incoming }

/-- `Tcp::process2`, where it leaves the sockets as `w`: the packet is put into the ring of the
socket `i` or freed. -/
def process2 (cfg : PacketConfig) (d : Datagram) (p : PacketId) (i : Nat) (w : World) : Packets :=
  let keeps := (m.world.sock i).keepsPacket cfg.ip.tcp (d.segment 536)
  let m1 := (m.world.synSocket d i).foldl reinit m
  let m2 := { m1 with world := w, incoming := m1.incoming ++ if keeps then [(i, p)] else [] }
  (m2.cleared i).frees (if keeps then [] else [p])

/-- `Tcp::process`; it does not come to an end while `readMSS` does not. -/
def tcpProcess (cfg : PacketConfig) (luck : Luck) (fuel : Nat) (d : Datagram) (p : PacketId) :
    Option Packets :=
  (Mtcp.tcpProcess cfg.ip luck fuel d m.world).2.map fun w =>
    if d.tcpChksum cfg.ip ≠ 0 then m.frees [p]
    else
      match m.world.owner (d.segment 536) with
      | none => m.frees [p]
      | some i => m.process2 cfg d p i w

/-- `Udp::process`; when a callback returns, its place is compared with the number of callbacks. -/
def udpProcess (cfg : PacketConfig) (calls : List UdpCall) (d : Datagram) (p : PacketId) :
    Packets :=
  if cfg.ip.dhcpClient = false ∧ d.udpChksum ≠ 0 then m.frees [p]
  else
    match m.callbackList.findIdx? fun port => port == d.udpDst with
    | none => m.frees [p]
    | some i =>
      let ports := calls.foldl (UdpCall.run cfg) m.callbackList
      let m1 := { m with callbackList := ports, user := m.user ++ [p] }
      if i = ports.length then m1.frees [p] else m1

/-- `Icmp::process`: the callback only looks at the packet. -/
def icmpProcess (p : PacketId) : Packets := m.frees [p]

/-- The protocol a packet is handed to. -/
def transport (cfg : PacketConfig) (luck : Luck) (fuel : Nat) (calls : List UdpCall)
    (d : Datagram) (p : PacketId) : Option Packets :=
  if cfg.ip.compileTcp = true ∧ d.protocol = 6 then m.tcpProcess cfg luck fuel d p
  else if cfg.ip.compileUdp = true ∧ d.protocol = 17 then some (m.udpProcess cfg calls d p)
  else if cfg.ip.compileIcmp = true ∧ d.protocol = 1 then some (m.icmpProcess p)
  else some (m.frees [p])

/-- What `processFragment` makes of the buffer `b`. -/
def reassembled (cfg : PacketConfig) (b : Nat) : Reassembled Nat :=
  processFragment cfg.ip.frag (!m.bigPacketFreeList.isEmpty) (m.pool.frame b).fragInfo b
    m.fragControl

/-- The slots after it, and what it freed. -/
def afterFragment (cfg : PacketConfig) (b : Nat) : Packets :=
  let r := m.reassembled cfg b
  { m with fragControl := r.fragControl, freeing := m.freeing ++ r.freed.map .buffer }

/-- The fragments with what is in their buffers. -/
def frames (frags : List (Fragment Nat)) : List (Fragment Frame) :=
  frags.map fun x => ⟨x.offset, x.length, m.pool.frame x.packet⟩

/-- The datagram that was put together in the BigPacket `k`. -/
def bigDatagram (k : Nat) (f : Fragment Nat) (rest : List (Fragment Nat)) : Datagram :=
  makeBigPacket (m.bigPacket k) (m.pool.frame f.packet).toDatagram (m.frames (f :: rest))

/-- The packet that goes on to a protocol, and what there is besides it. -/
def fragmentUp (cfg : PacketConfig) (b : Nat) : Packets × Option (Datagram × PacketId) :=
  match (m.reassembled cfg b).whole, m.bigPacketFreeList with
  | some (f :: rest), k :: ks =>
    let d := m.bigDatagram k f rest
    ({ m.afterFragment cfg b with
        bigPacketFreeList := ks, bigPacket := Function.update m.bigPacket k d.mem },
      some (d, .big k))
  | _, _ => (m.afterFragment cfg b, none)

/-- `Ip::process`, up to the protocol. -/
def ipUp (cfg : PacketConfig) (b : Nat) : Packets × Option (Datagram × PacketId) :=
  let f := m.pool.frame b
  if f.ipchksum ethHeaderLen f.ipHlen ≠ 0 then (m.frees [.buffer b], none)
  else if f.isFragment then
    if cfg.ip.fragmentsOn then m.fragmentUp cfg b else (m.frees [.buffer b], none)
  else (m, some (f.toDatagram, .buffer b))

/-- `Arp::processArp`: its ways end in one. -/
def processArp (b : Nat) : Packets := m.frees [.buffer b]

/-- `Packet_process_internal`, up to the protocol: 0x0800 and 0x0806 as the machine loads them. -/
def up (cfg : PacketConfig) (b : Nat) : Packets × Option (Datagram × PacketId) :=
  if (m.pool.frame b).word 12 = 0x0008 then m.ipUp cfg b
  else if (m.pool.frame b).word 12 = 0x0608 then (m.processArp b, none)
  else (m.frees [.buffer b], none)

/-- The packet that is looked at. -/
def looked : Packets := { m with current := none }

/-- `Packet_process_internal`, after it has taken a packet out of the ring. -/
def route (cfg : PacketConfig) (luck : Luck) (fuel : Nat) (calls : List UdpCall) : Packets :=
  match m.current with
  | none => m
  | some b =>
    let r := m.looked.up cfg b
    match r.2 with
    | none => r.1
    | some (d, p) => (r.1.transport cfg luck fuel calls d p).getD m

/-- `Buffer_free`. -/
def bufferFree (p : PacketId) : Packets :=
  match p with
  | .buffer b => { m with pool := m.pool.free b }
  | .big k => { m with bigPacketFreeList := k :: m.bigPacketFreeList }

/-- The next `Buffer_free` of a routine. -/
def freeNext : Packets :=
  match m.freeing with
  | [] => m
  | p :: rest => { m with freeing := rest }.bufferFree p

/-- The user frees a packet he has. -/
def userFree (p : PacketId) : Packets :=
  if p ∈ m.user then { m with user := m.user.erase p }.bufferFree p else m

/-- The user takes a raw packet out of the ring of the socket `i`. -/
def userTake (i : Nat) : Packets :=
  match m.incoming.find? fun x => x.1 == i with
  | none => m
  | some x =>
    { m with
      incoming := m.incoming.erase x
      user := m.user ++ [x.2]
      world := m.world.on i fun c => { c with s := { c.s with incoming := c.s.incoming.tail } } }

/-- `Packet_process_internal` takes a packet out of the ring, where there is one. -/
def takePacket (cfg : PacketConfig) : Packets :=
  if m.current = none ∧ m.freeing = [] ∧ m.pool.first ≠ m.pool.next then
    { m with pool := m.pool.dequeue cfg, current := some (m.pool.ring m.pool.first) }
  else m

/-- `purgeOverdue`, for the slot `i`. -/
def purge (i : Nat) : Packets :=
  match m.fragControl[i]? with
  | none => m
  | some fc =>
    if fc.inUse then
      { m with
        fragControl := m.fragControl.set i fc.killed
        freeing := m.freeing ++ fc.packets.map .buffer }
    else m

end Packets

/-- The sockets whose queues a call may clear. -/
def World.mayClear (w : World) : Call → List Nat
  | .destroy i => [i]
  | .clearQueues i => [i]
  | .drivePackets2 _ => w.m.socketTable
  | _ => []

/-- The socket that a call initialises. -/
def World.initialises (w : World) : Call → List Nat
  | .getSocket _ => w.m.availSocketTable.take 1
  | _ => []

/-- Segments come in packets. -/
def Call.isSegment : Call → Bool
  | .process _ _ => true
  | _ => false

/-- A call of the user to the sockets. -/
def Packets.call (cfg : PacketConfig) (m : Packets) (c : Call) : Packets :=
  if c.isSegment then m
  else
    let m1 := (m.world.initialises c).foldl Packets.reinit m
    (m.world.mayClear c).foldl Packets.cleared
      { m1 with world := stepWorld cfg.ip.tcp m.world c }

/-! ## 3. The machine -/

/-- What happens: interrupts, and the steps of the program. -/
inductive PacketEvent where
  | allocate (len : Nat)
  | complete (f : Frame)
  | takePacket
  | route (luck : Luck) (fuel : Nat) (calls : List UdpCall)
  | freeNext
  | userFree (p : PacketId)
  | userTake (i : Nat)
  | userCallback (c : UdpCall)
  | call (c : Call)
  | purge (i : Nat)

def stepPackets (cfg : PacketConfig) (m : Packets) : PacketEvent → Packets
  | .allocate len => { m with pool := m.pool.allocate len }
  | .complete f => { m with pool := m.pool.complete cfg f }
  | .takePacket => m.takePacket cfg
  | .route luck fuel calls => m.route cfg luck fuel calls
  | .freeNext => m.freeNext
  | .userFree p => m.userFree p
  | .userTake i => m.userTake i
  | .userCallback c => { m with callbackList := c.run cfg m.callbackList }
  | .call c => m.call cfg c
  | .purge i => m.purge i

/-- The machine gives no answers. -/
def packetStep (cfg : PacketConfig) (m : Packets) (e : PacketEvent) : Unit × Packets :=
  ((), stepPackets cfg m e)

/-- `Buffer_init` and `Buffer_startReceiving`, in a program with the sockets `w`, `slots`
reassembly slots and as many BigPackets. -/
def startReceiving (cfg : PacketConfig) (frame : Nat → Frame) (slots : Nat) (w : World) :
    Packets where
  pool :=
    { fs := fun k => k
      fsIndex := cfg.packetBuffers
      ring := fun _ => 0
      first := 0
      next := 0
      packetTmp := 0
      receiving := false
      frame := frame
      arrived := []
      left := [] }
  fragControl := List.replicate slots .idle
  bigPacketFreeList := List.range slots
  bigPacket := fun _ _ => 0
  callbackList := []
  world := w
  incoming := []
  current := none
  freeing := []
  user := []

/-! ## 4. Where the buffers are -/

/-- All places of packets above the receiver, one behind the other: the reassembly slots, the rings
of the sockets, the user, and the packets that are being handled. -/
def Packets.above (m : Packets) : List PacketId :=
  (m.fragControl.flatMap FragControl.packets).map .buffer ++
    (m.incoming.map Prod.snd ++
      (m.user ++ (m.current.toList.map .buffer ++ m.freeing)))

/-- The free stack, the ring and the hands of the driver. -/
def PacketPool.below (cfg : PacketConfig) (q : PacketPool) : List Nat :=
  q.stack ++ (q.received cfg ++ q.inDriver)

/-- How often the buffer `b` is in a place. -/
def Packets.places (cfg : PacketConfig) (m : Packets) (b : Nat) : Nat :=
  (m.pool.below cfg).count b + m.above.count (.buffer b)

/-- **The buffers are conserved.**  Each of them is in exactly one place, the free stack and the
ring do not overflow, and packets have left the ring in the order in which they arrived. -/
structure Conserved (cfg : PacketConfig) (m : Packets) : Prop where
  once : ∀ b < cfg.packetBuffers, m.places cfg b = 1
  others : ∀ b, cfg.packetBuffers ≤ b → m.places cfg b = 0
  index_le : m.pool.fsIndex ≤ cfg.packetBuffers
  room : m.pool.arrived.length < m.pool.left.length + cfg.rbSize
  order : m.pool.arrived = m.pool.left ++ m.pool.received cfg

end SdcBoot.Mtcp
