/-
# One socket of mTCP (`tcp.cpp`, `tcp.h`)

A socket's traffic is in three queues: `outgoing` holds the TcpBuffers that wait to be sent, `sent`
those that wait for an acknowledgement, and the receive ring what the user has not read.  Buffers
come from a shared pool; ACKs, SYNs and FINs without data use one that is part of the socket, its
`connectPacket`.

A buffer does not know what it will be when it is queued.  `sendPacket` fills in its header when
it is driven, and decides by the state at that moment whether it is a SYN or carries the FIN; a
buffer that waits for ARP has its header already.  `process2` takes one segment to the state
machine.

A routine works on a socket and on what all sockets share, together in `Ctx`.  Whether a timeout
has passed and whether ARP knows the address are arguments.  The resets that answer a segment take
nothing from a socket and are left out.  The names are those of the source; the sequence number of
the FIN (`finSeq`) is a note that the source does not keep.
-/
import SdcBoot.Lib.Run
import Mathlib.Tactic.Set

namespace SdcBoot.Mtcp

/-! ## 1. Buffers, sockets and what they share -/

/-- The states of a socket.  The last three are not official: a FIN is yet to be sent. -/
inductive State where
  | closed
  | listen
  | synSent
  | synRecved
  | established
  | closeWait
  | lastAck
  | finWait1
  | finWait2
  | closing
  | timeWait
  | sendFin1
  | sendFin2
  | sendFin3
  deriving DecidableEq

structure CodeBits where
  urg : Bool
  ack : Bool
  psh : Bool
  rst : Bool
  syn : Bool
  fin : Bool
  deriving DecidableEq

/-- TCP_CODEBITS_ACK. -/
def CodeBits.justAck : CodeBits := ⟨false, true, false, false, false, false⟩

/-- TCP_CODEBITS_SYN. -/
def CodeBits.justSyn : CodeBits := ⟨false, false, false, false, true, false⟩

/-- A TcpBuffer, by where its memory is: in the pool, the `connectPacket` of a socket, or the
stack of `sendPureAck`. -/
inductive BufId where
  | pool (n : Nat)
  | connect (socket : Nat)
  | stack
  deriving DecidableEq

/-- The fields of TcpHeader that differ from packet to packet; `hlen` is 20, or 24 with the MSS
option. -/
structure Header where
  seqnum : UInt32
  acknum : UInt32
  codeBits : CodeBits
  window : Nat
  hlen : Nat
  deriving DecidableEq

/-- TcpBuffer; `area` is the memory behind the headers. -/
structure TcpBuffer where
  seqNum : UInt32
  dataLen : Nat
  attempts : Nat
  pendingArp : Bool
  pureAck : Bool
  inUse : Bool
  headers : Header
  area : Nat → UInt8

/-- A packet on the wire, as `Packet_send_pkt` sends it. -/
structure Packet where
  socket : Nat
  headers : Header
  payload : List UInt8
  deriving DecidableEq

/-- The receive buffer: a ring of `rcvBufSize` bytes.  A listening socket has no ring, and its size
is that of the rings to come. -/
structure RcvBuffer where
  rcvBuffer : Option (Nat → UInt8)
  rcvBufFirst : Nat
  rcvBufLast : Nat
  rcvBufEntries : Nat
  rcvBufSize : Nat

structure TcpSocket where
  self : Nat
  srcPort : Nat
  dstHost : Nat
  dstPort : Nat
  seqNum : UInt32
  ackNum : UInt32
  oldestUnackedSeq : UInt32
  state : State
  disableReads : Bool
  pendingAccept : Bool
  forcePureAck : Bool
  forceProbe : Bool
  closeReason : Nat
  maxEnqueueSize : Nat
  remoteWindow : Nat
  outgoing : List BufId
  sent : List BufId
  incoming : List (List UInt8)
  rcv : RcvBuffer
  cachedMacAddr : Bool
  finSeq : Option UInt32

/-- The free list of the buffer pool, the tables of the socket manager, and the wire. -/
structure Shared where
  buf : BufId → TcpBuffer
  xmitBuffers : List Nat
  socketTable : List Nat
  availSocketTable : List Nat
  pendingAccepts : Nat
  wire : List Packet

/-- The constants of an application's configuration. -/
structure Config where
  ringSize : Nat
  mssToAdvertise : Nat
  retransCount : Nat
  ringPos : 0 < ringSize

/-- An incoming segment; `mss` is what `readMSS` finds in its options.  A packet is shorter than 64
KB. -/
structure Segment where
  srcHost : Nat
  srcPort : Nat
  dstPort : Nat
  seqnum : UInt32
  acknum : UInt32
  codeBits : CodeBits
  window : Nat
  mss : Nat
  data : List UInt8
  short : data.length < 65536

/-- A socket and what it shares with the others. -/
structure Ctx where
  s : TcpSocket
  m : Shared

def TCP_RC_GOOD : Int := 0
def TCP_RC_BAD : Int := -1
def TCP_RC_TOO_MUCH_DATA : Int := -5

/-! ## 2. Queues -/

def Shared.setBuf (m : Shared) (b : BufId) (f : TcpBuffer → TcpBuffer) : Shared :=
  { m with buf := Function.update m.buf b (f (m.buf b)) }

def Ctx.setBuf (c : Ctx) (b : BufId) (f : TcpBuffer → TcpBuffer) : Ctx :=
  { c with m := c.m.setBuf b f }

def Ctx.setState (c : Ctx) (state : State) : Ctx :=
  { c with s := { c.s with state := state } }

/-- `returnXmitBuf`: only buffers of the pool go back to it. -/
def Shared.returnXmitBuf (m : Shared) : BufId → Shared
  | .pool n => { m with xmitBuffers := n :: m.xmitBuffers }
  | _ => m

def Shared.getXmitBuf (m : Shared) : Option Nat × Shared :=
  match m.xmitBuffers with
  | [] => (none, m)
  | n :: rest => (some n, { m with xmitBuffers := rest })

/-- `enqueue` does not take a buffer in this state. -/
def TcpSocket.refuses (s : TcpSocket) (b : BufId) : Bool :=
  s.state == .closed || s.state == .listen || s.state == .closing ||
    (s.state == .timeWait && b != .connect s.self)

/-- The accounting `enqueue` does for a buffer. -/
def TcpBuffer.enqueued (b : TcpBuffer) : TcpBuffer :=
  { b with attempts := 0, pendingArp := false, pureAck := false, inUse := true }

def enqueue (cfg : Config) (b : BufId) (c : Ctx) : Int × Ctx :=
  if c.s.refuses b then (TCP_RC_BAD, c)
  else if (c.m.buf b).dataLen > c.s.maxEnqueueSize then (TCP_RC_TOO_MUCH_DATA, c)
  else if c.s.outgoing.length = cfg.ringSize then (TCP_RC_BAD, c.setBuf b TcpBuffer.enqueued)
  else (TCP_RC_GOOD,
    { c.setBuf b TcpBuffer.enqueued with s := { c.s with outgoing := c.s.outgoing ++ [b] } })

/-- `connectPacket.pkt.dataLen = 0`, and the packet is queued. -/
def enqueueConnect (cfg : Config) (owner : Nat) (c : Ctx) : Ctx :=
  (enqueue cfg (.connect owner) (c.setBuf (.connect owner) fun b => { b with dataLen := 0 })).2

def clearQueues (c : Ctx) : Ctx where
  s := { c.s with outgoing := [], sent := [], incoming := [] }
  m := c.s.sent.foldl Shared.returnXmitBuf (c.s.outgoing.foldl Shared.returnXmitBuf c.m)

/-- `makeInactive`: the last socket of the table takes the place. -/
def swapRemove (table : List Nat) (i : Nat) : List Nat :=
  match table.idxOf? i with
  | none => table
  | some k => (table.set k (table.getLastD 0)).dropLast

def destroy (c : Ctx) : Ctx :=
  let c1 := clearQueues c
  { s := { c1.s with
      state := .closed, pendingAccept := false, rcv := { c1.s.rcv with rcvBuffer := none } }
    m := { c1.m with
      socketTable := swapRemove c1.m.socketTable c.s.self
      availSocketTable :=
        if c.s.pendingAccept then c.s.self :: c1.m.availSocketTable else c1.m.availSocketTable } }

/-! ## 3. Sending -/

/-- The bytes a packet carries: behind the header, which may take four bytes of the area. -/
def TcpBuffer.payload (b : TcpBuffer) : List UInt8 :=
  (List.range b.dataLen).map fun k => b.area (k + (b.headers.hlen - 20))

/-- `Packet_send_pkt`. -/
def Ctx.transmit (c : Ctx) (b : BufId) : Ctx :=
  { c with m := { c.m with
      wire := c.m.wire ++ [⟨c.s.self, (c.m.buf b).headers, (c.m.buf b).payload⟩] } }

def resendPacket (b : BufId) (c : Ctx) : Ctx :=
  (c.transmit b).setBuf b fun x => { x with attempts := x.attempts + 1 }

/-- The MSS option, written over the start of the data area. -/
def mssOption (mss : Nat) (area : Nat → UInt8) : Nat → UInt8
  | 0 => 2
  | 1 => 4
  | 2 => UInt8.ofNat (mss / 256)
  | 3 => UInt8.ofNat mss
  | k + 4 => area (k + 4)

/-- The MSS a socket advertises. -/
def TcpSocket.mss (s : TcpSocket) (cfg : Config) : Nat :=
  if s.rcv.rcvBufSize ≠ 0 ∧ s.rcv.rcvBufSize < cfg.mssToAdvertise then s.rcv.rcvBufSize
  else cfg.mssToAdvertise

def TcpSocket.winSize (s : TcpSocket) (cfg : Config) : Nat :=
  if s.rcv.rcvBufSize ≠ 0 then s.rcv.rcvBufSize - s.rcv.rcvBufEntries
  else cfg.mssToAdvertise * 4

/-- What the state of the socket makes of a packet. -/
inductive Role where
  | syn
  | synAck
  | finAck
  | dataAck (psh : Bool)
  deriving DecidableEq

/-- The switch on the state in `sendPacket`. -/
def TcpSocket.role (s : TcpSocket) (dataLen : Nat) : Role :=
  match s.state with
  | .synSent => .syn
  | .synRecved => .synAck
  | .sendFin1 | .sendFin2 | .sendFin3 =>
    if s.forcePureAck = false ∧ s.outgoing.length = 1 then .finAck else .dataAck false
  | .established => .dataAck (dataLen != 0)
  | _ => .dataAck false

def Role.codeBits : Role → CodeBits
  | .syn => .justSyn
  | .synAck => { CodeBits.justAck with syn := true }
  | .finAck => { CodeBits.justAck with fin := true }
  | .dataAck psh => { CodeBits.justAck with psh := psh }

/-- SYN and FIN take a sequence number. -/
def Role.counts : Role → UInt32
  | .syn | .synAck | .finAck => 1
  | .dataAck _ => 0

def Role.isSyn : Role → Bool
  | .syn | .synAck => true
  | _ => false

/-- The state after a FIN was put in a header. -/
def finSent : State → State
  | .sendFin2 => .lastAck
  | _ => .finWait1

/-- The socket after a header was filled in: the sequence number and the window go on, and with a
FIN the state. -/
def TcpSocket.advanced (s : TcpSocket) (dataLen : Nat) (role : Role) : TcpSocket :=
  { s with
    seqNum := s.seqNum + UInt32.ofNat dataLen + role.counts
    remoteWindow := if dataLen ≤ s.remoteWindow then s.remoteWindow - dataLen else 0
    state := if role = .finAck then finSent s.state else s.state
    finSeq := if role = .finAck then some (s.seqNum + UInt32.ofNat dataLen) else s.finSeq }

/-- The header `sendPacket` fills in.  A probe has a sequence number out of the window. -/
def TcpSocket.header (s : TcpSocket) (cfg : Config) (dataLen : Nat) (role : Role) : Header where
  seqnum := if s.forceProbe then s.seqNum + UInt32.ofNat dataLen - 1 else s.seqNum
  acknum := s.ackNum
  codeBits := role.codeBits
  window := s.winSize cfg
  hlen := if role.isSyn then 24 else 20

/-- The buffer with its header filled in; `seqNum` says when it is acknowledged. -/
def TcpBuffer.filled (b : TcpBuffer) (cfg : Config) (s : TcpSocket) : TcpBuffer :=
  let role := s.role b.dataLen
  { b with
    seqNum := s.seqNum + UInt32.ofNat b.dataLen + role.counts - 1
    pureAck := b.pureAck || (b.dataLen == 0 && role.codeBits == CodeBits.justAck)
    headers := s.header cfg b.dataLen role
    area := if role.isSyn then mssOption (s.mss cfg) b.area else b.area }

/-- The part of `sendPacket` that fills in the packet. -/
def fill (cfg : Config) (b : BufId) (c : Ctx) : Ctx :=
  { (c.setBuf b fun x => x.filled cfg c.s) with
    s := c.s.advanced (c.m.buf b).dataLen (c.s.role (c.m.buf b).dataLen) }

/-- `sendPacket`: true when the packet waits for ARP. -/
def sendPacket (cfg : Config) (resolves : Bool) (b : BufId) (c : Ctx) : Bool × Ctx :=
  if (c.m.buf b).pendingArp then
    -- the header was filled in before
    if resolves then
      (false, ({ c with s := { c.s with cachedMacAddr := true } }.setBuf b fun x =>
        { x with pendingArp := false }).transmit b)
    else (true, c)
  else if c.s.cachedMacAddr || resolves then (false, (fill cfg b c).transmit b)
  else (true, (fill cfg b c).setBuf b fun x => { x with pendingArp := true })

/-- The buffer `sendPureAck` has on its stack. -/
def stackBuffer (b : TcpBuffer) : TcpBuffer := { b.enqueued with dataLen := 0 }

def sendPureAck (cfg : Config) (resolves : Bool) (c : Ctx) : Ctx :=
  if c.s.state ≠ .established then c
  else
    let c1 := (sendPacket cfg resolves .stack
      ({ c with s := { c.s with forcePureAck := true } }.setBuf .stack stackBuffer)).2
    { c1 with s := { c1.s with forcePureAck := false } }

/-! ## 4. Receiving -/

/-- The loop of `removeSentPackets`, over the packets that are left in `sent`. -/
def removeLoop (target : UInt32) : List BufId → Ctx → Ctx
  | [], c => { c with s := { c.s with sent := [], oldestUnackedSeq := c.s.seqNum } }
  | p :: rest, c =>
    if (c.m.buf p).seqNum < target ∨ (target < (c.m.buf p).seqNum ∧
        target < c.s.oldestUnackedSeq ∧ c.s.oldestUnackedSeq < (c.m.buf p).seqNum) then
      removeLoop target rest
        { c with m := (c.m.setBuf p fun x => { x with inUse := false }).returnXmitBuf p }
    else
      { c with s := { c.s with
          sent := p :: rest, oldestUnackedSeq := (c.m.buf p).headers.seqnum } }

def removeSentPackets (target : UInt32) (c : Ctx) : Ctx := removeLoop target c.s.sent c

/-- Bytes copied to the ring at `ofs`. -/
def copyTo (ring : Nat → UInt8) (ofs : Nat) (data : List UInt8) : Nat → UInt8 := fun k =>
  if ofs ≤ k ∧ k < ofs + data.length then data.getD (k - ofs) 0 else ring k

/-- `addToRcvBuf`; `none` when there is no room. -/
def addToRcvBuf (r : RcvBuffer) (ring : Nat → UInt8) (data : List UInt8) : Option RcvBuffer :=
  if data.length > r.rcvBufSize - r.rcvBufEntries then none
  else if data.length + r.rcvBufLast < r.rcvBufSize then
    some { r with
      rcvBuffer := some (copyTo ring r.rcvBufLast data)
      rcvBufEntries := r.rcvBufEntries + data.length
      rcvBufLast := r.rcvBufLast + data.length }
  else
    -- two copies, because it wraps
    let firstCpyLen := r.rcvBufSize - r.rcvBufLast
    some { r with
      rcvBuffer := some (copyTo (copyTo ring r.rcvBufLast (data.take firstCpyLen)) 0
        (data.drop firstCpyLen))
      rcvBufEntries := r.rcvBufEntries + data.length
      rcvBufLast := data.length - firstCpyLen }

/-- The bytes of the ring from `ofs` on. -/
def copyFrom (ring : Nat → UInt8) (ofs len : Nat) : List UInt8 :=
  (List.range len).map fun k => ring (ofs + k)

/-- The copy out of the ring in `recv`. -/
def RcvBuffer.takeOut (r : RcvBuffer) (ring : Nat → UInt8) (cpyLen : Nat) :
    List UInt8 × RcvBuffer :=
  if cpyLen + r.rcvBufFirst < r.rcvBufSize then
    (copyFrom ring r.rcvBufFirst cpyLen,
      { r with rcvBufEntries := r.rcvBufEntries - cpyLen, rcvBufFirst := r.rcvBufFirst + cpyLen })
  else
    let firstCpyLen := r.rcvBufSize - r.rcvBufFirst
    (copyFrom ring r.rcvBufFirst firstCpyLen ++ copyFrom ring 0 (cpyLen - firstCpyLen),
      { r with rcvBufEntries := r.rcvBufEntries - cpyLen, rcvBufFirst := cpyLen - firstCpyLen })

/-- `recv`: the bytes, or `none` for an error.  When the window was closed an ACK opens it. -/
def recv (cfg : Config) (resolves : Bool) (userBufLen : Nat) (c : Ctx) :
    Option (List UInt8) × Ctx :=
  if c.s.state ≠ .established ∧ c.s.state ≠ .closeWait then (none, c)
  else if c.s.rcv.rcvBufEntries = 0 ∨ userBufLen = 0 then (some [], c)
  else
    let r := c.s.rcv.takeOut (c.s.rcv.rcvBuffer.getD fun _ => 0)
      (min userBufLen c.s.rcv.rcvBufEntries)
    let c1 := { c with s := { c.s with rcv := r.2 } }
    (some r.1, if c.s.rcv.rcvBufSize - c.s.rcv.rcvBufEntries = 0 then sendPureAck cfg resolves c1
      else c1)

/-- `processPacketData`: true to play dead. -/
def processPacketData (cfg : Config) (data : List UInt8) (c : Ctx) : Bool × Ctx :=
  let taken := { c with s := { c.s with ackNum := c.s.ackNum + UInt32.ofNat data.length } }
  if c.s.disableReads then (false, taken)
  else
    match c.s.rcv.rcvBuffer with
    | none =>
      if c.s.incoming.length < cfg.ringSize then
        (false, { taken with s := { taken.s with incoming := taken.s.incoming ++ [data] } })
      else (true, c)
    | some ring =>
      match addToRcvBuf c.s.rcv ring data with
      | some r => (false, { taken with s := { taken.s with rcv := r } })
      | none => (true, c)

/-! ## 5. `process2` -/

/-- `incomingAckNumIsCurrent`. -/
def TcpSocket.ackIsCurrent (s : TcpSocket) (g : Segment) : Bool :=
  g.codeBits.ack && g.acknum == s.seqNum

/-- `isIncomingAckProper`. -/
def TcpSocket.ackIsProper (s : TcpSocket) (g : Segment) : Bool :=
  g.codeBits.ack &&
    (if s.oldestUnackedSeq < s.seqNum then
      decide (s.oldestUnackedSeq ≤ g.acknum) && decide (g.acknum ≤ s.seqNum)
    else decide (s.oldestUnackedSeq ≤ g.acknum) || decide (g.acknum ≤ s.seqNum))

/-- `isIncomingSeqProper`. -/
def TcpSocket.seqIsProper (s : TcpSocket) (g : Segment) : Bool :=
  g.seqnum == s.ackNum || (s.state == .synRecved && g.seqnum == s.ackNum - 1)

def TcpSocket.setMaxEnqueueSize (s : TcpSocket) (cfg : Config) (g : Segment) : TcpSocket :=
  { s with maxEnqueueSize := if cfg.mssToAdvertise < g.mss then cfg.mssToAdvertise else g.mss }

/-- A segment in SYN_SENT; true to generate a packet. -/
def processSynSent (cfg : Config) (g : Segment) (c : Ctx) : Bool × Ctx :=
  if g.codeBits.rst then
    if c.s.ackIsCurrent g then
      let c1 := destroy c
      (false, { c1 with s := { c1.s with closeReason := 1 } })
    else (false, c)
  else if g.codeBits.syn then
    if g.codeBits.ack then
      if c.s.ackIsCurrent g then
        let c1 := removeSentPackets g.acknum c
        (true, { c1 with s := { c1.s.setMaxEnqueueSize cfg g with
          state := .established, ackNum := g.seqnum + 1, remoteWindow := g.window } })
      else (false, c)
    else
      -- simultaneous opens: a SYN with an ACK replaces the SYN, at the same sequence number
      let c1 := clearQueues { c with s := { c.s.setMaxEnqueueSize cfg g with
        state := .synRecved, ackNum := g.seqnum + 1, seqNum := c.s.seqNum - 1 } }
      (false, enqueueConnect cfg c.s.self c1)
  else (false, c)

/-- The acknowledgement is taken: packets leave `sent`, and when none is left the window is as the
segment says. -/
def takeAck (g : Segment) (c : Ctx) : Ctx :=
  let c1 := if c.s.sent = [] then c else removeSentPackets g.acknum c
  if c1.s.sent = [] then { c1 with s := { c1.s with remoteWindow := g.window } } else c1

/-- A FIN is taken. -/
def Ctx.finTaken (c : Ctx) (state : State) : Ctx :=
  { c with s := { c.s with state := state, ackNum := c.s.ackNum + 1 } }

/-- The switch on the state in `process2`; true to generate a packet. -/
def changeState (g : Segment) (current : Bool) (c : Ctx) : Bool × Ctx :=
  match c.s.state with
  | .established => if g.codeBits.fin then (true, c.finTaken .closeWait) else (false, c)
  | .sendFin1 => if g.codeBits.fin then (false, c.finTaken .sendFin2) else (false, c)
  | .synRecved =>
    if current then
      (false,
        { s := { c.s with state := .established, remoteWindow := g.window }
          m := if c.s.pendingAccept then { c.m with pendingAccepts := c.m.pendingAccepts + 1 }
            else c.m })
    else (false, clearQueues c)
  | .lastAck => (false, c.setState .closed)
  | .finWait1 =>
    if g.codeBits.fin then (true, c.finTaken (if current then .timeWait else .closing))
    else if current then (false, c.setState .finWait2)
    else (false, c)
  | .finWait2 => if g.codeBits.fin then (true, c.finTaken .timeWait) else (false, c)
  | .closing => if current then (false, c.setState .timeWait) else (false, c)
  | _ => (false, c)

/-- A segment whose numbers are acceptable; true to generate a packet. -/
def processAccepted (cfg : Config) (g : Segment) (c : Ctx) : Bool × Ctx :=
  let c1 := takeAck g c
  if g.data = [] then changeState g (c.s.ackIsCurrent g) c1
  else
    let r := processPacketData cfg g.data c1
    if r.1 then (false, r.2)
    else
      let r2 := changeState g (c.s.ackIsCurrent g) r.2
      (r2.1 || decide (r.2.s.outgoing = []), r2.2)

/-- A segment in the other states but LISTEN; true to generate a packet. -/
def processOther (cfg : Config) (resolves : Bool) (g : Segment) (c : Ctx) : Bool × Ctx :=
  if g.codeBits.rst then
    if c.s.seqIsProper g then
      let c1 := destroy c
      (false, { c1 with s := { c1.s with closeReason := 1 } })
    else (false, c)
  else if c.s.ackIsProper g && c.s.seqIsProper g then processAccepted cfg g c
  else (false, sendPureAck cfg resolves c)

/-- `process2` for a socket that does not listen. -/
def process2 (cfg : Config) (resolves : Bool) (g : Segment) (c : Ctx) : Ctx :=
  let r := if c.s.state = .synSent then processSynSent cfg g c else processOther cfg resolves g c
  if r.1 then enqueueConnect cfg c.s.self r.2 else r.2

/-! ## 6. Closing, sending and driving -/

/-- The state `closeLocal` goes to, where it does not close at once. -/
def closeTarget : State → Option State
  | .synRecved => some .sendFin3
  | .established => some .sendFin1
  | .closeWait => some .sendFin2
  | _ => none

/-- `closeLocal`: a FIN is sent by itself, or with the last packet that is queued. -/
def closeLocal (cfg : Config) (c : Ctx) : Ctx :=
  match c.s.state with
  | .closed | .timeWait | .listen | .synSent => c.setState .closed
  | st =>
    match closeTarget st with
    | none => c
    | some st' =>
      if c.s.outgoing = [] then enqueueConnect cfg c.s.self (c.setState st') else c.setState st'

/-- A buffer filled by the user. -/
def TcpBuffer.withData (b : TcpBuffer) (data : List UInt8) : TcpBuffer :=
  { b with dataLen := data.length, area := copyTo b.area 0 data }

/-- The loop of `send`, over the bytes that are left; it counts those that were queued. -/
def sendLoop (cfg : Config) : Nat → List UInt8 → Ctx → Nat × Ctx
  | 0, _, c => (0, c)
  | fuel + 1, userBuf, c =>
    if userBuf = [] then (0, c)
    else if c.s.outgoing.length < cfg.ringSize then
      match c.m.getXmitBuf with
      | (none, _) => (0, c)
      | (some n, m) =>
        let c1 := { c with m := m }.setBuf (.pool n) fun b =>
          b.withData (userBuf.take c.s.maxEnqueueSize)
        let r := sendLoop cfg fuel (userBuf.drop c.s.maxEnqueueSize) (enqueue cfg (.pool n) c1).2
        (min c.s.maxEnqueueSize userBuf.length + r.1, r.2)
    else (0, c)

/-- `send`: the number of bytes queued, or `none` for an error.  Each round takes a buffer out of
the pool. -/
def send (cfg : Config) (userBuf : List UInt8) (c : Ctx) : Option Nat × Ctx :=
  if c.s.state ≠ .established then (none, c)
  else
    let r := sendLoop cfg c.m.xmitBuffers.length userBuf c
    (some r.1, r.2)

/-- What time and ARP do during one round of `drivePackets2`, for one socket. -/
structure Env where
  expired : Bool
  probeDue : Bool
  resolves : Bool

/-- A zero window probe. -/
def probe (cfg : Config) (resolves : Bool) (c : Ctx) : Ctx :=
  let c1 := sendPureAck cfg resolves { c with s := { c.s with forceProbe := true } }
  { c1 with s := { c1.s with forceProbe := false } }

/-- A packet that was sent leaves `outgoing`; it is kept for retransmission unless it only
acknowledges. -/
def Ctx.afterSend (c : Ctx) (b : BufId) : Ctx :=
  let c1 := { c with s := { c.s with outgoing := c.s.outgoing.tail } }.setBuf b fun x =>
    { x with attempts := x.attempts + 1 }
  if (c1.m.buf b).pureAck then
    { c1 with m := (c1.m.setBuf b fun x => { x with inUse := false }).returnXmitBuf b }
  else { c1 with s := { c1.s with sent := c1.s.sent ++ [b] } }

/-- The loop of `drivePackets2` over `outgoing`. -/
def driveOutgoing (cfg : Config) (env : Env) : Nat → Ctx → Ctx
  | 0, c => c
  | fuel + 1, c =>
    match c.s.outgoing with
    | [] => c
    | b :: _ =>
      if c.s.sent.length < cfg.ringSize then
        if (c.m.buf b).dataLen > c.s.remoteWindow then
          if env.probeDue then probe cfg env.resolves c else c
        else
          let r := sendPacket cfg env.resolves b c
          if r.1 then r.2 else driveOutgoing cfg env fuel (r.2.afterSend b)
      else c

/-- One socket in `drivePackets2`; true when it was destroyed.  Each round of the loop takes a
packet from `outgoing`. -/
def driveSocket (cfg : Config) (env : Env) (c : Ctx) : Bool × Ctx :=
  match c.s.sent with
  | [] => (false, driveOutgoing cfg env c.s.outgoing.length c)
  | b :: _ =>
    if (c.m.buf b).attempts > cfg.retransCount then
      let c1 := destroy c
      (true, { c1 with s := { c1.s with closeReason := 4 } })
    else if env.expired then (false, resendPacket b c)
    else (false, driveOutgoing cfg env c.s.outgoing.length c)

/-! ## 7. What each routine changes in the socket -/

@[simp] theorem setBuf_s (c : Ctx) (b : BufId) (f : TcpBuffer → TcpBuffer) :
    (c.setBuf b f).s = c.s := rfl

@[simp] theorem setBuf_self (c : Ctx) (b : BufId) (f : TcpBuffer → TcpBuffer) :
    (c.setBuf b f).m.buf b = f (c.m.buf b) := by
  simp [Ctx.setBuf, Shared.setBuf]

variable (cfg : Config) (resolves : Bool)

/-- `enqueue` changes `outgoing` only. -/
theorem enqueue_s (b : BufId) (c : Ctx) :
    ∃ out, (enqueue cfg b c).2.s = { c.s with outgoing := out } ∧
      (out = c.s.outgoing ∨ out = c.s.outgoing ++ [b]) := by
  unfold enqueue
  split
  · exact ⟨_, rfl, .inl rfl⟩
  · split
    · exact ⟨_, rfl, .inl rfl⟩
    · split
      · exact ⟨_, rfl, .inl rfl⟩
      · exact ⟨_, rfl, .inr rfl⟩

theorem enqueueConnect_s (owner : Nat) (c : Ctx) :
    ∃ out, (enqueueConnect cfg owner c).s = { c.s with outgoing := out } ∧
      (out = c.s.outgoing ∨ out = c.s.outgoing ++ [.connect owner]) :=
  enqueue_s cfg (.connect owner) _

section

variable (cfg : Config) (owner : Nat) (c : Ctx)

@[simp] theorem enqueueConnect_state : (enqueueConnect cfg owner c).s.state = c.s.state := by
  obtain ⟨out, h, -⟩ := enqueueConnect_s cfg owner c
  rw [h]

@[simp] theorem enqueueConnect_ackNum : (enqueueConnect cfg owner c).s.ackNum = c.s.ackNum := by
  obtain ⟨out, h, -⟩ := enqueueConnect_s cfg owner c
  rw [h]

@[simp] theorem enqueueConnect_rcv : (enqueueConnect cfg owner c).s.rcv = c.s.rcv := by
  obtain ⟨out, h, -⟩ := enqueueConnect_s cfg owner c
  rw [h]

@[simp] theorem enqueueConnect_disableReads :
    (enqueueConnect cfg owner c).s.disableReads = c.s.disableReads := by
  obtain ⟨out, h, -⟩ := enqueueConnect_s cfg owner c
  rw [h]

@[simp] theorem enqueueConnect_finSeq : (enqueueConnect cfg owner c).s.finSeq = c.s.finSeq := by
  obtain ⟨out, h, -⟩ := enqueueConnect_s cfg owner c
  rw [h]

end

variable {owner : Nat} {c : Ctx} {s : TcpSocket}

/-- A packet without data is queued, unless the state forbids it or the ring is full. -/
theorem enqueueConnect_queued (h : c.s.refuses (.connect owner) = false) :
    (enqueueConnect cfg owner c).s.outgoing ≠ [] := by
  have hpos := cfg.ringPos
  unfold enqueueConnect enqueue
  rw [if_neg (by simp [h]), if_neg (by simp)]
  split
  · rename_i hfull
    intro hnil
    have hempty : c.s.outgoing = [] := hnil
    rw [setBuf_s, hempty, List.length_nil] at hfull
    omega
  · simp

theorem enqueueConnect_refused {cfg : Config}
    (h : c.s.refuses (.connect owner) = true) : (enqueueConnect cfg owner c).s = c.s := by
  unfold enqueueConnect enqueue
  rw [if_pos (by simpa using h)]
  rfl

theorem removeLoop_s (target : UInt32) : ∀ (l : List BufId) (c : Ctx),
    ∃ sent old, (removeLoop target l c).s = { c.s with sent := sent, oldestUnackedSeq := old }
  | [], _ => ⟨_, _, rfl⟩
  | p :: rest, c => by
    unfold removeLoop
    split
    · exact removeLoop_s target rest _
    · exact ⟨_, _, rfl⟩

theorem removeSentPackets_s (target : UInt32) (c : Ctx) :
    ∃ sent old, (removeSentPackets target c).s =
      { c.s with sent := sent, oldestUnackedSeq := old } :=
  removeLoop_s target c.s.sent c

theorem takeAck_s (g : Segment) (c : Ctx) :
    ∃ sent old win, (takeAck g c).s =
      { c.s with sent := sent, oldestUnackedSeq := old, remoteWindow := win } := by
  unfold takeAck
  by_cases hnil : c.s.sent = []
  · simp only [if_pos hnil]
    exact ⟨_, _, _, rfl⟩
  · simp only [if_neg hnil]
    obtain ⟨sent, old, h⟩ := removeSentPackets_s g.acknum c
    split
    · exact ⟨sent, old, _, by rw [h]⟩
    · exact ⟨sent, old, _, by rw [h]⟩

/-- Only a socket that is to send its FIN does. -/
theorem role_finAck {dataLen : Nat} (h : s.role dataLen = .finAck) :
    s.state = .sendFin1 ∨ s.state = .sendFin2 ∨ s.state = .sendFin3 := by
  unfold TcpSocket.role at h
  cases hst : s.state <;> simp [hst] at h <;> simp

theorem role_established (h : s.state = .established) (dataLen : Nat) :
    s.role dataLen = .dataAck (dataLen != 0) := by
  simp [TcpSocket.role, h]

/-- A header without data in ESTABLISHED changes nothing in the socket. -/
theorem advanced_pureAck (h : s.state = .established) : s.advanced 0 (s.role 0) = s := by
  rw [role_established h]
  simp [TcpSocket.advanced, Role.counts]

/-- `sendPureAck` leaves the socket as it was. -/
theorem sendPureAck_s (c : Ctx) :
    ∃ force, (sendPureAck cfg resolves c).s = { c.s with forcePureAck := force } := by
  unfold sendPureAck
  split
  · exact ⟨c.s.forcePureAck, rfl⟩
  · rename_i hst
    have hst : c.s.state = .established := not_not.mp hst
    refine ⟨false, ?_⟩
    set c0 : Ctx := { c with s := { c.s with forcePureAck := true } }.setBuf .stack stackBuffer
      with hc0
    have hbuf : c0.m.buf .stack = stackBuffer (c.m.buf .stack) := by
      rw [hc0, setBuf_self]
    have hfill : (fill cfg .stack c0).s = c0.s := by
      exact advanced_pureAck hst
    have hsend : (sendPacket cfg resolves .stack c0).2.s = c0.s := by
      unfold sendPacket
      rw [hbuf]
      simp only [stackBuffer, TcpBuffer.enqueued, Bool.false_eq_true, if_false]
      split
      · exact hfill
      · exact hfill
    dsimp only
    rw [hsend]
    rfl

theorem processPacketData_s (data : List UInt8) (c : Ctx) :
    ((processPacketData cfg data c).1 = true ∧ (processPacketData cfg data c).2 = c) ∨
      ((processPacketData cfg data c).1 = false ∧ ∃ inc rcv, (processPacketData cfg data c).2.s =
        { c.s with
          ackNum := c.s.ackNum + UInt32.ofNat data.length, incoming := inc, rcv := rcv }) := by
  unfold processPacketData
  split
  · exact .inr ⟨rfl, _, _, rfl⟩
  · split
    · split
      · exact .inr ⟨rfl, _, _, rfl⟩
      · exact .inl ⟨rfl, rfl⟩
    · split
      · exact .inr ⟨rfl, _, _, rfl⟩
      · exact .inl ⟨rfl, rfl⟩

theorem sendLoop_s (fuel : Nat) (userBuf : List UInt8) (c : Ctx) :
    ∃ out, (sendLoop cfg fuel userBuf c).2.s = { c.s with outgoing := out } := by
  induction fuel generalizing userBuf c with
  | zero => exact ⟨_, rfl⟩
  | succ fuel ih =>
    unfold sendLoop
    split
    · exact ⟨_, rfl⟩
    · split
      · split
        · exact ⟨_, rfl⟩
        · rename_i n m _
          obtain ⟨out, hq, -⟩ := enqueue_s cfg (.pool n) ({ c with m := m }.setBuf (.pool n)
            fun b => b.withData (userBuf.take c.s.maxEnqueueSize))
          obtain ⟨out', hr⟩ := ih (userBuf.drop c.s.maxEnqueueSize) (enqueue cfg (.pool n)
            ({ c with m := m }.setBuf (.pool n)
              fun b => b.withData (userBuf.take c.s.maxEnqueueSize))).2
          refine ⟨out', ?_⟩
          rw [hr, hq]
          rfl
      · exact ⟨_, rfl⟩

theorem send_s (userBuf : List UInt8) (c : Ctx) :
    ∃ out, (send cfg userBuf c).2.s = { c.s with outgoing := out } := by
  unfold send
  split
  · exact ⟨_, rfl⟩
  · exact sendLoop_s cfg _ userBuf c

theorem recv_s (userBufLen : Nat) (c : Ctx) :
    ∃ rcv force, (recv cfg resolves userBufLen c).2.s =
      { c.s with rcv := rcv, forcePureAck := force } := by
  unfold recv
  split
  · exact ⟨_, _, rfl⟩
  · split
    · exact ⟨_, _, rfl⟩
    · split
      · obtain ⟨force, h⟩ := sendPureAck_s cfg resolves { c with s := { c.s with rcv :=
          (c.s.rcv.takeOut (c.s.rcv.rcvBuffer.getD fun _ => 0)
            (min userBufLen c.s.rcv.rcvBufEntries)).2 } }
        exact ⟨_, force, h⟩
      · exact ⟨_, _, rfl⟩

theorem probe_s (c : Ctx) :
    ∃ force, (probe cfg resolves c).s = { c.s with forcePureAck := force, forceProbe := false } := by
  unfold probe
  obtain ⟨force, h⟩ := sendPureAck_s cfg resolves { c with s := { c.s with forceProbe := true } }
  refine ⟨force, ?_⟩
  dsimp only
  rw [h]

theorem afterSend_s (c : Ctx) (b : BufId) :
    ∃ sent, (c.afterSend b).s = { c.s with outgoing := c.s.outgoing.tail, sent := sent } := by
  unfold Ctx.afterSend
  dsimp only
  split
  · exact ⟨_, rfl⟩
  · exact ⟨_, rfl⟩

/-- `sendPacket` fills in a header, or notes an address. -/
theorem sendPacket_s (b : BufId) (c : Ctx) :
    ((c.m.buf b).pendingArp = true ∧ ∃ mac, (sendPacket cfg resolves b c).2.s =
        { c.s with cachedMacAddr := mac }) ∨
      ((c.m.buf b).pendingArp = false ∧ (sendPacket cfg resolves b c).2.s =
        c.s.advanced (c.m.buf b).dataLen (c.s.role (c.m.buf b).dataLen)) := by
  unfold sendPacket
  split
  · rename_i hp
    refine .inl ⟨hp, ?_⟩
    split
    · exact ⟨true, rfl⟩
    · exact ⟨_, rfl⟩
  · rename_i hp
    refine .inr ⟨by simpa using hp, ?_⟩
    split <;> rfl

end SdcBoot.Mtcp
