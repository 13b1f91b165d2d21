/-
# A packet on its way up (`ip.cpp`, `tcp.cpp`, `udp.cpp`)

`Ip::process` sums the header, collects fragments, and hands the packet to TCP, UDP or ICMP; each
sums what its own length field names before it does anything else.  A routine returns the uses it
made of the packet, the counts of TCP data it took, and what is left of the stack.  `readMSS` may
not come to an end: `fuel` says how many options it has gone through, and while it reads there is no
stack afterwards.

What UDP callbacks and ICMP callbacks do with a packet is theirs.
-/
import SdcBoot.Mtcp.Close
import SdcBoot.Mtcp.Fragment

namespace SdcBoot.Mtcp

open List

/-! ## 1. The configuration and the state -/

/-- The switches and constants of a program that IP needs; `myIpAddr` is MyIpAddr as two words. -/
structure IpConfig where
  tcp : Config
  frag : FragConfig
  fragmentsOn : Bool
  dhcpClient : Bool
  compileTcp : Bool
  compileUdp : Bool
  compileIcmp : Bool
  icmpEchoOptData : Nat
  myIpAddr : List Nat

/-- The sockets, and the packets that are being reassembled. -/
structure IpState where
  world : World
  fragControl : List (FragControl Frame)

/-- What happens around a packet; `big` is the memory of a BigPacket, if there is one. -/
structure Around where
  luck : Luck
  big : Option (Nat → UInt8)

/-- TCP data that was counted, next to the lengths it is the difference of. -/
structure Count where
  dataLen : Nat
  payloadLen : Nat
  tcpHdrLen : Nat
  deriving DecidableEq

/-- The difference did not go round. -/
def Count.Exact (c : Count) : Prop := c.dataLen + c.tcpHdrLen = c.payloadLen

instance (c : Count) : Decidable c.Exact := inferInstanceAs (Decidable (_ = _))

/-- What was done with a packet. -/
structure Handled where
  uses : List Use
  counts : List Count

def Handled.append (a b : Handled) : Handled := ⟨a.uses ++ b.uses, a.counts ++ b.counts⟩

/-- Only bytes of the packet are used, and data is counted as it is. -/
structure Handled.Sound (h : Handled) : Prop where
  inside : ∀ u ∈ h.uses, u.Inside
  exact : ∀ c ∈ h.counts, c.Exact

instance (h : Handled) : Decidable h.Sound :=
  decidable_of_iff ((∀ u ∈ h.uses, u.Inside) ∧ ∀ c ∈ h.counts, c.Exact)
    ⟨fun ⟨hu, hc⟩ => ⟨hu, hc⟩, fun ⟨hu, hc⟩ => ⟨hu, hc⟩⟩

namespace Handled

def nothing : Handled := ⟨[], []⟩

theorem nothing_sound : nothing.Sound := ⟨nofun, nofun⟩

@[simp] theorem append_sound (a b : Handled) : (a.append b).Sound ↔ a.Sound ∧ b.Sound := by
  constructor
  · rintro ⟨hu, hc⟩
    exact ⟨⟨fun u h => hu u (mem_append_left _ h), fun c h => hc c (mem_append_left _ h)⟩,
      ⟨fun u h => hu u (mem_append_right _ h), fun c h => hc c (mem_append_right _ h)⟩⟩
  · rintro ⟨ha, hb⟩
    exact ⟨fun u h => (mem_append.mp h).elim (ha.inside u) (hb.inside u),
      fun c h => (mem_append.mp h).elim (ha.exact c) (hb.exact c)⟩

/-- Bytes that are summed or copied. -/
def of (uses : List Use) : Handled := ⟨uses, []⟩

@[simp] theorem of_sound (uses : List Use) : (of uses).Sound ↔ ∀ u ∈ uses, u.Inside :=
  ⟨fun h => h.inside, fun h => ⟨h, nofun⟩⟩

end Handled

/-! ## 2. TCP -/

namespace Datagram

def bytes (p : Datagram) (start len : Nat) : List UInt8 :=
  (List.range len).map fun k => p.mem (start + k)

/-- TCP_CODEBITS_URG and so on, in `codeBits`. -/
def codeBits (p : Datagram) : CodeBits :=
  let bits := p.byte (p.payloadPtr + 13)
  ⟨bits.testBit 5, bits.testBit 4, bits.testBit 3, bits.testBit 2, bits.testBit 1, bits.testBit 0⟩

/-- The segment a packet holds. -/
def segment (p : Datagram) (mss : Nat) : Segment where
  srcHost := p.ntohl 26
  srcPort := p.ntohs p.payloadPtr
  dstPort := p.ntohs (p.payloadPtr + 2)
  seqnum := UInt32.ofNat (p.ntohl (p.payloadPtr + 4))
  acknum := UInt32.ofNat (p.ntohl (p.payloadPtr + 8))
  codeBits := p.codeBits
  window := p.ntohs (p.payloadPtr + 14)
  mss := mss
  data := p.bytes p.userData p.incomingDataLen
  short := by
    rw [bytes, List.length_map, List.length_range]
    exact sub16_lt _ _

/-- The TCP data is copied or acknowledged. -/
def countData (p : Datagram) : Handled where
  uses := [p.use p.userData p.incomingDataLen]
  counts := [⟨p.incomingDataLen, p.payloadLen, p.tcpHlen⟩]

/-- `tcp->codeBits == TCP_CODEBITS_SYN`. -/
def onlySyn (p : Datagram) : Bool := p.byte (p.payloadPtr + 13) == 2

end Datagram

/-- A socket for a new connection can be had, with its buffer. -/
def World.roomFor (w : World) (luck : Luck) (i : Nat) : Bool :=
  !w.m.availSocketTable.isEmpty &&
    (setRecvBuffer (w.sock i).rcv.rcvBufSize luck.memory ⟨none, 0, 0, 0, 0⟩).1

/-- `setMaxEnqueueSize` is called, which reads the options. -/
def World.readsOptions (w : World) (luck : Luck) (p : Datagram) (i : Nat) : Bool :=
  let g := p.segment 536
  match (w.sock i).state with
  | .listen => p.onlySyn && w.roomFor luck i
  | .synSent => !g.codeBits.rst && g.codeBits.syn &&
      (!g.codeBits.ack || (w.sock i).ackIsCurrent g)
  | _ => false

/-- The data length is used: the data is accepted, or a reset acknowledges it. -/
def World.takesData (cfg : Config) (w : World) (p : Datagram) (i : Nat) : Bool :=
  let g := p.segment 536
  match (w.sock i).state with
  | .listen => !p.onlySyn && !g.codeBits.rst
  | .synSent => !g.codeBits.rst &&
      !(g.codeBits.syn && (!g.codeBits.ack || (w.sock i).ackIsCurrent g))
  | _ => (w.sock i).accepts cfg g

/-- `process2`: what is used of a packet whose socket is known. -/
def process2Handled (cfg : Config) (luck : Luck) (fuel : Nat) (p : Datagram) (w : World)
    (i : Nat) : Handled :=
  if w.readsOptions luck p i then .of (p.readMSSUses fuel)
  else if w.takesData cfg p i then p.countData
  else .nothing

/-- `process2`: what it leaves. -/
def process2After (cfg : Config) (luck : Luck) (fuel : Nat) (p : Datagram) (w : World) (i : Nat) :
    Option World :=
  if (w.sock i).state = .listen ∧ p.onlySyn = false then some w
  else if w.readsOptions luck p i then
    (p.readMSS fuel).map fun mss => process2World cfg luck (p.segment mss) i w
  else some (process2World cfg luck (p.segment 536) i w)

/-- The checksum `Tcp::process` computes. -/
def Datagram.tcpChksum (cfg : IpConfig) (p : Datagram) : Nat :=
  p.ip_p_chksum (p.words 26 2) cfg.myIpAddr 6 p.payloadPtr p.payloadLen

/-- The bytes it sums: the address of the sender, and the segment. -/
def Datagram.tcpSummed (p : Datagram) : List Use :=
  [p.use 26 4, p.use p.payloadPtr (pChksumLen p.payloadLen)]

/-- `Tcp::process`. -/
def tcpProcess (cfg : IpConfig) (luck : Luck) (fuel : Nat) (p : Datagram) (w : World) :
    Handled × Option World :=
  if p.tcpChksum cfg ≠ 0 then (.of p.tcpSummed, some w)
  else
    match w.owner (p.segment 536) with
    | none =>
      -- the reset acknowledges the data, but a reset is not answered
      ((Handled.of p.tcpSummed).append (if p.codeBits.rst then .nothing else p.countData), some w)
    | some i =>
      ((Handled.of p.tcpSummed).append (process2Handled cfg.tcp luck fuel p w i),
        process2After cfg.tcp luck fuel p w i)

/-! ## 3. UDP and ICMP -/

/-- The length in the UDP header. -/
def Datagram.udpLen (p : Datagram) : Nat := p.ntohs (p.payloadPtr + 4)

/-- `Udp::process`, up to the callback: a DHCP client does not sum. -/
def udpProcess (cfg : IpConfig) (p : Datagram) : Handled :=
  if cfg.dhcpClient then .nothing
  else .of [p.use 26 4, p.use 30 4, p.use p.payloadPtr (pChksumLen p.udpLen)]

/-- ICMP_ECHO_REQUEST, with not too much data behind the eight bytes that are always there. -/
def Datagram.isEchoRequest (cfg : IpConfig) (p : Datagram) : Bool :=
  p.byte p.payloadPtr == 8 && decide (sub16 p.payloadLen 8 ≤ cfg.icmpEchoOptData)

/-- `Icmp::process`: the reply takes a copy. -/
def icmpProcess (cfg : IpConfig) (p : Datagram) : Handled :=
  .of (p.use p.payloadPtr (ipchksumLen p.payloadLen) ::
    if p.ipchksum p.payloadPtr p.payloadLen = 0 ∧ p.isEchoRequest cfg = true then
      [p.use p.payloadPtr p.payloadLen]
    else [])

/-! ## 4. `Ip::process` -/

/-- The protocol a packet is handed to. -/
def transport (cfg : IpConfig) (luck : Luck) (fuel : Nat) (p : Datagram) (s : IpState) :
    Handled × Option IpState :=
  if cfg.compileTcp = true ∧ p.protocol = 6 then
    let r := tcpProcess cfg luck fuel p s.world
    (r.1, r.2.map fun w => { s with world := w })
  else if cfg.compileUdp = true ∧ p.protocol = 17 then (udpProcess cfg p, some s)
  else if cfg.compileIcmp = true ∧ p.protocol = 1 then (icmpProcess cfg p, some s)
  else (.nothing, some s)

/-- The data of the fragments, one behind the other. -/
def fragData (frags : List (Fragment Frame)) : List UInt8 :=
  frags.flatMap fun f => f.packet.bytes f.packet.payloadPtr f.length

/-- `startOffset` behind the last fragment. -/
def fragsLength (frags : List (Fragment Frame)) : Nat := (frags.map Fragment.length).sum % 65536

/-- `makeBigPacket`: the headers of the first fragment without options, and all data; behind it is
what was there before. -/
def makeBigPacket (old : Nat → UInt8) (first : Datagram) (frags : List (Fragment Frame)) :
    Datagram where
  mem := fun k =>
    if k = 14 then 0x45
    else if k = 16 then UInt8.ofNat ((fragsLength frags + 20) / 256)
    else if k = 17 then UInt8.ofNat (fragsLength frags + 20)
    else if k = 20 ∨ k = 21 ∨ k = 24 ∨ k = 25 then 0
    else if k < 34 then first.mem k
    else (fragData frags).getD (k - 34) (old k)
  len := 34 + fragsLength frags

/-- What is copied to a BigPacket. -/
def bigPacketUses (first : Datagram) (frags : List (Fragment Frame)) : List Use :=
  first.use 0 34 :: frags.map fun f => f.packet.use f.packet.payloadPtr f.length

def Frame.fragInfo (f : Frame) : FragInfo where
  src := f.ntohl 26
  ident := f.ntohs 18
  offset := f.fragmentOffset
  length := f.payloadLen
  last := f.isLastFragment

/-- What `processFragment` makes of a frame. -/
def IpState.reassembled (cfg : IpConfig) (around : Around) (f : Frame) (s : IpState) :
    Reassembled Frame :=
  processFragment cfg.frag around.big.isSome f.fragInfo f s.fragControl

/-- The datagram that was put together, and its fragments. -/
def Reassembled.datagram (r : Reassembled Frame) (around : Around) :
    Option (List (Fragment Frame) × Datagram × Datagram) :=
  match r.whole, around.big with
  | some (f :: rest), some old =>
    some (f :: rest, f.packet.toDatagram, makeBigPacket old f.packet.toDatagram (f :: rest))
  | _, _ => none

/-- A fragment: held, freed, or the last one that was missing. -/
def fragmentProcess (cfg : IpConfig) (around : Around) (fuel : Nat) (f : Frame) (s : IpState) :
    Handled × Option IpState :=
  let r := s.reassembled cfg around f
  let s1 := { s with fragControl := r.fragControl }
  match r.datagram around with
  | none => (.nothing, some s1)
  | some (frags, first, big) =>
    let t := transport cfg around.luck fuel big s1
    ((Handled.of (bigPacketUses first frags)).append t.1, t.2)

/-- `Ip::process`. -/
def ipProcess (cfg : IpConfig) (around : Around) (fuel : Nat) (f : Frame) (s : IpState) :
    Handled × Option IpState :=
  let summed := Handled.of [f.use ethHeaderLen (ipchksumLen f.ipHlen)]
  if f.ipchksum ethHeaderLen f.ipHlen ≠ 0 then (summed, some s)
  else
    let r :=
      if f.isFragment then
        if cfg.fragmentsOn then fragmentProcess cfg around fuel f s else (.nothing, some s)
      else transport cfg around.luck fuel f.toDatagram s
    (summed.append r.1, r.2)

end SdcBoot.Mtcp
