/-
# UDP datagrams in fragments

A payload that does not fit into a frame goes through `sendUdpFragments` of `tcplib/udp.cpp`, which
builds all fragments in one block of memory from `malloc`; `IpHeader::set` of `tcplib/ip.cpp` fills
in the header of each.  Words of a header are what the machine loads, so those of the network have
their bytes the other way round.

Two things are left to chance.  `set` gives a packet a new `ident` only when no fragments follow, so
all fragments but the last have what was in the memory before.  And a rest that is exactly as long as
a frame has room for is taken for a middle fragment, so nothing says that it is the last one.
-/
import SdcBoot.Lib.Reassembly
import SdcBoot.Mtcp.Checksum

namespace SdcBoot.Mtcp.Udp

open Lib.Word Lib.Reassembly Mtcp.Checksum List Nat

/-! ## 1. Headers -/

/-- `htons`, and `ntohs`. -/
def htons (w : UInt16) : UInt16 := word (hiByte w) (loByte w)

@[simp] theorem htons_htons (w : UInt16) : htons (htons w) = w := by
  rw [htons, htons, hiByte_word, loByte_word, word_bytes]

/-- `IpHeader`, as it is in memory. -/
structure IpHeader where
  versHlen : UInt8
  service_type : UInt8
  total_length : UInt16
  ident : UInt16
  flags : UInt16
  ttl : UInt8
  protocol : UInt8
  chksum : UInt16
  ip_src : List UInt8
  ip_dest : List UInt8

namespace IpHeader

def bytes (h : IpHeader) : List UInt8 :=
  [h.versHlen, h.service_type, loByte h.total_length, hiByte h.total_length, loByte h.ident,
    hiByte h.ident, loByte h.flags, hiByte h.flags, h.ttl, h.protocol, loByte h.chksum,
    hiByte h.chksum] ++ h.ip_src ++ h.ip_dest

def isLastFragment (h : IpHeader) : Bool := h.flags &&& 0x0020 == 0

def fragmentOffset (h : IpHeader) : UInt16 := (htons h.flags &&& 0x1FFF) <<< (3 : UInt16)

def setFlags (p_flags : UInt16) (h : IpHeader) : IpHeader :=
  let flags := htons h.flags
  let flags := ((p_flags &&& 0x7) <<< (13 : UInt16)) ||| (flags &&& 0x1FFF)
  { h with flags := htons flags }

def setFragOffset (p_offset : UInt16) (h : IpHeader) : IpHeader :=
  let flags := htons h.flags
  let flags := (flags &&& 0xE000) ||| ((p_offset >>> (3 : UInt16)) &&& 0x1FFF)
  { h with flags := htons flags }

end IpHeader

/-- The stack's own configuration: `MyMTU`, `MyIpAddr`. -/
structure Station where
  mtu : Nat
  ipAddr : List UInt8

/-- A new `ident`, when no more fragments follow; the counter `IpIdent` goes with it. -/
def IpHeader.identify (ipIdent moreFrags : UInt16) (h : IpHeader) : IpHeader × UInt16 :=
  if moreFrags = 0 then ({ h with ident := htons ipIdent }, ipIdent + 1) else (h, ipIdent)

/-- The fields behind the flags, and the length. -/
def IpHeader.address (st : Station) (protocol : UInt8) (dstHost : List UInt8) (payloadLen : UInt16)
    (h : IpHeader) : IpHeader :=
  { h with ttl := 255, protocol := protocol, ip_src := st.ipAddr, ip_dest := dstHost
           total_length := htons (20 + payloadLen), chksum := 0 }

def IpHeader.sum (h : IpHeader) : IpHeader := { h with chksum := checksum h.bytes }

/-- **`IpHeader::set`**; `setIpHlen(20)` is `0x40 | 5`. -/
def IpHeader.set (st : Station) (ipIdent : UInt16) (protocol : UInt8) (dstHost : List UInt8)
    (payloadLen moreFrags fragOffset : UInt16) (h : IpHeader) : IpHeader × UInt16 :=
  let h := { h with versHlen := 0x45, service_type := 0 }
  let (h, ipIdent) := h.identify ipIdent moreFrags
  let h := (h.setFlags moreFrags).setFragOffset fragOffset
  ((h.address st protocol dstHost payloadLen).sum, ipIdent)

/-! ## 2. Sending -/

/-- The block from `malloc` behind the Ethernet header: an IP header, and what follows it. -/
structure Block where
  ip : IpHeader
  body : List UInt8

/-- `memcpy` to an offset of the body. -/
def Block.copy (b : Block) (ofs : Nat) (bytes : List UInt8) : Block :=
  { b with body := b.body.take ofs ++ bytes ++ b.body.drop (ofs + bytes.length) }

/-- What `Packet_send_pkt` is given: the header, and as much of the body as the length says. -/
structure Sent where
  ip : IpHeader
  data : List UInt8
  length : Nat

/-- The block as a frame of `length` bytes; Ethernet and IP headers have 34. -/
def Block.send (b : Block) (length : Nat) : Sent := ⟨b.ip, b.body.take (length - 34), length⟩

/-- The header of the block. -/
def Block.set (st : Station) (ipIdent : UInt16) (host : List UInt8) (payloadLen : Nat)
    (moreFrags : Bool) (fragOffset : Nat) (b : Block) : Block × UInt16 :=
  let r := b.ip.set st ipIdent 17 host (UInt16.ofNat payloadLen) (if moreFrags then 1 else 0)
    (UInt16.ofNat fragOffset)
  ({ b with ip := r.1 }, r.2)

/-- `moreFragments` of a round: 0 for the last packet. -/
def moreFragments (st : Station) (payloadLen : Nat) : Bool := !decide (st.mtu - 20 > payloadLen)

/-- `copyLen` of a round; after a middle packet the offset has to work out to a multiple of 8. -/
def copyLen (st : Station) (payloadLen : Nat) : Nat :=
  if st.mtu - 20 > payloadLen then payloadLen else (st.mtu - 20) / 8 * 8

/-- The loop over the rest of the payload.  Each round sends something, so the rest is fuel enough. -/
def fragmentLoop (st : Station) (host : List UInt8) :
    Nat → Block → List UInt8 → Nat → Nat → UInt16 → List Sent × UInt16
  | 0, _, _, _, _, ipIdent => ([], ipIdent)
  | fuel + 1, block, payload, payloadLen, ipOffset, ipIdent =>
    if payloadLen = 0 then ([], ipIdent)
    else
      let len := copyLen st payloadLen
      let r := (block.copy 0 (payload.take len)).set st ipIdent host len
        (moreFragments st payloadLen) ipOffset
      let rest := fragmentLoop st host fuel r.1 (payload.drop len) (payloadLen - len)
        ((ipOffset + len) % 65536) r.2
      (r.1.send (len + 14 + 20) :: rest.1, rest.2)

/-- The UDP header without its checksum. -/
def udpHeader (srcPort dstPort udpLen chksum : UInt16) : List UInt8 :=
  [hiByte srcPort, loByte srcPort, hiByte dstPort, loByte dstPort, hiByte udpLen, loByte udpLen,
    loByte chksum, hiByte chksum]

/-- What `_ip_p_chksum2` computes over a header and data (`ipPChksum2_chksum2`). -/
def chksum2 (src target : List UInt8) (protocol : UInt8) (header data : List UInt8) : UInt16 :=
  checksum (pseudoHeader src target protocol
    (UInt16.ofNat header.length + UInt16.ofNat data.length) ++ (header ++ data))

/-- **`sendUdpFragments`**: its result, the frames, and `IpIdent` afterwards.  `block` is the memory
`malloc` returns, and `resolved` says whether ARP knows the host. -/
def sendUdpFragments (st : Station) (ipIdent : UInt16) (block : Block) (resolved : Bool)
    (host : List UInt8) (srcPort dstPort : UInt16) (payloadLen : Nat) (data : List UInt8)
    (preAlloc : Bool) : Nat × List Sent × UInt16 :=
  let ipOffset := 0
  let payload := if preAlloc then data.drop 42 else data
  let len := (st.mtu - 20 - 8) / 8 * 8
  let firstPacketLen := len + 20 + 8
  let udpLen := UInt16.ofNat (8 + payloadLen)
  let chksum := chksum2 st.ipAddr host 17 (udpHeader srcPort dstPort udpLen 0)
    (payload.take payloadLen)
  let block := block.copy 0 (udpHeader srcPort dstPort udpLen chksum)
  let block := block.copy 8 (payload.take len)
  let r := block.set st ipIdent host (len + 8) true ipOffset
  if !resolved then (1, [], r.2)
  else
    let rest := fragmentLoop st host payloadLen r.1 (payload.drop len) (payloadLen - len)
      ((ipOffset + len + 8) % 65536) r.2
    (0, r.1.send (firstPacketLen + 14) :: rest.1, rest.2)

/-! ## 3. The fields of a header -/

theorem or_and_distrib (x y z : UInt16) : (x ||| y) &&& z = (x &&& z) ||| (y &&& z) :=
  UInt16.toBitVec_inj.mp BitVec.and_or_distrib_right

/-- The flags with a bit for more fragments, and an offset. -/
def flagsOf (more : Bool) (fragOffset : UInt16) : UInt16 :=
  (if more then 0x2000 else 0) ||| ((fragOffset >>> (3 : UInt16)) &&& 0x1FFF)

theorem setFlags_setFragOffset (h : IpHeader) (more : Bool) (fragOffset : UInt16) :
    ((h.setFlags (if more then 1 else 0)).setFragOffset fragOffset).flags =
      htons (flagsOf more fragOffset) := by
  have htop : (htons (htons ((((if more then 1 else 0 : UInt16) &&& 0x7) <<< (13 : UInt16)) |||
      (htons h.flags &&& 0x1FFF)))) &&& 0xE000 = if more then 0x2000 else 0 := by
    rw [htons_htons, or_and_distrib, UInt16.and_assoc,
      show (0x1FFF : UInt16) &&& 0xE000 = 0 from rfl, UInt16.and_zero, UInt16.or_zero]
    cases more <;> rfl
  exact congrArg (fun x => htons (x ||| _)) htop

/-- The bit for more fragments, as the machine has it in the word. -/
theorem htons_and (w : UInt16) : htons w &&& 0x0020 = 0 ↔ w.toNat / 8192 % 2 = 0 := by
  rw [← UInt16.toNat_inj, UInt16.toNat_and]
  change (htons w).toNat &&& 2 ^ 5 = 0 ↔ _
  rw [and_two_pow, htons, word_toNat, hiByte_toNat, loByte_toNat,
    testBit_eq_decide_div_mod_eq]
  have hdiv : (w.toNat / 256 + 256 * (w.toNat % 256)) / 2 ^ 5 = w.toNat / 8192 + 8 * (w.toNat % 256) := by
    rw [show 256 * (w.toNat % 256) = 2 ^ 5 * (8 * (w.toNat % 256)) by omega,
      add_mul_div_left _ _ (by decide), Nat.div_div_eq_div_mul]
    rfl
  by_cases h : w.toNat / 8192 % 2 = 0
  · refine iff_of_true ?_ h
    rw [decide_eq_false (by omega)]
    rfl
  · refine iff_of_false ?_ h
    rw [decide_eq_true (by omega)]
    decide

variable {off : Nat} {h : IpHeader} {st : Station} {host : List UInt8}

theorem flagsOf_toNat (more : Bool) (h8 : off % 8 = 0) (hoff : off < 65536) :
    (flagsOf more (UInt16.ofNat off)).toNat = (if more then 8192 else 0) + off / 8 := by
  have hshift : ((UInt16.ofNat off >>> (3 : UInt16)) &&& 0x1FFF).toNat = off / 8 := by
    rw [UInt16.toNat_and, UInt16.toNat_shiftRight, UInt16.toNat_ofNat_of_lt' hoff]
    change (off >>> 3) &&& (2 ^ 13 - 1) = _
    rw [and_two_pow_sub_one_eq_mod, shiftRight_eq_div_pow]
    omega
  unfold flagsOf
  rw [UInt16.toNat_or, hshift]
  cases more with
  | false => exact (zero_or _).trans (zero_add _).symm
  | true =>
    change 2 ^ 13 * 1 ||| off / 8 = _
    rw [← two_pow_add_eq_or_of_lt (by omega)]
    rfl

theorem fragmentOffset_of_flags {more : Bool}
    (hflags : h.flags = htons (flagsOf more (UInt16.ofNat off))) (h8 : off % 8 = 0)
    (hoff : off < 65536) : h.fragmentOffset.toNat = off := by
  have hnat := flagsOf_toNat more h8 hoff
  unfold IpHeader.fragmentOffset
  rw [hflags, htons_htons, UInt16.toNat_shiftLeft, UInt16.toNat_and, hnat]
  change (((if more then 8192 else 0) + off / 8) &&& (2 ^ 13 - 1)) <<< 3 % 2 ^ 16 = off
  rw [and_two_pow_sub_one_eq_mod, shiftLeft_eq]
  cases more <;> simp <;> omega

theorem isLastFragment_of_flags {more : Bool}
    (hflags : h.flags = htons (flagsOf more (UInt16.ofNat off))) (h8 : off % 8 = 0)
    (hoff : off < 65536) : h.isLastFragment = !more := by
  have hnat := flagsOf_toNat more h8 hoff
  have hbit := htons_and (flagsOf more (UInt16.ofNat off))
  rw [hnat] at hbit
  unfold IpHeader.isLastFragment
  rw [hflags]
  cases more with
  | false =>
    rw [beq_iff_eq.mpr (hbit.mpr (by simp; omega))]
    rfl
  | true =>
    rw [beq_eq_false_iff_ne.mpr fun h0 => by have := hbit.mp h0; simp at this; omega]
    rfl

/-- A header sums to zero with its checksum in it. -/
theorem header_sums (hzero : h.chksum = 0) : checksum h.sum.bytes = 0 := by
  refine @SumFilled.zero h.bytes _ ?_
  refine ⟨[h.versHlen, h.service_type, loByte h.total_length, hiByte h.total_length, loByte h.ident,
    hiByte h.ident, loByte h.flags, hiByte h.flags, h.ttl, h.protocol], h.ip_src ++ h.ip_dest,
    by simp, ?_, ?_⟩
  · have hlo : loByte 0 = 0 := by decide
    have hhi : hiByte 0 = 0 := by decide
    simp [IpHeader.bytes, hzero, hlo, hhi]
  · simp [IpHeader.bytes, IpHeader.sum]

/-- What `IpHeader::set` leaves in a header. -/
structure IpHeader.Set (st : Station) (host : List UInt8) (len : Nat) (more : Bool) (off : Nat)
    (h : IpHeader) : Prop where
  source : h.ip_src = st.ipAddr
  dest : h.ip_dest = host
  protocol : h.protocol = 17
  length : (htons h.total_length).toNat = 20 + len
  offset : h.fragmentOffset.toNat = off
  last : h.isLastFragment = !more
  sums : checksum h.bytes = 0

theorem set_spec (st : Station) (ipIdent : UInt16) (host : List UInt8) {len : Nat} (more : Bool)
    (h : IpHeader) (hlen : 20 + len < 65536) (h8 : off % 8 = 0) (hoff : off < 65536) :
    (h.set st ipIdent 17 host (UInt16.ofNat len) (if more then 1 else 0) (UInt16.ofNat off)).1.Set
        st host len more off ∧
      (h.set st ipIdent 17 host (UInt16.ofNat len) (if more then 1 else 0) (UInt16.ofNat off)).1.ident =
        (if more then h.ident else htons ipIdent) ∧
      (h.set st ipIdent 17 host (UInt16.ofNat len) (if more then 1 else 0) (UInt16.ofNat off)).2 =
        if more then ipIdent else ipIdent + 1 := by
  have hident : ({ h with versHlen := 0x45, service_type := 0 } : IpHeader).identify ipIdent
      (if more then 1 else 0) = (if more then { h with versHlen := 0x45, service_type := 0 }
        else { h with versHlen := 0x45, service_type := 0, ident := htons ipIdent },
        if more then ipIdent else ipIdent + 1) := by
    cases more <;> rfl
  unfold IpHeader.set
  dsimp only
  rw [hident]
  generalize hh1 : (if more then { h with versHlen := 0x45, service_type := 0 }
    else { h with versHlen := 0x45, service_type := 0, ident := htons ipIdent } : IpHeader) = h1
  have hflags := setFlags_setFragOffset h1 more (UInt16.ofNat off)
  generalize hh2 : (h1.setFlags (if more then 1 else 0)).setFragOffset (UInt16.ofNat off) = h2
    at hflags
  have hsame : h2.ident = h1.ident := by
    rw [← hh2]
    rfl
  have hfields : ((h2.address st 17 host (UInt16.ofNat len)).sum).flags =
      htons (flagsOf more (UInt16.ofNat off)) := hflags
  refine ⟨⟨rfl, rfl, rfl, ?_, fragmentOffset_of_flags hfields h8 hoff,
    isLastFragment_of_flags hfields h8 hoff, header_sums rfl⟩, ?_, rfl⟩
  · change (htons (htons (20 + UInt16.ofNat len))).toNat = 20 + len
    rw [htons_htons, UInt16.toNat_add, UInt16.toNat_ofNat_of_lt' (show len < 65536 by omega)]
    exact mod_eq_of_lt hlen
  · change h2.ident = _
    rw [hsame, ← hh1]
    cases more <;> rfl

/-! ## 4. What fragments are for -/

/-- A frame is the fragment at an offset. -/
structure Sent.At (st : Station) (host : List UInt8) (k : Nat) (f : Sent) : Prop where
  source : f.ip.ip_src = st.ipAddr
  dest : f.ip.ip_dest = host
  protocol : f.ip.protocol = 17
  offset : f.ip.fragmentOffset.toNat = k
  aligned : k % 8 = 0
  length : (htons f.ip.total_length).toNat = 20 + f.data.length
  fits : 20 + f.data.length ≤ st.mtu
  frame : f.length = 14 + 20 + f.data.length
  sums : checksum f.ip.bytes = 0

/-- Frames one behind the other, from an offset on. -/
def Follow (st : Station) (host : List UInt8) : Nat → List Sent → Prop
  | _, [] => True
  | k, f :: fs => f.At st host k ∧ Follow st host (k + f.data.length) fs

/-- Valid fragments of one datagram. -/
structure Fragments (st : Station) (host : List UInt8) (fs : List Sent) : Prop where
  follow : Follow st host 0 fs
  ident : ∀ f ∈ fs, ∀ g ∈ fs, f.ip.ident = g.ip.ident
  flags : ∃ front last, fs = front ++ [last] ∧ (∀ f ∈ front, f.ip.isLastFragment = false) ∧
    last.ip.isLastFragment = true

/-- A frame as a receiver takes it: by source, destination, protocol and ident. -/
def Sent.piece (f : Sent) : Piece (List UInt8 × List UInt8 × UInt8 × UInt16) UInt8 :=
  ⟨(f.ip.ip_src, f.ip.ip_dest, f.ip.protocol, f.ip.ident), f.ip.fragmentOffset.toNat,
    !f.ip.isLastFragment, f.data⟩

/-- A datagram with a UDP header for the payload, whose checksum is right. -/
def IsDatagram (st : Station) (host : List UInt8) (srcPort dstPort : UInt16) (payload d : List UInt8) :
    Prop :=
  ∃ chksum, d = udpHeader srcPort dstPort (UInt16.ofNat (8 + payload.length)) chksum ++ payload ∧
    checksum (pseudoHeader st.ipAddr host 17 (UInt16.ofNat (8 + payload.length)) ++ d) = 0

/-- **The round trip**: the frames are valid fragments, their data is the datagram, and a receiver
puts it together from them in any order, whatever else comes in. -/
structure RoundTrip (st : Station) (host : List UInt8) (srcPort dstPort : UInt16)
    (payload : List UInt8) (fs : List Sent) : Prop where
  fragments : Fragments st host fs
  datagram : IsDatagram st host srcPort dstPort payload (fs.flatMap Sent.data)
  collected : ∀ f ∈ fs, ∀ arriving,
    (arriving.filter fun p => p.key = f.piece.key).Perm (fs.map Sent.piece) →
    (collect f.piece.key arriving).done = some (fs.flatMap Sent.data)

/-- Valid fragments are cuts. -/
theorem cuts_of_follow {ident : UInt16} {front : List Sent} {last : Sent} {k : Nat}
    (h : Follow st host k (front ++ [last])) (hident : ∀ f ∈ front ++ [last], f.ip.ident = ident)
    (hfront : ∀ f ∈ front, f.ip.isLastFragment = false) (hlast : last.ip.isLastFragment = true) :
    Cuts (st.ipAddr, host, 17, ident) k ((front ++ [last]).map Sent.piece) := by
  have hkey : ∀ {f : Sent} {k : Nat}, f ∈ front ++ [last] → f.At st host k →
      f.piece.key = (st.ipAddr, host, 17, ident) := by
    intro f k hf hat
    unfold Sent.piece
    rw [hat.source, hat.dest, hat.protocol, hident f hf]
  induction front generalizing k with
  | nil =>
    obtain ⟨hat, -⟩ := h
    refine ⟨hkey (mem_singleton_self last) hat, hat.offset, ?_⟩
    change (!last.ip.isLastFragment) = false
    rw [hlast]
    rfl
  | cons f front ih =>
    obtain ⟨hat, hrest⟩ := h
    have hcuts := ih hrest (fun g hg => hident g (mem_cons_of_mem f hg))
      (fun g hg => hfront g (mem_cons_of_mem f hg))
      (fun hg => hkey (mem_cons_of_mem f hg))
    have hmore : f.piece.more = true := by
      change (!f.ip.isLastFragment) = true
      rw [hfront f mem_cons_self]
      rfl
    cases front with
    | nil => exact ⟨hkey mem_cons_self hat, hat.offset, hmore, hcuts⟩
    | cons g front => exact ⟨hkey mem_cons_self hat, hat.offset, hmore, hcuts⟩

/-- Valid fragments are put together, in any order. -/
theorem Fragments.collected {fs : List Sent} (h : Fragments st host fs) {f : Sent} (hf : f ∈ fs)
    {arriving : List (Piece (List UInt8 × List UInt8 × UInt8 × UInt16) UInt8)}
    (hperm : (arriving.filter fun p => p.key = f.piece.key).Perm (fs.map Sent.piece)) :
    (collect f.piece.key arriving).done = some (fs.flatMap Sent.data) := by
  obtain ⟨front, last, rfl, hfront, hlast⟩ := h.flags
  have hcuts := cuts_of_follow h.follow (fun g hg => h.ident g hg f hf) hfront hlast
  have hkey : f.piece.key = (st.ipAddr, host, 17, f.ip.ident) :=
    hcuts.key f.piece (mem_map_of_mem hf)
  rw [hkey] at hperm ⊢
  rw [hcuts.collect hperm, flatMap_map]
  rfl

/-! ## 5. The loop -/

theorem copy_zero_take (b : Block) (bytes : List UInt8) :
    (b.copy 0 bytes).body.take bytes.length = bytes := by
  unfold Block.copy
  rw [take_zero, nil_append, take_left]

/-- A block with its header set, as a frame. -/
theorem set_send {b : Block} {data : List UInt8} (ipIdent : UInt16) (more : Bool) {k : Nat}
    (hbody : b.body.take data.length = data) (hfits : 20 + data.length ≤ st.mtu)
    (hmax : st.mtu < 65536) (h8 : k % 8 = 0) (hk : k < 65536) :
    ((b.set st ipIdent host data.length more k).1.send (data.length + 14 + 20)).At st host k ∧
      ((b.set st ipIdent host data.length more k).1.send (data.length + 14 + 20)).data = data ∧
      ((b.set st ipIdent host data.length more k).1.send
        (data.length + 14 + 20)).ip.isLastFragment = !more ∧
      (b.set st ipIdent host data.length more k).1.ip.ident =
        (if more then b.ip.ident else htons ipIdent) ∧
      (b.set st ipIdent host data.length more k).2 = if more then ipIdent else ipIdent + 1 := by
  obtain ⟨hset, hident, hnext⟩ := set_spec st ipIdent host more b.ip
    (show 20 + data.length < 65536 by omega) h8 hk
  have hdata : ((b.set st ipIdent host data.length more k).1.send (data.length + 14 + 20)).data =
      data := by
    change b.body.take (data.length + 14 + 20 - 34) = data
    rw [show data.length + 14 + 20 - 34 = data.length by omega, hbody]
  refine ⟨⟨hset.source, hset.dest, hset.protocol, hset.offset, h8, ?_, ?_, ?_, hset.sums⟩, hdata,
    hset.last, hident, hnext⟩
  · rw [hdata]
    exact hset.length
  · rw [hdata]
    exact hfits
  · rw [hdata]
    change data.length + 14 + 20 = _
    omega

/-- The rest of a payload comes out even, so that its last part looks like a middle one. -/
def Even (mtu n : Nat) : Prop := (mtu - 20) % 8 = 0 ∧ n % (mtu - 20) = 0

theorem fragmentLoop_zero (st : Station) (host : List UInt8) (fuel : Nat) (block : Block)
    (payload : List UInt8) (k : Nat) (ipIdent : UInt16) :
    (fragmentLoop st host fuel block payload 0 k ipIdent).1 = [] := by
  cases fuel <;> rfl

/-- **The loop**: the rest of the payload goes out in frames that follow one another.  All of them
say that more follows, and have the old `ident`, but the last one where the rest does not come out
even. -/
theorem fragmentLoop_spec (st : Station) (host : List UInt8) (hmtu : 28 ≤ st.mtu)
    (hmax : st.mtu < 65536) : ∀ (fuel : Nat) (block : Block) (payload : List UInt8) (n k : Nat)
    (ipIdent : UInt16), n ≤ fuel → n ≤ payload.length → k % 8 = 0 → k + n < 65536 → 0 < n →
    Follow st host k (fragmentLoop st host fuel block payload n k ipIdent).1 ∧
      (fragmentLoop st host fuel block payload n k ipIdent).1.flatMap Sent.data = payload.take n ∧
      (Even st.mtu n →
        ∀ f ∈ (fragmentLoop st host fuel block payload n k ipIdent).1,
          f.ip.isLastFragment = false) ∧
      (¬ Even st.mtu n → ∃ front last,
        (fragmentLoop st host fuel block payload n k ipIdent).1 = front ++ [last] ∧
        (∀ f ∈ front, f.ip.isLastFragment = false ∧ f.ip.ident = block.ip.ident) ∧
        last.ip.isLastFragment = true ∧ last.ip.ident = htons ipIdent) := by
  intro fuel
  induction fuel with
  | zero => intro block payload n k ipIdent hfuel _ _ _ hpos; omega
  | succ fuel ih =>
    intro block payload n k ipIdent hfuel hlen h8 hk hpos
    rw [fragmentLoop, if_neg (by omega)]
    dsimp only
    have hcut : copyLen st n ≤ n := by
      unfold copyLen
      split <;> omega
    have hroom : 20 + copyLen st n ≤ st.mtu := by
      unfold copyLen
      split <;> omega
    have htake : (payload.take (copyLen st n)).length = copyLen st n := by
      rw [length_take]
      omega
    have hspec := @set_send st host (block.copy 0 (payload.take (copyLen st n))) _ ipIdent
      (moreFragments st n) k (copy_zero_take block _) (by rw [htake]; exact hroom) hmax h8 (by omega)
    rw [htake] at hspec
    obtain ⟨hat, hdata, hmore, hident, hnext⟩ := hspec
    generalize (block.copy 0 (payload.take (copyLen st n))).set st ipIdent host (copyLen st n)
      (moreFragments st n) k = r at hat hdata hmore hident hnext ⊢
    by_cases hlast : st.mtu - 20 > n
    · -- the last packet
      have hc : copyLen st n = n := if_pos hlast
      have hm : moreFragments st n = false := by
        rw [moreFragments, decide_eq_true hlast]
        rfl
      rw [hm] at hmore hident
      rw [hc] at hat hdata hmore ⊢
      rw [Nat.sub_self, fragmentLoop_zero]
      refine ⟨⟨hat, trivial⟩, ?_, fun heven => ?_, fun _ => ⟨[], _, rfl, ?_, hmore, hident⟩⟩
      · rw [flatMap_cons, hdata, flatMap_nil, append_nil]
      · have hmod := heven.2
        rw [mod_eq_of_lt hlast] at hmod
        omega
      · intro f hf
        cases hf
    · -- a middle packet
      have hc : copyLen st n = (st.mtu - 20) / 8 * 8 := if_neg hlast
      have hm : moreFragments st n = true := by
        rw [moreFragments, decide_eq_false hlast]
        rfl
      rw [hm] at hmore hident hnext
      have hdlen : (r.1.send (copyLen st n + 14 + 20)).data.length = copyLen st n := by
        rw [hdata, htake]
      by_cases hrest : n - copyLen st n = 0
      · rw [hrest, fragmentLoop_zero]
        have heven : Even st.mtu n := by
          have hn : n = st.mtu - 20 := by omega
          refine ⟨by omega, ?_⟩
          rw [← hn, mod_self]
        refine ⟨⟨hat, trivial⟩, ?_, fun _ f hf => ?_, fun hnot => absurd heven hnot⟩
        · rw [flatMap_cons, hdata, flatMap_nil, append_nil,
            show copyLen st n = n by omega]
        · rw [mem_singleton.mp hf]
          exact hmore
      · obtain ⟨hfollow, hflat, hall, hone⟩ := ih r.1 (payload.drop (copyLen st n))
          (n - copyLen st n) ((k + copyLen st n) % 65536) r.2 (by omega)
          (by rw [length_drop]; omega) (by omega) (by omega) (by omega)
        rw [mod_eq_of_lt (by omega)] at hfollow hflat hall hone ⊢
        have hiff : Even st.mtu n ↔ Even st.mtu (n - copyLen st n) := by
          refine and_congr_right fun h => ?_
          have hfull : copyLen st n = st.mtu - 20 := by omega
          rw [hfull, mod_eq_sub_mod (by omega)]
        refine ⟨⟨hat, by rw [hdlen]; exact hfollow⟩, ?_, fun heven f hf => ?_, fun hnot => ?_⟩
        · rw [flatMap_cons, hdata, hflat, ← take_add]
          congr 1
          omega
        · rcases mem_cons.mp hf with rfl | hf
          · exact hmore
          · exact hall (hiff.mp heven) f hf
        · obtain ⟨front, last, heq, hfront, hlast', hid⟩ := hone (fun h => hnot (hiff.mpr h))
          refine ⟨_ :: front, last, by rw [heq]; rfl, fun f hf => ?_, hlast', ?_⟩
          · rcases mem_cons.mp hf with rfl | hf
            · exact ⟨hmore, hident⟩
            · exact ⟨(hfront f hf).1, (hfront f hf).2.trans hident⟩
          · rw [hid, hnext]
            rfl

/-! ## 6. The round trip -/

/-- The first frame has the UDP header, and as much of the payload as has room. -/
theorem copy_header (b : Block) {header : List UInt8} (h : header.length = 8) (bytes : List UInt8) :
    ((b.copy 0 header).copy 8 bytes).body.take (header ++ bytes).length = header ++ bytes := by
  have htake : (b.copy 0 header).body.take 8 = header := h ▸ copy_zero_take b header
  change ((b.copy 0 header).body.take 8 ++ bytes ++ _).take _ = _
  rw [htake, take_left]

theorem udpHeader_length (srcPort dstPort udpLen chksum : UInt16) :
    (udpHeader srcPort dstPort udpLen chksum).length = 8 := rfl

/-- The header's checksum makes the datagram sum to zero. -/
theorem chksum2_datagram {src target : List UInt8} (hsrc : src.length = 4) (htarget : target.length = 4)
    (srcPort dstPort : UInt16) (payload : List UInt8) :
    checksum (pseudoHeader src target 17 (UInt16.ofNat (8 + payload.length)) ++
      (udpHeader srcPort dstPort (UInt16.ofNat (8 + payload.length))
        (chksum2 src target 17 (udpHeader srcPort dstPort (UInt16.ofNat (8 + payload.length)) 0)
          payload) ++ payload)) = 0 := by
  have hfilled : ∀ udpLen sum, SumFilled (udpHeader srcPort dstPort udpLen 0 ++ payload)
      (udpHeader srcPort dstPort udpLen sum ++ payload) sum := by
    intro udpLen sum
    refine ⟨[hiByte srcPort, loByte srcPort, hiByte dstPort, loByte dstPort, hiByte udpLen,
      loByte udpLen], payload, by simp, ?_, rfl⟩
    rfl
  unfold chksum2
  rw [udpHeader_length, ← UInt16.ofNat_add]
  refine SumFilled.zero (SumFilled.append (hfilled _ _) ?_)
  simp [pseudoHeader, hsrc, htarget]

/-- **All the frames of a payload**: they follow one another from offset 0 and have the datagram for
data; the first says that more follows, and has the `ident` that was in the memory. -/
theorem send_frames (st : Station) (ipIdent : UInt16) (block : Block) (srcPort dstPort : UInt16)
    {payloadLen : Nat} {data : List UInt8} (preAlloc : Bool) (hmin : 46 ≤ st.mtu)
    (hmax : st.mtu ≤ 1500) (haddr : st.ipAddr.length = 4) (hhost : host.length = 4)
    (hlong : st.mtu - 28 < payloadLen) (hshort : payloadLen ≤ 65507)
    (hdata : payloadLen ≤ (if preAlloc then data.drop 42 else data).length) :
    ∃ first rest, (sendUdpFragments st ipIdent block true host srcPort dstPort payloadLen data
        preAlloc).2.1 = first :: rest ∧
      Follow st host 0 (first :: rest) ∧
      IsDatagram st host srcPort dstPort
        ((if preAlloc then data.drop 42 else data).take payloadLen)
        ((first :: rest).flatMap Sent.data) ∧
      first.ip.isLastFragment = false ∧ first.ip.ident = block.ip.ident ∧
      (Even st.mtu (payloadLen - (st.mtu - 28) / 8 * 8) →
        ∀ f ∈ rest, f.ip.isLastFragment = false) ∧
      (¬ Even st.mtu (payloadLen - (st.mtu - 28) / 8 * 8) → ∃ front last, rest = front ++ [last] ∧
        (∀ f ∈ front, f.ip.isLastFragment = false ∧ f.ip.ident = block.ip.ident) ∧
        last.ip.isLastFragment = true ∧ last.ip.ident = htons ipIdent) := by
  unfold sendUdpFragments
  dsimp only
  generalize (if preAlloc then data.drop 42 else data) = payload at hdata ⊢
  generalize hlen : (st.mtu - 28) / 8 * 8 = len
  have hplen : (payload.take payloadLen).length = payloadLen := by
    rw [length_take]
    omega
  have htake : (payload.take len).length = len := by
    rw [length_take]
    omega
  have hzero := chksum2_datagram haddr hhost srcPort dstPort (payload.take payloadLen)
  rw [hplen] at hzero
  generalize hhead : udpHeader srcPort dstPort (UInt16.ofNat (8 + payloadLen)) (chksum2 st.ipAddr
    host 17 (udpHeader srcPort dstPort (UInt16.ofNat (8 + payloadLen)) 0)
    (payload.take payloadLen)) = header at hzero ⊢
  have hheader : header.length = 8 := hhead ▸ rfl
  have hboth : (header ++ payload.take len).length = len + 8 := by
    rw [length_append, hheader, htake, add_comm]
  have hspec := @set_send st host _ _ ipIdent true 0 (copy_header block hheader (payload.take len))
    (by omega) (by omega) rfl (by decide)
  rw [hboth] at hspec
  obtain ⟨hat, hfirst, hmore, hident, hnext⟩ := hspec
  rw [if_pos rfl] at hident hnext
  generalize ((block.copy 0 header).copy 8 (payload.take len)).set st ipIdent host (len + 8) true 0 =
    r at hat hfirst hmore hident hnext ⊢
  obtain ⟨hfollow, hflat, hall, hone⟩ := fragmentLoop_spec st host (by omega) (by omega) payloadLen r.1
    (payload.drop len) (payloadLen - len) (0 + len + 8) r.2 (by omega)
    (by rw [length_drop]; omega) (by omega) (by omega) (by omega)
  rw [mod_eq_of_lt (by omega)]
  have hwhole : (r.1.send (len + 8 + 14 + 20) :: (fragmentLoop st host payloadLen r.1
      (payload.drop len) (payloadLen - len) (0 + len + 8) r.2).1).flatMap Sent.data =
      header ++ payload.take payloadLen := by
    rw [flatMap_cons, hfirst, hflat, append_assoc, ← take_add]
    congr 2
    omega
  refine ⟨_, _, rfl, ⟨hat, ?_⟩, ?_, hmore, hident, hall, fun hnot => ?_⟩
  · rw [hfirst, hboth, show 0 + (len + 8) = 0 + len + 8 by omega]
    exact hfollow
  · rw [hwhole]
    unfold IsDatagram
    rw [hplen]
    exact ⟨_, by rw [hhead], hzero⟩
  · obtain ⟨front, last, heq, hfront, hlast, hid⟩ := hone hnot
    refine ⟨front, last, heq, fun f hf => ⟨(hfront f hf).1, (hfront f hf).2.trans hident⟩, hlast, ?_⟩
    rw [hid, hnext]

/-- **A payload in fragments makes the round trip exactly if** the memory happens to have the `ident`
that the last fragment is given, and the payload does not come out even. -/
theorem send_round_trip_iff (st : Station) (ipIdent : UInt16) (block : Block) (host : List UInt8)
    (srcPort dstPort : UInt16) (payloadLen : Nat) (data : List UInt8) (preAlloc : Bool)
    (hmin : 46 ≤ st.mtu) (hmax : st.mtu ≤ 1500) (haddr : st.ipAddr.length = 4)
    (hhost : host.length = 4) (hlong : st.mtu - 28 < payloadLen) (hshort : payloadLen ≤ 65507)
    (hdata : payloadLen ≤ (if preAlloc then data.drop 42 else data).length) :
    RoundTrip st host srcPort dstPort
        ((if preAlloc then data.drop 42 else data).take payloadLen)
        (sendUdpFragments st ipIdent block true host srcPort dstPort payloadLen data preAlloc).2.1 ↔
      block.ip.ident = htons ipIdent ∧
        ¬ ((st.mtu - 20) % 8 = 0 ∧ (payloadLen + 8) % (st.mtu - 20) = 0) := by
  obtain ⟨first, rest, hframes, hfollow, hdatagram, hmore, hident, hall, hone⟩ :=
    send_frames st ipIdent block srcPort dstPort preAlloc hmin hmax haddr hhost hlong hshort hdata
  have heven : Even st.mtu (payloadLen - (st.mtu - 28) / 8 * 8) ↔
      (st.mtu - 20) % 8 = 0 ∧ (payloadLen + 8) % (st.mtu - 20) = 0 := by
    refine and_congr_right fun h => ?_
    rw [show payloadLen + 8 = payloadLen - (st.mtu - 28) / 8 * 8 + (st.mtu - 20) by omega,
      Nat.add_mod_right]
  rw [hframes, ← heven]
  constructor
  · intro h
    obtain ⟨front, last, heq, -, hlast⟩ := h.fragments.flags
    by_cases hev : Even st.mtu (payloadLen - (st.mtu - 28) / 8 * 8)
    · -- no frame is a last one
      have hmem : last ∈ first :: rest := by
        rw [heq]
        exact List.mem_append_right _ (List.mem_singleton_self last)
      rcases List.mem_cons.mp hmem with rfl | hmem
      · rw [hmore] at hlast
        cases hlast
      · rw [hall hev last hmem] at hlast
        cases hlast
    · obtain ⟨mid, tail, hrest, -, -, hid⟩ := hone hev
      refine ⟨?_, hev⟩
      have hsame := h.fragments.ident first List.mem_cons_self tail (by rw [hrest]; simp)
      rw [← hident, hsame, hid]
  · rintro ⟨hsame, hev⟩
    obtain ⟨mid, tail, hrest, hmid, htail, hid⟩ := hone hev
    have hidents : ∀ f ∈ first :: rest, f.ip.ident = htons ipIdent := by
      intro f hf
      rw [hrest, List.mem_cons, List.mem_append, List.mem_singleton] at hf
      rcases hf with rfl | hf | rfl
      · exact hident.trans hsame
      · exact (hmid f hf).2.trans hsame
      · exact hid
    have hfragments : Fragments st host (first :: rest) := by
      refine ⟨hfollow, fun f hf g hg => (hidents f hf).trans (hidents g hg).symm,
        first :: mid, tail, by rw [hrest]; rfl, fun f hf => ?_, htail⟩
      rcases List.mem_cons.mp hf with rfl | hf
      · exact hmore
      · exact (hmid f hf).1
    exact ⟨hfragments, hdatagram, fun f hf arriving hperm => hfragments.collected hf hperm⟩

/-- Nineteen bytes over an MTU of 46, from memory that has the next `ident` already. -/
theorem send_round_trip_nineteen :
    RoundTrip ⟨46, [10, 0, 0, 1]⟩ [10, 0, 0, 2] 7 9 (List.replicate 19 65)
      (sendUdpFragments ⟨46, [10, 0, 0, 1]⟩ 5 ⟨⟨0, 0, 0, 0x0500, 0, 0, 0, 0, [], []⟩, []⟩ true
        [10, 0, 0, 2] 7 9 19 (List.replicate 19 65) false).2.1 :=
  (send_round_trip_iff ⟨46, [10, 0, 0, 1]⟩ 5 ⟨⟨0, 0, 0, 0x0500, 0, 0, 0, 0, [], []⟩, []⟩
    [10, 0, 0, 2] 7 9 19 (List.replicate 19 65) false (by decide) (by decide) rfl rfl (by decide)
    (by decide) (by decide)).mpr ⟨by decide, by decide⟩

/-- From other memory two datagrams begin; and of 56 bytes over an MTU of 52 no fragment is the last
one. -/
theorem send_not_round_trip :
    ¬ RoundTrip ⟨46, [10, 0, 0, 1]⟩ [10, 0, 0, 2] 7 9 (List.replicate 19 65)
      (sendUdpFragments ⟨46, [10, 0, 0, 1]⟩ 5 ⟨⟨0, 0, 0, 0, 0, 0, 0, 0, [], []⟩, []⟩ true
        [10, 0, 0, 2] 7 9 19 (List.replicate 19 65) false).2.1 ∧
    ¬ RoundTrip ⟨52, [10, 0, 0, 1]⟩ [10, 0, 0, 2] 7 9 (List.replicate 56 65)
      (sendUdpFragments ⟨52, [10, 0, 0, 1]⟩ 5 ⟨⟨0, 0, 0, 0x0500, 0, 0, 0, 0, [], []⟩, []⟩ true
        [10, 0, 0, 2] 7 9 56 (List.replicate 56 65) false).2.1 := by
  constructor
  · intro h
    exact nomatch h.fragments.ident
  · intro h
    have hnone : ∀ f ∈ (sendUdpFragments ⟨52, [10, 0, 0, 1]⟩ 5
        ⟨⟨0, 0, 0, 0x0500, 0, 0, 0, 0, [], []⟩, []⟩ true [10, 0, 0, 2] 7 9 56 (List.replicate 56 65)
        false).2.1, f.ip.isLastFragment = false := by decide
    obtain ⟨front, last, heq, -, hlast⟩ := h.fragments.flags
    rw [hnone last (heq ▸ List.mem_append_right _ (List.mem_singleton_self last))] at hlast
    cases hlast

end SdcBoot.Mtcp.Udp
