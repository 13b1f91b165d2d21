/-
# Which packets are read beyond their end

No length in a header is compared with the number of bytes that came in.  So a packet is read
beyond its end as soon as one of its lengths says so, and also when a length is too small: then a
checksum loop goes round.  A TCP header that is longer than the segment makes the data length go
round.

`Frame.Fits` says, field by field and in the order the fields are looked at, what the lengths have
to be; `ip_inside_iff` says that this is all.
-/
import SdcBoot.Mtcp.Ip

namespace SdcBoot.Mtcp

open List

/-! ## 1. What the lengths have to be -/

/-- The address of the sender and the segment lie in the packet.  When the checksum is right, the
TCP header is not longer than the segment where its data counts, and the options lie in the packet
where they are read. -/
structure Datagram.TcpFits (cfg : IpConfig) (luck : Luck) (p : Datagram) (w : World) : Prop where
  sender : 30 ≤ p.len
  least : 8 ≤ p.payloadLen
  segment : p.payloadPtr + p.payloadLen ≤ p.len
  noOwner : p.tcpChksum cfg = 0 → w.owner (p.segment 536) = none → p.codeBits.rst = false →
    p.tcpHlen ≤ p.payloadLen
  data : p.tcpChksum cfg = 0 → ∀ i, w.owner (p.segment 536) = some i →
    w.takesData cfg.tcp p i = true → p.tcpHlen ≤ p.payloadLen
  options : p.tcpChksum cfg = 0 → ∀ i, w.owner (p.segment 536) = some i →
    w.readsOptions luck p i = true → p.OptionsFit

/-- The addresses and what the UDP length names lie in the packet. -/
structure Datagram.UdpFits (p : Datagram) : Prop where
  addresses : 34 ≤ p.len
  least : 8 ≤ p.udpLen
  segment : p.payloadPtr + p.udpLen ≤ p.len

structure Datagram.IcmpFits (p : Datagram) : Prop where
  least : 2 ≤ p.payloadLen
  message : p.payloadPtr + p.payloadLen ≤ p.len

/-- The lengths the protocol goes by. -/
structure Datagram.TransportFits (cfg : IpConfig) (luck : Luck) (p : Datagram) (w : World) :
    Prop where
  tcp : cfg.compileTcp = true → p.protocol = 6 → p.TcpFits cfg luck w
  udp : cfg.compileUdp = true → p.protocol = 17 → cfg.dhcpClient = false → p.UdpFits
  icmp : cfg.compileIcmp = true → p.protocol = 1 → p.IcmpFits

/-- What is copied to a BigPacket lies in the fragments. -/
structure FragmentsFit (first : Datagram) (frags : List (Fragment Frame)) : Prop where
  headers : 34 ≤ first.len
  data : ∀ f ∈ frags, f.length = 0 ∨ f.packet.payloadPtr + f.length ≤ f.packet.len

/-- **The packets that are not read beyond their end.** -/
structure Frame.Fits (cfg : IpConfig) (around : Around) (f : Frame) (s : IpState) : Prop where
  least : f.ipHlen ≠ 0
  header : f.payloadPtr ≤ f.len
  unfragmented : f.ipchksum ethHeaderLen f.ipHlen = 0 → f.isFragment = false →
    f.TransportFits cfg around.luck s.world
  fragmented : f.ipchksum ethHeaderLen f.ipHlen = 0 → f.isFragment = true →
    cfg.fragmentsOn = true → ∀ frags first big,
    (s.reassembled cfg around f).datagram around = some (frags, first, big) →
    FragmentsFit first frags ∧ big.TransportFits cfg around.luck s.world

/-! ## 2. Sums and counts -/

variable {p : Datagram}

/-- A sum that goes round leaves every packet. -/
theorem Datagram.pChksum_inside (hlen : p.len < 131072) (start len : Nat) :
    (p.use start (pChksumLen len)).Inside ↔ 8 ≤ len ∧ start + len ≤ p.len := by
  rw [Datagram.use_inside]
  by_cases hleast : 8 ≤ len
  · rw [pChksumLen_of_le hleast]
    omega
  · have hlong := pChksumLen_of_lt (Nat.lt_of_not_le hleast)
    omega

theorem Datagram.ipchksum_inside (hlen : p.len < 131072) (start len : Nat) :
    (p.use start (ipchksumLen len)).Inside ↔ 2 ≤ len ∧ start + len ≤ p.len := by
  rw [Datagram.use_inside]
  by_cases hleast : 2 ≤ len
  · rw [ipchksumLen_of_le hleast]
    omega
  · have hlong := ipchksumLen_of_lt (Nat.lt_of_not_le hleast)
    omega

/-- Data that is counted in a segment that lies in the packet. -/
theorem Datagram.countData_sound (hsegment : p.payloadPtr + p.payloadLen ≤ p.len) :
    p.countData.Sound ↔ p.tcpHlen ≤ p.payloadLen := by
  have hlt : p.payloadLen < 65536 := sub16_lt _ _
  constructor
  · intro h
    have hexact : p.incomingDataLen + p.tcpHlen = p.payloadLen :=
      h.exact _ (mem_singleton.mpr rfl)
    omega
  · intro hle
    have hexact : p.tcpHlen + p.incomingDataLen = p.payloadLen := sub16_of_le hlt hle
    refine ⟨fun u hu => ?_, fun c hc => ?_⟩
    · rw [mem_singleton.mp hu]
      refine .inr ?_
      change p.payloadPtr + p.tcpHlen + p.incomingDataLen ≤ p.len
      omega
    · rw [mem_singleton.mp hc]
      exact (add_comm _ _).trans hexact

/-! ## 3. The protocols -/

section Protocols

variable {cfg : IpConfig} {luck : Luck} {p : Datagram} {w : World}

theorem tcpSummed_sound (hlen : p.len < 131072) :
    (Handled.of p.tcpSummed).Sound ↔
      30 ≤ p.len ∧ 8 ≤ p.payloadLen ∧ p.payloadPtr + p.payloadLen ≤ p.len := by
  rw [Handled.of_sound]
  unfold Datagram.tcpSummed
  rw [forall_mem_cons, forall_mem_singleton, Datagram.pChksum_inside hlen, Datagram.use_inside]
  omega

/-- Options are read of a SYN and data is counted of the others, never both. -/
theorem readsOptions_takesData {i : Nat} (hopt : w.readsOptions luck p i = true) :
    w.takesData cfg.tcp p i = false := by
  unfold World.readsOptions at hopt
  unfold World.takesData
  cases hst : (w.sock i).state with
  | listen =>
    rw [hst] at hopt
    simp only [Bool.and_eq_true] at hopt
    simp [hopt.1]
  | synSent =>
    rw [hst] at hopt
    simp only [Bool.and_eq_true] at hopt
    simp [hopt.1.2, hopt.2]
  | _ =>
    rw [hst] at hopt
    cases hopt

/-- What a segment needs once its socket is known. -/
theorem process2_sound (hsegment : p.payloadPtr + p.payloadLen ≤ p.len) (i : Nat) :
    (∀ fuel, (process2Handled cfg.tcp luck fuel p w i).Sound) ↔
      (w.takesData cfg.tcp p i = true → p.tcpHlen ≤ p.payloadLen) ∧
        (w.readsOptions luck p i = true → p.OptionsFit) := by
  unfold process2Handled
  by_cases hopt : w.readsOptions luck p i = true
  · have hdata := @readsOptions_takesData cfg luck p w i hopt
    simp only [hopt, if_true, Handled.of_sound, p.readMSS_inside_iff, hdata, Bool.false_eq_true,
      false_implies, true_and, forall_const]
  · by_cases hdata : w.takesData cfg.tcp p i = true
    · simp only [hopt, hdata, Bool.false_eq_true, if_false, if_true, forall_const, false_implies,
        and_true, Datagram.countData_sound hsegment]
    · simp only [hopt, hdata, Bool.false_eq_true, if_false, forall_const, false_implies, and_true,
        Handled.nothing_sound]

section

variable (hlen : p.len < 131072)
include hlen

theorem tcpProcess_sound :
    (∀ fuel, (tcpProcess cfg luck fuel p w).1.Sound) ↔ p.TcpFits cfg luck w := by
  have hsummed := @tcpSummed_sound p hlen
  unfold tcpProcess
  by_cases hsum : p.tcpChksum cfg = 0
  · simp only [hsum, ne_eq, not_true_eq_false, if_false]
    cases howner : w.owner (p.segment 536) with
    | none =>
      simp only [Handled.append_sound, forall_const, hsummed]
      constructor
      · rintro ⟨⟨hsender, hleast, hsegment⟩, hrst⟩
        refine ⟨hsender, hleast, hsegment, fun _ _ hno => ?_, fun _ i hi => ?_, fun _ i hi => ?_⟩
        · rw [hno] at hrst
          exact (Datagram.countData_sound hsegment).mp hrst
        · rw [howner] at hi
          cases hi
        · rw [howner] at hi
          cases hi
      · intro h
        refine ⟨⟨h.sender, h.least, h.segment⟩, ?_⟩
        cases hrst : p.codeBits.rst with
        | true => exact Handled.nothing_sound
        | false =>
          exact (Datagram.countData_sound h.segment).mpr (h.noOwner hsum howner hrst)
    | some i =>
      simp only [Handled.append_sound, forall_and, forall_const, hsummed]
      constructor
      · rintro ⟨⟨hsender, hleast, hsegment⟩, hproc⟩
        obtain ⟨hdata, hopt⟩ := (process2_sound hsegment i).mp hproc
        refine ⟨hsender, hleast, hsegment, fun _ hno => ?_, fun _ j hj => ?_, fun _ j hj => ?_⟩
        · rw [howner] at hno
          cases hno
        · rw [howner] at hj
          exact Option.some.inj hj ▸ hdata
        · rw [howner] at hj
          exact Option.some.inj hj ▸ hopt
      · intro h
        exact ⟨⟨h.sender, h.least, h.segment⟩, (process2_sound h.segment i).mpr
          ⟨h.data hsum i howner, h.options hsum i howner⟩⟩
  · simp only [ne_eq, hsum, not_false_eq_true, if_true, forall_const, hsummed]
    constructor
    · rintro ⟨hsender, hleast, hsegment⟩
      exact ⟨hsender, hleast, hsegment, fun h => absurd h hsum, fun h => absurd h hsum,
        fun h => absurd h hsum⟩
    · intro h
      exact ⟨h.sender, h.least, h.segment⟩

theorem udpProcess_sound : (udpProcess cfg p).Sound ↔ (cfg.dhcpClient = false → p.UdpFits) := by
  unfold udpProcess
  cases cfg.dhcpClient with
  | true => simp [Handled.nothing_sound]
  | false =>
    simp only [Bool.false_eq_true, if_false, Handled.of_sound, forall_mem_cons,
      not_mem_nil, false_implies, implies_true, and_true, forall_const,
      Datagram.pChksum_inside hlen, Datagram.use_inside]
    constructor
    · rintro ⟨-, haddr, hleast, hsegment⟩
      exact ⟨by omega, hleast, hsegment⟩
    · intro h
      have haddr := h.addresses
      exact ⟨by omega, by omega, h.least, h.segment⟩

/-- What is echoed was summed. -/
theorem icmpProcess_sound : (icmpProcess cfg p).Sound ↔ p.IcmpFits := by
  unfold icmpProcess
  rw [Handled.of_sound, forall_mem_cons, Datagram.ipchksum_inside hlen]
  constructor
  · rintro ⟨⟨hleast, hmessage⟩, -⟩
    exact ⟨hleast, hmessage⟩
  · intro h
    refine ⟨⟨h.least, h.message⟩, fun u hu => ?_⟩
    split at hu
    · rw [mem_singleton.mp hu]
      exact .inr h.message
    · cases hu

theorem transport_sound (s : IpState) :
    (∀ fuel, (transport cfg luck fuel p s).1.Sound) ↔ p.TransportFits cfg luck s.world := by
  unfold transport
  by_cases htcp : cfg.compileTcp = true ∧ p.protocol = 6
  · simp only [if_pos htcp]
    rw [tcpProcess_sound hlen]
    exact ⟨fun h => ⟨fun _ _ => h, fun _ hno => by omega, fun _ hno => by omega⟩,
      fun h => h.tcp htcp.1 htcp.2⟩
  · simp only [if_neg htcp]
    by_cases hudp : cfg.compileUdp = true ∧ p.protocol = 17
    · simp only [if_pos hudp, forall_const]
      rw [udpProcess_sound hlen]
      exact ⟨fun h => ⟨fun _ hno => by omega, fun _ _ => h, fun _ hno => by omega⟩,
        fun h => h.udp hudp.1 hudp.2⟩
    · simp only [if_neg hudp]
      by_cases hicmp : cfg.compileIcmp = true ∧ p.protocol = 1
      · simp only [if_pos hicmp, forall_const]
        rw [icmpProcess_sound hlen]
        exact ⟨fun h => ⟨fun _ hno => by omega, fun _ hno => by omega, fun _ _ => h⟩,
          fun h => h.icmp hicmp.1 hicmp.2⟩
      · simp only [if_neg hicmp, forall_const]
        exact ⟨fun _ => ⟨fun hc hp => absurd ⟨hc, hp⟩ htcp, fun hc hp => absurd ⟨hc, hp⟩ hudp,
          fun hc hp => absurd ⟨hc, hp⟩ hicmp⟩, fun _ => Handled.nothing_sound⟩

end

end Protocols

/-! ## 4. The whole way -/

theorem bigPacketUses_sound (first : Datagram) (frags : List (Fragment Frame)) :
    (Handled.of (bigPacketUses first frags)).Sound ↔ FragmentsFit first frags := by
  rw [Handled.of_sound]
  unfold bigPacketUses
  rw [forall_mem_cons, forall_mem_map, Datagram.use_inside]
  constructor
  · rintro ⟨hheaders, hdata⟩
    exact ⟨by omega, hdata⟩
  · intro h
    have hheaders := h.headers
    exact ⟨by omega, h.data⟩

/-- A BigPacket is not so long that a sum could go round in it. -/
theorem Reassembled.datagram_len {r : Reassembled Frame} {around : Around}
    {frags : List (Fragment Frame)} {first big : Datagram}
    (hr : r.datagram around = some (frags, first, big)) : big.len < 131072 := by
  unfold Reassembled.datagram at hr
  split at hr
  · obtain ⟨-, hrest⟩ := Prod.mk.inj (Option.some.inj hr)
    cases hrest
    unfold makeBigPacket fragsLength
    dsimp only
    omega
  · cases hr

theorem fragmentProcess_sound {cfg : IpConfig} {around : Around} {f : Frame} {s : IpState} :
    (∀ fuel, (fragmentProcess cfg around fuel f s).1.Sound) ↔ ∀ frags first big,
      (s.reassembled cfg around f).datagram around = some (frags, first, big) →
      FragmentsFit first frags ∧ big.TransportFits cfg around.luck s.world := by
  cases hr : (s.reassembled cfg around f).datagram around with
  | none =>
    have hnone : ∀ fuel, (fragmentProcess cfg around fuel f s).1 = .nothing := by
      intro fuel
      rw [fragmentProcess]
      simp only [hr]
    simp only [hnone, Handled.nothing_sound, forall_const, true_iff]
    exact nofun
  | some r =>
    obtain ⟨frags, first, big⟩ := r
    have hsome : ∀ fuel, (fragmentProcess cfg around fuel f s).1 =
        (Handled.of (bigPacketUses first frags)).append
          (transport cfg around.luck fuel big
            { s with fragControl := (s.reassembled cfg around f).fragControl }).1 := by
      intro fuel
      rw [fragmentProcess]
      simp only [hr]
    simp only [hsome, Handled.append_sound, bigPacketUses_sound]
    rw [forall_and, forall_const, transport_sound (Reassembled.datagram_len hr)]
    constructor
    · rintro h frags' first' big' heq
      obtain ⟨hfrags, hrest⟩ := Prod.mk.inj (Option.some.inj heq)
      obtain ⟨hfirst, hbig⟩ := Prod.mk.inj hrest
      subst hfrags hfirst hbig
      exact h
    · intro h
      exact h frags first big rfl

/-- **Only bytes of the packet are used, and data is counted as it is, when the lengths fit.** -/
theorem ip_inside_iff (cfg : IpConfig) (around : Around) (f : Frame) (s : IpState) :
    (∀ fuel, (ipProcess cfg around fuel f s).1.Sound) ↔ f.Fits cfg around s := by
  have hshort : f.len < 131072 := lt_of_le_of_lt f.short (by decide)
  have hheader : (Handled.of [f.use ethHeaderLen (ipchksumLen f.ipHlen)]).Sound ↔
      f.ipHlen ≠ 0 ∧ f.payloadPtr ≤ f.len := by
    rw [Handled.of_sound, List.forall_mem_singleton, Datagram.ipchksum_inside hshort]
    unfold Datagram.payloadPtr Datagram.ipHlen
    omega
  unfold ipProcess
  by_cases hsum : f.ipchksum ethHeaderLen f.ipHlen = 0
  · simp only [hsum, ne_eq, not_true_eq_false, if_false, Handled.append_sound, forall_and,
      forall_const, hheader]
    cases hfrag : f.isFragment with
    | true =>
      cases hon : cfg.fragmentsOn with
      | true =>
        simp only [if_true]
        rw [fragmentProcess_sound]
        constructor
        · rintro ⟨⟨hleast, hhdr⟩, h⟩
          exact ⟨hleast, hhdr, fun _ hno => absurd (hfrag.symm.trans hno) (by simp),
            fun _ _ _ => h⟩
        · intro h
          exact ⟨⟨h.least, h.header⟩, h.fragmented hsum hfrag hon⟩
      | false =>
        simp only [if_true, Bool.false_eq_true, if_false, forall_const]
        constructor
        · rintro ⟨⟨hleast, hhdr⟩, -⟩
          exact ⟨hleast, hhdr, fun _ hno => absurd (hfrag.symm.trans hno) (by simp),
            fun _ _ hno => absurd (hon.symm.trans hno) (by simp)⟩
        · intro h
          exact ⟨⟨h.least, h.header⟩, Handled.nothing_sound⟩
    | false =>
      simp only [Bool.false_eq_true, if_false]
      rw [transport_sound hshort]
      constructor
      · rintro ⟨⟨hleast, hhdr⟩, h⟩
        exact ⟨hleast, hhdr, fun _ _ => h, fun _ hno => absurd (hfrag.symm.trans hno) (by simp)⟩
      · intro h
        exact ⟨⟨h.least, h.header⟩, h.unfragmented hsum hfrag⟩
  · simp only [ne_eq, hsum, not_false_eq_true, if_true, forall_const, hheader]
    constructor
    · rintro ⟨hleast, hhdr⟩
      exact ⟨hleast, hhdr, fun h => absurd h hsum, fun h => absurd h hsum⟩
    · intro h
      exact ⟨h.least, h.header⟩

/-! ## 5. A short packet with a long length -/

/-- The bytes of an Ethernet frame of the least size: an IP header that says 46 bytes, and a UDP
header that says 100. -/
def longUdpBytes : List UInt8 :=
  List.replicate 14 0 ++
    [0x45, 0, 0, 46, 0, 0, 0, 0, 64, 17, 0xf9, 0x6b, 192, 168, 0, 1, 192, 168, 0, 2] ++
    [3, 232, 0, 53, 0, 100, 0, 0] ++ List.replicate 18 0

def longUdp : Frame where
  mem := fun k => longUdpBytes.getD k 0
  len := 60
  short := by decide

/-- A program that takes UDP, as they are configured. -/
def udpProgram : IpConfig where
  tcp := ⟨8, 1460, 8, by decide⟩
  frag := ⟨10, 1500⟩
  fragmentsOn := true
  dhcpClient := false
  compileTcp := true
  compileUdp := true
  compileIcmp := true
  icmpEchoOptData := 256
  myIpAddr := [0xa8c0, 0x0200]

/-- The checksum goes 74 bytes beyond the frame. -/
theorem longUdp_read_beyond :
    longUdp.len ≤ packetBufferLen ∧
      ¬ (ipProcess udpProgram ⟨⟨0, true, true⟩, none⟩ 0 longUdp ⟨init 4 4, []⟩).1.Sound := by
  decide +kernel

end SdcBoot.Mtcp
