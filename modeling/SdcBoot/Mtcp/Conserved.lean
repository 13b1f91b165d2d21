/-
# Packet buffers are conserved

Above the receiver a routine is given a packet and has to leave it somewhere: `Takes` says that
afterwards all packets are where they were, and this one is in one more place.  Below, the stack and
the ring are lists, and what the receiver and `Buffer_free` do moves a buffer from one to another.

Two routines do not leave every packet in one place.  `Udp::process` compares the place of the
callback with the number of callbacks when it returns, to see whether there was one at all; a
callback that unregisters the last of them makes the two equal, and the packet is freed although the
user has it (`freed_twice`).  And a socket that is initialised again forgets the raw packets in its
ring.  In every other run each buffer is in one place (`buffers_conserved`).
-/
import SdcBoot.Mtcp.Buffers
import SdcBoot.Mtcp.Inside

namespace SdcBoot.Mtcp

open Lib List Option Nat

/-! ## 1. The receiver -/

namespace PacketPool

variable {cfg : PacketConfig} {q : PacketPool}

/-- The indices are in the ring. -/
structure Indexed (cfg : PacketConfig) (q : PacketPool) : Prop where
  first_lt : q.first < cfg.rbSize
  next_lt : q.next < cfg.rbSize

variable {k : Nat}

theorem wrap_lt (h : k < cfg.rbSize) : cfg.wrap k < cfg.rbSize := by
  unfold PacketConfig.wrap
  split <;> omega

theorem wrap_eq_mod (h : k < cfg.rbSize) : cfg.wrap k = (k + 1) % cfg.rbSize := by
  unfold PacketConfig.wrap
  split
  · rename_i heq
    rw [heq, mod_self]
  · rw [mod_eq_of_lt (by omega)]

theorem entries_lt (h : q.Indexed cfg) : q.entries cfg < cfg.rbSize := by
  have hnext := h.next_lt
  unfold entries
  split <;> omega

/-- `Buffer_next` stands behind the packets in the ring. -/
theorem behind_entries (h : q.Indexed cfg) : (q.first + q.entries cfg) % cfg.rbSize = q.next := by
  have hfirst := h.first_lt
  have hnext := h.next_lt
  by_cases hle : q.first ≤ q.next
  · rw [entries, if_pos hle, Nat.add_sub_cancel' hle, mod_eq_of_lt hnext]
  · have hsum : q.first + (q.next + cfg.rbSize - q.first) = q.next + cfg.rbSize := by omega
    rw [entries, if_neg hle, hsum, add_mod_right, mod_eq_of_lt hnext]

/-- A buffer is pushed on the free stack. -/
theorem stack_free (b : Nat) (q : PacketPool) : (q.free b).stack = q.stack ++ [b] := by
  unfold stack free
  rw [range_succ, map_append]
  congr 1
  · refine map_congr_left fun k hk => ?_
    have hne : k ≠ q.fsIndex := Nat.ne_of_lt (mem_range.mp hk)
    exact Function.update_of_ne hne _ _
  · simp

/-- A buffer is popped from the free stack. -/
theorem stack_pop (h : q.fsIndex ≠ 0) :
    q.stack = (List.range (q.fsIndex - 1)).map q.fs ++ [q.fs (q.fsIndex - 1)] := by
  obtain ⟨n, hn⟩ := exists_eq_succ_of_ne_zero h
  rw [stack, hn, range_succ, map_append]
  rfl

theorem below_free (b x : Nat) (q : PacketPool) :
    ((q.free b).below cfg).count x = (q.below cfg).count x + [b].count x := by
  have hring : (q.free b).received cfg = q.received cfg := rfl
  have hdriver : (q.free b).inDriver = q.inDriver := rfl
  simp only [below, hring, hdriver, stack_free, count_append]
  omega

/-- The driver is given a buffer of the free stack, or none. -/
theorem below_allocate (len x : Nat) (q : PacketPool) :
    ((q.allocate len).below cfg).count x = (q.below cfg).count x := by
  unfold allocate
  split
  · rfl
  · rename_i h
    obtain ⟨hfree, hrest⟩ := not_or.mp h
    have hpop := stack_pop (not_or.mp hrest).2
    simp only [below, inDriver, hfree, if_true, Bool.false_eq_true, if_false, count_append,
      hpop, count_nil]
    simp only [stack, received, entries]
    omega

/-- There is one packet more in the ring. -/
theorem entries_complete (f : Frame) (h : q.Indexed cfg) (hdriver : q.receiving = true)
    (hroom : q.entries cfg + 1 < cfg.rbSize) :
    (q.complete cfg f).entries cfg = q.entries cfg + 1 := by
  have hfirst := h.first_lt
  have hnext := h.next_lt
  unfold complete entries PacketConfig.wrap at *
  rw [if_pos hdriver]
  dsimp only
  split at hroom <;> split <;> split <;> omega

theorem received_complete (f : Frame) (h : q.Indexed cfg) (hdriver : q.receiving = true)
    (hroom : q.entries cfg + 1 < cfg.rbSize) :
    (q.complete cfg f).received cfg = q.received cfg ++ [q.packetTmp] := by
  rw [received, entries_complete f h hdriver hroom]
  unfold complete
  rw [if_pos hdriver]
  have hnext := behind_entries h
  have hlt := h.next_lt
  refine @window_write Nat cfg.rbSize q.first (q.entries cfg) q.ring _ [q.packetTmp] h.first_lt
    (by simpa using hroom.le) ?_ ?_
  · intro j hj
    have hzero : j = 0 := by simpa using hj
    subst hzero
    rw [hnext, add_zero, mod_eq_of_lt hlt]
    exact Function.update_self _ _ _
  · intro x _ hne
    have hx := hne 0 Nat.zero_lt_one
    rw [hnext, add_zero, mod_eq_of_lt hlt] at hx
    exact Function.update_of_ne hx _ _

theorem indexed_complete (f : Frame) (h : q.Indexed cfg) : (q.complete cfg f).Indexed cfg := by
  unfold complete
  split
  · exact ⟨h.first_lt, wrap_lt h.next_lt⟩
  · exact h

theorem below_complete (f : Frame) (h : q.Indexed cfg)
    (hroom : q.receiving = true → q.entries cfg + 1 < cfg.rbSize) (x : Nat) :
    ((q.complete cfg f).below cfg).count x = (q.below cfg).count x := by
  cases hdriver : q.receiving with
  | false =>
    have hsame : q.complete cfg f = q := by simp [complete, hdriver]
    rw [hsame]
  | true =>
    have hstack : (q.complete cfg f).stack = q.stack := by
      unfold complete
      rw [if_pos hdriver]
      rfl
    have hnone : (q.complete cfg f).inDriver = [] := by simp [complete, inDriver, hdriver]
    have hsome : q.inDriver = [q.packetTmp] := by simp [inDriver, hdriver]
    rw [below, below, received_complete f h hdriver (hroom hdriver), hstack, hnone, hsome,
      append_nil]

/-- The oldest packet of the ring. -/
theorem received_dequeue (h : q.Indexed cfg) (hne : q.first ≠ q.next) :
    q.received cfg = q.ring q.first :: (q.dequeue cfg).received cfg := by
  have hfirst := h.first_lt
  have hnext := h.next_lt
  have hentries : q.entries cfg = 1 + (q.dequeue cfg).entries cfg := by
    unfold dequeue entries PacketConfig.wrap
    dsimp only
    split <;> split <;> split <;> omega
  rw [received, hentries, window_add]
  have hone : window cfg.rbSize q.ring q.first 1 = [q.ring q.first] := by
    simp [window, mod_eq_of_lt hfirst]
  rw [hone, singleton_append, ← wrap_eq_mod hfirst]
  rfl

theorem indexed_dequeue (h : q.Indexed cfg) : (q.dequeue cfg).Indexed cfg :=
  ⟨wrap_lt h.first_lt, h.next_lt⟩

theorem below_dequeue (h : q.Indexed cfg) (hne : q.first ≠ q.next) (x : Nat) :
    ((q.dequeue cfg).below cfg).count x + [q.ring q.first].count x = (q.below cfg).count x := by
  have hstack : (q.dequeue cfg).stack = q.stack := rfl
  have hdriver : (q.dequeue cfg).inDriver = q.inDriver := rfl
  rw [below, below, received_dequeue h hne, hstack, hdriver]
  simp only [count_append, count_cons, count_nil]
  omega

end PacketPool

/-! ## 2. A packet is left somewhere -/

/-- A slot that is not in use holds nothing. -/
def SlotsIdle (slots : List (FragControl Nat)) : Prop :=
  ∀ fc ∈ slots, fc.inUse = false → fc.frags = []

/-- **What a routine does that is given `ps`**: all packets are where they were or elsewhere, and
those of `ps` are in one more place. -/
structure Takes (ps : List PacketId) (m m' : Packets) : Prop where
  pool : m'.pool = m.pool
  idle : SlotsIdle m.fragControl → SlotsIdle m'.fragControl
  above : ∀ b, m'.above.count (.buffer b) = m.above.count (.buffer b) + ps.count (.buffer b)

namespace Takes

variable {m m' m'' : Packets} {ps qs : List PacketId}

theorem refl (m : Packets) : Takes [] m m := ⟨rfl, id, fun _ => rfl⟩

theorem trans (h : Takes ps m m') (h' : Takes qs m' m'') : Takes (ps ++ qs) m m'' where
  pool := h'.pool.trans h.pool
  idle := h'.idle ∘ h.idle
  above b := by
    rw [h'.above, h.above, count_append, add_assoc]

theorem frees (ps : List PacketId) (m : Packets) : Takes ps m (m.frees ps) where
  pool := rfl
  idle := id
  above b := by
    simp only [Packets.above, Packets.frees, count_append]
    omega

/-- A packet that is waiting for the user of a socket. -/
theorem incoming (xs : List (Nat × PacketId)) (w : World) (m : Packets) :
    Takes (xs.map Prod.snd) m { m with world := w, incoming := m.incoming ++ xs } where
  pool := rfl
  idle := id
  above b := by
    simp only [Packets.above, map_append, count_append]
    omega

/-- A packet for the user. -/
theorem user (ps : List PacketId) (ports : List Nat) (m : Packets) :
    Takes ps m { m with callbackList := ports, user := m.user ++ ps } where
  pool := rfl
  idle := id
  above b := by
    simp only [Packets.above, count_append]
    omega

theorem count_split (i : Nat) (xs : List (Nat × PacketId)) (p : PacketId) :
    ((notOfSocket i xs).map Prod.snd).count p + ((ofSocket i xs).map Prod.snd).count p =
      (xs.map Prod.snd).count p := by
  have hperm := (filter_append_perm (fun x : Nat × PacketId => x.1 == i) xs).map Prod.snd
  have hcount := hperm.count_eq p
  rw [map_append, count_append] at hcount
  rw [add_comm]
  exact hcount

theorem cleared (i : Nat) (m : Packets) : Takes [] m (m.cleared i) := by
  unfold Packets.cleared
  split
  · refine ⟨rfl, id, fun b => ?_⟩
    have hsplit := count_split i m.incoming (.buffer b)
    simp only [Packets.above, count_append, count_nil]
    omega
  · exact refl m

theorem cleared_all (is : List Nat) (m : Packets) : Takes [] m (is.foldl Packets.cleared m) := by
  induction is generalizing m with
  | nil => exact refl m
  | cons i is ih => exact (cleared i m).trans (ih (m.cleared i))

end Takes

/-! ## 3. Reassembly -/

/-- The packets in the slots. -/
def heldIn (slots : List (FragControl Nat)) : List Nat := slots.flatMap FragControl.packets

variable {slots : List (FragControl Nat)} {i : Nat}

theorem heldIn_set (fc : FragControl Nat) (h : i < slots.length) (b : Nat) :
    (heldIn (slots.set i fc)).count b + ((slots.getD i .idle).packets).count b =
      (heldIn slots).count b + fc.packets.count b := by
  induction slots generalizing i with
  | nil => exact absurd h (Nat.not_lt_zero i)
  | cons s slots ih =>
    cases i with
    | zero =>
      simp only [heldIn, set_cons_zero, flatMap_cons, count_append, getD_cons_zero]
      omega
    | succ i =>
      have hrest := ih (lt_of_succ_lt_succ h)
      simp only [heldIn, set_cons_succ, flatMap_cons, count_append, getD_cons_succ] at hrest ⊢
      omega

theorem slotsIdle_set {fc : FragControl Nat} (i : Nat) (h : SlotsIdle slots)
    (hfc : fc.inUse = false → fc.frags = []) : SlotsIdle (slots.set i fc) := by
  intro fc' hmem
  rcases mem_or_eq_of_mem_set hmem with hold | rfl
  · exact h fc' hold
  · exact hfc

/-- **What `processFragment` makes of the packet `b`**: it is held or freed, and so are the packets
that were held. -/
structure Collects (b : Nat) (slots : List (FragControl Nat)) (r : Reassembled Nat) : Prop where
  idle : SlotsIdle slots → SlotsIdle r.fragControl
  count : SlotsIdle slots → ∀ x,
    (heldIn r.fragControl).count x + r.freed.count x = (heldIn slots).count x + [b].count x

section

variable {cfg : FragConfig} {big : Bool} {info : FragInfo} {b i : Nat}
  {slots : List (FragControl Nat)} {fc : FragControl Nat}

section

variable (hi : i < slots.length)
include hi

/-- The slot is given up; `fc` has what the slot held, and together with `extra` also `b`. -/
theorem giveUp_collects (extra : List Nat) (hcount : ∀ x, extra.count x + fc.packets.count x =
      (slots.getD i .idle).packets.count x + [b].count x) :
    Collects b slots (giveUp slots i fc extra) where
  idle h := slotsIdle_set i h fun _ => rfl
  count h x := by
    have hset := heldIn_set fc.killed hi x
    have hx := hcount x
    have hnone : fc.killed.packets = [] := rfl
    rw [hnone, count_nil] at hset
    simp only [giveUp, count_append]
    omega

/-- The slot becomes `fc`, and `freed` is freed. -/
theorem set_collects (freed : List Nat) (whole : Option (List (Fragment Nat)))
    (huse : fc.inUse = false → fc.frags = []) (hcount : ∀ x, freed.count x + fc.packets.count x =
      (slots.getD i .idle).packets.count x + [b].count x) :
    Collects b slots ⟨slots.set i fc, freed, whole⟩ where
  idle h := slotsIdle_set i h huse
  count h x := by
    have hset := heldIn_set fc hi x
    have hx := hcount x
    dsimp only
    omega

theorem inserted_collects (huse : fc.inUse = true)
    (hcount : ∀ x, fc.packets.count x = (slots.getD i .idle).packets.count x + [b].count x) :
    Collects b slots (inserted cfg big slots i fc) := by
  have hgive : Collects b slots (giveUp slots i fc []) :=
    giveUp_collects hi [] fun x => by rw [count_nil, zero_add, hcount]
  unfold inserted
  split
  · exact ⟨hgive.idle, hgive.count⟩
  · split
    · exact hgive
    · exact set_collects hi [] none (fun hno => nomatch huse.symm.trans hno)
        fun x => by rw [count_nil, zero_add, hcount]

theorem addFragment_collects (hslot : slots.getD i .idle = fc)
    (huse : fc.inUse = true) : Collects b slots (addFragment cfg big info b slots i fc) := by
  subst hslot
  unfold addFragment
  split
  · exact giveUp_collects hi [b] fun x => add_comm _ _
  · set fc := slots.getD i .idle with hfc
    set fc1 := if info.last then { fc with lastFragRcvd := true } else fc with hfc1
    have hfrags : fc1.frags = fc.frags := by
      rw [hfc1]
      split <;> rfl
    have huse1 : fc1.inUse = true := by
      rw [hfc1]
      split
      · exact huse
      · exact huse
    have hpackets : fc1.packets = fc.packets := by rw [FragControl.packets, hfrags]; rfl
    have hin : Collects b slots (inserted cfg big slots i
        { fc1 with
          frags := fc1.frags.insertIdx (fc1.insertPos info.offset) (info.fragment b) }) := by
      refine inserted_collects hi huse1 fun x => ?_
      have hperm := (perm_insertIdx (info.fragment b) fc1.frags
        (i := fc1.insertPos info.offset) findIdx_le_length).map Fragment.packet
      rw [FragControl.packets, hperm.count_eq, map_cons, ← singleton_append,
        count_append, add_comm]
      rw [← hpackets]
      rfl
    dsimp only
    split
    · split
      · refine set_collects hi [b] none (fun hno => nomatch huse1.symm.trans hno) ?_
        intro x
        rw [hpackets, add_comm]
      · split
        · refine giveUp_collects hi [b] fun x => ?_
          rw [hpackets, add_comm]
        · exact hin
    · exact hin

end

theorem startFragment_collects : Collects b slots (startFragment cfg info b slots) := by
  have hdrop : Collects b slots ⟨slots, [b], none⟩ := ⟨id, fun _ _ => rfl⟩
  unfold startFragment
  split
  · exact hdrop
  · rename_i i hopen
    split
    · exact hdrop
    · obtain ⟨hi, hfree, -⟩ := findIdx?_eq_some_iff_getElem.mp hopen
      refine ⟨fun h => slotsIdle_set i h (by simp), fun h x => ?_⟩
      have hset := heldIn_set ⟨true, info.last, info.src, info.ident, [info.fragment b]⟩ hi x
      have hget : slots.getD i .idle = slots[i] := by simp [hi]
      have hempty : (slots.getD i .idle).packets = [] := by
        rw [hget, FragControl.packets, h slots[i] (getElem_mem hi) (by simpa using hfree)]
        rfl
      rw [hempty, count_nil] at hset
      simpa [FragControl.packets, FragInfo.fragment] using hset

theorem processFragment_collects : Collects b slots (processFragment cfg big info b slots) := by
  unfold processFragment
  split
  · exact startFragment_collects
  · rename_i i hfind
    obtain ⟨hi, hfor, -⟩ := findIdx?_eq_some_iff_getElem.mp hfind
    have hget : slots.getD i .idle = slots[i] := by simp [hi]
    refine addFragment_collects hi rfl ?_
    rw [hget]
    unfold FragControl.isFor at hfor
    simp only [Bool.and_eq_true] at hfor
    exact hfor.1.1

end

/-! ## 4. The protocols -/

theorem count_buffers (xs : List Nat) (x : Nat) :
    (xs.map PacketId.buffer).count (.buffer x) = xs.count x :=
  count_map_of_injective xs PacketId.buffer (fun _ _ h => PacketId.buffer.inj h) x

/-- **What comes before the protocols**: `m` and the buffer `b` become what is left and the packet
that goes up. -/
structure Leads (b : Nat) (m : Packets) (r : Packets × Option (Datagram × PacketId)) : Prop where
  pool : r.1.pool = m.pool
  world : r.1.world = m.world
  callbackList : r.1.callbackList = m.callbackList
  incoming : r.1.incoming = m.incoming
  idle : SlotsIdle m.fragControl → SlotsIdle r.1.fragControl
  above : SlotsIdle m.fragControl → ∀ x,
    r.1.above.count (.buffer x) + (r.2.toList.map Prod.snd).count (.buffer x) =
      m.above.count (.buffer x) + [PacketId.buffer b].count (.buffer x)

namespace Packets

variable {cfg : PacketConfig} {m : Packets} {b : Nat}

theorem frees_leads : Leads b m (m.frees [.buffer b], none) where
  pool := rfl
  world := rfl
  callbackList := rfl
  incoming := rfl
  idle := id
  above _ x := by
    have h := (Takes.frees [.buffer b] m).above x
    simpa using h

/-- A fragment is held or freed, and a datagram that is whole is in a BigPacket. -/
theorem fragmentUp_leads : Leads b m (m.fragmentUp cfg b) := by
  have hcollects : Collects b m.fragControl (m.reassembled cfg b) := processFragment_collects
  have habove (free : List Nat) (mem : Nat → Nat → UInt8) (ps : List PacketId)
      (hps : ∀ x, ps.count (.buffer x) = 0) (h : SlotsIdle m.fragControl) (x : Nat) :
      ({ m.afterFragment cfg b with
          bigPacketFreeList := free, bigPacket := mem } : Packets).above.count (.buffer x) +
          ps.count (.buffer x) =
        m.above.count (.buffer x) + [PacketId.buffer b].count (.buffer x) := by
    have hcount := hcollects.count h x
    have hone := count_buffers [b] x
    rw [map_singleton] at hone
    rw [heldIn, heldIn] at hcount
    simp only [above, afterFragment, count_append, count_buffers, hps]
    omega
  unfold fragmentUp
  split
  · rename_i f rest k ks hwhole hfree
    refine ⟨rfl, rfl, rfl, rfl, hcollects.idle, fun h x => ?_⟩
    exact habove ks _ [.big k] (fun y => by simp) h x
  · refine ⟨rfl, rfl, rfl, rfl, hcollects.idle, fun h x => ?_⟩
    exact habove m.bigPacketFreeList m.bigPacket [] (fun y => rfl) h x

theorem ipUp_leads : Leads b m (m.ipUp cfg b) := by
  unfold ipUp
  dsimp only
  split
  · exact frees_leads
  · split
    · split
      · exact fragmentUp_leads
      · exact frees_leads
    · exact ⟨rfl, rfl, rfl, rfl, id, fun _ _ => rfl⟩

/-- **Up to the protocol** the packet is held, freed, or goes up. -/
theorem up_leads : Leads b m (m.up cfg b) := by
  unfold up
  split
  · exact ipUp_leads
  · split <;> exact frees_leads

variable {fuel i : Nat} {luck : Luck} {m' : Packets} {calls : List UdpCall}

/-- Nothing is forgotten when there was nothing. -/
theorem reinit_eq (h : ofSocket i m.incoming = []) : m.reinit i = m := by
  have hkeep : notOfSocket i m.incoming = m.incoming := by
    refine filter_eq_self.mpr fun x hx => ?_
    have hno := filter_eq_nil_iff.mp h x hx
    simpa using hno
  rw [reinit, hkeep]

theorem reinit_all {is : List Nat} (h : ∀ i ∈ is, ofSocket i m.incoming = []) :
    is.foldl reinit m = m := by
  induction is with
  | nil => rfl
  | cons i is ih =>
    rw [foldl_cons, reinit_eq (h i mem_cons_self)]
    exact ih fun j hj => h j (mem_cons_of_mem i hj)

variable {d : Datagram} {p : PacketId}

/-- `process2` puts the packet into the ring of the socket or frees it. -/
theorem process2_takes {w : World}
    (hforget : ∀ j ∈ m.world.synSocket d i, ofSocket j m.incoming = []) :
    Takes [p] m (m.process2 cfg d p i w) := by
  unfold process2
  rw [reinit_all hforget]
  cases (m.world.sock i).keepsPacket cfg.ip.tcp (d.segment 536) with
  | true =>
    have hring := Takes.incoming [(i, p)] w m
    exact (hring.trans (Takes.cleared i _)).trans (Takes.frees [] _)
  | false =>
    have hring := Takes.incoming [] w m
    exact (hring.trans (Takes.cleared i _)).trans (Takes.frees [p] _)

/-- The sockets that are initialised for a SYN. -/
def takenForSyn (cfg : PacketConfig) (m : Packets) (d : Datagram) : List Nat :=
  if (cfg.ip.compileTcp = true ∧ d.protocol = 6) ∧ d.tcpChksum cfg.ip = 0 then
    match m.world.owner (d.segment 536) with
    | none => []
    | some i => m.world.synSocket d i
  else []

/-- The place of the callback that is called for a datagram. -/
def callback (cfg : PacketConfig) (m : Packets) (d : Datagram) : Option Nat :=
  if (cfg.ip.compileTcp = true ∧ d.protocol = 6) ∨
      ¬ (cfg.ip.compileUdp = true ∧ d.protocol = 17) ∨
      (cfg.ip.dhcpClient = false ∧ d.udpChksum ≠ 0) then none
  else m.callbackList.findIdx? fun port => port == d.udpDst

theorem tcpProcess_takes (htcp : cfg.ip.compileTcp = true ∧ d.protocol = 6)
    (hforget : ∀ j ∈ m.takenForSyn cfg d, ofSocket j m.incoming = [])
    (h : m.tcpProcess cfg luck fuel d p = some m') : Takes [p] m m' := by
  obtain ⟨w, -, hw⟩ := Option.map_eq_some_iff.mp h
  subst hw
  split
  · exact Takes.frees [p] m
  · rename_i hsum
    split
    · exact Takes.frees [p] m
    · rename_i i howner
      refine process2_takes fun j hj => hforget j ?_
      rw [takenForSyn, if_pos ⟨htcp, not_not.mp hsum⟩, howner]
      exact hj

/-- **`Udp::process` leaves the packet with the user or frees it**, unless as many callbacks are
left as stood before the one that was called. -/
theorem udpProcess_takes (hudp : cfg.ip.compileUdp = true ∧ d.protocol = 17)
    (hlast : ∀ i, m.callback cfg d = some i →
      (calls.foldl (UdpCall.run cfg) m.callbackList).length ≠ i) :
    Takes [p] m (m.udpProcess cfg calls d p) := by
  unfold udpProcess
  split
  · exact Takes.frees [p] m
  · rename_i hsum
    split
    · exact Takes.frees [p] m
    · rename_i i hfind
      have hcallback : m.callback cfg d = some i := by
        rw [callback, if_neg (by simp only [hudp, hsum]; simp), hfind]
      rw [if_neg (Ne.symm (hlast i hcallback))]
      exact Takes.user [p] _ m

theorem transport_takes (hforget : ∀ j ∈ m.takenForSyn cfg d, ofSocket j m.incoming = [])
    (hlast : ∀ i, m.callback cfg d = some i →
      (calls.foldl (UdpCall.run cfg) m.callbackList).length ≠ i)
    (h : m.transport cfg luck fuel calls d p = some m') : Takes [p] m m' := by
  unfold transport at h
  split at h
  · rename_i htcp
    exact tcpProcess_takes htcp hforget h
  · split at h
    · rename_i hudp
      cases h
      exact udpProcess_takes hudp hlast
    · split at h <;>
      · cases h
        exact Takes.frees [p] m

end Packets

/-! ## 5. The steps -/

/-- The invariant. -/
structure Kept (cfg : PacketConfig) (m : Packets) : Prop where
  indexed : m.pool.Indexed cfg
  idle : SlotsIdle m.fragControl
  places : ∀ b, m.places cfg b = if b < cfg.packetBuffers then 1 else 0
  order : m.pool.arrived = m.pool.left ++ m.pool.received cfg

/-- **The steps that leave every buffer in one place**: the callback that is called does not leave
as many callbacks as stand before it, and no socket is initialised while a raw packet is in its
ring. -/
def Tidy (cfg : PacketConfig) (m : Packets) : PacketEvent → Prop
  | .route _ _ calls => ∀ b d p, m.current = some b → (m.looked.up cfg b).2 = some (d, p) →
      (∀ i, m.callback cfg d = some i →
        (calls.foldl (UdpCall.run cfg) m.callbackList).length ≠ i) ∧
      ∀ j ∈ m.takenForSyn cfg d, ofSocket j m.incoming = []
  | .call c => c.isSegment = false → ∀ j ∈ m.world.initialises c, ofSocket j m.incoming = []
  | _ => True

namespace Kept

variable {cfg : PacketConfig} {m m' : Packets}

section

variable (h : Kept cfg m)
include h

/-- Each buffer is below at most once, so there are no more than PACKET_BUFFERS. -/
theorem below_length : (m.pool.below cfg).length ≤ cfg.packetBuffers := by
  have hle (b : Nat) : (m.pool.below cfg).count b ≤ if b < cfg.packetBuffers then 1 else 0 := by
    rw [← h.places b]
    exact Nat.le_add_right _ _
  have hnodup : (m.pool.below cfg).Nodup := nodup_iff_count_le_one.mpr fun b =>
    (hle b).trans (by split <;> decide)
  have hsubset : m.pool.below cfg ⊆ List.range cfg.packetBuffers := by
    intro b hb
    have hpos := count_pos_iff.mpr hb
    have hb := hle b
    refine mem_range.mpr ?_
    by_contra hno
    rw [if_neg hno] at hb
    omega
  have hlength := (hnodup.subperm hsubset).length_le
  rwa [length_range] at hlength

theorem conserved : Conserved cfg m where
  once b hb := by rw [h.places, if_pos hb]
  others b hb := by rw [h.places, if_neg (not_lt.mpr hb)]
  index_le := by
    have hlength := h.below_length
    have hstack : m.pool.stack.length = m.pool.fsIndex := by simp [PacketPool.stack]
    rw [PacketPool.below, length_append, hstack] at hlength
    omega
  room := by
    have hlt := PacketPool.entries_lt h.indexed
    rw [h.order, length_append, PacketPool.received, length_window]
    omega
  order := h.order

/-- While the driver has a buffer there is room in the ring. -/
theorem room (hdriver : m.pool.receiving = true) :
    m.pool.entries cfg + 1 < cfg.rbSize := by
  have hlength := h.below_length
  have hone : m.pool.inDriver.length = 1 := by simp [PacketPool.inDriver, hdriver]
  have hring : (m.pool.received cfg).length = m.pool.entries cfg := length_window ..
  rw [PacketPool.below, length_append, length_append, hone, hring] at hlength
  unfold PacketConfig.rbSize
  omega

/-- A routine of the program that moves packets. -/
theorem of_takes (ht : Takes [] m m') : Kept cfg m' where
  indexed := by rw [ht.pool]; exact h.indexed
  idle := ht.idle h.idle
  places b := by
    have habove := ht.above b
    rw [← h.places b, Packets.places, Packets.places, ht.pool, habove]
    rfl
  order := by rw [ht.pool]; exact h.order

theorem allocate (len : Nat) :
    Kept cfg { m with pool := m.pool.allocate len } := by
  have hsame : (m.pool.allocate len).first = m.pool.first ∧
      (m.pool.allocate len).next = m.pool.next ∧ (m.pool.allocate len).ring = m.pool.ring ∧
      (m.pool.allocate len).arrived = m.pool.arrived ∧
      (m.pool.allocate len).left = m.pool.left := by
    unfold PacketPool.allocate
    split <;> exact ⟨rfl, rfl, rfl, rfl, rfl⟩
  obtain ⟨hfirst, hnext, hring, harrived, hleft⟩ := hsame
  refine ⟨⟨hfirst ▸ h.indexed.first_lt, hnext ▸ h.indexed.next_lt⟩, h.idle, fun b => ?_, ?_⟩
  · rw [← h.places b, Packets.places, Packets.places, PacketPool.below_allocate]
    rfl
  · have horder := h.order
    unfold PacketPool.received PacketPool.entries at horder ⊢
    rw [harrived, hleft, hfirst, hnext, hring]
    exact horder

theorem complete (f : Frame) :
    Kept cfg { m with pool := m.pool.complete cfg f } := by
  refine ⟨PacketPool.indexed_complete f h.indexed, h.idle, fun b => ?_, ?_⟩
  · rw [← h.places b, Packets.places, Packets.places, PacketPool.below_complete f h.indexed h.room]
    rfl
  · cases hdriver : m.pool.receiving with
    | false =>
      have hsame : m.pool.complete cfg f = m.pool := by simp [PacketPool.complete, hdriver]
      rw [hsame]
      exact h.order
    | true =>
      have hleft : (m.pool.complete cfg f).left = m.pool.left := by
        simp [PacketPool.complete, hdriver]
      have harrived : (m.pool.complete cfg f).arrived = m.pool.arrived ++ [m.pool.packetTmp] := by
        simp [PacketPool.complete, hdriver]
      rw [PacketPool.received_complete f h.indexed hdriver (h.room hdriver), hleft, harrived,
        h.order, append_assoc]

theorem takePacket : Kept cfg (m.takePacket cfg) := by
  unfold Packets.takePacket
  split
  · rename_i hready
    obtain ⟨hcurrent, -, hne⟩ := hready
    refine ⟨PacketPool.indexed_dequeue h.indexed, h.idle, fun b => ?_, ?_⟩
    · have hbelow := PacketPool.below_dequeue h.indexed hne b
      have hone := count_buffers [m.pool.ring m.pool.first] b
      rw [map_singleton] at hone
      rw [← h.places b, Packets.places, Packets.places, ← hbelow]
      simp only [Packets.above, hcurrent, toList_none, toList_some, map_nil,
        map_singleton, count_append, count_nil]
      omega
    · have hdequeue := PacketPool.received_dequeue h.indexed hne
      have horder := h.order
      rw [hdequeue] at horder
      rw [PacketPool.dequeue, horder, append_assoc]
      rfl
  · exact h

/-- The packet that is looked at is in no place for a moment; what takes it puts it into one. -/
theorem route {luck : Luck} {fuel : Nat} {calls : List UdpCall}
    (hok : Tidy cfg m (.route luck fuel calls)) :
    Kept cfg (m.route cfg luck fuel calls) := by
  unfold Packets.route
  split
  · exact h
  · rename_i b hcurrent
    have hlooked (x : Nat) :
        m.looked.above.count (.buffer x) + [PacketId.buffer b].count (.buffer x) =
          m.above.count (.buffer x) := by
      simp only [Packets.above, Packets.looked, hcurrent, toList_none, toList_some,
        map_nil, map_singleton, count_append, count_nil]
      omega
    have hleads : Leads b m.looked (m.looked.up cfg b) := Packets.up_leads
    -- what goes up is taken by a protocol
    have htakes (m' : Packets)
        (ht : Takes ((m.looked.up cfg b).2.toList.map Prod.snd) (m.looked.up cfg b).1 m') :
        Takes [] m m' := by
      refine ⟨ht.pool.trans hleads.pool, ht.idle ∘ hleads.idle, fun x => ?_⟩
      have habove := hleads.above h.idle x
      rw [ht.above, habove, hlooked, count_nil, add_zero]
    dsimp only
    split
    · rename_i hup
      refine h.of_takes (htakes _ ?_)
      rw [hup]
      exact Takes.refl _
    · rename_i d p hup
      obtain ⟨hlast, hforget⟩ := hok b d p hcurrent hup
      cases hresult : (m.looked.up cfg b).1.transport cfg luck fuel calls d p with
      | none => exact h
      | some m' =>
        refine h.of_takes (htakes _ ?_)
        rw [hup]
        refine Packets.transport_takes (fun j hj => ?_) (fun i hi => ?_) hresult
        · rw [hleads.incoming]
          refine hforget j ?_
          unfold Packets.takenForSyn at hj ⊢
          rw [hleads.world] at hj
          exact hj
        · rw [hleads.callbackList]
          refine hlast i ?_
          unfold Packets.callback at hi ⊢
          rw [hleads.callbackList] at hi
          exact hi

end

/-- `Buffer_free`, for a packet that was in one place of the program. -/
theorem bufferFree {p : PacketId} (h : Kept cfg m) (hpool : m'.pool = m.pool)
    (hslots : m'.fragControl = m.fragControl)
    (habove : ∀ b, m'.above.count (.buffer b) + [p].count (.buffer b) = m.above.count (.buffer b)) :
    Kept cfg (m'.bufferFree p) := by
  cases p with
  | buffer k =>
    refine ⟨?_, hslots ▸ h.idle, fun b => ?_, ?_⟩
    · have hindexed := h.indexed
      rw [← hpool] at hindexed
      exact ⟨hindexed.first_lt, hindexed.next_lt⟩
    · have hbelow : ((m.pool.free k).below cfg).count b =
          (m.pool.below cfg).count b + [k].count b := PacketPool.below_free k b m.pool
      have hone := count_buffers [k] b
      have hb := habove b
      rw [map_singleton] at hone
      have hplaces := h.places b
      unfold Packets.places at hplaces
      have hsame : (m'.bufferFree (.buffer k)).above = m'.above := rfl
      have hfree : (m'.bufferFree (.buffer k)).pool = m.pool.free k := by
        rw [← hpool]
        rfl
      rw [← hplaces, Packets.places, hsame, hfree, hbelow]
      omega
    · have horder := h.order
      rw [← hpool] at horder
      exact horder
  | big k =>
    refine ⟨hpool ▸ h.indexed, hslots ▸ h.idle, fun b => ?_, hpool ▸ h.order⟩
    have hb := habove b
    have hzero : [PacketId.big k].count (.buffer b) = 0 := by simp
    have hsame : (m'.bufferFree (.big k)).above = m'.above := rfl
    have hfree : (m'.bufferFree (.big k)).pool = m.pool := hpool
    rw [← h.places b, Packets.places, Packets.places, hsame, hfree]
    omega

section

variable (h : Kept cfg m)
include h

theorem freeNext : Kept cfg m.freeNext := by
  unfold Packets.freeNext
  split
  · exact h
  · rename_i p rest hfreeing
    refine h.bufferFree rfl rfl fun b => ?_
    simp only [Packets.above, hfreeing, count_append, count_cons, count_nil]
    omega

theorem userFree (p : PacketId) : Kept cfg (m.userFree p) := by
  unfold Packets.userFree
  split
  · rename_i hmem
    refine h.bufferFree rfl rfl fun b => ?_
    have herase := (perm_cons_erase hmem).count_eq (PacketId.buffer b)
    simp only [Packets.above, count_append, count_cons, count_nil] at herase ⊢
    omega
  · exact h

theorem userTake (i : Nat) : Kept cfg (m.userTake i) := by
  unfold Packets.userTake
  split
  · exact h
  · rename_i x hfind
    refine h.of_takes ⟨rfl, id, fun b => ?_⟩
    have hperm := (perm_cons_erase (mem_of_find?_eq_some hfind)).map Prod.snd
    have herase := hperm.count_eq (PacketId.buffer b)
    simp only [Packets.above, map_cons, count_append, count_cons] at herase ⊢
    omega

theorem call {c : Call} (hok : Tidy cfg m (.call c)) :
    Kept cfg (m.call cfg c) := by
  unfold Packets.call
  split
  · exact h
  · rename_i hcall
    rw [Packets.reinit_all (hok (Bool.not_eq_true _ ▸ hcall))]
    have hworld := Takes.incoming [] (stepWorld cfg.ip.tcp m.world c) m
    rw [append_nil] at hworld
    exact h.of_takes (hworld.trans (Takes.cleared_all _ _))

theorem purge (i : Nat) : Kept cfg (m.purge i) := by
  unfold Packets.purge
  split
  · exact h
  · rename_i fc hget
    split
    · obtain ⟨hi, -⟩ := List.getElem?_eq_some_iff.mp hget
      refine h.of_takes ⟨rfl, fun hidle => slotsIdle_set i hidle fun _ => rfl, fun b => ?_⟩
      have hset := heldIn_set fc.killed hi b
      have hfc : m.fragControl.getD i .idle = fc := by simp [hget]
      have hnone : fc.killed.packets = [] := rfl
      rw [hfc, hnone, count_nil, heldIn, heldIn] at hset
      simp only [Packets.above, count_append, count_nil, count_buffers]
      omega
    · exact h

end

/-- **A step keeps the buffers.** -/
theorem step {e : PacketEvent} (h : Kept cfg m) (hok : Tidy cfg m e) :
    Kept cfg (packetStep cfg m e).2 := by
  cases e with
  | allocate len => exact h.allocate len
  | complete f => exact h.complete f
  | takePacket => exact h.takePacket
  | route luck fuel calls => exact h.route hok
  | freeNext => exact h.freeNext
  | userFree p => exact h.userFree p
  | userTake i => exact h.userTake i
  | userCallback c => exact h.of_takes ⟨rfl, id, fun _ => rfl⟩
  | call c => exact h.call hok
  | purge i => exact h.purge i

end Kept

/-- All buffers are free at the start. -/
theorem kept_start (cfg : PacketConfig) (frame : Nat → Frame) (slots : Nat) (w : World) :
    Kept cfg (startReceiving cfg frame slots w) where
  indexed := ⟨succ_pos _, succ_pos _⟩
  idle := fun fc hfc _ => by rw [eq_of_mem_replicate hfc]; rfl
  places b := by
    have hheld : (List.replicate slots (FragControl.idle : FragControl Nat)).flatMap
        FragControl.packets = [] := by
      refine flatMap_eq_nil_iff.mpr fun fc hfc => ?_
      rw [eq_of_mem_replicate hfc]
      rfl
    have hstack : (startReceiving cfg frame slots w).pool.stack = List.range cfg.packetBuffers := by
      simp [startReceiving, PacketPool.stack]
    have hring : (startReceiving cfg frame slots w).pool.received cfg = [] := by
      simp [startReceiving, PacketPool.received, PacketPool.entries, window]
    have hdriver : (startReceiving cfg frame slots w).pool.inDriver = [] := rfl
    have habove : (startReceiving cfg frame slots w).above = [] := by
      unfold Packets.above startReceiving
      rw [hheld]
      rfl
    rw [Packets.places, habove, PacketPool.below, hstack, hring, hdriver, count_nil,
      add_zero, append_nil, append_nil]
    split
    · rename_i hlt
      exact count_eq_one_of_mem nodup_range (mem_range.mpr hlt)
    · rename_i hno
      exact count_eq_zero_of_not_mem fun hmem => hno (mem_range.mp hmem)
  order := by simp [startReceiving, PacketPool.received, PacketPool.entries, window]

/-- **In every run of such steps the buffers are conserved**, whatever interrupts come between the
steps of the program. -/
theorem buffers_conserved (cfg : PacketConfig) (frame : Nat → Frame) (slots : Nat) (w : World)
    (events : List PacketEvent)
    (hok : Guarded (packetStep cfg) (Tidy cfg) (startReceiving cfg frame slots w) events) :
    Along (packetStep cfg) (fun m _ r => Conserved cfg m ∧ Conserved cfg r.2)
      (startReceiving cfg frame slots w) events :=
  Along.of_invariant (fun _ _ h hok => h.step hok)
    (fun _ _ h hok => ⟨h.conserved, (h.step hok).conserved⟩) events _
    (kept_start cfg frame slots w) hok

/-! ## 6. A callback that unregisters itself -/

/-- A callback that is called has a place in the list. -/
theorem Packets.callback_lt {cfg : PacketConfig} {m : Packets} {d : Datagram}
    (h : m.callback cfg d = some i) : i < m.callbackList.length := by
  unfold Packets.callback at h
  split at h
  · cases h
  · exact (findIdx?_eq_some_iff_findIdx_eq.mp h).1

/-- Five buffers and five callbacks. -/
def fivePackets : PacketConfig where
  ip := udpProgram
  packetBuffers := 5
  udpMaxCallbacks := 5

/-- A UDP packet for port 53, with 18 bytes of data. -/
def dnsReplyBytes : List UInt8 :=
  List.replicate 12 0 ++ [8, 0] ++
    [0x45, 0, 0, 46, 0, 0, 0, 0, 64, 17, 0xf9, 0x6b, 192, 168, 0, 1, 192, 168, 0, 2] ++
    [3, 232, 0, 53, 0, 26, 0x7a, 0x49] ++ List.replicate 18 0

def dnsReply : Frame where
  mem := fun k => dnsReplyBytes.getD k 0
  len := 60
  short := Nat.le_of_ble_eq_true rfl

/-- The packet comes in, and the callback does `calls`. -/
def replyHandled (calls : List UdpCall) : List PacketEvent :=
  [.userCallback (.registerCallback 53), .allocate 60, .complete dnsReply, .takePacket,
    .route ⟨0, true, true⟩ 0 calls, .userFree (.buffer 4), .freeNext]

/-- Callbacks that stay. -/
theorem dnsReply_conserved :
    Along (packetStep fivePackets)
      (fun m _ r => Conserved fivePackets m ∧ Conserved fivePackets r.2)
      (startReceiving fivePackets (fun _ => dnsReply) 4 (init 4 4)) (replyHandled []) := by
  refine buffers_conserved fivePackets (fun _ => dnsReply) 4 (init 4 4) (replyHandled [])
    ⟨trivial, trivial, trivial, trivial, ?_, trivial, trivial, trivial⟩
  intro b d p _ _
  refine ⟨fun i hi => ?_, fun j _ => ?_⟩
  · exact ne_of_gt (Packets.callback_lt hi)
  · rfl

/-- **The user frees the packet, and `Udp::process` does.** -/
theorem freed_twice :
    ¬ Conserved fivePackets
      (run (packetStep fivePackets) (startReceiving fivePackets (fun _ => dnsReply) 4 (init 4 4))
        (replyHandled [.unregisterCallback 53])) := by
  intro h
  have hsix : (run (packetStep fivePackets)
      (startReceiving fivePackets (fun _ => dnsReply) 4 (init 4 4))
      (replyHandled [.unregisterCallback 53])).pool.fsIndex = 6 := by decide +kernel
  have hle := h.index_le
  rw [hsix] at hle
  exact absurd hle (by decide)

end SdcBoot.Mtcp
