/-
# mTCP: what is put on the wire

A peer can put the bytes of a connection together if each has its place: the SYN at the number the
connection starts with, the bytes behind it in order, and one FIN behind the last.

The socket does not queue SYN and FIN as such.  `sendPacket` adds them to whatever packet it fills
in while the socket is in a certain state, the FIN to the last one in `outgoing`.  So the order is
read off the state, the next number, and which packets in `outgoing` have their headers: `Stage`
says how these belong together, and `Content` what the packets on the wire, and those that are to
be sent again, look like.

The order is lost where a packet is not what the state takes it for.  A packet that waits for ARP
has its header already, so a FIN that is left to it is never sent; a socket that is closed before
its SYN was given a number sends a FIN instead; a `connectPacket` that is queued again while it
waits to be acknowledged is overwritten.  `InTurn` leaves these out, and `laid_run` is about all
other runs.
-/
import SdcBoot.Mtcp.Life
import SdcBoot.Mtcp.Pool

namespace SdcBoot.Mtcp

open Lib List Function Option Bool

/-! ## 1. Packets -/

/-- The packet that a buffer is sent as. -/
def TcpBuffer.packet (b : TcpBuffer) (i : Nat) : Packet := ⟨i, b.headers, b.payload⟩

/-- The bytes of a buffer whose header is not filled in. -/
def TcpBuffer.bytes (b : TcpBuffer) : List UInt8 := (List.range b.dataLen).map b.area

theorem bytes_withData (b : TcpBuffer) (data : List UInt8) : (b.withData data).bytes = data := by
  unfold TcpBuffer.bytes TcpBuffer.withData
  refine ext_getElem (by simp) fun k _ hk => ?_
  simp [copyTo, hk]

@[simp] theorem length_bytes (b : TcpBuffer) : b.bytes.length = b.dataLen := by
  simp [TcpBuffer.bytes]

theorem bytes_eq_nil {b : TcpBuffer} : b.bytes = [] ↔ b.dataLen = 0 := by
  rw [← length_eq_zero_iff, length_bytes]

/-- A packet is where it belongs: a SYN at `iss`, data at its place behind it, and a FIN is the
packet `P`. -/
structure Good (iss : UInt32) (accepted : List UInt8) (finSeq : Option UInt32) (P p : Packet) :
    Prop where
  syn : p.headers.codeBits.syn = true → p.headers.seqnum = iss ∧ p.payload = []
  data : p.payload ≠ [] → ∃ k, p.headers.seqnum = iss + 1 + UInt32.ofNat k ∧
    k + p.payload.length ≤ accepted.length ∧ p.payload = (accepted.drop k).take p.payload.length
  fin : p.headers.codeBits.fin = true →
    finSeq = some (p.headers.seqnum + UInt32.ofNat p.payload.length) ∧ p = P

variable {iss : UInt32} {accepted : List UInt8} {P p : Packet} {s : TcpSocket} {c : Ctx}

variable {finSeq : Option UInt32}

theorem Good.append (h : Good iss accepted finSeq P p)
    (more : List UInt8) : Good iss (accepted ++ more) finSeq P p := by
  refine ⟨h.syn, fun hne => ?_, h.fin⟩
  obtain ⟨k, hseq, hle, heq⟩ := h.data hne
  refine ⟨k, hseq, by rw [length_append]; omega, ?_⟩
  rw [drop_append_of_le_length (by omega), take_append_of_le_length (by simp; omega)]
  exact heq

/-- Before a FIN has a number no packet has one. -/
theorem Good.withFin (h : Good iss accepted none P p) (finSeq : Option UInt32) (P' : Packet) :
    Good iss accepted finSeq P' p :=
  ⟨h.syn, h.data, fun hfin => absurd (h.fin hfin).1 (by simp)⟩

/-- A packet that only acknowledges. -/
theorem Good.pureAck (hsyn : p.headers.codeBits.syn = false) (hfin : p.headers.codeBits.fin = false)
    (hnil : p.payload = []) : Good iss accepted finSeq P p := by
  refine ⟨fun h => ?_, fun h => absurd hnil h, fun h => ?_⟩
  · exact nomatch hsyn.symm.trans h
  · exact nomatch hfin.symm.trans h

/-! ## 2. How far the socket has come -/

/-- The FIN was put in a header. -/
def sentFin : State → Bool
  | .finWait1 | .finWait2 | .closing | .timeWait | .lastAck => true
  | _ => false

/-- The FIN is yet to be put in a header. -/
def toSendFin : State → Bool
  | .sendFin1 | .sendFin2 | .sendFin3 => true
  | _ => false

/-- The connection is not open yet. -/
def opening : State → Bool
  | .synSent | .synRecved => true
  | _ => false

/-- The bytes that wait: those of the buffers whose header is not filled in. -/
def unnumbered (xs : List TcpBuffer) : List UInt8 :=
  (xs.filter fun x => !x.pendingArp).flatMap TcpBuffer.bytes

/-- The number of the next byte, and what waits in `outgoing`.  `syn` says whether the SYN has its
number, and `n` how many bytes have theirs. -/
structure Stage (iss : UInt32) (accepted : List UInt8) (syn : Bool) (n : Nat) (st : State)
    (seqNum : UInt32) (finSeq : Option UInt32) (xs : List TcpBuffer) : Prop where
  dead : st = .closed → ∀ x ∈ xs, x.pendingArp = false → x.dataLen = 0
  seq : st ≠ .closed → seqNum = iss + (if syn then 1 else 0) + UInt32.ofNat n +
    if finSeq.isSome then 1 else 0
  unsent : st ≠ .closed → n ≤ accepted.length ∧ unnumbered xs = accepted.drop n
  start : opening st = true → accepted = [] ∧
    (syn = false → ∃ x, xs = [x] ∧ x.pendingArp = false) ∧
    (syn = true → ∀ x ∈ xs, x.pendingArp = true)
  syn : st ≠ .closed → opening st = false → syn = true
  fin : st ≠ .closed → (finSeq.isSome = true ↔ sentFin st = true)
  all : st ≠ .closed → finSeq.isSome = true → n = accepted.length
  toSend : toSendFin st = true → ∃ x ∈ xs, x.pendingArp = false
  listen : st ≠ .listen

section

variable {iss : UInt32} {accepted : List UInt8} {syn : Bool} {n : Nat} {st : State}
  {seqNum : UInt32} {finSeq : Option UInt32} {xs : List TcpBuffer}

theorem unnumbered_append (xs ys : List TcpBuffer) :
    unnumbered (xs ++ ys) = unnumbered xs ++ unnumbered ys := by
  simp [unnumbered]

theorem unnumbered_cons (x : TcpBuffer) (xs : List TcpBuffer) :
    unnumbered (x :: xs) = (if x.pendingArp then [] else x.bytes) ++ unnumbered xs := by
  unfold unnumbered
  cases h : x.pendingArp <;> simp [h]

variable {x : TcpBuffer}

/-- Where no bytes wait, the buffers that wait are empty. -/
theorem dataLen_of_unnumbered (h : unnumbered xs = []) (hx : x ∈ xs)
    (hp : x.pendingArp = false) : x.dataLen = 0 := by
  have hmem : x ∈ xs.filter fun x => !x.pendingArp := by
    rw [mem_filter]
    exact ⟨hx, by simp [hp]⟩
  exact bytes_eq_nil.mp (flatMap_eq_nil_iff.mp h x hmem)

/-- The connection ends where no bytes wait. -/
theorem Stage.toClosed (h : Stage iss accepted syn n st seqNum finSeq xs) (hst : st ≠ .closed)
    (hall : sentFin st = true ∨ opening st = true) :
    Stage iss accepted syn n .closed seqNum finSeq xs := by
  have hnil : unnumbered xs = [] := by
    rw [(h.unsent hst).2]
    rcases hall with hfin | hopen
    · rw [h.all hst ((h.fin hst).mpr hfin), drop_length]
    · rw [(h.start hopen).1, drop_nil]
  refine ⟨fun _ x hx hp => dataLen_of_unnumbered hnil hx hp, ?_, ?_, ?_, ?_, ?_, ?_, ?_, ?_⟩
  all_goals simp [opening, toSendFin]

/-- Nothing waits in a socket that was destroyed. -/
theorem Stage.destroyed : Stage iss accepted syn n .closed seqNum finSeq [] := by
  refine ⟨nofun, ?_, ?_, ?_, ?_, ?_, ?_, ?_, ?_⟩
  all_goals simp [opening, toSendFin]

section

variable (h : Stage iss accepted syn n st seqNum finSeq xs)
include h

variable {st' : State}

/-- The state goes on between states of the same kind. -/
theorem Stage.goOn (hopen : st' ≠ .closed) (hwas : st ≠ .closed) (hlisten : st' ≠ .listen)
    (hstart : opening st' = true → st' = st)
    (hsyn : opening st' = false → opening st = true → syn = true) (hfin : sentFin st' = sentFin st)
    (htoSend : toSendFin st' = true → toSendFin st = true ∨ ∃ x ∈ xs, x.pendingArp = false) :
    Stage iss accepted syn n st' seqNum finSeq xs := by
  refine ⟨fun hno => absurd hno hopen, fun _ => h.seq hwas, fun _ => h.unsent hwas,
    fun ho => ?_, fun _ hno => ?_, fun _ => ?_, fun _ => h.all hwas, fun ht => ?_, hlisten⟩
  · rw [hstart ho] at ho
    exact h.start ho
  · cases ho : opening st with
    | true => exact hsyn hno ho
    | false => exact h.syn hwas ho
  · rw [hfin]
    exact h.fin hwas
  · rcases htoSend ht with ht | hx
    · exact h.toSend ht
    · exact hx

/-- From one state to another, behind the opening and with no FIN to be sent. -/
theorem Stage.past (hst : (st' ≠ .closed ∧ st ≠ .closed ∧ st' ≠ .listen) ∧
      (opening st' = false ∧ opening st = false) ∧ sentFin st' = sentFin st ∧
        (toSendFin st' = true → toSendFin st = true)) :
    Stage iss accepted syn n st' seqNum finSeq xs := by
  obtain ⟨⟨hopen, hwas, hlisten⟩, ⟨hstart', hstart⟩, hfin, htoSend⟩ := hst
  exact h.goOn hopen hwas hlisten (by simp [hstart']) (by simp [hstart]) hfin
    fun ht => .inl (htoSend ht)

/-- A buffer with `data` is queued. -/
theorem Stage.push {data : List UInt8}
    (hx : x.pendingArp = false) (hbytes : x.bytes = data) (hopen : st ≠ .closed)
    (hopening : opening st = false) (hlate : sentFin st = true → data = []) :
    Stage iss (accepted ++ data) syn n st seqNum finSeq (xs ++ [x]) := by
  obtain ⟨hle, hunsent⟩ := h.unsent hopen
  refine ⟨fun hno => absurd hno hopen, fun _ => h.seq hopen, fun _ => ⟨?_, ?_⟩, fun ho => ?_,
    fun _ => h.syn hopen, fun _ => h.fin hopen, fun _ hfin => ?_, fun _ => ⟨x, by simp, hx⟩,
    h.listen⟩
  · rw [length_append]
    omega
  · rw [unnumbered_append, hunsent, drop_append_of_le_length hle]
    simp [unnumbered, hx, hbytes]
  · exact nomatch hopening.symm.trans ho
  · rw [hlate ((h.fin hopen).mp hfin), append_nil]
    exact h.all hopen hfin

/-- A buffer without data is queued, also where the connection is closed. -/
theorem Stage.pushAck (hx : x.pendingArp = false)
    (hlen : x.dataLen = 0) (hopening : opening st = false) :
    Stage iss accepted syn n st seqNum finSeq (xs ++ [x]) := by
  by_cases hst : st = .closed
  · subst hst
    refine ⟨fun _ y hy hp => ?_, ?_, ?_, ?_, ?_, ?_, ?_, ?_, ?_⟩
    · rcases mem_append.mp hy with hy | hy
      · exact h.dead rfl y hy hp
      · rw [mem_singleton.mp hy]
        exact hlen
    all_goals simp [opening, toSendFin]
  · have hpush := h.push hx (bytes_eq_nil.mpr hlen) hst hopening fun _ => rfl
    rwa [append_nil] at hpush

end

/-- The buffer in front, whose header is filled in, leaves. -/
theorem Stage.pop (h : Stage iss accepted syn n st seqNum finSeq (x :: xs))
    (hx : x.pendingArp = true) : Stage iss accepted syn n st seqNum finSeq xs := by
  refine ⟨fun hc y hy => h.dead hc y (mem_cons_of_mem x hy), h.seq, fun hne => ?_, fun ho => ?_,
    h.syn, h.fin, h.all, fun ht => ?_, h.listen⟩
  · have hunsent := h.unsent hne
    rwa [unnumbered_cons, if_pos hx, nil_append] at hunsent
  · obtain ⟨hnil, hno, hall⟩ := h.start ho
    refine ⟨hnil, fun hsyn => ?_, fun hsyn y hy => hall hsyn y (mem_cons_of_mem x hy)⟩
    obtain ⟨y, hy, hp⟩ := hno hsyn
    obtain rfl := (List.cons.inj hy).1
    exact nomatch hx.symm.trans hp
  · obtain ⟨y, hy, hp⟩ := h.toSend ht
    rcases mem_cons.mp hy with rfl | hy
    · exact nomatch hx.symm.trans hp
    · exact ⟨y, hy, hp⟩

/-- A buffer whose header is filled in waits in front. -/
theorem Stage.wait (h : Stage iss accepted syn n st seqNum finSeq xs) (hx : x.pendingArp = true)
    (hsyn : opening st = true → syn = true) :
    Stage iss accepted syn n st seqNum finSeq (x :: xs) := by
  refine ⟨fun hc y hy hp => ?_, h.seq, fun hne => ?_, fun ho => ⟨(h.start ho).1, fun hno => ?_,
    fun hs y hy => ?_⟩, h.syn, h.fin, h.all, fun ht => ?_, h.listen⟩
  · rcases mem_cons.mp hy with rfl | hy
    · exact nomatch hx.symm.trans hp
    · exact h.dead hc y hy hp
  · rw [unnumbered_cons, if_pos hx, nil_append]
    exact h.unsent hne
  · exact nomatch hno.symm.trans (hsyn ho)
  · rcases mem_cons.mp hy with rfl | hy
    · exact hx
    · exact (h.start ho).2.2 hs y hy
  · obtain ⟨y, hy, hp⟩ := h.toSend ht
    exact ⟨y, mem_cons_of_mem x hy, hp⟩

end

/-! ## 3. A header is filled in -/

variable {x : TcpBuffer} {c' : Ctx}

variable (cfg : Config)

theorem filled_payload
    (h : (s.role x.dataLen).isSyn = false) : (x.filled cfg s).payload = x.bytes := by
  simp [TcpBuffer.filled, TcpBuffer.payload, TcpBuffer.bytes, TcpSocket.header, h]

theorem filled_payload_nil (h : x.dataLen = 0) : (x.filled cfg s).payload = [] := by
  simp [TcpBuffer.filled, TcpBuffer.payload, h]

theorem role_opening (h : opening s.state = true) (dataLen : Nat) :
    (s.role dataLen).isSyn = true ∧ (s.role dataLen).counts = 1 ∧ s.role dataLen ≠ .finAck ∧
      (s.role dataLen).codeBits.fin = false := by
  unfold TcpSocket.role
  cases hst : s.state <;> simp_all [opening, Role.isSyn, Role.counts, Role.codeBits,
    CodeBits.justAck, CodeBits.justSyn]

/-- In the other states a packet carries data or a FIN. -/
theorem role_open (h : opening s.state = false) (dataLen : Nat) :
    (s.role dataLen = .finAck ∧ toSendFin s.state = true ∧ s.outgoing.length = 1) ∨
      ((∃ psh, s.role dataLen = .dataAck psh) ∧
        (toSendFin s.state = true → s.forcePureAck = false → s.outgoing.length ≠ 1)) := by
  have hsend : ∀ b : Bool, (if s.forcePureAck = false ∧ s.outgoing.length = 1 then Role.finAck
      else .dataAck false) = .finAck ∧ s.outgoing.length = 1 ∨
      (∃ psh, (if s.forcePureAck = false ∧ s.outgoing.length = 1 then Role.finAck
        else .dataAck false) = .dataAck psh) ∧ (s.forcePureAck = false → s.outgoing.length ≠ 1) := by
    intro _
    by_cases hlast : s.forcePureAck = false ∧ s.outgoing.length = 1
    · rw [if_pos hlast]
      exact .inl ⟨rfl, hlast.2⟩
    · rw [if_neg hlast]
      exact .inr ⟨⟨false, rfl⟩, fun hf hl => hlast ⟨hf, hl⟩⟩
  unfold TcpSocket.role
  cases hst : s.state with
  | synSent => simp [hst, opening] at h
  | synRecved => simp [hst, opening] at h
  | sendFin1 => simpa [toSendFin] using hsend true
  | sendFin2 => simpa [toSendFin] using hsend true
  | sendFin3 => simpa [toSendFin] using hsend true
  | _ => exact .inr ⟨⟨_, rfl⟩, by simp [toSendFin]⟩

section

variable {iss : UInt32} {accepted : List UInt8} {syn : Bool} {n : Nat} {s : TcpSocket}
  {x : TcpBuffer} {xs : List TcpBuffer} {P : Packet}

theorem advanced_notFin {role : Role} (h : role ≠ .finAck) (dataLen : Nat) :
    (s.advanced dataLen role).state = s.state ∧
      (s.advanced dataLen role).seqNum = s.seqNum + UInt32.ofNat dataLen + role.counts ∧
      (s.advanced dataLen role).finSeq = s.finSeq := by
  simp [TcpSocket.advanced, h]

/-- What filling in a header does: the packet is where it belongs, and the rest of the queue stands
behind it. -/
structure Filled (iss : UInt32) (accepted : List UInt8) (P : Packet) (cfg : Config)
    (s : TcpSocket) (x : TcpBuffer) (xs : List TcpBuffer) : Prop where
  stage : ∃ syn n, Stage iss accepted syn n (s.advanced x.dataLen (s.role x.dataLen)).state
    (s.advanced x.dataLen (s.role x.dataLen)).seqNum
    (s.advanced x.dataLen (s.role x.dataLen)).finSeq xs ∧
    (opening s.state = true → syn = true)
  good : (s.role x.dataLen ≠ .finAck ∧ Good iss accepted s.finSeq P ((x.filled cfg s).packet s.self)) ∨
    (s.role x.dataLen = .finAck ∧ s.finSeq = none ∧
      s.seqNum + UInt32.ofNat x.dataLen = iss + 1 + UInt32.ofNat accepted.length ∧
      Good iss accepted (some (s.seqNum + UInt32.ofNat x.dataLen))
        ((x.filled cfg s).packet s.self) ((x.filled cfg s).packet s.self))

variable (cfg : Config)

/-- The packet of a SYN. -/
theorem Stage.filled_syn (h : Stage iss accepted syn n s.state s.seqNum s.finSeq (x :: xs))
    (hx : x.pendingArp = false) (hprobe : s.forceProbe = false) (hopen : opening s.state = true) :
    Filled iss accepted P cfg s x xs := by
  have hne : s.state ≠ .closed := by
    intro hno
    simp [hno, opening] at hopen
  obtain ⟨hnil, hone, hall⟩ := h.start hopen
  have hsyn : syn = false := by
    by_contra hno
    exact absurd ((hall (by simpa using hno) x mem_cons_self).symm.trans hx) (by simp)
  obtain ⟨y, hy, -⟩ := hone hsyn
  obtain rfl : xs = [] := (List.cons.inj hy).2
  have hfin : s.finSeq.isSome = false := by
    rw [eq_false_iff]
    intro hno
    have hsent := (h.fin hne).mp hno
    cases hst : s.state <;> simp_all [opening, sentFin]
  obtain ⟨hle, hunsent⟩ := h.unsent hne
  have hn : n = 0 := by simpa [hnil] using hle
  have hlen : x.dataLen = 0 := by
    rw [hnil, drop_nil] at hunsent
    exact dataLen_of_unnumbered hunsent mem_cons_self hx
  have hseq : s.seqNum = iss := by
    have := h.seq hne
    simpa [hsyn, hn, hfin] using this
  obtain ⟨hisSyn, hcounts, hnotFin, hnofin⟩ := role_opening hopen x.dataLen
  obtain ⟨hst', hseq', hfin'⟩ := advanced_notFin hnotFin x.dataLen
  refine ⟨⟨true, 0, ?_, fun _ => rfl⟩, .inl ⟨hnotFin, ?_⟩⟩
  · rw [hst', hseq', hfin', hcounts, hlen, hseq]
    refine ⟨fun hno => absurd hno hne, fun _ => ?_, fun _ => ?_, fun _ => ?_, fun _ _ => rfl,
      fun _ => h.fin hne, fun _ _ => ?_, fun ht => ?_, h.listen⟩
    · simp [hfin]
    · simp [hnil, unnumbered]
    · exact ⟨hnil, nofun, nofun⟩
    · simp [hnil]
    · cases hst : s.state <;> simp_all [opening, toSendFin]
  · refine ⟨fun _ => ⟨?_, filled_payload_nil cfg hlen⟩, fun hno => ?_, fun hno => ?_⟩
    · simp [TcpBuffer.packet, TcpBuffer.filled, TcpSocket.header, hprobe, hseq]
    · exact absurd (filled_payload_nil cfg hlen) hno
    · exact nomatch hnofin.symm.trans hno

variable {psh : Bool}

/-- The packet carries no SYN and no FIN. -/
theorem packet_dataAck (hrole : s.role x.dataLen = .dataAck psh) (hprobe : s.forceProbe = false) :
    ((x.filled cfg s).packet s.self).headers.codeBits.syn = false ∧
      ((x.filled cfg s).packet s.self).headers.codeBits.fin = false ∧
      ((x.filled cfg s).packet s.self).headers.seqnum = s.seqNum ∧
      ((x.filled cfg s).packet s.self).payload = x.bytes := by
  refine ⟨?_, ?_, ?_, filled_payload cfg (by rw [hrole]; rfl)⟩ <;>
    simp [TcpBuffer.packet, TcpBuffer.filled, TcpSocket.header, hrole, hprobe, Role.codeBits,
      CodeBits.justAck]

/-- A packet of a closed connection. -/
theorem Stage.filled_closed (h : Stage iss accepted syn n s.state s.seqNum s.finSeq (x :: xs))
    (hx : x.pendingArp = false) (hprobe : s.forceProbe = false) (hst : s.state = .closed) :
    Filled iss accepted P cfg s x xs := by
  have hlen := h.dead hst x mem_cons_self hx
  have hrole : s.role x.dataLen = .dataAck false := by simp [TcpSocket.role, hst]
  have hnotFin : s.role x.dataLen ≠ .finAck := by rw [hrole]; simp
  obtain ⟨hst', hseq', hfin'⟩ := advanced_notFin (s := s) hnotFin x.dataLen
  obtain ⟨hsyn, hfin, -, hpay⟩ := packet_dataAck cfg hrole hprobe
  refine ⟨⟨syn, n, ?_, fun hno => ?_⟩, .inl ⟨hnotFin, ?_⟩⟩
  · rw [hst', hst]
    refine ⟨fun _ y hy => h.dead hst y (mem_cons_of_mem x hy), ?_, ?_, ?_, ?_, ?_, ?_, ?_, ?_⟩
    all_goals simp [opening, toSendFin]
  · rw [hst] at hno
    cases hno
  · exact Good.pureAck hsyn hfin (hpay.trans (bytes_eq_nil.mpr hlen))

/-- The bytes of the first buffer, and of the rest. -/
theorem unsent_split (hx : x.pendingArp = false) (hle : n ≤ accepted.length)
    (h : unnumbered (x :: xs) = accepted.drop n) :
    n + x.dataLen ≤ accepted.length ∧ unnumbered xs = accepted.drop (n + x.dataLen) ∧
      x.bytes = (accepted.drop n).take x.dataLen := by
  rw [unnumbered_cons, hx, if_neg (by simp)] at h
  have hlen := congrArg List.length h
  rw [length_append, length_bytes, length_drop] at hlen
  refine ⟨by omega, ?_, ?_⟩
  · rw [← drop_drop, ← h, ← length_bytes, drop_left]
  · rw [← h, ← length_bytes, take_left]

/-- A packet with data. -/
theorem Stage.filled_data (h : Stage iss accepted syn n s.state s.seqNum s.finSeq (x :: xs))
    (hx : x.pendingArp = false) (hprobe : s.forceProbe = false) (hst : s.state ≠ .closed)
    (hopening : opening s.state = false) (hrole : s.role x.dataLen = .dataAck psh)
    (hrest : toSendFin s.state = true → ∃ y ∈ xs, y.pendingArp = false) :
    Filled iss accepted P cfg s x xs := by
  have hnotFin : s.role x.dataLen ≠ .finAck := by rw [hrole]; simp
  obtain ⟨hst', hseq', hfin'⟩ := advanced_notFin (s := s) hnotFin x.dataLen
  obtain ⟨hsyn, hfin, hnum, hpay⟩ := packet_dataAck cfg hrole hprobe
  obtain ⟨hle, hunsent⟩ := h.unsent hst
  obtain ⟨hle', hunsent', hbytes⟩ := unsent_split hx hle hunsent
  have hset := h.syn hst hopening
  have hcounts : (s.role x.dataLen).counts = 0 := by rw [hrole]; rfl
  refine ⟨⟨syn, n + x.dataLen, ?_, fun hno => ?_⟩, .inl ⟨hnotFin, ?_⟩⟩
  · rw [hst', hseq', hfin', hcounts]
    refine ⟨fun hno => absurd hno hst, fun _ => ?_, fun _ => ⟨hle', hunsent'⟩, fun hno => ?_,
      fun _ _ => hset, fun _ => h.fin hst, fun _ hf => ?_, hrest, h.listen⟩
    · rw [h.seq hst, UInt32.ofNat_add, UInt32.add_zero]
      ac_rfl
    · exact nomatch hopening.symm.trans hno
    · have hall := h.all hst hf
      omega
  · exact nomatch hopening.symm.trans hno
  · refine ⟨fun hno => absurd (hsyn.symm.trans hno) (by simp), fun hne => ⟨n, ?_, ?_, ?_⟩,
      fun hno => nomatch hfin.symm.trans hno⟩
    · -- bytes that wait come before the FIN
      have hnofin : s.finSeq.isSome = false := by
        rw [eq_false_iff]
        intro hf
        have hall := h.all hst hf
        rw [hpay] at hne
        refine hne (bytes_eq_nil.mpr ?_)
        omega
      rw [hnum, h.seq hst, hset, hnofin]
      simp
    · rw [hpay, length_bytes]
      exact hle'
    · rw [hpay, length_bytes]
      exact hbytes

/-- The packet with the FIN. -/
theorem Stage.filled_fin (h : Stage iss accepted syn n s.state s.seqNum s.finSeq [x])
    (hx : x.pendingArp = false) (hprobe : s.forceProbe = false) (hsend : toSendFin s.state = true)
    (hrole : s.role x.dataLen = .finAck) : Filled iss accepted P cfg s x [] := by
  have hst : s.state ≠ .closed := by
    intro hno
    simp [hno, toSendFin] at hsend
  have hopening : opening s.state = false := by
    cases hs : s.state <;> simp_all [opening, toSendFin]
  have hnofin : s.finSeq.isSome = false := by
    rw [eq_false_iff]
    intro hf
    have hsent := (h.fin hst).mp hf
    cases hs : s.state <;> simp_all [sentFin, toSendFin]
  obtain ⟨hle, hunsent⟩ := h.unsent hst
  obtain ⟨hle', hunsent', hbytes⟩ := unsent_split hx hle hunsent
  have hset := h.syn hst hopening
  -- nothing is left behind the packet
  have hall : n + x.dataLen = accepted.length := by
    have hnil : accepted.drop (n + x.dataLen) = [] := hunsent'.symm
    have := drop_eq_nil_iff.mp hnil
    omega
  have hseq : s.seqNum = iss + 1 + UInt32.ofNat n := by
    have := h.seq hst
    simpa [hset, hnofin] using this
  have hnum : s.seqNum + UInt32.ofNat x.dataLen = iss + 1 + UInt32.ofNat accepted.length := by
    rw [hseq, ← hall, UInt32.ofNat_add]
    ac_rfl
  have hpay : ((x.filled cfg s).packet s.self).payload = x.bytes :=
    filled_payload cfg (by rw [hrole]; rfl)
  refine ⟨⟨syn, accepted.length, ?_, fun hno => ?_⟩, .inr ⟨hrole, ?_, hnum, ?_⟩⟩
  · have hst' : (s.advanced x.dataLen (s.role x.dataLen)).state = finSent s.state := by
      simp [TcpSocket.advanced, hrole]
    have hseq' : (s.advanced x.dataLen (s.role x.dataLen)).seqNum =
        iss + 1 + UInt32.ofNat accepted.length + 1 := by
      simp [TcpSocket.advanced, hrole, Role.counts, hnum]
    have hfin' : (s.advanced x.dataLen (s.role x.dataLen)).finSeq =
        some (s.seqNum + UInt32.ofNat x.dataLen) := by
      simp [TcpSocket.advanced, hrole]
    have hsent : sentFin (finSent s.state) = true := by
      cases hs : s.state <;> simp_all [finSent, sentFin]
    have hgone : finSent s.state ≠ .closed ∧ opening (finSent s.state) = false ∧
        toSendFin (finSent s.state) = false ∧ finSent s.state ≠ .listen := by
      cases hs : s.state <;> simp_all [finSent, opening, toSendFin]
    rw [hst', hseq', hfin']
    refine ⟨fun hno => absurd hno hgone.1, fun _ => ?_, fun _ => ?_, fun hno => ?_,
      fun _ _ => hset, fun _ => ?_, fun _ _ => rfl, fun hno => ?_, hgone.2.2.2⟩
    · simp [hset]
    · simp [unnumbered]
    · exact absurd (hgone.2.1.symm.trans hno) (by simp)
    · simp [hsent]
    · exact absurd (hgone.2.2.1.symm.trans hno) (by simp)
  · exact absurd (hopening.symm.trans hno) (by simp)
  · simpa using hnofin
  · have hseqnum : ((x.filled cfg s).packet s.self).headers.seqnum = s.seqNum := by
      simp [TcpBuffer.packet, TcpBuffer.filled, TcpSocket.header, hprobe]
    refine ⟨fun hno => ?_, fun hne => ⟨n, ?_, ?_, ?_⟩, fun _ => ⟨?_, rfl⟩⟩
    · simp [TcpBuffer.packet, TcpBuffer.filled, TcpSocket.header, hrole, Role.codeBits,
        CodeBits.justAck] at hno
    · rw [hseqnum, hseq]
    · rw [hpay, length_bytes, hall]
    · rw [hpay, length_bytes]
      exact hbytes
    · rw [hseqnum, hpay, length_bytes]

/-- **A header is filled in.** -/
theorem Stage.filled (h : Stage iss accepted syn n s.state s.seqNum s.finSeq (x :: xs))
    (hx : x.pendingArp = false) (htail : ∀ y ∈ xs, y.pendingArp = false)
    (hprobe : s.forceProbe = false) (hforce : s.forcePureAck = false)
    (hlen : s.outgoing.length = xs.length + 1) : Filled iss accepted P cfg s x xs := by
  by_cases hst : s.state = .closed
  · exact h.filled_closed cfg hx hprobe hst
  · cases hopening : opening s.state with
    | true => exact h.filled_syn cfg hx hprobe hopening
    | false =>
      rcases role_open hopening x.dataLen with ⟨hrole, hsend, hone⟩ | ⟨⟨psh, hrole⟩, hmany⟩
      · obtain rfl : xs = [] := length_eq_zero_iff.mp (by omega)
        exact h.filled_fin cfg hx hprobe hsend hrole
      · refine h.filled_data cfg hx hprobe hst hopening hrole fun hsend => ?_
        have hmore := hmany hsend hforce
        cases xs with
        | nil => exact absurd hlen hmore
        | cons y ys => exact ⟨y, mem_cons_self, htail y mem_cons_self⟩

end

/-! ## 4. The buffers of a socket -/

/-- What waits to be sent. -/
def Ctx.waiting (c : Ctx) : List TcpBuffer := c.s.outgoing.map c.m.buf

/-- The buffers on the rings are different ones and none of them is free, only the one in front may
have its header; what was sent is where it belongs, and what is to be sent again is as it was sent
`first`. -/
structure Content (iss : UInt32) (first : BufId → Packet) (accepted : List UInt8) (P : Packet)
    (c : Ctx) : Prop where
  nodup : (c.s.outgoing ++ c.s.sent).Nodup
  free : c.m.xmitBuffers.Nodup
  apart : ∀ n, BufId.pool n ∈ c.s.outgoing ++ c.s.sent → n ∉ c.m.xmitBuffers
  stack : BufId.stack ∉ c.s.outgoing ++ c.s.sent
  force : c.s.forcePureAck = false
  probe : c.s.forceProbe = false
  tail : ∀ x ∈ c.waiting.tail, x.pendingArp = false
  wire : ∀ p ∈ c.m.wire, p.socket = c.s.self → Good iss accepted c.s.finSeq P p
  sent : ∀ b ∈ c.s.sent, (c.m.buf b).packet c.s.self = first b ∧ first b ∈ c.m.wire
  pending : ∀ x ∈ c.waiting, x.pendingArp = true →
    Good iss accepted c.s.finSeq P (x.packet c.s.self)
  fin : ∀ q, c.s.finSeq = some q → q = iss + 1 + UInt32.ofNat accepted.length
  finSent : c.s.finSeq ≠ none → c.s.closeReason = 0 →
    P.headers.codeBits.fin = true ∧ P.socket = c.s.self ∧
      (P ∈ c.m.wire ∨ ∃ x ∈ c.waiting, x.pendingArp = true ∧ x.packet c.s.self = P)

/-- The invariant. -/
def Layout (iss : UInt32) (first : BufId → Packet) (accepted : List UInt8) (c : Ctx) : Prop :=
  ∃ syn n P, Content iss first accepted P c ∧
    Stage iss accepted syn n c.s.state c.s.seqNum c.s.finSeq c.waiting

/-- The part of a socket that is not about sending may change, and packets may be put on the
wire. -/
structure Aside (c c' : Ctx) : Prop where
  self : c'.s.self = c.s.self
  outgoing : c'.s.outgoing = c.s.outgoing
  sent : c'.s.sent = c.s.sent
  finSeq : c'.s.finSeq = c.s.finSeq
  force : c'.s.forcePureAck = false
  probe : c'.s.forceProbe = false
  closeReason : c'.s.closeReason = c.s.closeReason
  free : c'.m.xmitBuffers = c.m.xmitBuffers
  queued : ∀ b ∈ c.s.outgoing, c'.m.buf b = c.m.buf b
  kept : ∀ b ∈ c.s.sent, ∀ i, (c'.m.buf b).packet i = (c.m.buf b).packet i

/-- Only the two flags of the socket have changed, and no buffer of its rings. -/
theorem Aside.of_rings (hs : c'.s = { c.s with
      forcePureAck := c'.s.forcePureAck, forceProbe := c'.s.forceProbe })
    (hforce : c'.s.forcePureAck = false) (hprobe : c'.s.forceProbe = false)
    (hfree : c'.m.xmitBuffers = c.m.xmitBuffers)
    (hring : ∀ b ∈ c.s.outgoing ++ c.s.sent, c'.m.buf b = c.m.buf b) : Aside c c' where
  self := by rw [hs]
  outgoing := by rw [hs]
  sent := by rw [hs]
  finSeq := by rw [hs]
  force := hforce
  probe := hprobe
  closeReason := by rw [hs]
  free := hfree
  queued b hb := hring b (mem_append_left _ hb)
  kept b hb i := by rw [hring b (mem_append_right _ hb)]

theorem Aside.waiting (h : Aside c c') : c'.waiting = c.waiting := by
  unfold Ctx.waiting
  rw [h.outgoing]
  exact map_congr_left h.queued

section

variable {iss : UInt32} {first : BufId → Packet} {accepted : List UInt8} {P : Packet} {c c' : Ctx}

theorem Content.aside (h : Content iss first accepted P c) (ha : Aside c c') (more : List Packet)
    (hwire : c'.m.wire = c.m.wire ++ more)
    (hmore : ∀ p ∈ more, p.socket = c.s.self → Good iss accepted c.s.finSeq P p) :
    Content iss first accepted P c' := by
  have hin : ∀ {p}, p ∈ c.m.wire → p ∈ c'.m.wire := fun hp => by
    rw [hwire]
    exact mem_append_left _ hp
  constructor
  · rw [ha.outgoing, ha.sent]
    exact h.nodup
  · rw [ha.free]
    exact h.free
  · rw [ha.outgoing, ha.sent, ha.free]
    exact h.apart
  · rw [ha.outgoing, ha.sent]
    exact h.stack
  · exact ha.force
  · exact ha.probe
  · rw [ha.waiting]
    exact h.tail
  · rw [hwire, ha.self, ha.finSeq]
    intro p hp hself
    rcases mem_append.mp hp with hp | hp
    · exact h.wire p hp hself
    · exact hmore p hp hself
  · rw [ha.sent, ha.self]
    intro b hb
    rw [ha.kept b hb]
    exact (h.sent b hb).imp_right hin
  · rw [ha.waiting, ha.self, ha.finSeq]
    exact h.pending
  · rw [ha.finSeq]
    exact h.fin
  · rw [ha.finSeq, ha.closeReason, ha.self, ha.waiting]
    intro hne hreason
    obtain ⟨h1, h2, h3⟩ := h.finSent hne hreason
    exact ⟨h1, h2, h3.imp_left hin⟩

/-- The state stays too. -/
theorem Layout.aside (h : Layout iss first accepted c) (ha : Aside c c') (more : List Packet)
    (hwire : c'.m.wire = c.m.wire ++ more)
    (hmore : ∀ p ∈ more, p.socket = c.s.self → p.headers.codeBits.syn = false ∧
      p.headers.codeBits.fin = false ∧ p.payload = [] ∨ p ∈ c.m.wire)
    (hstate : c'.s.state = c.s.state) (hseq : c'.s.seqNum = c.s.seqNum) :
    Layout iss first accepted c' := by
  obtain ⟨syn, n, P, hcontent, hstage⟩ := h
  refine ⟨syn, n, P, hcontent.aside ha more hwire fun p hp hself => ?_, ?_⟩
  · rcases hmore p hp hself with ⟨h1, h2, h3⟩ | hin
    · exact Good.pureAck h1 h2 h3
    · exact hcontent.wire p hin hself
  · rw [hstate, hseq, ha.finSeq, ha.waiting]
    exact hstage

/-- What decides about the packets on the wire and those that are sent again. -/
def Ctx.sending (c : Ctx) :=
  ((c.s.self, c.s.outgoing, c.s.sent, c.s.finSeq),
    (c.s.forcePureAck, c.s.forceProbe, c.s.closeReason), c.m.xmitBuffers, c.m.buf, c.m.wire)

theorem Content.aside_of_sending (h : Content iss first accepted P c) (hs : c'.sending = c.sending) :
    Aside c c' ∧ c'.m.wire = c.m.wire := by
  simp only [Ctx.sending, Prod.mk.injEq] at hs
  obtain ⟨⟨hself, hout, hsent, hfin⟩, ⟨hforce, hprobe, hreason⟩, hfree, hbuf, hwire⟩ := hs
  exact ⟨⟨hself, hout, hsent, hfin, hforce.trans h.force, hprobe.trans h.probe, hreason, hfree,
    fun b _ => congrFun hbuf b, fun b _ i => by rw [hbuf]⟩, hwire⟩

theorem Content.same (h : Content iss first accepted P c) (hs : c'.sending = c.sending) :
    Content iss first accepted P c' := by
  obtain ⟨ha, hwire⟩ := h.aside_of_sending hs
  exact h.aside ha [] (by rw [hwire, append_nil]) nofun

@[simp] theorem returnXmitBuf_wire (m : Shared) (b : BufId) : (m.returnXmitBuf b).wire = m.wire := by
  cases b <;> rfl

theorem returnAll_wire (l : List BufId) (m : Shared) :
    (l.foldl Shared.returnXmitBuf m).wire = m.wire := by
  induction l generalizing m with
  | nil => rfl
  | cons b l ih => rw [foldl_cons, ih, returnXmitBuf_wire]

theorem clearQueues_wire (c : Ctx) : (clearQueues c).m.wire = c.m.wire := by
  unfold clearQueues
  rw [returnAll_wire, returnAll_wire]

theorem destroy_wire (c : Ctx) : (destroy c).m.wire = c.m.wire := clearQueues_wire c

/-- The rings are emptied. -/
theorem Content.clear (h : Content iss first accepted P c) (reason : Nat)
    (hfin : c.s.finSeq = none ∨ reason ≠ 0) :
    Content iss first accepted P
      { (clearQueues c) with s := { (clearQueues c).s with closeReason := reason } } := by
  have hcount : ∀ n, (clearQueues c).m.xmitBuffers.count n =
      c.m.xmitBuffers.count n + (c.s.outgoing ++ c.s.sent).count (.pool n) := by
    intro n
    have h1 := idle_returnAll c.s.sent (c.s.outgoing.foldl Shared.returnXmitBuf c.m) n
    have h2 := idle_returnAll c.s.outgoing c.m n
    simp only [Shared.idle] at h1 h2
    rw [count_append]
    unfold clearQueues
    rw [h1, h2]
    omega
  have hwire := clearQueues_wire c
  constructor
  · exact nodup_nil
  · rw [nodup_iff_count_le_one]
    intro n
    rw [hcount n]
    by_cases hn : BufId.pool n ∈ c.s.outgoing ++ c.s.sent
    · rw [count_eq_zero_of_not_mem (h.apart n hn), zero_add]
      exact nodup_iff_count_le_one.mp h.nodup _
    · rw [count_eq_zero_of_not_mem hn, add_zero]
      exact nodup_iff_count_le_one.mp h.free n
  · exact fun n hn => absurd hn (by simp [clearQueues])
  · simp [clearQueues]
  · exact h.force
  · exact h.probe
  · exact fun x hx => absurd hx (by simp [Ctx.waiting, clearQueues])
  · intro p hp
    exact h.wire p (hwire ▸ hp)
  · exact fun b hb => absurd hb (by simp [clearQueues])
  · exact fun x hx => absurd hx (by simp [Ctx.waiting, clearQueues])
  · exact h.fin
  · intro hne hreason
    rcases hfin with hnone | hno
    · exact absurd hnone hne
    · exact absurd hreason hno

/-- The loop leaves the packets that stay as they are. -/
theorem removeLoop_frame (target : UInt32) (l : List BufId) (c : Ctx) (hnodup : l.Nodup) :
    (∀ b, b ∉ l ∨ b ∈ (removeLoop target l c).s.sent →
      (removeLoop target l c).m.buf b = c.m.buf b) ∧
      (removeLoop target l c).m.wire = c.m.wire := by
  induction l generalizing c with
  | nil => exact ⟨fun b _ => rfl, rfl⟩
  | cons p rest ih =>
    obtain ⟨hp, hrest⟩ := nodup_cons.mp hnodup
    unfold removeLoop
    split
    · set c1 : Ctx :=
        { c with m := (c.m.setBuf p fun x => { x with inUse := false }).returnXmitBuf p } with hc1
      obtain ⟨hframe, hwire⟩ := ih c1 hrest
      have hbuf : ∀ b, b ≠ p → c1.m.buf b = c.m.buf b := by
        intro b hb
        rw [hc1]
        cases p <;> simp [Shared.returnXmitBuf, Shared.setBuf, hb]
      have hwire1 : c1.m.wire = c.m.wire := by
        cases p <;> rfl
      refine ⟨fun b hb => ?_, hwire.trans hwire1⟩
      have hne : b ≠ p := by
        rintro rfl
        rcases hb with hb | hb
        · exact hb mem_cons_self
        · exact hp ((removeLoop_counts target rest c1).1.subset hb)
      rw [hframe b (hb.imp_left fun hno hin => hno (mem_cons_of_mem p hin)), hbuf b hne]
    · exact ⟨fun b _ => rfl, rfl⟩

/-- Packets that are acknowledged leave. -/
theorem Content.removed (h : Content iss first accepted P c) (target : UInt32) :
    Content iss first accepted P (removeSentPackets target c) ∧
      (removeSentPackets target c).waiting = c.waiting := by
  obtain ⟨sent, old, hs⟩ := removeSentPackets_s target c
  obtain ⟨hsuffix, hcount⟩ := removeLoop_counts target c.s.sent c
  obtain ⟨hsentNodup, hdisjoint⟩ := (nodup_append.mp h.nodup).2
  obtain ⟨hframe, hwire⟩ := removeLoop_frame target c.s.sent c hsentNodup
  have hsub : ∀ {b}, b ∈ (removeSentPackets target c).s.sent → b ∈ c.s.sent :=
    fun hb => hsuffix.subset hb
  have hout : (removeSentPackets target c).s.outgoing = c.s.outgoing := by rw [hs]
  have hself : (removeSentPackets target c).s.self = c.s.self := by rw [hs]
  have hfinSeq : (removeSentPackets target c).s.finSeq = c.s.finSeq := by rw [hs]
  have hreason : (removeSentPackets target c).s.closeReason = c.s.closeReason := by rw [hs]
  have hwait : (removeSentPackets target c).waiting = c.waiting := by
    unfold Ctx.waiting
    rw [hout]
    refine map_congr_left fun b hb => hframe b (.inl fun hno => ?_)
    exact hdisjoint b hb b hno rfl
  refine ⟨?_, hwait⟩
  constructor
  · rw [hout]
    exact h.nodup.sublist (hsuffix.sublist.append_left _)
  · rw [nodup_iff_count_le_one]
    intro n
    have hn := hcount n
    simp only [Shared.idle] at hn
    have hring := nodup_iff_count_le_one.mp hsentNodup (.pool n)
    have hfree := nodup_iff_count_le_one.mp h.free n
    unfold removeSentPackets
    by_cases hin : BufId.pool n ∈ c.s.sent
    · have hzero := count_eq_zero_of_not_mem (h.apart n (mem_append_right _ hin))
      omega
    · have hzero := count_eq_zero_of_not_mem hin
      omega
  · intro n hin hfree
    rw [hout] at hin
    have hn := hcount n
    have hpos : 0 < (removeSentPackets target c).m.idle (.pool n) := count_pos_iff.mpr hfree
    simp only [removeSentPackets] at hin hpos
    rcases mem_append.mp hin with hin | hin
    · -- it waits, so it was neither sent nor free
      have hz1 : c.s.sent.count (.pool n) = 0 :=
        count_eq_zero_of_not_mem fun hno => hdisjoint _ hin _ hno rfl
      have hz2 : c.m.idle (.pool n) = 0 :=
        count_eq_zero_of_not_mem (h.apart n (mem_append_left _ hin))
      omega
    · have hz2 : c.m.idle (.pool n) = 0 :=
        count_eq_zero_of_not_mem (h.apart n (mem_append_right _ (hsub hin)))
      have hring := nodup_iff_count_le_one.mp hsentNodup (.pool n)
      have hleft := count_pos_iff.mpr hin
      omega
  · rw [hout]
    exact fun hno => h.stack ((hsuffix.sublist.append_left _).subset hno)
  · rw [hs]
    exact h.force
  · rw [hs]
    exact h.probe
  · rw [hwait]
    exact h.tail
  · rw [hself, hfinSeq]
    exact fun p hp => h.wire p (hwire ▸ hp)
  · rw [hself]
    intro b hb
    have hsame : (removeSentPackets target c).m.buf b = c.m.buf b := hframe b (.inr hb)
    have hwire' : (removeSentPackets target c).m.wire = c.m.wire := hwire
    rw [hsame, hwire']
    exact h.sent b (hsub hb)
  · rw [hwait, hself, hfinSeq]
    exact h.pending
  · rw [hfinSeq]
    exact h.fin
  · rw [hfinSeq, hreason, hself, hwait]
    exact fun hne hr => hwire ▸ h.finSent hne hr

variable {b : BufId} {P' p : Packet}

/-- A buffer is queued. -/
theorem Content.push (h : Content iss first accepted P c) (c' : Ctx) (data : List UInt8)
    (hb : b ∉ c.s.outgoing ++ c.s.sent) (hstack : b ≠ .stack)
    (hs : c'.s = { c.s with outgoing := c.s.outgoing ++ [b] })
    (hbuf : ∀ a ∈ c.s.outgoing ++ c.s.sent, c'.m.buf a = c.m.buf a)
    (hx : (c'.m.buf b).pendingArp = false) (hwire : c'.m.wire = c.m.wire)
    (hfree : c'.m.xmitBuffers.Nodup)
    (hless : ∀ n ∈ c'.m.xmitBuffers, n ∈ c.m.xmitBuffers ∧ b ≠ .pool n)
    (hdata : c.s.finSeq = none ∨ data = []) :
    Content iss first (accepted ++ data) P c' ∧ c'.waiting = c.waiting ++ [c'.m.buf b] := by
  have hwait : c'.waiting = c.waiting ++ [c'.m.buf b] := by
    unfold Ctx.waiting
    rw [hs, map_append, map_singleton]
    congr 1
    exact map_congr_left fun a ha => hbuf a (mem_append_left _ ha)
  have hperm : (c'.s.outgoing ++ c'.s.sent).Perm (b :: (c.s.outgoing ++ c.s.sent)) := by
    rw [hs, append_assoc]
    exact perm_middle
  refine ⟨?_, hwait⟩
  constructor
  · rw [hperm.nodup_iff]
    exact nodup_cons.mpr ⟨hb, h.nodup⟩
  · exact hfree
  · intro n hn hin
    rcases mem_cons.mp (hperm.mem_iff.mp hn) with hn | hn
    · exact (hless n hin).2 hn.symm
    · exact h.apart n hn (hless n hin).1
  · intro hno
    rcases mem_cons.mp (hperm.mem_iff.mp hno) with hno | hno
    · exact hstack hno.symm
    · exact h.stack hno
  · rw [hs]
    exact h.force
  · rw [hs]
    exact h.probe
  · rw [hwait]
    intro x hin
    cases hw : c.waiting with
    | nil =>
      rw [hw] at hin
      cases hin
    | cons y ys =>
      rw [hw, cons_append, tail_cons] at hin
      rcases mem_append.mp hin with hin | hin
      · refine h.tail x ?_
        rw [hw]
        exact hin
      · rw [mem_singleton.mp hin]
        exact hx
  · rw [hwire, hs]
    exact fun p hp hself => (h.wire p hp hself).append data
  · rw [hwire, hs]
    intro a ha
    rw [hbuf a (mem_append_right _ ha)]
    exact h.sent a ha
  · rw [hwait, hs]
    intro x hin hp
    rcases mem_append.mp hin with hin | hin
    · exact (h.pending x hin hp).append data
    · rw [mem_singleton.mp hin, hx] at hp
      cases hp
  · rw [hs]
    intro q hq
    rcases hdata with hnone | hnil
    · exact nomatch hnone.symm.trans hq
    · rw [hnil, append_nil]
      exact h.fin q hq
  · rw [hwait, hwire, hs]
    intro hne hr
    obtain ⟨h1, h2, h3⟩ := h.finSent hne hr
    refine ⟨h1, h2, h3.imp_right ?_⟩
    rintro ⟨x, hin, hp⟩
    exact ⟨x, mem_append_left _ hin, hp⟩

/-- What `enqueue` changes in the shared part. -/
theorem enqueue_m (cfg : Config) (b : BufId) (c : Ctx) :
    (∀ a ≠ b, (enqueue cfg b c).2.m.buf a = c.m.buf a) ∧
      (enqueue cfg b c).2.m.wire = c.m.wire ∧
      (enqueue cfg b c).2.m.xmitBuffers = c.m.xmitBuffers := by
  have hset : ∀ a ≠ b, (c.setBuf b TcpBuffer.enqueued).m.buf a = c.m.buf a := by
    intro a ha
    simp [Ctx.setBuf, Shared.setBuf, ha]
  unfold enqueue
  split
  · exact ⟨fun _ _ => rfl, rfl, rfl⟩
  · split
    · exact ⟨fun _ _ => rfl, rfl, rfl⟩
    · split
      · exact ⟨hset, rfl, rfl⟩
      · exact ⟨hset, rfl, rfl⟩

variable {cfg : Config}

theorem enqueue_buf (h : (enqueue cfg b c).1 = TCP_RC_GOOD) :
    (enqueue cfg b c).2.m.buf b = (c.m.buf b).enqueued ∧
      (enqueue cfg b c).2.s = { c.s with outgoing := c.s.outgoing ++ [b] } := by
  unfold enqueue at h ⊢
  split at h
  · cases h
  · split at h
    · cases h
    · split at h
      · cases h
      · rename_i h1 h2 h3
        rw [if_neg h1, if_neg h2, if_neg h3]
        exact ⟨by simp, rfl⟩

theorem enqueue_bad (h : (enqueue cfg b c).1 ≠ TCP_RC_GOOD) : (enqueue cfg b c).2.s = c.s := by
  unfold enqueue at h ⊢
  split at h
  · rename_i h1
    rw [if_pos h1]
  · split at h
    · rename_i h1 h2
      rw [if_neg h1, if_pos h2]
    · split at h
      · rename_i h1 h2 h3
        rw [if_neg h1, if_neg h2, if_pos h3]
        rfl
      · exact absurd rfl h

/-- A `connectPacket` that is on no ring is queued, or nothing that matters changes. -/
theorem Content.enqueueConnect (h : Content iss first accepted P c) (cfg : Config) {owner : Nat}
    (hb : BufId.connect owner ∉ c.s.outgoing ++ c.s.sent) :
    Content iss first accepted P (Mtcp.enqueueConnect cfg owner c) ∧
      (((Mtcp.enqueueConnect cfg owner c).s = c.s ∧
          (Mtcp.enqueueConnect cfg owner c).waiting = c.waiting ∧
          (c.s.refuses (.connect owner) = true ∨ c.s.outgoing ≠ [])) ∨
        ∃ x : TcpBuffer, x.pendingArp = false ∧ x.dataLen = 0 ∧
          (Mtcp.enqueueConnect cfg owner c).s =
            { c.s with outgoing := c.s.outgoing ++ [.connect owner] } ∧
          (Mtcp.enqueueConnect cfg owner c).waiting = c.waiting ++ [x]) := by
  set c1 := c.setBuf (.connect owner) fun b => { b with dataLen := 0 } with hc1
  obtain ⟨hframe, hwire, hfree⟩ := enqueue_m cfg (.connect owner) c1
  have hbuf : ∀ a ∈ c.s.outgoing ++ c.s.sent,
      (Mtcp.enqueueConnect cfg owner c).m.buf a = c.m.buf a := by
    intro a ha
    have hne : a ≠ .connect owner := fun hno => hb (hno ▸ ha)
    have hset : c1.m.buf a = c.m.buf a := by
      simp [hc1, Ctx.setBuf, Shared.setBuf, hne]
    exact (hframe a hne).trans hset
  by_cases hgood : (enqueue cfg (.connect owner) c1).1 = TCP_RC_GOOD
  · obtain ⟨hx, hs⟩ := enqueue_buf hgood
    have hx' : (enqueue cfg (.connect owner) c1).2.m.buf (.connect owner) =
        ({ c.m.buf (.connect owner) with dataLen := 0 } : TcpBuffer).enqueued := by
      rw [hx, hc1, setBuf_self]
    obtain ⟨hcontent, hwait⟩ := h.push (Mtcp.enqueueConnect cfg owner c) [] hb (by simp) hs
      hbuf (by
        change ((enqueue cfg (.connect owner) c1).2.m.buf (.connect owner)).pendingArp = false
        rw [hx']
        rfl) hwire (by
        rw [show (Mtcp.enqueueConnect cfg owner c).m.xmitBuffers = c.m.xmitBuffers from hfree]
        exact h.free) (fun n hn => ⟨by
        rw [show (Mtcp.enqueueConnect cfg owner c).m.xmitBuffers = c.m.xmitBuffers from hfree] at hn
        exact hn, by simp⟩) (.inr rfl)
    rw [append_nil] at hcontent
    refine ⟨hcontent, .inr ⟨_, ?_, ?_, hs, hwait⟩⟩
    · change ((enqueue cfg (.connect owner) c1).2.m.buf (.connect owner)).pendingArp = false
      rw [hx']
      rfl
    · change ((enqueue cfg (.connect owner) c1).2.m.buf (.connect owner)).dataLen = 0
      rw [hx']
      rfl
  · have hs : (Mtcp.enqueueConnect cfg owner c).s = c.s := enqueue_bad hgood
    have ha : Aside c (Mtcp.enqueueConnect cfg owner c) :=
      Aside.of_rings (by rw [hs]) (by rw [hs]; exact h.force) (by rw [hs]; exact h.probe) hfree hbuf
    have hwire0 : (Mtcp.enqueueConnect cfg owner c).m.wire = c.m.wire ++ [] := by
      rw [append_nil]
      exact hwire
    refine ⟨h.aside ha [] hwire0 fun p hp => absurd hp (by simp),
      .inl ⟨hs, ha.waiting, ?_⟩⟩
    by_contra hno
    obtain ⟨hok, hnil⟩ := not_or.mp hno
    have hout : c.s.outgoing = [] := not_not.mp hnil
    have hlen : ¬ (0 = cfg.ringSize) := ne_of_lt cfg.ringPos
    refine hgood ?_
    unfold enqueue
    rw [if_neg (by simpa [hc1] using hok), if_neg (by simp [hc1]),
      if_neg (by simpa [hc1, hout] using hlen)]

/-- The packet in front is sent. -/
structure SentOff (c c' : Ctx) (b : BufId) (rest : List BufId) (p : Packet) : Prop where
  before : c.s.outgoing = b :: rest
  after : c'.s.outgoing = rest
  place : c'.s.sent = c.s.sent ++ [b] ∧ c'.m.xmitBuffers = c.m.xmitBuffers ∨
    c'.s.sent = c.s.sent ∧ (c'.m.xmitBuffers = c.m.xmitBuffers ∨
      ∃ n, b = .pool n ∧ c'.m.xmitBuffers = n :: c.m.xmitBuffers)
  buf : ∀ a ≠ b, c'.m.buf a = c.m.buf a
  packet : (c'.m.buf b).packet c.s.self = p
  head : (c.m.buf b).pendingArp = true → (c.m.buf b).packet c.s.self = p
  wire : c'.m.wire = c.m.wire ++ [p]
  self : c'.s.self = c.s.self
  force : c'.s.forcePureAck = false
  probe : c'.s.forceProbe = false
  closeReason : c'.s.closeReason = c.s.closeReason

/-- The FIN that is noted, before and after a packet `p` was given its number. -/
def FinStep (iss : UInt32) (accepted : List UInt8) (P P' : Packet) (c c' : Ctx) (p : Packet) :
    Prop :=
  c'.s.finSeq = c.s.finSeq ∧ P' = P ∧ Good iss accepted c.s.finSeq P p ∨
    c.s.finSeq = none ∧ c'.s.finSeq = some (iss + 1 + UInt32.ofNat accepted.length) ∧ P' = p ∧
      p.headers.codeBits.fin = true ∧ p.socket = c.s.self ∧ Good iss accepted c'.s.finSeq p p

theorem FinStep.good {q : Packet} (h : FinStep iss accepted P P' c c' p)
    (hq : Good iss accepted c.s.finSeq P q) : Good iss accepted c'.s.finSeq P' q := by
  rcases h with ⟨hf, hP, -⟩ | ⟨hnone, -⟩
  · rw [hf, hP]
    exact hq
  · rw [hnone] at hq
    exact hq.withFin _ _

theorem FinStep.self_good (h : FinStep iss accepted P P' c c' p) :
    Good iss accepted c'.s.finSeq P' p := by
  rcases h with ⟨hf, hP, hg⟩ | ⟨-, -, hP, -, -, hg⟩
  · rw [hf, hP]
    exact hg
  · rw [hP]
    exact hg

theorem Content.sendOff (h : Content iss first accepted P c) {rest : List BufId}
    (hoff : SentOff c c' b rest p) (hfin : FinStep iss accepted P P' c c' p) :
    Content iss (update first b p) accepted P' c' ∧ c'.waiting = c.waiting.tail := by
  have hnodup := h.nodup
  rw [hoff.before, cons_append, nodup_cons] at hnodup
  obtain ⟨hb, hrest⟩ := hnodup
  have hsame : ∀ a ∈ rest ++ c.s.sent, c'.m.buf a = c.m.buf a :=
    fun a ha => hoff.buf a fun hno => hb (hno ▸ ha)
  have hwait : c'.waiting = c.waiting.tail := by
    unfold Ctx.waiting
    rw [hoff.after, hoff.before, map_cons, tail_cons]
    exact map_congr_left fun a ha => hsame a (mem_append_left _ ha)
  have hheld : ∀ a ∈ rest ++ c.s.sent, a ∈ c.s.outgoing ++ c.s.sent := by
    intro a ha
    rw [hoff.before, cons_append]
    exact mem_cons_of_mem b ha
  have hrings : ∀ a, a ∈ c'.s.outgoing ++ c'.s.sent →
      a ∈ rest ++ c.s.sent ∨ (a = b ∧ c'.m.xmitBuffers = c.m.xmitBuffers) := by
    intro a ha
    rw [hoff.after] at ha
    rcases hoff.place with ⟨hs, hfree⟩ | ⟨hs, -⟩
    · rw [hs, ← append_assoc] at ha
      rcases mem_append.mp ha with ha | ha
      · exact .inl ha
      · exact .inr ⟨mem_singleton.mp ha, hfree⟩
    · rw [hs] at ha
      exact .inl ha
  have hbin : b ∈ c.s.outgoing ++ c.s.sent := by
    rw [hoff.before, cons_append]
    exact mem_cons_self
  refine ⟨?_, hwait⟩
  constructor
  · rw [hoff.after]
    rcases hoff.place with ⟨hs, -⟩ | ⟨hs, -⟩
    · rw [hs, ← append_assoc]
      exact (perm_append_singleton b _).nodup_iff.mpr (nodup_cons.mpr ⟨hb, hrest⟩)
    · rw [hs]
      exact hrest
  · rcases hoff.place with ⟨-, hfree⟩ | ⟨-, hfree | ⟨n, hn, hfree⟩⟩
    · rw [hfree]
      exact h.free
    · rw [hfree]
      exact h.free
    · rw [hfree]
      exact nodup_cons.mpr ⟨h.apart n (hn ▸ hbin), h.free⟩
  · intro n hn
    rcases hrings _ hn with hin | ⟨hnb, hfree⟩
    · have hno := h.apart n (hheld _ hin)
      rcases hoff.place with ⟨-, hfree⟩ | ⟨-, hfree | ⟨k, hk, hfree⟩⟩
      · rw [hfree]
        exact hno
      · rw [hfree]
        exact hno
      · rw [hfree]
        intro hmem
        rcases mem_cons.mp hmem with hnk | hmem
        · rw [hnk, ← hk] at hin
          exact hb hin
        · exact hno hmem
    · rw [hfree]
      exact h.apart n (hnb ▸ hbin)
  · intro hno
    rcases hrings _ hno with hin | ⟨hnb, -⟩
    · exact h.stack (hheld _ hin)
    · exact h.stack (hnb ▸ hbin)
  · exact hoff.force
  · exact hoff.probe
  · rw [hwait]
    exact fun x hx => h.tail x (mem_of_mem_tail hx)
  · rw [hoff.wire, hoff.self]
    intro q hq hself
    rcases mem_append.mp hq with hq | hq
    · exact hfin.good (h.wire q hq hself)
    · rw [mem_singleton.mp hq]
      exact hfin.self_good
  · rw [hoff.wire, hoff.self]
    have hold : ∀ a ∈ c.s.sent, (c'.m.buf a).packet c.s.self = update first b p a ∧
        update first b p a ∈ c.m.wire ++ [p] := by
      intro a ha
      have hne : a ≠ b := fun hno => hb (hno ▸ mem_append_right _ ha)
      rw [update_of_ne hne, hsame a (mem_append_right _ ha)]
      exact (h.sent a ha).imp_right (mem_append_left _)
    intro a ha
    rcases hoff.place with ⟨hs, -⟩ | ⟨hs, -⟩
    · rw [hs] at ha
      rcases mem_append.mp ha with ha | ha
      · exact hold a ha
      · rw [mem_singleton.mp ha, hoff.packet, update_self]
        exact ⟨rfl, mem_append_right _ (mem_singleton_self p)⟩
    · rw [hs] at ha
      exact hold a ha
  · rw [hwait]
    intro x hx hp
    exact nomatch (h.tail x hx).symm.trans hp
  · intro q hq
    rcases hfin with ⟨hf, -⟩ | ⟨-, hf, -⟩
    · exact h.fin q (hf ▸ hq)
    · exact (some.inj (hf.symm.trans hq)).symm
  · rw [hoff.closeReason, hoff.self, hoff.wire]
    intro hne hr
    rcases hfin with ⟨hf, hP, -⟩ | ⟨-, -, hP, hset, hself, -⟩
    · obtain ⟨h1, h2, h3⟩ := h.finSent (hf ▸ hne) hr
      rw [hP]
      refine ⟨h1, h2, .inl ?_⟩
      rcases h3 with hin | ⟨x, hx, hp, hpacket⟩
      · exact mem_append_left _ hin
      · -- only the packet in front can have waited
        have hhead : x = c.m.buf b := by
          unfold Ctx.waiting at hx
          rw [hoff.before, map_cons] at hx
          rcases mem_cons.mp hx with hx | hx
          · exact hx
          · have htail := h.tail x (by
              unfold Ctx.waiting
              rw [hoff.before, map_cons]
              exact hx)
            exact nomatch htail.symm.trans hp
        rw [hhead] at hp hpacket
        rw [← hpacket, hoff.head hp]
        exact mem_append_right _ (mem_singleton_self p)
    · rw [hP]
      exact ⟨hset, hself, .inl (mem_append_right _ (mem_singleton_self p))⟩

end

/-! ## 5. Driving -/

section

variable {iss : UInt32} {first : BufId → Packet} {accepted : List UInt8} {c : Ctx} {b : BufId}
  {rest : List BufId}

/-- `afterSend`, for a packet that was just put on the wire. -/
theorem sentOff_afterSend {c1 : Ctx} (hout : c.s.outgoing = b :: rest)
    (hs : c1.s.outgoing = c.s.outgoing ∧ c1.s.sent = c.s.sent ∧ c1.s.self = c.s.self ∧
      c1.s.closeReason = c.s.closeReason ∧ c1.s.forcePureAck = false ∧ c1.s.forceProbe = false)
    (hfree : c1.m.xmitBuffers = c.m.xmitBuffers) (hbuf : ∀ a ≠ b, c1.m.buf a = c.m.buf a)
    (hwire : c1.m.wire = c.m.wire ++ [(c1.m.buf b).packet c.s.self])
    (hhead : (c.m.buf b).pendingArp = true →
      (c.m.buf b).packet c.s.self = (c1.m.buf b).packet c.s.self) :
    SentOff c (c1.afterSend b) b rest ((c1.m.buf b).packet c.s.self) := by
  obtain ⟨hout1, hsent1, hself1, hreason1, hforce1, hprobe1⟩ := hs
  have htail : c1.s.outgoing.tail = rest := by
    rw [hout1, hout]
    rfl
  unfold Ctx.afterSend
  dsimp only
  split
  · refine ⟨hout, htail, .inr ⟨hsent1, ?_⟩, fun a ha => ?_, ?_, hhead, ?_, hself1, hforce1,
      hprobe1, hreason1⟩
    · cases b with
      | pool n => exact .inr ⟨n, rfl, congrArg (n :: ·) hfree⟩
      | connect i => exact .inl hfree
      | stack => exact .inl hfree
    · rw [← hbuf a ha]
      cases b <;> simp [Shared.returnXmitBuf, Ctx.setBuf, Shared.setBuf, ha]
    · cases b <;> simp [Shared.returnXmitBuf, Shared.setBuf, TcpBuffer.packet, TcpBuffer.payload]
    · rw [← hwire]
      cases b <;> rfl
  · refine ⟨hout, htail, .inl ⟨by rw [← hsent1]; rfl, hfree⟩, fun a ha => ?_, ?_, hhead, hwire,
      hself1, hforce1, hprobe1, hreason1⟩
    · rw [← hbuf a ha]
      simp [Ctx.setBuf, Shared.setBuf, ha]
    · simp [TcpBuffer.packet, TcpBuffer.payload]

theorem waiting_cons (hout : c.s.outgoing = b :: rest) :
    c.waiting = c.m.buf b :: c.waiting.tail ∧ c.waiting.tail = rest.map c.m.buf := by
  unfold Ctx.waiting
  rw [hout]
  exact ⟨rfl, rfl⟩

/-- A buffer is queued once. -/
theorem Layout.notMem_rest (h : Layout iss first accepted c) (hout : c.s.outgoing = b :: rest) :
    b ∉ rest := by
  obtain ⟨syn, n, P, hcontent, -⟩ := h
  have hnodup := (nodup_append.mp hcontent.nodup).1
  rw [hout] at hnodup
  exact (nodup_cons.mp hnodup).1

/-- The packet in front is sent, and the note says how. -/
def SendsHead (iss : UInt32) (first : BufId → Packet) (accepted : List UInt8) (b : BufId)
    (rest : List BufId) (c c' : Ctx) : Prop :=
  ∃ p, c'.s.outgoing = rest ∧ c'.m.wire = c.m.wire ++ [p] ∧
    Layout iss (Function.update first b p) accepted c'

/-- The header of the packet in front was filled in before. -/
theorem Layout.sendPending (h : Layout iss first accepted c) (hout : c.s.outgoing = b :: rest)
    (hp : (c.m.buf b).pendingArp = true) :
    SendsHead iss first accepted b rest c
      ((({ c with s := { c.s with cachedMacAddr := true } }.setBuf b fun x =>
        { x with pendingArp := false }).transmit b).afterSend b) := by
  obtain ⟨syn, n, P, hcontent, hstage⟩ := h
  obtain ⟨hwait, -⟩ := waiting_cons hout
  set c1 := ({ c with s := { c.s with cachedMacAddr := true } }.setBuf b fun x =>
    { x with pendingArp := false }).transmit b with hc1
  have hpacket : (c1.m.buf b).packet c.s.self = (c.m.buf b).packet c.s.self := by
    simp [hc1, Ctx.transmit, Ctx.setBuf, Shared.setBuf, TcpBuffer.packet, TcpBuffer.payload]
  have hoff : SentOff c (c1.afterSend b) b rest ((c1.m.buf b).packet c.s.self) := by
    refine sentOff_afterSend hout ⟨rfl, rfl, rfl, rfl, hcontent.force, hcontent.probe⟩ rfl
      (fun a ha => ?_) ?_ fun _ => hpacket.symm
    · simp [hc1, Ctx.transmit, Ctx.setBuf, Shared.setBuf, ha]
    · rfl
  obtain ⟨sent, hs⟩ := afterSend_s c1 b
  have hgood := hcontent.pending (c.m.buf b) (by rw [hwait]; exact mem_cons_self) hp
  have hfin : FinStep iss accepted P P c (c1.afterSend b) ((c1.m.buf b).packet c.s.self) := by
    refine .inl ⟨by rw [hs]; rfl, rfl, ?_⟩
    rw [hpacket]
    exact hgood
  obtain ⟨hcontent', hwait'⟩ := hcontent.sendOff hoff hfin
  refine ⟨_, hoff.after, hoff.wire, syn, n, P, hcontent', ?_⟩
  rw [hwait', hs]
  rw [hwait] at hstage
  exact hstage.pop hp

/-- The header of the packet in front is filled in, and the packet is sent or waits. -/
theorem Layout.fillHead (h : Layout iss first accepted c) (cfg : Config) (hout : c.s.outgoing = b :: rest)
    (hp : (c.m.buf b).pendingArp = false) :
    SendsHead iss first accepted b rest c (((fill cfg b c).transmit b).afterSend b) ∧
      Layout iss first accepted ((fill cfg b c).setBuf b fun x => { x with pendingArp := true }) := by
  obtain ⟨syn, n, P, hcontent, hstage⟩ := h
  obtain ⟨hwait, hrest⟩ := waiting_cons hout
  have hlen : c.s.outgoing.length = c.waiting.tail.length + 1 := by
    rw [hrest, length_map, hout]
    rfl
  have hbnot : b ∉ rest ++ c.s.sent := by
    have hnodup := hcontent.nodup
    rw [hout, cons_append, nodup_cons] at hnodup
    exact hnodup.1
  rw [hwait] at hstage
  obtain ⟨⟨syn', n', hstage', hset⟩, hgood⟩ :=
    hstage.filled (P := P) cfg hp hcontent.tail hcontent.probe hcontent.force hlen
  set x' := (c.m.buf b).filled cfg c.s with hx'
  have hbuf : (fill cfg b c).m.buf b = x' := by
    exact setBuf_self c b fun x => x.filled cfg c.s
  have hother : ∀ a ≠ b, (fill cfg b c).m.buf a = c.m.buf a := by
    intro a ha
    simp [fill, Ctx.setBuf, Shared.setBuf, ha]
  have hs : (fill cfg b c).s =
      c.s.advanced (c.m.buf b).dataLen (c.s.role (c.m.buf b).dataLen) := rfl
  -- the packet that is noted as the FIN
  obtain ⟨P', hfin⟩ : ∃ P', ∀ c', c'.s.finSeq = (fill cfg b c).s.finSeq →
      FinStep iss accepted P P' c c' (x'.packet c.s.self) := by
    rcases hgood with ⟨hnotFin, hg⟩ | ⟨hrole, hnone, hnum, hg⟩
    · refine ⟨P, fun c' hc' => .inl ⟨?_, rfl, hg⟩⟩
      rw [hc', hs]
      exact (advanced_notFin hnotFin _).2.2
    · refine ⟨x'.packet c.s.self, fun c' hc' => .inr ⟨hnone, ?_, rfl, ?_, rfl, ?_⟩⟩
      · rw [hc', hs]
        simp [TcpSocket.advanced, hrole, hnum]
      · simp [hx', TcpBuffer.packet, TcpBuffer.filled, TcpSocket.header, hrole, Role.codeBits]
      · rw [hc', hs]
        simpa [TcpSocket.advanced, hrole] using hg
  constructor
  · have hoff : SentOff c (((fill cfg b c).transmit b).afterSend b) b rest
        ((((fill cfg b c).transmit b).m.buf b).packet c.s.self) := by
      refine sentOff_afterSend hout ⟨rfl, rfl, rfl, rfl, hcontent.force, hcontent.probe⟩ rfl
        hother ?_ fun hno => absurd (hp.symm.trans hno) (by simp)
      rfl
    have hpk : ((((fill cfg b c).transmit b).m.buf b).packet c.s.self) = x'.packet c.s.self :=
      congrArg (fun x => TcpBuffer.packet x c.s.self) hbuf
    rw [hpk] at hoff
    obtain ⟨sent, hsent⟩ := afterSend_s ((fill cfg b c).transmit b) b
    obtain ⟨hcontent', hwait'⟩ := hcontent.sendOff hoff (hfin _ (by rw [hsent]; rfl))
    refine ⟨_, hoff.after, hoff.wire, syn', n', P', hcontent', ?_⟩
    rw [hwait', hsent]
    exact hstage'
  · set c' := (fill cfg b c).setBuf b fun x => { x with pendingArp := true } with hc'
    have hs' : c'.s = c.s.advanced (c.m.buf b).dataLen (c.s.role (c.m.buf b).dataLen) := rfl
    have hb' : c'.m.buf b = { x' with pendingArp := true } := by
      rw [hc', setBuf_self, hbuf]
    have hother' : ∀ a ∈ rest ++ c.s.sent, c'.m.buf a = c.m.buf a := by
      intro a ha
      have hne : a ≠ b := fun hno => hbnot (hno ▸ ha)
      rw [← hother a hne]
      simp [hc', Ctx.setBuf, Shared.setBuf, hne]
    have hwait' : c'.waiting = { x' with pendingArp := true } :: c.waiting.tail := by
      unfold Ctx.waiting
      rw [show c'.s.outgoing = c.s.outgoing from rfl, hout, map_cons, map_cons, tail_cons, hb']
      congr 1
      exact map_congr_left fun a ha => hother' a (mem_append_left _ ha)
    have hfs := hfin c' rfl
    have hpacket : ({ x' with pendingArp := true } : TcpBuffer).packet c.s.self =
        x'.packet c.s.self := rfl
    refine ⟨syn', n', P', ?_, ?_⟩
    · constructor
      · exact hcontent.nodup
      · exact hcontent.free
      · exact hcontent.apart
      · exact hcontent.stack
      · exact hcontent.force
      · exact hcontent.probe
      · rw [hwait', tail_cons]
        exact hcontent.tail
      · exact fun p hin hself => hfs.good (hcontent.wire p hin hself)
      · intro a ha
        rw [hother' a (mem_append_right _ ha)]
        exact hcontent.sent a ha
      · rw [hwait']
        intro x hx hpend
        rcases mem_cons.mp hx with rfl | hx
        · exact hfs.self_good
        · exact absurd ((hcontent.tail x hx).symm.trans hpend) (by simp)
      · intro q hq
        rcases hfs with ⟨hf, -⟩ | ⟨-, hf, -⟩
        · exact hcontent.fin q (hf ▸ hq)
        · exact (some.inj (hf.symm.trans hq)).symm
      · intro hne hr
        rw [hwait']
        rcases hfs with ⟨hf, hP, -⟩ | ⟨-, -, hP, hsetf, hself, -⟩
        · obtain ⟨h1, h2, h3⟩ := hcontent.finSent (hf ▸ hne) hr
          rw [hP]
          refine ⟨h1, h2, .inl ?_⟩
          rcases h3 with hin | ⟨x, hx, hpend, -⟩
          · exact hin
          · -- no header was filled in that was not sent
            rw [hwait] at hx
            rcases mem_cons.mp hx with rfl | hx
            · exact absurd (hp.symm.trans hpend) (by simp)
            · exact absurd ((hcontent.tail x hx).symm.trans hpend) (by simp)
        · rw [hP]
          exact ⟨hsetf, hself, .inr ⟨_, mem_cons_self, rfl, hpacket⟩⟩
    · rw [hwait', hs']
      refine hstage'.wait rfl fun ho => ?_
      refine hset ?_
      unfold TcpSocket.advanced at ho
      by_cases hrole : c.s.role (c.m.buf b).dataLen = .finAck
      · rw [if_pos hrole] at ho
        rcases role_finAck hrole with hst | hst | hst <;> rw [hst] at ho <;>
          simp [finSent, opening] at ho
      · simpa [hrole] using ho

/-- What `sendPureAck` does: it may put a packet on the wire that only acknowledges. -/
theorem sendPureAck_m (cfg : Config) (resolves : Bool) (c : Ctx) :
    (∀ a ≠ .stack, (sendPureAck cfg resolves c).m.buf a = c.m.buf a) ∧
      (sendPureAck cfg resolves c).m.xmitBuffers = c.m.xmitBuffers ∧
      ∃ more, (sendPureAck cfg resolves c).m.wire = c.m.wire ++ more ∧ ∀ p ∈ more,
        p.headers.codeBits.syn = false ∧ p.headers.codeBits.fin = false ∧ p.payload = [] := by
  unfold sendPureAck
  split
  · exact ⟨fun _ _ => rfl, rfl, [], (append_nil _).symm, by simp⟩
  · rename_i hst
    have hst : c.s.state = .established := not_not.mp hst
    set c0 : Ctx := { c with s := { c.s with forcePureAck := true } }.setBuf .stack stackBuffer
      with hc0
    have hbuf : c0.m.buf .stack = stackBuffer (c.m.buf .stack) := setBuf_self _ _ _
    have hrole : c0.s.role 0 = .dataAck false := by
      simp [TcpSocket.role, hc0, hst]
    have hother : ∀ a ≠ .stack, (fill cfg .stack c0).m.buf a = c.m.buf a := by
      intro a ha
      simp [fill, hc0, Ctx.setBuf, Shared.setBuf, ha]
    have hfilled : (fill cfg .stack c0).m.buf .stack =
        (stackBuffer (c.m.buf .stack)).filled cfg c0.s := by
      exact setBuf_self c0 .stack fun x => x.filled cfg c0.s
    unfold sendPacket
    rw [hbuf]
    simp only [stackBuffer, TcpBuffer.enqueued, false_eq_true, if_false]
    split
    · refine ⟨hother, rfl, [_], rfl, fun p hp => ?_⟩
      rw [mem_singleton.mp hp, hfilled]
      have hlen : (stackBuffer (c.m.buf .stack)).dataLen = 0 := rfl
      refine ⟨?_, ?_, filled_payload_nil cfg hlen⟩
      · simp [TcpBuffer.filled, TcpSocket.header, hlen, hrole, Role.codeBits, CodeBits.justAck]
      · simp [TcpBuffer.filled, TcpSocket.header, hlen, hrole, Role.codeBits, CodeBits.justAck]
    · refine ⟨fun a ha => ?_, rfl, [], (append_nil _).symm, by simp⟩
      rw [← hother a ha]
      simp [Ctx.setBuf, Shared.setBuf, ha]

section

variable (h : Layout iss first accepted c)
include h

/-- A pure ACK, with or without the flags that ask for one. -/
theorem Layout.pureAck (hm : (∀ a ≠ .stack, c'.m.buf a = c.m.buf a) ∧
      c'.m.xmitBuffers = c.m.xmitBuffers ∧ ∃ more, c'.m.wire = c.m.wire ++ more ∧ ∀ p ∈ more,
        p.headers.codeBits.syn = false ∧ p.headers.codeBits.fin = false ∧ p.payload = [])
    (hs : c'.s = { c.s with forcePureAck := c'.s.forcePureAck, forceProbe := c'.s.forceProbe })
    (hforce : c'.s.forcePureAck = false) (hprobe : c'.s.forceProbe = false) :
    Layout iss first accepted c' := by
  obtain ⟨syn, n, P, hcontent, hstage⟩ := h
  obtain ⟨hbuf, hfree, more, hwire, hmore⟩ := hm
  have hring : ∀ a ∈ c.s.outgoing ++ c.s.sent, c'.m.buf a = c.m.buf a :=
    fun a ha => hbuf a fun hno => hcontent.stack (hno ▸ ha)
  exact Layout.aside ⟨syn, n, P, hcontent, hstage⟩ (.of_rings hs hforce hprobe hfree hring) more hwire
    (fun p hp _ => .inl (hmore p hp)) (by rw [hs]) (by rw [hs])

theorem Layout.sendPureAck (cfg : Config) (resolves : Bool) :
    Layout iss first accepted (Mtcp.sendPureAck cfg resolves c) := by
  obtain ⟨syn, n, P, hcontent, -⟩ := id h
  obtain ⟨force, hs⟩ := sendPureAck_s cfg resolves c
  refine h.pureAck (sendPureAck_m cfg resolves c) (by rw [hs]) ?_ (by rw [hs]; exact hcontent.probe)
  unfold Mtcp.sendPureAck
  split
  · exact hcontent.force
  · rfl

theorem Layout.probe (cfg : Config) (resolves : Bool) :
    Layout iss first accepted (Mtcp.probe cfg resolves c) := by
  obtain ⟨syn, n, P, hcontent, -⟩ := id h
  obtain ⟨force, hs⟩ := probe_s cfg resolves c
  refine h.pureAck (sendPureAck_m cfg resolves { c with s := { c.s with forceProbe := true } })
    (by rw [hs]) ?_ (by rw [hs])
  unfold Mtcp.probe Mtcp.sendPureAck
  split
  · exact hcontent.force
  · rfl

end

/-- A packet that need not be sent again. -/
def Packet.justAcks (p : Packet) : Bool :=
  p.payload.isEmpty && p.headers.codeBits == CodeBits.justAck

/-- The packets that some buffers are sent as are noted, but for the buffers that are held to be
sent again: what those were sent as first stands. -/
def note : List BufId → (BufId → Packet) → List (BufId × Packet) → BufId → Packet
  | _, first, [] => first
  | held, first, (b, p) :: sent =>
    note (if p.justAcks then held else b :: held)
      (if b ∈ held then first else Function.update first b p) sent

/-- Buffers leave `outgoing`, and in this order they are the packets that are put on the wire. -/
def Driven (iss : UInt32) (held : List BufId) (first : BufId → Packet) (accepted : List UInt8)
    (c c' : Ctx) : Prop :=
  ∃ gone more, c.s.outgoing = gone ++ c'.s.outgoing ∧ c'.m.wire = c.m.wire ++ more ∧
    Layout iss (note held first (gone.zip more)) accepted c'

variable {held : List BufId}

theorem Layout.stays (h : Layout iss first accepted c') (hout : c.s.outgoing = c'.s.outgoing)
    {more : List Packet} (hwire : c'.m.wire = c.m.wire ++ more) :
    Driven iss held first accepted c c' :=
  ⟨[], more, hout, hwire, h⟩

section

variable (h : Layout iss first accepted c)
include h

/-- **Every packet that is driven is where it belongs.** -/
theorem Layout.driveOutgoing (cfg : Config) (env : Env)
    (fuel : Nat) (hheld : ∀ b ∈ c.s.outgoing, b ∉ held) :
    Driven iss held first accepted c (Mtcp.driveOutgoing cfg env fuel c) := by
  have hidle : Driven iss held first accepted c c := h.stays rfl (append_nil _).symm
  induction fuel generalizing c first held with
  | zero => exact hidle
  | succ fuel ih =>
    unfold Mtcp.driveOutgoing
    split
    · exact hidle
    · rename_i b rest hout
      -- the packet in front is sent, and the loop goes on
      have hnext {c1 : Ctx} (hsend : SendsHead iss first accepted b rest c c1) :
          Driven iss held first accepted c (Mtcp.driveOutgoing cfg env fuel c1) := by
        obtain ⟨p, hrest, hwire, h1⟩ := hsend
        rw [hout] at hheld
        have hb := hheld b mem_cons_self
        have hlater : ∀ a ∈ c1.s.outgoing, a ∉ if p.justAcks then held else b :: held := by
          intro a ha
          rw [hrest] at ha
          have hold := hheld a (mem_cons_of_mem b ha)
          have hne : a ≠ b := fun heq => h.notMem_rest hout (heq ▸ ha)
          split
          · exact hold
          · exact not_mem_cons_of_ne_of_not_mem hne hold
        obtain ⟨gone, more, hgone, hmore, h2⟩ :=
          ih h1 hlater (h1.stays rfl (append_nil _).symm)
        refine ⟨b :: gone, p :: more, ?_, ?_, ?_⟩
        · rw [hout, cons_append, ← hgone, hrest]
        · rw [hmore, hwire, append_assoc]
          rfl
        · rw [zip_cons_cons, note, if_neg hb]
          exact h2
      split
      · split
        · split
          · obtain ⟨-, -, more, hwire, -⟩ :=
              sendPureAck_m cfg env.resolves { c with s := { c.s with forceProbe := true } }
            obtain ⟨force, hs⟩ := probe_s cfg env.resolves c
            exact (h.probe cfg env.resolves).stays (by rw [hs]) hwire
          · exact hidle
        · unfold sendPacket
          cases hp : (c.m.buf b).pendingArp with
          | true =>
            cases env.resolves with
            | true =>
              exact hnext (h.sendPending hout hp)
            | false =>
              exact hidle
          | false =>
            obtain ⟨hsent, hwaits⟩ := h.fillHead cfg hout hp
            cases c.s.cachedMacAddr || env.resolves with
            | true =>
              exact hnext hsent
            | false =>
              exact hwaits.stays rfl (append_nil _).symm
      · exact hidle

/-- A packet is sent again. -/
theorem Layout.resend (hb : b ∈ c.s.sent) :
    Layout iss first accepted (resendPacket b c) := by
  obtain ⟨syn, n, P, hcontent, hstage⟩ := h
  have hin : (c.m.buf b).packet c.s.self ∈ c.m.wire := by
    rw [(hcontent.sent b hb).1]
    exact (hcontent.sent b hb).2
  have hnot : b ∉ c.s.outgoing := by
    intro hno
    exact (nodup_append.mp hcontent.nodup).2.2 b hno b hb rfl
  have hother : ∀ a ≠ b, (resendPacket b c).m.buf a = c.m.buf a := by
    intro a ha
    simp [resendPacket, Ctx.transmit, Ctx.setBuf, Shared.setBuf, ha]
  have ha : Aside c (resendPacket b c) := by
    refine ⟨rfl, rfl, rfl, rfl, hcontent.force, hcontent.probe, rfl, rfl,
      fun a ha => hother a fun hno => hnot (hno ▸ ha), fun a _ i => ?_⟩
    by_cases hab : a = b
    · rw [hab]
      simp [resendPacket, Ctx.transmit, Ctx.setBuf, Shared.setBuf, TcpBuffer.packet,
        TcpBuffer.payload]
    · rw [hother a hab]
  refine Layout.aside ⟨syn, n, P, hcontent, hstage⟩ ha [(c.m.buf b).packet c.s.self] rfl
    (fun p hp _ => .inr ?_) rfl rfl
  rw [mem_singleton.mp hp]
  exact hin

/-- The socket is destroyed. -/
theorem Layout.destroy {reason : Nat} (hreason : reason ≠ 0) :
    Layout iss first accepted
      { (Mtcp.destroy c) with s := { (Mtcp.destroy c).s with closeReason := reason } } := by
  obtain ⟨syn, n, P, hcontent, hstage⟩ := h
  have hclear := hcontent.clear reason (.inr hreason)
  exact ⟨syn, n, P, hclear.same rfl, Stage.destroyed⟩

theorem Layout.driveSocket (cfg : Config) (env : Env) :
    Driven iss c.s.sent first accepted c (Mtcp.driveSocket cfg env c).2 := by
  have hheld : ∀ b ∈ c.s.outgoing, b ∉ c.s.sent := by
    obtain ⟨syn, n, P, hcontent, -⟩ := id h
    exact fun b hb hno => (nodup_append.mp hcontent.nodup).2.2 b hb b hno rfl
  unfold Mtcp.driveSocket
  split
  · exact h.driveOutgoing cfg env _ hheld
  · rename_i b rest hsent
    split
    · refine ⟨c.s.outgoing, [], (append_nil _).symm, ?_, ?_⟩
      · rw [append_nil]
        exact destroy_wire c
      · rw [zip_nil_right]
        exact h.destroy (by decide)
    · split
      · refine (h.resend (b := b) ?_).stays rfl rfl
        rw [hsent]
        exact mem_cons_self
      · exact h.driveOutgoing cfg env _ hheld

end

end

/-! ## 6. Calls of the user -/

section

variable {iss : UInt32} {first : BufId → Packet} {accepted : List UInt8} {c : Ctx}

variable {n : Nat}

/-- A buffer that was free is on no ring, and nothing but this buffer is touched. -/
theorem Content.drawn {P : Packet} (h : Content iss first accepted P c) (cfg : Config)
    (data : List UInt8) {m : Shared} (hget : c.m.getXmitBuf = (some n, m)) :
    BufId.pool n ∉ c.s.outgoing ++ c.s.sent ∧
      (∀ a ∈ c.s.outgoing ++ c.s.sent, (enqueue cfg (.pool n)
        ({ c with m := m }.setBuf (.pool n) fun b => b.withData data)).2.m.buf a = c.m.buf a) ∧
      (enqueue cfg (.pool n)
        ({ c with m := m }.setBuf (.pool n) fun b => b.withData data)).2.m.wire = c.m.wire ∧
      c.m.xmitBuffers = n :: (enqueue cfg (.pool n)
        ({ c with m := m }.setBuf (.pool n) fun b => b.withData data)).2.m.xmitBuffers := by
  obtain ⟨hfree, hm⟩ := getXmitBuf_some hget
  obtain ⟨hframe, hwire, hxmit⟩ := enqueue_m cfg (.pool n)
    ({ c with m := m }.setBuf (.pool n) fun b => b.withData data)
  have hloose : BufId.pool n ∉ c.s.outgoing ++ c.s.sent := by
    intro hno
    refine h.apart n hno ?_
    rw [hfree]
    exact mem_cons_self
  refine ⟨hloose, fun a ha => ?_, hwire.trans ?_, by rw [hxmit]; exact hfree⟩
  · have hne : a ≠ .pool n := fun hno => hloose (hno ▸ ha)
    rw [hframe a hne]
    simp only [Ctx.setBuf, Shared.setBuf, ne_eq, hne, not_false_eq_true, update_of_ne]
    rw [hm]
  · change m.wire = c.m.wire
    rw [hm]

section

variable (h : Layout iss first accepted c)
include h

/-- A free buffer with `data` is queued. -/
theorem Layout.enqueueFree (cfg : Config) (data : List UInt8)
    {m : Shared} (hget : c.m.getXmitBuf = (some n, m)) (hgood : (enqueue cfg (.pool n)
      ({ c with m := m }.setBuf (.pool n) fun b => b.withData data)).1 = TCP_RC_GOOD)
    (hst : c.s.state ≠ .closed) (hopening : opening c.s.state = false)
    (hlate : sentFin c.s.state = true → data = []) :
    Layout iss first (accepted ++ data) (enqueue cfg (.pool n)
      ({ c with m := m }.setBuf (.pool n) fun b => b.withData data)).2 := by
  obtain ⟨syn, k, P, hcontent, hstage⟩ := h
  obtain ⟨hloose, hbuf, hwire, hfree⟩ := hcontent.drawn cfg data hget
  set c1 := { c with m := m }.setBuf (.pool n) fun b => b.withData data with hc1
  obtain ⟨hx, hs⟩ := enqueue_buf hgood
  have hnodup := hcontent.free
  rw [hfree, nodup_cons] at hnodup
  have hx' : (enqueue cfg (.pool n) c1).2.m.buf (.pool n) =
      ((m.buf (.pool n)).withData data).enqueued := by
    rw [hx, hc1, setBuf_self]
  obtain ⟨hcontent', hwait⟩ := hcontent.push (enqueue cfg (.pool n) c1).2 data hloose (by simp) hs
    hbuf (by rw [hx']; rfl) hwire hnodup.2
    (fun a ha => by
      refine ⟨by rw [hfree]; exact mem_cons_of_mem n ha, fun hno => ?_⟩
      cases hno
      exact hnodup.1 ha)
    (by
      by_cases hf : c.s.finSeq = none
      · exact .inl hf
      · exact .inr (hlate ((hstage.fin hst).mp (Option.isSome_iff_ne_none.mpr hf))))
  refine ⟨syn, k, P, hcontent', ?_⟩
  rw [hwait, hs, hx']
  exact hstage.push rfl (bytes_withData _ data) hst hopening hlate

/-- A buffer that is refused goes back. -/
theorem Layout.enqueueData (cfg : Config) (data : List UInt8)
    (hok : data.length ≤ c.s.maxEnqueueSize →
      opening c.s.state = false ∧ (sentFin c.s.state = true → data = [])) :
    Layout iss first (accepted ++ if (Mtcp.enqueueData cfg data c).1 then data else [])
      (Mtcp.enqueueData cfg data c).2 := by
  rcases hget : c.m.getXmitBuf with ⟨_ | n, m⟩
  · have hnone : Mtcp.enqueueData cfg data c = (false, c) := by
      unfold Mtcp.enqueueData
      rw [hget]
    simp only [hnone, false_eq_true, if_false, append_nil]
    exact h
  · set c1 := { c with m := m }.setBuf (.pool n) fun b => b.withData data with hc1
    have hsome : Mtcp.enqueueData cfg data c =
        if (enqueue cfg (.pool n) c1).1 = TCP_RC_GOOD then (true, (enqueue cfg (.pool n) c1).2)
        else (false, { (enqueue cfg (.pool n) c1).2 with
          m := (enqueue cfg (.pool n) c1).2.m.returnXmitBuf (.pool n) }) := by
      unfold Mtcp.enqueueData
      rw [hget]
    by_cases hgood : (enqueue cfg (.pool n) c1).1 = TCP_RC_GOOD
    · simp only [hsome, if_pos hgood, if_true]
      have hlen : (c1.m.buf (.pool n)).dataLen = data.length := by
        rw [hc1, setBuf_self]
        rfl
      -- it was not refused
      have hfit : ¬ c1.s.refuses (.pool n) = true ∧ data.length ≤ c.s.maxEnqueueSize := by
        unfold enqueue at hgood
        split at hgood
        · exact absurd hgood (by simp [TCP_RC_BAD, TCP_RC_GOOD])
        · rename_i href
          split at hgood
          · exact absurd hgood (by simp [TCP_RC_TOO_MUCH_DATA, TCP_RC_GOOD])
          · rename_i hle
            refine ⟨href, ?_⟩
            rw [hlen] at hle
            exact Nat.le_of_not_lt hle
      obtain ⟨hopening, hlate⟩ := hok hfit.2
      refine h.enqueueFree cfg data hget hgood (fun hno => hfit.1 ?_) hopening hlate
      simp [TcpSocket.refuses, hc1, hno]
    · simp only [hsome, if_neg hgood, false_eq_true, if_false, append_nil]
      obtain ⟨syn, k, P, hcontent, hstage⟩ := h
      obtain ⟨-, hbuf, hwire, hfree⟩ := hcontent.drawn cfg data hget
      have hs : (enqueue cfg (.pool n) c1).2.s = c.s := enqueue_bad hgood
      refine Layout.aside ⟨syn, k, P, hcontent, hstage⟩ ?_ [] (by rw [append_nil]; exact hwire)
        (fun p hp => absurd hp (by simp)) (by rw [hs]) (by rw [hs])
      refine ⟨by rw [hs], by rw [hs], by rw [hs], by rw [hs], by rw [hs]; exact hcontent.force,
        by rw [hs]; exact hcontent.probe, by rw [hs], ?_,
        fun b hb => hbuf b (mem_append_left _ hb),
        fun b hb i => congrArg (TcpBuffer.packet · i) (hbuf b (mem_append_right _ hb))⟩
      exact hfree.symm

/-- `send` cuts the bytes into packets. -/
theorem Layout.sendLoop (cfg : Config) (fuel : Nat)
    (userBuf : List UInt8) (hst : c.s.state = .established) :
    Layout iss first (accepted ++ userBuf.take (Mtcp.sendLoop cfg fuel userBuf c).1)
      (Mtcp.sendLoop cfg fuel userBuf c).2 := by
  induction fuel generalizing userBuf c accepted with
  | zero =>
    unfold Mtcp.sendLoop
    rw [take_zero, append_nil]
    exact h
  | succ fuel ih =>
    unfold Mtcp.sendLoop
    split
    · rw [take_zero, append_nil]
      exact h
    · split
      · rename_i hroom
        split
        · rw [take_zero, append_nil]
          exact h
        · rename_i n m hget
          set c1 := { c with m := m }.setBuf (.pool n) fun b =>
            b.withData (userBuf.take c.s.maxEnqueueSize) with hc1
          have hgood : (enqueue cfg (.pool n) c1).1 = TCP_RC_GOOD := by
            refine enqueue_good hst ?_ hroom
            rw [hc1, setBuf_self]
            simp [TcpBuffer.withData]
          have hround := h.enqueueFree cfg (userBuf.take c.s.maxEnqueueSize) hget hgood
            (by simp [hst]) (by simp [hst, opening]) (by simp [hst, sentFin])
          have hst1 : (enqueue cfg (.pool n) c1).2.s.state = .established := by
            rw [(enqueue_buf hgood).2]
            exact hst
          have hrest := ih hround (userBuf.drop c.s.maxEnqueueSize) hst1
          rw [append_assoc] at hrest
          have htake : userBuf.take (min c.s.maxEnqueueSize userBuf.length +
              (Mtcp.sendLoop cfg fuel (userBuf.drop c.s.maxEnqueueSize)
                (enqueue cfg (.pool n) c1).2).1) =
              userBuf.take c.s.maxEnqueueSize ++ (userBuf.drop c.s.maxEnqueueSize).take
                (Mtcp.sendLoop cfg fuel (userBuf.drop c.s.maxEnqueueSize)
                  (enqueue cfg (.pool n) c1).2).1 := by
            rw [take_add]
            rcases le_total c.s.maxEnqueueSize userBuf.length with hle | hle
            · rw [min_eq_left hle]
            · rw [min_eq_right hle, take_length, drop_length,
                take_of_length_le hle, drop_of_length_le hle]
          rw [htake]
          exact hrest
      · rw [take_zero, append_nil]
        exact h

theorem Layout.send (cfg : Config) (userBuf : List UInt8) :
    Layout iss first (accepted ++ userBuf.take ((Mtcp.send cfg userBuf c).1.getD 0))
      (Mtcp.send cfg userBuf c).2 := by
  unfold Mtcp.send
  split
  · rw [getD_none, take_zero, append_nil]
    exact h
  · rename_i hst
    exact h.sendLoop cfg _ userBuf (not_not.mp hst)

end

variable {syn : Bool} {st st' : State} {seqNum : UInt32} {finSeq : Option UInt32}
  {xs : List TcpBuffer}

/-- A close asks for a FIN. -/
theorem Stage.toFin (h : Stage iss accepted syn n st seqNum finSeq xs)
    (htarget : closeTarget st = some st') (hsyn : st = .synRecved → syn = true)
    (hx : ∃ x ∈ xs, x.pendingArp = false) : Stage iss accepted syn n st' seqNum finSeq xs := by
  cases st <;> simp only [closeTarget, some.injEq, reduceCtorEq] at htarget <;>
    subst htarget
  · exact h.goOn (by simp) (by simp) (by simp) (by simp [opening]) (fun _ _ => hsyn rfl) rfl
      fun _ => .inr hx
  · exact h.goOn (by simp) (by simp) (by simp) (by simp [opening]) (by simp [opening]) rfl
      fun _ => .inr hx
  · exact h.goOn (by simp) (by simp) (by simp) (by simp [opening]) (by simp [opening]) rfl
      fun _ => .inr hx

/-- The state goes on, and nothing that is sent changes. -/
theorem Layout.goOn (h : Layout iss first accepted c) {c' : Ctx} (hs : c'.sending = c.sending)
    (hseq : c'.s.seqNum = c.s.seqNum)
    (hstage : ∀ syn n, Stage iss accepted syn n c.s.state c.s.seqNum c.s.finSeq c.waiting →
      Stage iss accepted syn n c'.s.state c.s.seqNum c.s.finSeq c.waiting) :
    Layout iss first accepted c' := by
  obtain ⟨syn, n, P, hcontent, hst⟩ := h
  refine ⟨syn, n, P, hcontent.same hs, ?_⟩
  have ha := (hcontent.aside_of_sending hs).1
  rw [hseq, ha.finSeq, ha.waiting]
  exact hstage syn n hst

theorem Layout.setState (h : Layout iss first accepted c)
    (hstage : ∀ syn n, Stage iss accepted syn n c.s.state c.s.seqNum c.s.finSeq c.waiting →
      Stage iss accepted syn n st' c.s.seqNum c.s.finSeq c.waiting) :
    Layout iss first accepted (c.setState st') :=
  h.goOn rfl rfl hstage

/-- Where a SYN has its number. -/
theorem Stage.syn_of_seqNum (h : Stage iss accepted syn n st seqNum finSeq xs)
    (hopen : opening st = true)
    (hne : seqNum ≠ iss) : syn = true ∧ n = 0 ∧ finSeq = none ∧ seqNum = iss + 1 := by
  have hst : st ≠ .closed := by
    intro hno
    simp [hno, opening] at hopen
  have hfin : finSeq.isSome = false := by
    rw [eq_false_iff]
    intro hf
    have hsent := (h.fin hst).mp hf
    cases st <;> simp_all [opening, sentFin]
  have hn : n = 0 := by
    have hle := (h.unsent hst).1
    rw [(h.start hopen).1] at hle
    simpa using hle
  have hseq := h.seq hst
  rw [hn, hfin] at hseq
  cases syn with
  | false => exact absurd (by simpa using hseq) hne
  | true => exact ⟨rfl, hn, by simpa using hfin, by simpa using hseq⟩

/-- **Closing.** -/
theorem Layout.close (h : Layout iss first accepted c) (cfg : Config)
    (hfree : closeTarget c.s.state ≠ none → c.s.outgoing = [] → .connect c.s.self ∉ c.s.sent)
    (hlast : closeTarget c.s.state ≠ none → ∀ b, c.s.outgoing = [b] →
      (c.m.buf b).pendingArp = false)
    (hsyn : c.s.state = .synRecved → c.s.seqNum ≠ iss) :
    Layout iss first accepted (closeLocal cfg c) := by
  obtain ⟨syn, n, P, hcontent, hstage⟩ := id h
  have hset : c.s.state = .synRecved → syn = true := by
    intro hst
    exact (hstage.syn_of_seqNum (by simp [hst, opening]) (hsyn hst)).1
  unfold closeLocal
  split
  · rename_i hst
    refine h.setState fun _ _ hs => ?_
    rw [hst] at hs
    exact hs
  · rename_i hst
    refine h.setState fun _ _ hs => hs.toClosed (by simp [hst]) (.inl (by simp [hst, sentFin]))
  · rename_i hst
    exact absurd hst hstage.listen
  · rename_i hst
    refine h.setState fun _ _ hs => hs.toClosed (by simp [hst]) (.inr (by simp [hst, opening]))
  · split
    · exact h
    · rename_i st' htarget
      have hasks : closeTarget c.s.state ≠ none := by
        rw [htarget]
        simp
      split
      · rename_i hnil
        -- the FIN is sent by itself
        have hcontent1 : Content iss first accepted P (c.setState st') :=
          hcontent.same rfl
        have hloose : BufId.connect c.s.self ∉
            (c.setState st').s.outgoing ++ (c.setState st').s.sent := by
          intro hno
          rcases mem_append.mp hno with hno | hno
          · have hnil' : (c.setState st').s.outgoing = [] := hnil
            rw [hnil'] at hno
            cases hno
          · exact hfree hasks hnil hno
        obtain ⟨hcontent2, hcases⟩ := hcontent1.enqueueConnect cfg hloose
        rcases hcases with ⟨-, -, href | hne⟩ | ⟨x, hx, hlen, hs, hwait⟩
        · have hst' : st' = .sendFin1 ∨ st' = .sendFin2 ∨ st' = .sendFin3 := by
            cases hst : c.s.state <;> rw [hst] at htarget <;>
              simp only [closeTarget, some.injEq, reduceCtorEq] at htarget <;>
              subst htarget <;> simp
          rcases hst' with rfl | rfl | rfl <;> simp [TcpSocket.refuses, Ctx.setState] at href
        · exact absurd hnil hne
        · refine ⟨syn, n, P, hcontent2, ?_⟩
          rw [hwait, hs]
          have hempty : c.waiting = [] := by
            unfold Ctx.waiting
            rw [hnil]
            rfl
          have hwait1 : (c.setState st').waiting = c.waiting := rfl
          rw [hempty] at hstage
          rw [hwait1, hempty, nil_append]
          cases hop : opening c.s.state with
          | false =>
            exact (hstage.pushAck hx hlen hop).toFin htarget hset ⟨x, mem_singleton_self x, hx⟩
          | true =>
            -- the FIN follows the SYN that was sent
            have hrecv : c.s.state = .synRecved := by
              cases hst : c.s.state <;> simp_all [opening, closeTarget]
            have hopen : Stage iss accepted syn n .established c.s.seqNum c.s.finSeq [] :=
              hstage.goOn (by simp) (by simp [hrecv]) (by simp) (by simp [opening])
                (fun _ _ => hset hrecv) (by simp [hrecv, sentFin]) (by simp [toSendFin])
            obtain rfl : st' = .sendFin3 := by
              rw [hrecv] at htarget
              exact (some.inj htarget).symm
            have hfin3 : Stage iss accepted syn n .sendFin3 c.s.seqNum c.s.finSeq [x] :=
              (hopen.pushAck hx hlen rfl).goOn (by simp) (by simp) (by simp) (by simp [opening])
                (by simp [opening]) rfl fun _ => .inr ⟨x, mem_singleton_self x, hx⟩
            exact hfin3
      · rename_i hne
        refine h.setState fun syn1 n1 hs => hs.toFin htarget ?_ ?_
        · intro hst
          exact (hs.syn_of_seqNum (by simp [hst, opening]) (hsyn hst)).1
        · -- the packet in front may have its header, those behind it have none
          obtain ⟨b, rest, hout⟩ := exists_cons_of_ne_nil hne
          obtain ⟨hwait, hrest⟩ := waiting_cons hout
          cases rest with
          | nil =>
            refine ⟨c.m.buf b, ?_, hlast hasks b hout⟩
            rw [hwait]
            exact mem_cons_self
          | cons b2 rest =>
            have hin : c.m.buf b2 ∈ c.waiting.tail := by
              rw [hrest]
              exact mem_cons_self
            exact ⟨c.m.buf b2, mem_of_mem_tail hin, hcontent.tail _ hin⟩

theorem Layout.recv (h : Layout iss first accepted c) (cfg : Config) (resolves : Bool)
    (userBufLen : Nat) : Layout iss first accepted (Mtcp.recv cfg resolves userBufLen c).2 := by
  have hrcv : ∀ rcv, Layout iss first accepted { c with s := { c.s with rcv := rcv } } :=
    fun rcv => h.goOn rfl rfl fun _ _ hs => hs
  unfold Mtcp.recv
  split
  · exact h
  · split
    · exact h
    · split
      · exact (hrcv _).sendPureAck cfg resolves
      · exact hrcv _

end

/-! ## 7. A segment comes in -/

section

variable {iss : UInt32} {first : BufId → Packet} {accepted : List UInt8} {c : Ctx}

theorem not_mem_of_holds {b : BufId} (h : s.holds b = 0) : b ∉ s.outgoing ++ s.sent := by
  rw [← count_eq_zero, count_append]
  exact h

section

variable (h : Layout iss first accepted c)
include h

/-- An empty packet is queued. -/
theorem Layout.enqueueConnect (cfg : Config) {owner : Nat}
    (hb : BufId.connect owner ∉ c.s.outgoing ++ c.s.sent) (hopen : opening c.s.state = false) :
    Layout iss first accepted (Mtcp.enqueueConnect cfg owner c) := by
  obtain ⟨syn, n, P, hcontent, hstage⟩ := h
  obtain ⟨hcontent', hcases⟩ := hcontent.enqueueConnect cfg hb
  refine ⟨syn, n, P, hcontent', ?_⟩
  rcases hcases with ⟨hs, hwait, -⟩ | ⟨x, hx, hlen, hs, hwait⟩
  · rw [hs, hwait]
    exact hstage
  · rw [hs, hwait]
    exact hstage.pushAck hx hlen hopen

theorem Layout.removed (target : UInt32) :
    Layout iss first accepted (removeSentPackets target c) := by
  obtain ⟨syn, n, P, hcontent, hstage⟩ := h
  obtain ⟨hcontent', hwait⟩ := hcontent.removed target
  obtain ⟨sent, old, hs⟩ := removeSentPackets_s target c
  refine ⟨syn, n, P, hcontent', ?_⟩
  rw [hwait, hs]
  exact hstage

theorem Layout.takeAck (g : Segment) :
    Layout iss first accepted (Mtcp.takeAck g c) := by
  set c1 := if c.s.sent = [] then c else removeSentPackets g.acknum c with hc1
  have h1 : Layout iss first accepted c1 := by
    rw [hc1]
    split
    · exact h
    · exact h.removed g.acknum
  have htake : Mtcp.takeAck g c =
      if c1.s.sent = [] then { c1 with s := { c1.s with remoteWindow := g.window } } else c1 := rfl
  rw [htake]
  split
  · exact h1.goOn rfl rfl fun _ _ hs => hs
  · exact h1

theorem Layout.processPacketData (cfg : Config) (data : List UInt8) :
    Layout iss first accepted (Mtcp.processPacketData cfg data c).2 := by
  unfold Mtcp.processPacketData
  split
  · exact h.goOn rfl rfl fun _ _ hs => hs
  · split
    · split
      · exact h.goOn rfl rfl fun _ _ hs => hs
      · exact h
    · split
      · exact h.goOn rfl rfl fun _ _ hs => hs
      · exact h

/-- A FIN of the peer is taken. -/
theorem Layout.finTaken
    (hstage : ∀ syn n, Stage iss accepted syn n c.s.state c.s.seqNum c.s.finSeq c.waiting →
      Stage iss accepted syn n st' c.s.seqNum c.s.finSeq c.waiting) :
    Layout iss first accepted (c.finTaken st') :=
  h.goOn rfl rfl hstage

end

variable {st : State} {cfg : Config} {g : Segment}

/-- A state in which no FIN is noted. -/
theorem Stage.finSeq_none {syn : Bool} {n : Nat} {seqNum : UInt32}
    {xs : List TcpBuffer} (h : Stage iss accepted syn n st seqNum finSeq xs)
    (hopen : opening st = true) : finSeq = none := by
  by_contra hno
  have hst : st ≠ .closed := by
    intro hno
    simp [hno, opening] at hopen
  have hsent := (h.fin hst).mp (Option.isSome_iff_ne_none.mpr hno)
  cases st <;> simp_all [opening, sentFin]

/-- In SYN_RECVED, where the acknowledgement is not the one that is waited for, what was queued is
lost: the SYN is on the wire or waits for an address, and no data is behind it. -/
theorem Layout.clearQueues (h : Layout iss first accepted c) (hst : c.s.state = .synRecved)
    (hseq : c.s.seqNum ≠ iss) : Layout iss first accepted (Mtcp.clearQueues c) := by
  obtain ⟨syn, n, P, hcontent, hstage⟩ := h
  have hopen : opening c.s.state = true := by rw [hst]; rfl
  have hclear := hcontent.clear c.s.closeReason (.inl (hstage.finSeq_none hopen))
  obtain ⟨hsyn, hn, hfin, hnum⟩ := hstage.syn_of_seqNum hopen hseq
  obtain ⟨hnil, -, -⟩ := hstage.start hopen
  have hempty : Stage iss accepted syn n c.s.state c.s.seqNum c.s.finSeq [] := by
    refine ⟨nofun, hstage.seq, fun _ => ?_, fun _ => ?_, hstage.syn,
      hstage.fin, hstage.all, ?_, hstage.listen⟩
    · simp [hn, hnil, unnumbered]
    · exact ⟨hnil, fun hno => absurd (hsyn.symm.trans hno) (by simp),
        nofun⟩
    · simp [hst, toSendFin]
  exact ⟨syn, n, P, hclear.same rfl, hempty⟩

/-- **The switch of `process2`.** -/
theorem Layout.changeState (h : Layout iss first accepted c) (g : Segment) (current : Bool)
    (hsyn : c.s.state = .synRecved → c.s.seqNum ≠ iss) :
    Layout iss first accepted (Mtcp.changeState g current c).2 := by
  unfold Mtcp.changeState
  split
  · rename_i hst
    split
    · refine h.finTaken fun _ _ hs => ?_
      rw [hst] at hs
      exact hs.past (by decide)
    · exact h
  · rename_i hst
    split
    · refine h.finTaken fun _ _ hs => ?_
      rw [hst] at hs
      exact hs.past (by decide)
    · exact h
  · rename_i hst
    split
    · refine h.goOn ?_ rfl fun syn n hs => ?_
      · split <;> rfl
      · obtain ⟨hset, -⟩ := hs.syn_of_seqNum (by rw [hst]; rfl) (hsyn hst)
        rw [hst] at hs
        exact hs.goOn (by simp) (by simp) (by simp) (by simp [opening]) (fun _ _ => hset) rfl
          (by simp [toSendFin])
    · exact h.clearQueues hst (hsyn hst)
  · rename_i hst
    refine h.setState fun _ _ hs => hs.toClosed (by simp [hst]) (.inl (by simp [hst, sentFin]))
  · rename_i hst
    split
    · refine h.finTaken fun _ _ hs => ?_
      rw [hst] at hs
      split <;> exact hs.past (by decide)
    · split
      · refine h.setState fun _ _ hs => ?_
        rw [hst] at hs
        exact hs.past (by decide)
      · exact h
  · rename_i hst
    split
    · refine h.finTaken fun _ _ hs => ?_
      rw [hst] at hs
      exact hs.past (by decide)
    · exact h
  · rename_i hst
    split
    · refine h.setState fun _ _ hs => ?_
      rw [hst] at hs
      exact hs.past (by decide)
    · exact h
  · exact h

theorem Layout.processAccepted (h : Layout iss first accepted c) (cfg : Config) (g : Segment)
    (hsyn : c.s.state = .synRecved → c.s.seqNum ≠ iss) :
    Layout iss first accepted (Mtcp.processAccepted cfg g c).2 := by
  have hack := h.takeAck g
  obtain ⟨sent, old, win, hs⟩ := takeAck_s g c
  have hsyn1 : (Mtcp.takeAck g c).s.state = .synRecved → (Mtcp.takeAck g c).s.seqNum ≠ iss := by
    rw [hs]
    exact hsyn
  unfold Mtcp.processAccepted
  dsimp only
  split
  · exact hack.changeState g _ hsyn1
  · have hdata := hack.processPacketData cfg g.data
    split
    · exact hdata
    · refine hdata.changeState g _ ?_
      rcases processPacketData_s cfg g.data (Mtcp.takeAck g c) with ⟨-, hsame⟩ | ⟨-, inc, rcv, hs1⟩
      · rw [hsame]
        exact hsyn1
      · rw [hs1]
        exact hsyn1

/-- A reset that is believed closes the socket. -/
theorem Layout.processOther (h : Layout iss first accepted c) (cfg : Config) (resolves : Bool)
    (g : Segment) (hsyn : c.s.state = .synRecved → c.s.accepts cfg g = true → c.s.seqNum ≠ iss) :
    Layout iss first accepted (Mtcp.processOther cfg resolves g c).2 := by
  unfold Mtcp.processOther
  split
  · split
    · exact h.destroy (by decide)
    · exact h
  · rename_i hrst
    split
    · rename_i hok
      cases hroom : c.s.hasRoom cfg g.data with
      | false =>
        rw [processAccepted_noRoom hroom]
        exact h.takeAck g
      | true =>
        refine h.processAccepted cfg g fun hst => hsyn hst ?_
        obtain ⟨hack, hseq⟩ := Bool.and_eq_true_iff.mp hok
        simp [TcpSocket.accepts, hrst, hack, hseq, hroom]
    · exact h.sendPureAck cfg resolves

/-- A SYN that crosses ours: the SYN goes back to its number, and a new packet carries it. -/
theorem Layout.crossing (h : Layout iss first accepted c) (cfg : Config) (g : Segment)
    (hst : c.s.state = .synSent) (hseq : c.s.seqNum ≠ iss) :
    Layout iss first accepted (Mtcp.enqueueConnect cfg c.s.self (Mtcp.crossing cfg g c)) := by
  obtain ⟨syn, n, P, hcontent, hstage⟩ := h
  have hopen : opening c.s.state = true := by rw [hst]; rfl
  have hnone := hstage.finSeq_none hopen
  obtain ⟨-, -, -, hnum⟩ := hstage.syn_of_seqNum hopen hseq
  obtain ⟨hnil, -, -⟩ := hstage.start hopen
  have hclear := hcontent.clear c.s.closeReason (.inl hnone)
  have hcross : Content iss first accepted P (Mtcp.crossing cfg g c) := hclear.same rfl
  have hempty : BufId.connect c.s.self ∉
      (Mtcp.crossing cfg g c).s.outgoing ++ (Mtcp.crossing cfg g c).s.sent := by
    simp [Mtcp.crossing, Mtcp.clearQueues]
  obtain ⟨hcontent', hcases⟩ := hcross.enqueueConnect cfg hempty
  rcases hcases with ⟨-, -, href | hne⟩ | ⟨x, hx, hlen, hs, hwait⟩
  · simp [Mtcp.crossing, Mtcp.clearQueues, TcpSocket.refuses] at href
  · exact absurd rfl hne
  · refine ⟨false, 0, P, hcontent', ?_⟩
    rw [hwait, hs]
    have hnew : Stage iss accepted false 0 .synRecved (c.s.seqNum - 1) c.s.finSeq [x] := by
      refine ⟨by simp, fun _ => ?_, fun _ => ⟨Nat.zero_le _, ?_⟩, fun _ => ?_, by simp [opening],
        ?_, ?_, by simp [toSendFin], by simp⟩
      · simp [hnum, hnone]
      · simp [hnil, unnumbered, bytes_eq_nil.mpr hlen]
      · exact ⟨hnil, fun _ => ⟨x, rfl, hx⟩, fun hno => absurd hno (by simp)⟩
      · simp [hnone, sentFin]
      · simp [hnone]
    exact hnew

theorem Layout.processSynSent (h : Layout iss first accepted c) (cfg : Config) (g : Segment)
    (hst : c.s.state = .synSent) (hreply : c.s.replies cfg g = true → c.s.seqNum ≠ iss)
    (hcross : (!g.codeBits.rst && g.codeBits.syn && !g.codeBits.ack) = false) :
    Layout iss first accepted (Mtcp.processSynSent cfg g c).2 := by
  unfold Mtcp.processSynSent
  split
  · split
    · exact h.destroy (by decide)
    · exact h
  · rename_i hrst
    split
    · rename_i hset
      split
      · split
        · rename_i hcur
          -- the SYN was acknowledged, so it has its number
          have hne : c.s.seqNum ≠ iss := hreply (by simp [TcpSocket.replies, hst, hrst, hset, hcur])
          have hrem := h.removed g.acknum
          obtain ⟨sent, old, hs⟩ := removeSentPackets_s g.acknum c
          refine hrem.goOn rfl rfl fun syn n hstage => ?_
          have hst1 : (removeSentPackets g.acknum c).s.state = .synSent := by rw [hs]; exact hst
          have hne1 : (removeSentPackets g.acknum c).s.seqNum ≠ iss := by rw [hs]; exact hne
          obtain ⟨hsyn, -⟩ := hstage.syn_of_seqNum (by rw [hst1]; rfl) hne1
          rw [hst1] at hstage
          exact hstage.goOn (by simp) (by simp) (by simp) (by simp [opening]) (fun _ _ => hsyn)
            rfl (by simp [toSendFin])
        · exact h
      · rename_i hack
        simp [hrst, hset, hack] at hcross
    · exact h

/-- When a segment leaves the order of what is sent as it should be: a packet that answers it uses
a buffer that is on no ring, the SYN was sent before its acknowledgement or a crossing SYN is
believed, and in SYN_RECVED data comes with the acknowledgement that is waited for. -/
structure Answerable (cfg : Config) (iss : UInt32) (g : Segment) (c : Ctx) : Prop where
  free : c.s.replies cfg g = true → c.Free g (.connect c.s.self)
  synSent : c.s.replies cfg g = true → c.s.state = .synSent → c.s.seqNum ≠ iss
  current : c.s.replies cfg g = true → c.s.state = .synRecved → c.s.ackIsCurrent g = true
  synRecved : c.s.accepts cfg g = true → c.s.state = .synRecved → c.s.seqNum ≠ iss

theorem opening_nextState {fin current : Bool} (h : st ≠ .synSent)
    (hcur : st = .synRecved → current = true) : opening (nextState fin current st) = false := by
  cases st with
  | synSent => exact absurd rfl h
  | synRecved => simp [nextState, hcur rfl, opening]
  | _ => cases fin <;> cases current <;> rfl

/-- **A segment.** -/
theorem Layout.process2 (h : Layout iss first accepted c) (resolves : Bool)
    (hok : Answerable cfg iss g c) : Layout iss first accepted (Mtcp.process2 cfg resolves g c) := by
  by_cases hst : c.s.state = .synSent
  · by_cases hcross : (!g.codeBits.rst && g.codeBits.syn && !g.codeBits.ack) = true
    · have hreply : c.s.replies cfg g = true := by
        simp only [and_eq_true, not_eq_true'] at hcross
        simp [TcpSocket.replies, hst, hcross]
      rw [process2_eq, if_pos hreply, beforeReply, if_pos hst, if_pos hcross]
      exact h.crossing cfg g hst (hok.synSent hreply hst)
    · have hbefore : beforeReply cfg resolves g c = (Mtcp.processSynSent cfg g c).2 := by
        rw [beforeReply, if_pos hst, if_neg hcross]
      have h1 := h.processSynSent cfg g hst (fun hr => hok.synSent hr hst) (by simpa using hcross)
      rw [process2_eq]
      split
      · rename_i hreply
        have hloose : (beforeReply cfg resolves g c).s.holds (.connect c.s.self) = 0 :=
          beforeReply_holds hreply (hok.free hreply)
        rw [hbefore] at hloose ⊢
        refine h1.enqueueConnect cfg (not_mem_of_holds hloose) ?_
        simp only [TcpSocket.replies, hst, if_true, and_eq_true, not_eq_true'] at hreply
        obtain ⟨⟨hrst, hset⟩, hack⟩ := hreply
        cases hbit : g.codeBits.ack with
        | false => simp [hrst, hset, hbit] at hcross
        | true =>
          have hcur : c.s.ackIsCurrent g = true := by simpa [hbit] using hack
          simp [Mtcp.processSynSent, hrst, hset, hbit, hcur, opening]
      · rw [hbefore]
        exact h1
  · have hbefore : beforeReply cfg resolves g c = (Mtcp.processOther cfg resolves g c).2 := by
      rw [beforeReply, if_neg hst]
    have h1 := h.processOther cfg resolves g fun hrecv hacc => hok.synRecved hacc hrecv
    rw [process2_eq]
    split
    · rename_i hreply
      have hloose : (beforeReply cfg resolves g c).s.holds (.connect c.s.self) = 0 :=
        beforeReply_holds hreply (hok.free hreply)
      have hacc : c.s.accepts cfg g = true := by
        unfold TcpSocket.replies at hreply
        rw [if_neg hst] at hreply
        exact (Bool.and_eq_true_iff.mp hreply).1
      have hstate : (beforeReply cfg resolves g c).s.state =
          nextState g.codeBits.fin (c.s.ackIsCurrent g) c.s.state := by
        have hto := (process2_accepted resolves hst hacc).state
        rw [process2_eq, if_pos hreply, enqueueConnect_state] at hto
        exact hto
      rw [hbefore] at hloose hstate ⊢
      refine h1.enqueueConnect cfg (not_mem_of_holds hloose) ?_
      rw [hstate]
      exact opening_nextState hst fun hrecv => hok.current hreply hrecv
    · rw [hbefore]
      exact h1

theorem Layout.receive (h : Layout iss first accepted c) (resolves : Bool)
    (hok : Answerable cfg iss g c) : Layout iss first accepted (Mtcp.receive cfg resolves g c) := by
  unfold Mtcp.receive
  split
  · exact h
  · exact h.process2 resolves hok

end

/-! ## 8. The other sockets -/

/-- What the others do leaves the buffers and the packets of the socket alone. -/
structure Spares (c : Ctx) (m : Shared) : Prop where
  buf : ∀ b ∈ c.s.outgoing ++ c.s.sent, m.buf b = c.m.buf b
  wire : ∀ p : Packet, p.socket = c.s.self → (p ∈ m.wire ↔ p ∈ c.m.wire)
  free : m.xmitBuffers.Nodup
  apart : ∀ n, .pool n ∈ c.s.outgoing ++ c.s.sent → n ∉ m.xmitBuffers

theorem Layout.others (h : Layout iss first accepted c) {m : Shared}
    (hok : Spares c m) : Layout iss first accepted { c with m := m } := by
  obtain ⟨syn, n, P, hcontent, hstage⟩ := h
  have hwait : ({ c with m := m } : Ctx).waiting = c.waiting :=
    map_congr_left fun b hb => hok.buf b (mem_append_left _ hb)
  refine ⟨syn, n, P, ?_, ?_⟩
  · constructor
    · exact hcontent.nodup
    · exact hok.free
    · exact hok.apart
    · exact hcontent.stack
    · exact hcontent.force
    · exact hcontent.probe
    · rw [hwait]
      exact hcontent.tail
    · intro p hp hself
      exact hcontent.wire p ((hok.wire p hself).mp hp) hself
    · intro b hb
      obtain ⟨heq, hin⟩ := hcontent.sent b hb
      rw [hok.buf b (mem_append_right _ hb)]
      exact ⟨heq, (hok.wire _ (heq ▸ rfl)).mpr hin⟩
    · rw [hwait]
      exact hcontent.pending
    · exact hcontent.fin
    · rw [hwait]
      intro hne hreason
      obtain ⟨hfin, hself, hplace⟩ := hcontent.finSent hne hreason
      exact ⟨hfin, hself, hplace.imp_left (hok.wire P hself).mpr⟩
  · rw [hwait]
    exact hstage

/-! ## 9. A FIN is due -/

/-- A FIN is to be sent or has its number, unless the connection was given up. -/
def Ctx.FinDue (c : Ctx) : Prop :=
  c.s.closeReason = 0 → toSendFin c.s.state = true ∨ c.s.finSeq ≠ none

section

variable {c c' : Ctx}

theorem Ctx.FinDue.step (h : c.FinDue) (hreason : c'.s.closeReason = c.s.closeReason)
    (hstate : toSendFin c.s.state = true → toSendFin c'.s.state = true ∨ c'.s.finSeq ≠ none)
    (hfin : c.s.finSeq ≠ none → c'.s.finSeq ≠ none) : c'.FinDue := by
  intro hzero
  rcases h (hreason.symm.trans hzero) with hdue | hdue
  · exact hstate hdue
  · exact .inr (hfin hdue)

/-- The socket is as it was, in what matters here. -/
theorem Ctx.FinDue.same (h : c.FinDue) (hreason : c'.s.closeReason = c.s.closeReason)
    (hstate : c'.s.state = c.s.state) (hfin : c'.s.finSeq = c.s.finSeq) : c'.FinDue := by
  refine h.step hreason (fun hdue => .inl ?_) fun hdue => ?_
  · rw [hstate]
    exact hdue
  · rw [hfin]
    exact hdue

theorem Ctx.FinDue.sendPacket (h : c.FinDue) (cfg : Config) (resolves : Bool) (b : BufId) :
    (Mtcp.sendPacket cfg resolves b c).2.FinDue := by
  rcases sendPacket_s cfg resolves b c with ⟨-, mac, hs⟩ | ⟨-, hs⟩
  · exact h.same (by rw [hs]) (by rw [hs]) (by rw [hs])
  · by_cases hrole : c.s.role (c.m.buf b).dataLen = .finAck
    · intro _
      refine .inr ?_
      rw [hs]
      simp [TcpSocket.advanced, hrole]
    · obtain ⟨hstate, -, hfin⟩ := advanced_notFin (s := c.s) hrole (c.m.buf b).dataLen
      exact h.same (by rw [hs]; rfl) (by rw [hs]; exact hstate) (by rw [hs]; exact hfin)

theorem Ctx.FinDue.driveOutgoing (h : c.FinDue) (cfg : Config) (env : Env) (fuel : Nat) :
    (Mtcp.driveOutgoing cfg env fuel c).FinDue := by
  induction fuel generalizing c with
  | zero => exact h
  | succ fuel ih =>
    unfold Mtcp.driveOutgoing
    split
    · exact h
    · rename_i b rest _
      split
      · split
        · split
          · obtain ⟨force, hs⟩ := probe_s cfg env.resolves c
            exact h.same (by rw [hs]) (by rw [hs]) (by rw [hs])
          · exact h
        · have hsend := h.sendPacket cfg env.resolves b
          dsimp only
          split
          · exact hsend
          · obtain ⟨sent, hs⟩ := afterSend_s (Mtcp.sendPacket cfg env.resolves b c).2 b
            exact ih (hsend.same (by rw [hs]) (by rw [hs]) (by rw [hs]))
      · exact h

theorem finDue_givenUp {reason : Nat} (hreason : reason ≠ 0) :
    ({ c with s := { c.s with closeReason := reason } } : Ctx).FinDue :=
  fun hno => absurd hno hreason

theorem Ctx.FinDue.driveSocket (h : c.FinDue) (cfg : Config) (env : Env) :
    (Mtcp.driveSocket cfg env c).2.FinDue := by
  unfold Mtcp.driveSocket
  split
  · exact h.driveOutgoing cfg env _
  · split
    · exact finDue_givenUp (by decide)
    · split
      · exact h
      · exact h.driveOutgoing cfg env _

variable {st : State}

theorem toSendFin_nextState {fin current : Bool} (h : toSendFin st = true) :
    toSendFin (nextState fin current st) = true := by
  cases st <;> simp_all [toSendFin, nextState]
  cases fin <;> rfl

theorem Ctx.FinDue.beforeReply (h : c.FinDue) (cfg : Config) (resolves : Bool) (g : Segment) :
    (Mtcp.beforeReply cfg resolves g c).FinDue := by
  unfold Mtcp.beforeReply
  split
  · rename_i hst
    have hno : toSendFin c.s.state = false := by rw [hst]; rfl
    split
    · exact h.step rfl (fun hyes => nomatch hno.symm.trans hyes) id
    · unfold Mtcp.processSynSent
      split
      · split
        · exact finDue_givenUp (by decide)
        · exact h
      · split
        · split
          · split
            · obtain ⟨sent, old, hs⟩ := removeSentPackets_s g.acknum c
              refine h.step ?_ (fun hyes => nomatch hno.symm.trans hyes) ?_
              · simp [hs, TcpSocket.setMaxEnqueueSize]
              · simp [hs, TcpSocket.setMaxEnqueueSize]
            · exact h
          · refine h.step ?_ (fun hyes => nomatch hno.symm.trans hyes) ?_
            · obtain ⟨out, hs, -⟩ := enqueueConnect_s cfg c.s.self (Mtcp.crossing cfg g c)
              have hreason : (Mtcp.enqueueConnect cfg c.s.self
                  (Mtcp.crossing cfg g c)).s.closeReason = c.s.closeReason := by
                rw [hs]
                rfl
              exact hreason
            · rw [enqueueConnect_finSeq]
              exact id
        · exact h
  · unfold Mtcp.processOther
    split
    · split
      · exact finDue_givenUp (by decide)
      · exact h
    · split
      · cases hroom : c.s.hasRoom cfg g.data with
        | false =>
          obtain ⟨sent, old, win, hs⟩ := takeAck_s g c
          rw [processAccepted_noRoom hroom]
          exact h.same (by rw [hs]) (by rw [hs]) (by rw [hs])
        | true =>
          obtain ⟨c1, ⟨sent, old, win, inc, hc1⟩, hproc⟩ := processAccepted_spec hroom
          have hs := (changeState_spec g (c.s.ackIsCurrent g) c1).2
          rw [hproc]
          refine h.step ?_ (fun hyes => .inl ?_) ?_
          · simp only [hs, hc1]
          · simp only [hs, hc1]
            exact toSendFin_nextState hyes
          · simp only [hs, hc1]
            exact id
      · obtain ⟨force, hs⟩ := sendPureAck_s cfg resolves c
        exact h.same (by rw [hs]) (by rw [hs]) (by rw [hs])

theorem Ctx.FinDue.enqueueConnect (h : c.FinDue) (cfg : Config) (owner : Nat) :
    (Mtcp.enqueueConnect cfg owner c).FinDue := by
  obtain ⟨out, hs, -⟩ := enqueueConnect_s cfg owner c
  exact h.same (by rw [hs]) (by rw [hs]) (by rw [hs])

theorem Ctx.FinDue.receive (h : c.FinDue) (cfg : Config) (resolves : Bool) (g : Segment) :
    (Mtcp.receive cfg resolves g c).FinDue := by
  unfold Mtcp.receive
  split
  · exact h
  · rw [process2_eq]
    split
    · exact (h.beforeReply cfg resolves g).enqueueConnect cfg _
    · exact h.beforeReply cfg resolves g

theorem toSendFin_closeTarget (h : closeTarget st = some st') :
    toSendFin st' = true := by
  cases st <;> simp_all [closeTarget] <;> subst h <;> rfl

/-- A close that asks for a FIN. -/
theorem closeLocal_finDue (cfg : Config) (h : closeTarget c.s.state ≠ none) :
    (closeLocal cfg c).FinDue := by
  unfold closeLocal
  split
  iterate 4
    rename_i hst
    simp [hst, closeTarget] at h
  split
  · rename_i hno
    exact absurd hno h
  · rename_i st' htarget
    have hdue : (c.setState st').FinDue := fun _ => .inl (toSendFin_closeTarget htarget)
    split
    · exact hdue.enqueueConnect cfg _
    · exact hdue

theorem Ctx.FinDue.close (h : c.FinDue) (cfg : Config) : (closeLocal cfg c).FinDue := by
  by_cases hasks : closeTarget c.s.state = none
  · unfold closeLocal
    split
    iterate 4
      rename_i hst
      exact h.step rfl (fun hyes => absurd hyes (by simp [hst, toSendFin])) id
    rw [hasks]
    exact h
  · exact closeLocal_finDue cfg hasks

end

/-! ## 10. Whole connections -/

/-- A socket from the opening of its connection on, the bytes that were accepted to be sent,
whether a close asked for a FIN, and the packet each buffer that is to be sent again was sent as
first. -/
structure Flow where
  c : Ctx
  accepted : List UInt8
  closeReq : Bool
  first : BufId → Packet

def asksClose (c : Ctx) : Move → Bool
  | .close => (closeTarget c.s.state).isSome
  | _ => false

/-- Only `drivePackets2` takes buffers from `outgoing` to send them, one packet each. -/
def Flow.noted (f : Flow) (c' : Ctx) : Move → BufId → Packet
  | .drive _ =>
    note f.c.s.sent f.first ((f.c.s.outgoing.take (f.c.s.outgoing.length - c'.s.outgoing.length)).zip
      (c'.m.wire.drop f.c.m.wire.length))
  | _ => f.first

def Flow.step (cfg : Config) (f : Flow) (mv : Move) : Answer × Flow :=
  ((move cfg f.c mv).1,
    ⟨(move cfg f.c mv).2, f.accepted ++ (move cfg f.c mv).1.taken, f.closeReq || asksClose f.c mv,
      f.noted (move cfg f.c mv).2 mv⟩)

/-- A connection begins, at a number `iss`: by `connect`, or by a SYN at a socket that listens.
The wire is looked at from here on. -/
inductive Starts (cfg : Config) (iss : UInt32) : Flow → Prop where
  | connect {first : BufId → Packet} (i srcPort host dstPort size : Nat) (m : Shared) (hfree : m.xmitBuffers.Nodup)
      (hwire : ∀ p ∈ m.wire, p.socket ≠ i) :
      Starts cfg iss ⟨opened cfg i iss srcPort host dstPort size m, [], false, first⟩
  | syn {first : BufId → Packet} (w : World) (i j : Nat) (rest : List Nat) (memory : Bool) (g : Segment)
      (havail : w.m.availSocketTable = j :: rest)
      (hrecv : (setRecvBuffer (w.sock i).rcv.rcvBufSize memory (freshSocket j iss).rcv).1 = true)
      (hfree : w.m.xmitBuffers.Nodup) (hwire : ∀ p ∈ w.m.wire, p.socket ≠ j) :
      Starts cfg iss ⟨(processSyn cfg iss memory g i w).ctx j, [], false, first⟩

/-- **What is on the wire**: the SYN at `iss`, each byte at its place behind it and the one FIN
behind them; what is to be sent again is the packet it was sent as first; and where a close has
asked for a FIN, the connection was not given up and nothing waits, it was sent. -/
structure Laid (iss : UInt32) (f : Flow) : Prop where
  syn : ∀ p ∈ f.c.m.wire, p.socket = f.c.s.self → p.headers.codeBits.syn = true →
    p.headers.seqnum = iss ∧ p.payload = []
  data : ∀ p ∈ f.c.m.wire, p.socket = f.c.s.self → p.payload ≠ [] →
    ∃ k, p.headers.seqnum = iss + 1 + UInt32.ofNat k ∧ k + p.payload.length ≤ f.accepted.length ∧
      p.payload = (f.accepted.drop k).take p.payload.length
  fin : ∀ p ∈ f.c.m.wire, p.socket = f.c.s.self → p.headers.codeBits.fin = true →
    p.headers.seqnum + UInt32.ofNat p.payload.length =
      iss + 1 + UInt32.ofNat f.accepted.length
  finOnce : ∀ p ∈ f.c.m.wire, ∀ q ∈ f.c.m.wire, p.socket = f.c.s.self → q.socket = f.c.s.self →
    p.headers.codeBits.fin = true → q.headers.codeBits.fin = true → p = q
  again : ∀ b ∈ f.c.s.sent,
    (f.c.m.buf b).packet f.c.s.self = f.first b ∧ f.first b ∈ f.c.m.wire
  closed : f.closeReq = true → f.c.s.closeReason = 0 → f.c.s.outgoing = [] →
    ∃ p ∈ f.c.m.wire, p.socket = f.c.s.self ∧ p.headers.codeBits.fin = true

/-- **The condition.**  A close finds a packet whose header is not filled in, or its own packet
free, and in SYN_RECVED a SYN that has its number; the user queues no packet of his own before the
connection is open, and no data after the FIN has its number; segments can be answered; and other
sockets leave the buffers alone. -/
def InTurn (cfg : Config) (iss : UInt32) (f : Flow) : Move → Prop
  | .segment _ g => Answerable cfg iss g f.c
  | .enqueue data => data.length ≤ f.c.s.maxEnqueueSize →
      opening f.c.s.state = false ∧ (sentFin f.c.s.state = true → data = [])
  | .close =>
      (closeTarget f.c.s.state ≠ none → f.c.s.outgoing = [] →
        .connect f.c.s.self ∉ f.c.s.sent) ∧
      (closeTarget f.c.s.state ≠ none → ∀ b, f.c.s.outgoing = [b] →
        (f.c.m.buf b).pendingArp = false) ∧
      (f.c.s.state = .synRecved → f.c.s.seqNum ≠ iss)
  | .others m => Spares f.c m
  | _ => True

/-- The invariant. -/
structure Ordered (iss : UInt32) (f : Flow) : Prop where
  layout : Layout iss f.first f.accepted f.c
  due : f.closeReq = true → f.c.FinDue

section

variable {cfg : Config} {iss : UInt32} {f : Flow}

theorem Ordered.laid (h : Ordered iss f) : Laid iss f := by
  obtain ⟨syn, n, P, hcontent, hstage⟩ := h.layout
  have hfin : ∀ p ∈ f.c.m.wire, p.socket = f.c.s.self → p.headers.codeBits.fin = true →
      f.c.s.finSeq = some (p.headers.seqnum + UInt32.ofNat p.payload.length) ∧ p = P :=
    fun p hp hself hbit => (hcontent.wire p hp hself).fin hbit
  constructor
  · exact fun p hp hself => (hcontent.wire p hp hself).syn
  · exact fun p hp hself => (hcontent.wire p hp hself).data
  · exact fun p hp hself hbit => hcontent.fin _ (hfin p hp hself hbit).1
  · intro p hp q hq hself hself' hbit hbit'
    exact (hfin p hp hself hbit).2.trans (hfin q hq hself' hbit').2.symm
  · exact hcontent.sent
  · intro hreq hreason hnil
    have hempty : f.c.waiting = [] := by
      unfold Ctx.waiting
      rw [hnil]
      rfl
    rcases h.due hreq hreason with hdue | hdue
    · -- a packet would wait
      obtain ⟨x, hx, -⟩ := hstage.toSend hdue
      rw [hempty] at hx
      cases hx
    · obtain ⟨hbit, hself, hplace | ⟨x, hx, -⟩⟩ := hcontent.finSent hdue hreason
      · exact ⟨P, hplace, hself, hbit⟩
      · rw [hempty] at hx
        cases hx

/-- **One move keeps the order.** -/
theorem ordered_step (h : Ordered iss f) {mv : Move} (hok : InTurn cfg iss f mv) :
    Ordered iss (f.step cfg mv).2 := by
  have hsame : f.accepted ++ Answer.none.taken = f.accepted := append_nil _
  cases mv with
  | segment resolves g =>
    refine ⟨?_, fun hreq => ?_⟩
    · simp only [Flow.step, move, hsame]
      exact h.layout.receive resolves hok
    · exact (h.due (by simpa [Flow.step, asksClose] using hreq)).receive cfg resolves g
  | drive env =>
    refine ⟨?_, fun hreq => ?_⟩
    · obtain ⟨gone, more, hout, hwire, hlayout⟩ := h.layout.driveSocket cfg env
      simp only [Flow.step, move, hsame, Flow.noted]
      rw [hwire, drop_left, hout, length_append, Nat.add_sub_cancel, take_left]
      exact hlayout
    · exact (h.due (by simpa [Flow.step, asksClose] using hreq)).driveSocket cfg env
  | recv userBufLen resolves =>
    refine ⟨?_, fun hreq => ?_⟩
    · simp only [Flow.step, move, append_nil]
      exact h.layout.recv cfg resolves userBufLen
    · obtain ⟨rcv, force, hs⟩ := recv_s cfg resolves userBufLen f.c
      refine (h.due (by simpa [Flow.step, asksClose] using hreq)).same ?_ ?_ ?_
      all_goals simp only [Flow.step, move, hs]
  | send userBuf =>
    refine ⟨h.layout.send cfg userBuf, fun hreq => ?_⟩
    obtain ⟨out, hs⟩ := send_s cfg userBuf f.c
    refine (h.due (by simpa [Flow.step, asksClose] using hreq)).same ?_ ?_ ?_
    all_goals simp only [Flow.step, move, hs]
  | enqueue data =>
    refine ⟨h.layout.enqueueData cfg data hok, fun hreq => ?_⟩
    obtain ⟨out, hs⟩ := enqueueData_s cfg data f.c
    refine (h.due (by simpa [Flow.step, asksClose] using hreq)).same ?_ ?_ ?_
    all_goals simp only [Flow.step, move, hs]
  | shutdownRead =>
    refine ⟨?_, fun hreq => ?_⟩
    · simp only [Flow.step, move, hsame]
      exact h.layout.goOn rfl rfl fun _ _ hs => hs
    · exact h.due (by simpa [Flow.step, asksClose] using hreq)
  | close =>
    obtain ⟨hfree, hlast, hsyn⟩ := hok
    refine ⟨?_, fun hreq => ?_⟩
    · simp only [Flow.step, move, hsame]
      exact h.layout.close cfg hfree hlast hsyn
    · simp only [Flow.step, or_eq_true] at hreq
      rcases hreq with hreq | hreq
      · exact (h.due hreq).close cfg
      · exact closeLocal_finDue cfg (Option.isSome_iff_ne_none.mp hreq)
  | others m =>
    refine ⟨?_, fun hreq => ?_⟩
    · simp only [Flow.step, move, hsame]
      exact h.layout.others hok
    · exact h.due (by simpa [Flow.step, asksClose] using hreq)

end

/-- The packet with the SYN is queued. -/
theorem Layout.begins (iss : UInt32) {first : BufId → Packet} (owner : Nat) (hopen : opening c.s.state = true)
    (hseq : c.s.seqNum = iss) (hout : c.s.outgoing = []) (hsent : c.s.sent = [])
    (hfin : c.s.finSeq = none) (hforce : c.s.forcePureAck = false) (hprobe : c.s.forceProbe = false)
    (hfree : c.m.xmitBuffers.Nodup) (hwire : ∀ p ∈ c.m.wire, p.socket ≠ c.s.self) :
    Layout iss first [] (Mtcp.enqueueConnect cfg owner c) := by
  have hempty : c.waiting = [] := by
    unfold Ctx.waiting
    rw [hout]
    rfl
  have hstart : ∀ P, Content iss first [] P c := by
    intro P
    constructor
    · simp [hout, hsent]
    · exact hfree
    · simp [hout, hsent]
    · simp [hout, hsent]
    · exact hforce
    · exact hprobe
    · simp [hempty]
    · exact fun p hp hself => absurd hself (hwire p hp)
    · simp [hsent]
    · simp [hempty]
    · simp [hfin]
    · exact fun hno => absurd hfin hno
  have hloose : BufId.connect owner ∉ c.s.outgoing ++ c.s.sent := by simp [hout, hsent]
  obtain ⟨hcontent, hcases⟩ := (hstart (zeroBuffer.packet 0)).enqueueConnect cfg hloose
  rcases hcases with ⟨-, -, href | hne⟩ | ⟨x, hx, hlen, hs, hwait⟩
  · cases hst : c.s.state <;> simp_all [opening, TcpSocket.refuses]
  · exact absurd hout hne
  · refine ⟨false, 0, _, hcontent, ?_⟩
    rw [hs, hwait, hempty, nil_append]
    have hstage : Stage iss [] false 0 c.s.state c.s.seqNum c.s.finSeq [x] := by
      refine ⟨fun hno => ?_, fun _ => ?_, fun _ => ⟨Nat.zero_le _, ?_⟩, fun _ => ?_, fun _ hno => ?_,
        fun _ => ?_, by simp [hfin], fun ht => ?_, ?_⟩
      · simp [hno, opening] at hopen
      · simp [hseq, hfin]
      · simp [unnumbered, hx, bytes_eq_nil.mpr hlen]
      · exact ⟨rfl, fun _ => ⟨x, rfl, hx⟩, fun hno => absurd hno (by simp)⟩
      · exact absurd (hno.symm.trans hopen) (by simp)
      · cases hst : c.s.state <;> simp_all [opening, sentFin]
      · exact ⟨x, mem_singleton_self x, hx⟩
      · intro hno
        simp [hno, opening] at hopen
    exact hstage

theorem makeActive_wire (m : Shared) (i : Nat) : (makeActive m i).wire = m.wire := by
  unfold makeActive
  split <;> rfl

theorem Starts.ordered {cfg : Config} {f : Flow} (h : Starts cfg iss f) : Ordered iss f := by
  cases h with
  | connect i srcPort host dstPort size m hfree hwire =>
    refine ⟨?_, nofun⟩
    refine Layout.begins cfg iss _ rfl rfl rfl rfl rfl rfl rfl ?_ ?_
    · rw [makeActive_xmitBuffers]
      exact hfree
    · rw [makeActive_wire]
      exact hwire
  | syn w i j rest memory g havail hrecv hfree hwire =>
    refine ⟨?_, nofun⟩
    unfold processSyn
    rw [havail]
    dsimp only
    have hnew : ((reinit j iss { w with m := { w.m with availSocketTable := rest } }).sock j).rcv =
        (freshSocket j iss).rcv := by
      simp [reinit]
    rw [hnew, if_pos hrecv]
    simp only [World.on, World.put, World.ctx, update_self]
    refine Layout.begins cfg iss _ rfl ?_ ?_ ?_ ?_ ?_ ?_ ?_ ?_
    rotate_right 2
    · rw [makeActive_xmitBuffers]
      exact hfree
    · rw [makeActive_wire]
      simpa [reinit, freshSocket, TcpSocket.setMaxEnqueueSize, Shared.setBuf] using hwire
    all_goals simp [reinit, freshSocket, TcpSocket.setMaxEnqueueSize]

/-- **The sequence space of a connection is laid out as it should be**, in every state of every run
whose moves meet the condition. -/
theorem laid_run (cfg : Config) (iss : UInt32) (f : Flow) (moves : List Move)
    (hstarts : Starts cfg iss f) (hok : Guarded (Flow.step cfg) (InTurn cfg iss) f moves) :
    Laid iss (run (Flow.step cfg) f moves) := by
  have hinv : Ordered iss (run (Flow.step cfg) f moves) :=
    Guarded.run_invariant (I := Ordered iss) (fun _ _ h hok => ordered_step h hok) moves f
      hstarts.ordered hok
  exact hinv.laid

/-! ## 11. A FIN that is never sent -/

/-- ARP knows the address, or never answers, and no timer is due. -/
def arp (resolves : Bool) : Env := ⟨false, false, resolves⟩

/-- A socket connects. -/
def connecting : Flow :=
  ⟨opened someConfig 0 100 4000 7 80 1024 (init 1 2).m, [], false, fun _ => zeroBuffer.packet 0⟩

theorem connecting_starts : Starts someConfig 100 connecting :=
  Starts.connect 0 4000 7 80 1024 (init 1 2).m (by decide +kernel) (by decide +kernel)

/-- The connection is opened, two bytes are sent with the FIN, and again when the time is up. -/
theorem connecting_laid :
    Laid 100 (run (Flow.step someConfig) connecting
      [.drive (arp true), .segment true (bare 5000 101 (Role.codeBits .synAck)),
        .send [97, 98], .close, .drive (arp true), .drive { arp true with expired := true }]) := by
  refine laid_run someConfig 100 connecting _ connecting_starts
    ⟨trivial, ⟨fun _ => Or.inr ?_, fun _ _ => ?_, fun _ h => ?_, fun _ h => ?_⟩, trivial,
      ⟨fun _ h => ?_, fun _ b h => ?_, fun h => ?_⟩, trivial, trivial, trivial⟩
  · decide +kernel
  · decide +kernel
  · cases h
  · cases h
  · cases h
  · have hlen := (congrArg List.length h).trans List.length_singleton
    cases hlen
  · cases h

/-- A SYN is answered on a socket of a table of two. -/
def answered : Flow :=
  ⟨(processSyn someConfig 100 true (bare 5000 0 .justSyn) 1
    (run (step someConfig) (init 2 1) [.getSocket 0, .listen 1 4000 1024])).ctx 0, [], false,
    fun _ => zeroBuffer.packet 0⟩

theorem answered_starts : Starts someConfig 100 answered :=
  Starts.syn (run (step someConfig) (init 2 1) [.getSocket 0, .listen 1 4000 1024]) 1 0 [] true
    (bare 5000 0 .justSyn) (by decide +kernel) (by decide +kernel) (by decide +kernel)
    (by decide +kernel)

/-- A connection is closed, and while its FIN waits to be acknowledged a byte of the peer comes. -/
def byteAfterClose : List Move :=
  [.drive (arp true), .segment true (bare 5000 101 (Role.codeBits .synAck)), .drive (arp true),
    .close, .drive (arp true),
    .segment true ⟨7, 80, 4000, 5001, 101, CodeBits.justAck, 8192, 1460, [98], by decide⟩]

/-- The SYN of a socket waits for ARP, with its header filled in, when the socket is closed.  The
FIN is left to that packet, which goes out as it is: nothing waits then, and no FIN was sent.  And
a FIN that waits to be acknowledged is overwritten by the acknowledgement of a byte: what is to be
sent again is a packet without a FIN then. -/
theorem fin_never_sent :
    (Starts someConfig 100 answered ∧
      ¬ Laid 100 (run (Flow.step someConfig) answered
        [.drive (arp false), .close, .drive (arp true)])) ∧
    Starts someConfig 100 connecting ∧
      ¬ Laid 100 (run (Flow.step someConfig) connecting (byteAfterClose ++ [.drive (arp true)])) := by
  refine ⟨⟨answered_starts, fun h => ?_⟩, connecting_starts, fun h => ?_⟩
  · have hfin := h.closed (by decide +kernel) (by decide +kernel) (by decide +kernel)
    exact absurd hfin (by decide +kernel)
  · have hagain := (h.again (.connect 0) (by decide +kernel)).1
    exact absurd hagain (by decide +kernel)

end SdcBoot.Mtcp
