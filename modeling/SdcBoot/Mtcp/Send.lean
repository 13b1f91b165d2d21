/-
# What send queues

`send` fills buffers from the pool for as long as there is a byte left, room in the ring and a buffer,
and `enqueue` may give back an acknowledgement that waits alone on the way.

Two things spoil it.  Where the other side allows segments of 0 bytes a round uses up nothing: the
ring fills with empty packets, or, where each of them is the acknowledgement that the next one
replaces, the loop never ends.  And the number of bytes is returned as an `int16_t`.
`send_prefix_iff` says that this is all, but for a packet without data that is not an acknowledgement.
-/
import SdcBoot.Mtcp.Pending

namespace SdcBoot.Mtcp

open List Option

/-! ## 1. The routine -/

/-- A buffer out of the pool, with the data of one round. -/
def Ctx.fill (c : Ctx) (n : Nat) (rest : List Nat) (data : List UInt8) : Ctx :=
  { c with m := { c.m with xmitBuffers := rest } }.setBuf (.pool n) (·.withData data)

/-- The loop of `send`; `none` if the fuel does not suffice. -/
def countSendLoop (cfg : Config) (enqueuedAcks : Bool) :
    Nat → List UInt8 → Ctx → Pending → Option (Nat × Ctx × Pending)
  | 0, _, _, _ => none
  | fuel + 1, userBuf, c, p =>
    if userBuf = [] then some (0, c, p)
    else if c.s.outgoing.length < cfg.ringSize then
      match c.m.xmitBuffers with
      | [] => some (0, c, p)
      | n :: rest =>
        let r := countEnqueue cfg enqueuedAcks (.pool n)
          (c.fill n rest (userBuf.take c.s.maxEnqueueSize)) p
        (countSendLoop cfg enqueuedAcks fuel (userBuf.drop c.s.maxEnqueueSize) r.2.1 r.2.2).map
          fun q => (min c.s.maxEnqueueSize userBuf.length + q.1, q.2)
    else some (0, c, p)

/-- A `uint16_t` that is returned as an `int16_t`. -/
def toInt16 (n : Nat) : Int := if n < 32768 then n else n - 65536

/-- `send`. -/
def countSend (cfg : Config) (enqueuedAcks : Bool) (fuel : Nat) (userBuf : List UInt8) (c : Ctx)
    (p : Pending) : Option (Int × Ctx × Pending) :=
  if c.s.state ≠ .established then some (TCP_RC_BAD, c, p)
  else (countSendLoop cfg enqueuedAcks fuel userBuf c p).map fun q => (toInt16 q.1, q.2)

/-! ## 2. What is asked of it -/

/-- The data in a buffer that has not been sent. -/
def TcpBuffer.data (b : TcpBuffer) : List UInt8 := (List.range b.dataLen).map b.area

/-- A packet with data, a SYN or a FIN.  What is not waiting for ARP gets its header only when it is
sent. -/
def TcpBuffer.Carries (b : TcpBuffer) : Prop :=
  0 < b.dataLen ∨ b.pendingArp = true ∧
    (b.headers.codeBits.syn = true ∨ b.headers.codeBits.fin = true)

/-- The number of a buffer of the pool. -/
def BufId.inPool : BufId → List Nat
  | .pool n => [n]
  | _ => []

/-- The buffers of the pool that are free or in the ring. -/
def Ctx.poolBuffers (c : Ctx) : List Nat :=
  c.s.outgoing.flatMap BufId.inPool ++ c.m.xmitBuffers

/-- What `send` promises. -/
structure SendsPrefix (c : Ctx) (userBuf : List UInt8) (r : Int) (c' : Ctx) : Prop where
  range : 0 ≤ r ∧ r ≤ userBuf.length
  queue : ∃ old new, c'.s.outgoing = old ++ new ∧ old.Sublist c.s.outgoing ∧
    (∀ b ∈ old, c'.m.buf b = c.m.buf b) ∧
    new.flatMap (fun b => (c'.m.buf b).data) = userBuf.take r.toNat ∧
    ∀ b ∈ new, 1 ≤ (c'.m.buf b).dataLen ∧ (c'.m.buf b).dataLen ≤ c.s.maxEnqueueSize
  kept : ∀ b ∈ c.s.outgoing, (c.m.buf b).Carries →
    b ∈ c'.s.outgoing ∧ c'.m.buf b = c.m.buf b
  pool : c'.poolBuffers.Perm c.poolBuffers

/-- A call: the pool holds each buffer once, and none that is queued; lengths have sixteen bits. -/
structure SendCall where
  c : Ctx
  userBuf : List UInt8
  established : c.s.state = .established
  separate : (c.s.outgoing ++ c.m.xmitBuffers.map BufId.pool).Nodup
  short : userBuf.length < 65536

/-- The bytes that ring and pool can take. -/
def room (cfg : Config) (c : Ctx) : Nat :=
  c.s.maxEnqueueSize * min (cfg.ringSize - c.s.outgoing.length) c.m.xmitBuffers.length

/-! ## 3. One round -/

section

variable {cfg : Config} {enqueuedAcks : Bool} {c : Ctx} {userBuf : List UInt8} {n : Nat}
  {rest : List Nat} {p : Pending}

/-- An acknowledgement that `enqueue` gives back, or what it takes for one. -/
def Waiting (enqueuedAcks : Bool) (c : Ctx) (x : BufId) : Prop :=
  enqueuedAcks = true ∧ c.s.outgoing = [x] ∧ (c.m.buf x).dataLen = 0

/-- The rings after a round. -/
structure Round (c c' : Ctx) (n : Nat) (data : List UInt8) : Prop where
  s : c'.s = { c.s with outgoing := c'.s.outgoing }
  dataLen : (c'.m.buf (.pool n)).dataLen = data.length
  data : (c'.m.buf (.pool n)).data = data
  others : ∀ b ≠ .pool n, c'.m.buf b = c.m.buf b

theorem withData_data (b : TcpBuffer) (data : List UInt8) : (b.withData data).data = data := by
  refine ext_getElem (by simp [TcpBuffer.data, TcpBuffer.withData]) fun i h _ => ?_
  have hi : i < data.length := by simpa [TcpBuffer.data, TcpBuffer.withData] using h
  simp [TcpBuffer.data, TcpBuffer.withData, copyTo, hi]

theorem setBuf_ne (c : Ctx) {a b : BufId} (f : TcpBuffer → TcpBuffer) (h : a ≠ b) :
    (c.setBuf b f).m.buf a = c.m.buf a := Function.update_of_ne h _ _

/-- The packet goes to the end of what `discardAck` leaves. -/
theorem countEnqueue_ctx (hst : c.s.state = .established)
    (hlen : (c.m.buf (.pool n)).dataLen ≤ c.s.maxEnqueueSize)
    (hroom : c.s.outgoing.length < cfg.ringSize) :
    (countEnqueue cfg enqueuedAcks (.pool n) c p).2.1 =
      let c0 := if enqueuedAcks then discardAck c else c
      { c0.setBuf (.pool n) TcpBuffer.enqueued with
        s := { c0.s with outgoing := c0.s.outgoing ++ [.pool n] } } := by
  have hrefuses : c.s.refuses (.pool n) = false := by simp [TcpSocket.refuses, hst]
  have hc0 : (if enqueuedAcks then discardAck c else c).s.refuses (.pool n) = false ∧
      ((if enqueuedAcks then discardAck c else c).m.buf (.pool n)).dataLen ≤
        (if enqueuedAcks then discardAck c else c).s.maxEnqueueSize ∧
      (if enqueuedAcks then discardAck c else c).s.outgoing.length < cfg.ringSize := by
    split
    · unfold discardAck
      split
      · split
        · refine ⟨hrefuses, ?_, cfg.ringPos⟩
          rename_i first _ _
          cases first <;> exact hlen
        · exact ⟨hrefuses, hlen, hroom⟩
      · exact ⟨hrefuses, hlen, hroom⟩
    · exact ⟨hrefuses, hlen, hroom⟩
  unfold countEnqueue
  rw [if_neg (by rw [hrefuses]; decide), if_neg (not_lt.mpr hlen)]
  unfold enqueue
  rw [if_neg (by rw [hc0.1]; decide), if_neg (not_lt.mpr hc0.2.1),
    if_neg (ne_of_lt hc0.2.2)]

/-- A round in which nothing is given back. -/
theorem round_kept (userBuf : List UInt8) (rest : List Nat) (p : Pending)
    (hst : c.s.state = .established) (hroom : c.s.outgoing.length < cfg.ringSize)
    (hfree : enqueuedAcks = true → ∀ x, c.s.outgoing = [x] → x ≠ .pool n)
    (hnot : ∀ x, ¬Waiting enqueuedAcks c x) :
    let c' := (countEnqueue cfg enqueuedAcks (.pool n)
      (c.fill n rest (userBuf.take c.s.maxEnqueueSize)) p).2.1
    Round c c' n (userBuf.take c.s.maxEnqueueSize) ∧ c'.s.outgoing = c.s.outgoing ++ [.pool n] ∧
      c'.m.xmitBuffers = rest := by
  have hkeep : (if enqueuedAcks then discardAck (c.fill n rest (userBuf.take c.s.maxEnqueueSize))
      else c.fill n rest (userBuf.take c.s.maxEnqueueSize)) =
      c.fill n rest (userBuf.take c.s.maxEnqueueSize) := by
    split
    · rename_i hopt
      unfold discardAck
      split
      · rename_i first hfirst
        refine if_neg fun h => hnot first ⟨hopt, hfirst, ?_⟩
        have hlen := h.2
        rw [Ctx.fill, setBuf_ne _ _ (hfree hopt first hfirst)] at hlen
        exact hlen
      · rfl
    · rfl
  have hctx := @countEnqueue_ctx cfg enqueuedAcks
    (c.fill n rest (userBuf.take c.s.maxEnqueueSize)) n p hst
    (by simp [Ctx.fill, TcpBuffer.withData]) hroom
  simp only [hkeep] at hctx
  simp only [hctx]
  refine ⟨⟨rfl, ?_, ?_, fun b hb => ?_⟩, rfl, rfl⟩
  · simp [Ctx.fill, TcpBuffer.enqueued, TcpBuffer.withData]
  · rw [setBuf_self]
    exact (congrArg TcpBuffer.data (setBuf_self _ _ _)).trans (withData_data _ _)
  · rw [setBuf_ne _ _ hb]
    exact setBuf_ne _ _ hb

variable {x : BufId} {c1 : Ctx}

/-- A round in which what waits alone is given back. -/
theorem round_waiting (userBuf : List UInt8) (rest : List Nat) (p : Pending)
    (hst : c.s.state = .established) (hroom : c.s.outgoing.length < cfg.ringSize) (hx : x ≠ .pool n)
    (hwaiting : Waiting enqueuedAcks c x) :
    let c' := (countEnqueue cfg enqueuedAcks (.pool n)
      (c.fill n rest (userBuf.take c.s.maxEnqueueSize)) p).2.1
    Round c c' n (userBuf.take c.s.maxEnqueueSize) ∧ c'.s.outgoing = [.pool n] ∧
      c'.m.xmitBuffers = x.inPool ++ rest := by
  obtain ⟨hopt, hout, hlen⟩ := hwaiting
  have hdiscard : discardAck (c.fill n rest (userBuf.take c.s.maxEnqueueSize)) =
      { s := { c.s with outgoing := [] }
        m := (c.fill n rest (userBuf.take c.s.maxEnqueueSize)).m.returnXmitBuf x } := by
    have hout' : (c.fill n rest (userBuf.take c.s.maxEnqueueSize)).s.outgoing = [x] := hout
    have hlen' : ((c.fill n rest (userBuf.take c.s.maxEnqueueSize)).m.buf x).dataLen = 0 := by
      rw [Ctx.fill, setBuf_ne _ _ hx]
      exact hlen
    unfold discardAck
    rw [hout']
    exact if_pos ⟨hst, hlen'⟩
  have hbuf : ∀ m : Shared, (m.returnXmitBuf x).buf = m.buf ∧
      (m.returnXmitBuf x).xmitBuffers = x.inPool ++ m.xmitBuffers := by
    intro m
    cases x <;> exact ⟨rfl, rfl⟩
  have hctx := @countEnqueue_ctx cfg enqueuedAcks
    (c.fill n rest (userBuf.take c.s.maxEnqueueSize)) n p hst
    (by simp [Ctx.fill, TcpBuffer.withData]) hroom
  rw [if_pos hopt, hdiscard] at hctx
  simp only [hctx]
  refine ⟨⟨rfl, ?_, ?_, fun b hb => ?_⟩, rfl, (hbuf _).2⟩
  · simp [hbuf, Ctx.fill, TcpBuffer.enqueued, TcpBuffer.withData]
  · rw [setBuf_self, (hbuf _).1]
    exact (congrArg TcpBuffer.data (setBuf_self _ _ _)).trans (withData_data _ _)
  · rw [setBuf_ne _ _ hb, (hbuf _).1]
    exact setBuf_ne _ _ hb

/-- Behind a packet with data nothing is taken for an acknowledgement. -/
theorem Round.not_waiting {data : List UInt8} {old : List BufId} (h : Round c c1 n data)
    (hdata : 0 < data.length) (hout : c1.s.outgoing = old ++ [.pool n])
    (x : BufId) : ¬Waiting enqueuedAcks c1 x := by
  rintro ⟨-, hx, hzero⟩
  rw [hout] at hx
  obtain ⟨-, hlast⟩ := append_inj' (hx.trans (nil_append [x]).symm) rfl
  obtain rfl := head_eq_of_cons_eq hlast
  rw [h.dataLen] at hzero
  omega

/-- The pool with what is given back, and the buffer that takes its place in the ring. -/
theorem nodup_given_back (h : (x :: (n :: rest).map BufId.pool).Nodup) :
    (n :: (x.inPool ++ rest)).Nodup := by
  obtain ⟨hx, hfresh⟩ := nodup_cons.mp h
  have hrest : (n :: rest).Nodup := List.Nodup.of_map _ hfresh
  cases x with
  | pool k =>
    have hk : k ∉ n :: rest := fun hk => hx (mem_map_of_mem hk)
    exact (List.Perm.swap n k rest).nodup_iff.mp (nodup_cons.mpr ⟨hk, hrest⟩)
  | connect _ | stack => exact hrest

/-! ## 4. The loop -/

/-- What a loop has queued: the first buffers of the pool, filled with `data`. -/
structure Queued (c c' : Ctx) (data : List UInt8) : Prop where
  queue : ∃ new, c'.s = { c.s with outgoing := c.s.outgoing ++ new } ∧
    c.m.xmitBuffers.map BufId.pool = new ++ c'.m.xmitBuffers.map BufId.pool ∧
    new.flatMap (fun b => (c'.m.buf b).data) = data ∧
    ∀ b ∈ new, 1 ≤ (c'.m.buf b).dataLen ∧ (c'.m.buf b).dataLen ≤ c.s.maxEnqueueSize
  others : ∀ b, b ∉ c.m.xmitBuffers.map BufId.pool → c'.m.buf b = c.m.buf b

theorem Queued.refl (c : Ctx) : Queued c c [] :=
  ⟨⟨[], by rw [append_nil], rfl, rfl, nofun⟩, fun _ _ => rfl⟩

/-- One packet, and what the rest of the loop has queued. -/
theorem Queued.cons {c' : Ctx} {data later : List UInt8} (hround : Round c c1 n data)
    (hout : c1.s.outgoing = c.s.outgoing ++ [.pool n]) (hpool : c1.m.xmitBuffers = rest)
    (hxmit : c.m.xmitBuffers = n :: rest) (hn : n ∉ rest) (hpos : 0 < data.length)
    (hle : data.length ≤ c.s.maxEnqueueSize) (h : Queued c1 c' later) :
    Queued c c' (data ++ later) := by
  obtain ⟨new, hs, hnew, hdata, hsizes⟩ := h.queue
  have hmax : c1.s.maxEnqueueSize = c.s.maxEnqueueSize := by rw [hround.s]
  have hself : c'.m.buf (.pool n) = c1.m.buf (.pool n) :=
    h.others _ (by rw [hpool]; simpa using hn)
  refine ⟨⟨.pool n :: new, ?_, ?_, ?_, ?_⟩, fun b hb => ?_⟩
  · rw [hs, hout, hround.s, hout, append_assoc]
    rfl
  · rw [hxmit, map_cons, ← hpool, hnew]
    rfl
  · rw [flatMap_cons, hself, hround.data, hdata]
  · intro b hb
    rcases mem_cons.mp hb with rfl | hb
    · rw [hself, hround.dataLen]
      exact ⟨hpos, hle⟩
    · rw [← hmax]
      exact hsizes b hb
  · rw [hxmit, map_cons, mem_cons, not_or] at hb
    rw [h.others b (by rw [hpool]; exact hb.2), hround.others b hb.1]

/-- How the bytes that are taken come together. -/
theorem taken_step (len max k : Nat) :
    min max len + min (len - max) (max * k) = min len (max * (k + 1)) := by
  rw [Nat.mul_succ]
  omega

theorem take_step (userBuf : List UInt8) (max k : Nat) :
    userBuf.take max ++ (userBuf.drop max).take (min (userBuf.drop max).length (max * k)) =
      userBuf.take (min userBuf.length (max * (k + 1))) := by
  rw [← taken_step, take_add, length_drop]
  rcases le_total max userBuf.length with hle | hle
  · rw [min_eq_left hle]
  · rw [min_eq_right hle, take_length, drop_length, take_of_length_le hle,
      drop_of_length_le hle]

/-- While no acknowledgement waits alone, the loop queues what there is room for. -/
theorem countSendLoop_steady (fuel : Nat) : ∀ {c : Ctx} {u : List UInt8} {p : Pending},
    c.s.state = .established → 0 < c.s.maxEnqueueSize → u.length < fuel →
    (∀ x, ¬Waiting enqueuedAcks c x) →
    (c.s.outgoing ++ c.m.xmitBuffers.map BufId.pool).Nodup →
    ∃ c' p', countSendLoop cfg enqueuedAcks fuel u c p =
        some (min u.length (room cfg c), c', p') ∧
      Queued c c' (u.take (min u.length (room cfg c))) := by
  induction fuel with
  | zero => exact fun _ _ h => absurd h (Nat.not_lt_zero _)
  | succ fuel ih =>
    intro c userBuf p hst hmax hfuel hnot hnodup
    rw [countSendLoop]
    by_cases hempty : userBuf = []
    · rw [if_pos hempty, hempty]
      exact ⟨c, p, by simp, by simpa using Queued.refl c⟩
    · rw [if_neg hempty]
      by_cases hroom : c.s.outgoing.length < cfg.ringSize
      · rw [if_pos hroom]
        cases hxmit : c.m.xmitBuffers with
        | nil =>
          have hnone : room cfg c = 0 := by simp [room, hxmit]
          rw [hnone]
          exact ⟨c, p, by simp, by simpa using Queued.refl c⟩
        | cons n rest =>
          rw [hxmit] at hnodup
          obtain ⟨hout, hpool, hapart⟩ := nodup_append.mp hnodup
          have hfree : enqueuedAcks = true → ∀ x, c.s.outgoing = [x] → x ≠ .pool n := by
            intro _ x hx
            exact hapart x (by simp [hx]) (.pool n) (by simp)
          obtain ⟨hround, hout1, hpool1⟩ := round_kept userBuf rest p hst hroom hfree hnot
          simp only
          generalize (countEnqueue cfg enqueuedAcks (.pool n)
            (c.fill n rest (userBuf.take c.s.maxEnqueueSize)) p).2.2 = p1
          generalize (countEnqueue cfg enqueuedAcks (.pool n)
            (c.fill n rest (userBuf.take c.s.maxEnqueueSize)) p).2.1 = c1 at hround hout1 hpool1
          have hlen : 0 < userBuf.length := length_pos_iff.mpr hempty
          have hmax1 : c1.s.maxEnqueueSize = c.s.maxEnqueueSize := by rw [hround.s]
          have hn : n ∉ rest := by
            have := (nodup_cons.mp hpool).1
            simpa using this
          have hfilled : 0 < (userBuf.take c.s.maxEnqueueSize).length := by
            rw [length_take]
            omega
          have hnot1 : ∀ x, ¬Waiting enqueuedAcks c1 x := hround.not_waiting hfilled hout1
          have hnodup1 : (c1.s.outgoing ++ c1.m.xmitBuffers.map BufId.pool).Nodup := by
            rw [hout1, hpool1, append_assoc]
            exact hnodup
          obtain ⟨c', p', hloop, hqueued⟩ := ih (u := userBuf.drop c.s.maxEnqueueSize)
            (p := p1) (by rw [hround.s]; exact hst) (by rw [hmax1]; exact hmax)
            (by rw [length_drop]; omega) hnot1 hnodup1
          have hroom1 : room cfg c1 = c.s.maxEnqueueSize *
              min (cfg.ringSize - (c.s.outgoing.length + 1)) rest.length := by
            rw [room, hmax1, hout1, hpool1, length_append, length_singleton]
          have hroom0 : room cfg c = c.s.maxEnqueueSize *
              (min (cfg.ringSize - (c.s.outgoing.length + 1)) rest.length + 1) := by
            rw [room, hxmit, length_cons]
            congr 1
            omega
          refine ⟨c', p', ?_, ?_⟩
          · rw [hloop, hroom0, ← taken_step, hroom1, length_drop]
            rfl
          · rw [hroom1] at hqueued
            rw [hroom0, ← take_step]
            exact hqueued.cons hround hout1 hpool1 hxmit hn hfilled
              (by rw [length_take]; omega)
      · rw [if_neg hroom]
        have hnone : room cfg c = 0 := by
          rw [room, Nat.sub_eq_zero_of_le (not_lt.mp hroom), Nat.zero_min, mul_zero]
        rw [hnone]
        exact ⟨c, p, by simp, by simpa using Queued.refl c⟩

/-- More fuel changes nothing. -/
theorem countSendLoop_mono (fuel : Nat) : ∀ {u : List UInt8} {c : Ctx} {p : Pending}
    {q : Nat × Ctx × Pending}, countSendLoop cfg enqueuedAcks fuel u c p = some q →
    ∀ more, countSendLoop cfg enqueuedAcks (fuel + more) u c p = some q := by
  induction fuel with
  | zero => exact nofun
  | succ fuel ih =>
    intro u c p q h more
    rw [Nat.succ_add]
    rw [countSendLoop] at h ⊢
    split
    · rename_i hempty
      rwa [if_pos hempty] at h
    · rename_i hempty
      rw [if_neg hempty] at h
      split
      · rename_i hroom
        rw [if_pos hroom] at h
        cases hxmit : c.m.xmitBuffers with
        | nil => simpa only [hxmit] using h
        | cons n rest =>
          simp only [hxmit] at h ⊢
          obtain ⟨q', hq, rfl⟩ := Option.map_eq_some_iff.mp h
          rw [ih hq more]
          rfl
      · rename_i hroom
        rwa [if_neg hroom] at h

theorem countSendLoop_unique {u : List UInt8} {fuel fuel' : Nat} {q q' : Nat × Ctx × Pending}
    (h : countSendLoop cfg enqueuedAcks fuel u c p = some q)
    (h' : countSendLoop cfg enqueuedAcks fuel' u c p = some q') : q = q' := by
  have := countSendLoop_mono fuel h fuel'
  rw [add_comm, countSendLoop_mono fuel' h' fuel] at this
  exact (some.inj this).symm

end

/-! ## 5. Segments without data -/

section

variable {cfg : Config} {userBuf : List UInt8}

/-- Where an empty packet waits alone, each round puts another one in its place. -/
theorem countSendLoop_never (hne : userBuf ≠ []) (hring : 1 < cfg.ringSize) (fuel : Nat) :
    ∀ {c : Ctx} {k : Nat} {p : Pending}, c.s.state = .established → c.s.maxEnqueueSize = 0 →
      Waiting true c (.pool k) → c.m.xmitBuffers ≠ [] → (k :: c.m.xmitBuffers).Nodup →
      countSendLoop cfg true fuel userBuf c p = none := by
  induction fuel with
  | zero => exact fun _ _ _ _ _ => rfl
  | succ fuel ih =>
    intro c k p hst hmax hwaiting hpool hnodup
    have hroom : c.s.outgoing.length < cfg.ringSize := by
      rw [hwaiting.2.1]
      exact hring
    cases hxmit : c.m.xmitBuffers with
    | nil => exact absurd hxmit hpool
    | cons n rest =>
      rw [hxmit] at hnodup
      have hkn : BufId.pool k ≠ .pool n := by
        intro heq
        cases heq
        simp at hnodup
      obtain ⟨hround, hout, hxmit1⟩ := round_waiting userBuf rest p hst hroom hkn hwaiting
      rw [countSendLoop, if_neg hne, if_pos hroom, hxmit]
      simp only
      rw [hmax, drop_zero, ← hmax, ih]
      · rfl
      · rw [hround.s]
        exact hst
      · rw [hround.s]
        exact hmax
      · refine ⟨rfl, hout, ?_⟩
        rw [hround.dataLen, hmax]
        rfl
      · rw [hxmit1]
        simp [BufId.inPool]
      · rw [hxmit1]
        exact (List.Perm.swap k n rest).nodup_iff.mpr hnodup

variable {c' : Ctx} {fuel r : Nat} {p p' : Pending} {enqueuedAcks : Bool}

/-- An empty packet that is alone stays alone. -/
theorem countSendLoop_alone {c : Ctx} {k : Nat} (hne : userBuf ≠ [])
    (hst : c.s.state = .established) (hmax : c.s.maxEnqueueSize = 0)
    (hwaiting : Waiting true c (.pool k)) (hnodup : (k :: c.m.xmitBuffers).Nodup)
    (hrun : countSendLoop cfg true fuel userBuf c p = some (r, c', p')) : c' = c := by
  by_cases hnever : 1 < cfg.ringSize ∧ c.m.xmitBuffers ≠ []
  · rw [countSendLoop_never hne hnever.1 fuel hst hmax hwaiting hnever.2 hnodup] at hrun
    cases hrun
  · cases fuel with
    | zero => cases hrun
    | succ fuel =>
      rw [countSendLoop, if_neg hne, hwaiting.2.1] at hrun
      split at hrun
      · rename_i hring
        have hpool : c.m.xmitBuffers = [] := by
          by_contra hsome
          exact hnever ⟨hring, hsome⟩
        rw [hpool] at hrun
        exact (congrArg (·.2.1) (some.inj hrun)).symm
      · exact (congrArg (·.2.1) (some.inj hrun)).symm

/-- With two packets in the ring, or without the option, the ring only fills. -/
theorem countSendLoop_grows (fuel : Nat) : ∀ {u : List UInt8} {c c' : Ctx}
    {r : Nat} {p p' : Pending}, c.s.state = .established →
    (enqueuedAcks = true → 2 ≤ c.s.outgoing.length) →
    countSendLoop cfg enqueuedAcks fuel u c p = some (r, c', p') →
    c.s.outgoing.length ≤ c'.s.outgoing.length := by
  induction fuel with
  | zero => exact nofun
  | succ fuel ih =>
    intro u c c' r p p' hst htwo hrun
    have hsingle : enqueuedAcks = true → ∀ x, c.s.outgoing ≠ [x] := by
      intro hopt x hx
      have := htwo hopt
      rw [hx, length_singleton] at this
      omega
    rw [countSendLoop] at hrun
    split at hrun
    · obtain rfl : c = c' := congrArg (·.2.1) (some.inj hrun)
      exact le_rfl
    · split at hrun
      · rename_i hroom
        cases hxmit : c.m.xmitBuffers with
        | nil =>
          rw [hxmit] at hrun
          obtain rfl : c = c' := congrArg (·.2.1) (some.inj hrun)
          exact le_rfl
        | cons n rest =>
          rw [hxmit] at hrun
          obtain ⟨q, hq, heq⟩ := Option.map_eq_some_iff.mp hrun
          obtain ⟨hround, hout, -⟩ := round_kept u rest p hst hroom
            (fun hopt x hx => absurd hx (hsingle hopt x)) fun x hx => hsingle hx.1 x hx.2.1
          have hgrown := ih (by rw [hround.s]; exact hst)
            (fun hopt => by
              rw [hout, length_append]
              exact Nat.le_add_right_of_le (htwo hopt)) hq
          rw [hout, length_append] at hgrown
          obtain rfl : q.2.1 = c' := congrArg (·.2.1) heq
          exact Nat.le_of_add_right_le hgrown
      · obtain rfl : c = c' := congrArg (·.2.1) (some.inj hrun)
        exact le_rfl

/-- A round that takes nothing leaves a packet that does not belong into the ring. -/
theorem zero_leaves_packet (x : SendCall) (hmax : x.c.s.maxEnqueueSize = 0) (hne : x.userBuf ≠ [])
    (hroom : x.c.s.outgoing.length < cfg.ringSize) (hpool : x.c.m.xmitBuffers ≠ [])
    (hrun : countSendLoop cfg enqueuedAcks fuel x.userBuf x.c p = some (r, c', p')) :
    ¬c'.s.outgoing.Sublist x.c.s.outgoing := by
  intro hsub
  have hnodup := x.separate
  cases hxmit : x.c.m.xmitBuffers with
  | nil => exact hpool hxmit
  | cons n rest =>
    rw [hxmit] at hnodup
    obtain ⟨-, hfresh, hapart⟩ := nodup_append.mp hnodup
    have hn : .pool n ∉ x.c.s.outgoing := fun hmem => hapart _ hmem (.pool n) (by simp) rfl
    have hrest : (n :: rest).Nodup := List.Nodup.of_map _ hfresh
    cases fuel with
    | zero => cases hrun
    | succ fuel =>
      rw [countSendLoop, if_neg hne, if_pos hroom, hxmit] at hrun
      obtain ⟨q, hq, heq⟩ := Option.map_eq_some_iff.mp hrun
      obtain rfl : q.2.1 = c' := congrArg (·.2.1) heq
      rw [hmax, drop_zero, ← hmax] at hq
      by_cases hwaits : ∃ y, Waiting enqueuedAcks x.c y
      · obtain ⟨y, hwaiting⟩ := hwaits
        have hopt : enqueuedAcks = true := hwaiting.1
        have hy : y ≠ .pool n := by
          rintro rfl
          exact hn (by rw [hwaiting.2.1]; exact mem_singleton_self _)
        obtain ⟨hround, hout, hxmit1⟩ := round_waiting x.userBuf rest p x.established hroom hy
          hwaiting
        subst hopt
        have hback : (n :: (y.inPool ++ rest)).Nodup := by
          rw [hwaiting.2.1, singleton_append] at hnodup
          exact nodup_given_back hnodup
        have hstay := countSendLoop_alone hne (by rw [hround.s]; exact x.established)
          (by rw [hround.s]; exact hmax) ⟨rfl, hout, by rw [hround.dataLen, hmax]; rfl⟩
          (by rw [hxmit1]; exact hback) hq
        rw [hstay, hout] at hsub
        exact hn (hsub.subset (mem_singleton_self _))
      · have hnot : ∀ y, ¬Waiting enqueuedAcks x.c y := fun y hy => hwaits ⟨y, hy⟩
        obtain ⟨hround, hout, hxmit1⟩ := round_kept x.userBuf rest p x.established hroom
          (fun _ y hy => by
            rintro rfl
            exact hn (by rw [hy]; exact mem_singleton_self _)) hnot
        by_cases hfirst : enqueuedAcks = true ∧ x.c.s.outgoing = []
        · obtain ⟨rfl, hempty⟩ := hfirst
          rw [hempty, nil_append] at hout
          have hstay := countSendLoop_alone hne (by rw [hround.s]; exact x.established)
            (by rw [hround.s]; exact hmax) ⟨rfl, hout, by rw [hround.dataLen, hmax]; rfl⟩
            (by rw [hxmit1]; exact hrest) hq
          rw [hstay, hout] at hsub
          exact hn (hsub.subset (mem_singleton_self _))
        · have hgrown := countSendLoop_grows fuel (by rw [hround.s]; exact x.established)
            (fun hopt => by
              have : 0 < x.c.s.outgoing.length :=
                length_pos_iff.mpr fun hempty => hfirst ⟨hopt, hempty⟩
              rw [hout, length_append, length_singleton]
              omega) hq
          rw [hout, length_append, length_singleton] at hgrown
          exact absurd (le_trans hgrown hsub.length_le) (Nat.not_succ_le_self _)

end

/-! ## 6. When a prefix is queued -/

/-- The state `enqueue` works in: without what it gives back. -/
def kept (enqueuedAcks : Bool) (c : Ctx) : Ctx := if enqueuedAcks then discardAck c else c

/-- Nothing is to be done or can be; or a segment has data, the number of bytes is one of an
`int16_t`, and what waits alone without data is an acknowledgement. -/
def Proper (cfg : Config) (enqueuedAcks : Bool) (x : SendCall) : Prop :=
  x.userBuf = [] ∨ cfg.ringSize ≤ x.c.s.outgoing.length ∨ x.c.m.xmitBuffers = [] ∨
    (0 < x.c.s.maxEnqueueSize ∧
      min x.userBuf.length (room cfg (kept enqueuedAcks x.c)) < 32768 ∧
      ∀ b, Waiting enqueuedAcks x.c b → ¬(x.c.m.buf b).Carries)

section

variable {cfg : Config} {enqueuedAcks : Bool} {p : Pending}

variable {c : Ctx} {b : BufId}

theorem kept_of_not_waiting (h : ∀ b, ¬Waiting enqueuedAcks c b) : kept enqueuedAcks c = c := by
  unfold kept
  split
  · rename_i hopt
    unfold discardAck
    split
    · rename_i first hfirst
      exact if_neg fun hzero => h first ⟨hopt, hfirst, hzero.2⟩
    · rfl
  · rfl

theorem room_waiting (hst : c.s.state = .established) (h : Waiting enqueuedAcks c b) :
    room cfg (kept enqueuedAcks c) =
      c.s.maxEnqueueSize * min cfg.ringSize (b.inPool ++ c.m.xmitBuffers).length := by
  have hdiscard : kept enqueuedAcks c =
      { s := { c.s with outgoing := [] }, m := c.m.returnXmitBuf b } := by
    unfold kept discardAck
    rw [if_pos h.1, h.2.1]
    exact if_pos ⟨hst, h.2.2⟩
  rw [hdiscard, room]
  cases b <;> rfl

theorem flatMap_inPool (l : List Nat) : (l.map BufId.pool).flatMap BufId.inPool = l := by
  induction l with
  | nil => rfl
  | cons n l ih =>
    rw [map_cons, flatMap_cons, ih]
    rfl

/-- A buffer with room for data, in a ring and a pool with room: what is left after the loop. -/
structure FilledUp (enqueuedAcks : Bool) (c c' : Ctx) (data : List UInt8) : Prop where
  queue : ∃ old new, c'.s.outgoing = old ++ new ∧
    (old = c.s.outgoing ∧ (∀ b, ¬Waiting enqueuedAcks c b) ∨
      old = [] ∧ ∃ b, Waiting enqueuedAcks c b) ∧
    (∀ b ∈ old, c'.m.buf b = c.m.buf b) ∧
    new.flatMap (fun b => (c'.m.buf b).data) = data ∧
    ∀ b ∈ new, 1 ≤ (c'.m.buf b).dataLen ∧ (c'.m.buf b).dataLen ≤ c.s.maxEnqueueSize
  pool : c'.poolBuffers.Perm c.poolBuffers

/-- The loop where an acknowledgement waits alone: the first round gives it back. -/
theorem countSendLoop_given_back (x : SendCall) (hmax : 0 < x.c.s.maxEnqueueSize)
    (hne : x.userBuf ≠ []) (hroom : x.c.s.outgoing.length < cfg.ringSize)
    (hpool : x.c.m.xmitBuffers ≠ []) (hwaiting : Waiting enqueuedAcks x.c b) :
    ∃ fuel c' p', countSendLoop cfg enqueuedAcks fuel x.userBuf x.c p =
        some (min x.userBuf.length (room cfg (kept enqueuedAcks x.c)), c', p') ∧
      FilledUp enqueuedAcks x.c c'
        (x.userBuf.take (min x.userBuf.length (room cfg (kept enqueuedAcks x.c)))) := by
  have hlen : 0 < x.userBuf.length := length_pos_iff.mpr hne
  obtain ⟨n, rest, hxmit⟩ := exists_cons_of_ne_nil hpool
  have hnodup := x.separate
  rw [hwaiting.2.1, hxmit, singleton_append] at hnodup
  have hnodup1 : (n :: (b.inPool ++ rest)).Nodup := nodup_given_back hnodup
  have hbn : b ≠ .pool n := by
    rintro rfl
    exact (nodup_cons.mp hnodup).1 (by simp)
  obtain ⟨hround, hout, hxmit1⟩ := round_waiting x.userBuf rest p x.established hroom hbn hwaiting
  generalize hr : countEnqueue cfg enqueuedAcks (.pool n)
    (x.c.fill n rest (x.userBuf.take x.c.s.maxEnqueueSize)) p = r1 at hround hout hxmit1
  obtain ⟨rc, c1, p1⟩ := r1
  have hmax1 : c1.s.maxEnqueueSize = x.c.s.maxEnqueueSize := by rw [hround.s]
  have hfilled : 0 < (x.userBuf.take x.c.s.maxEnqueueSize).length := by
    rw [length_take]
    omega
  have hseparate1 : (c1.s.outgoing ++ c1.m.xmitBuffers.map BufId.pool).Nodup := by
    rw [hout, hxmit1]
    exact hnodup1.map fun _ _ h => BufId.pool.inj h
  obtain ⟨c', p', hloop, hqueued⟩ := @countSendLoop_steady cfg enqueuedAcks
    (x.userBuf.length + 1) c1 (x.userBuf.drop x.c.s.maxEnqueueSize) p1
    (by rw [hround.s]; exact x.established) (by rw [hmax1]; exact hmax)
    (by rw [length_drop]; omega)
    (hround.not_waiting hfilled (hout.trans (nil_append _).symm)) hseparate1
  have hroom1 : room cfg c1 =
      x.c.s.maxEnqueueSize * min (cfg.ringSize - 1) (b.inPool ++ rest).length := by
    rw [room, hmax1, hout, hxmit1, length_singleton]
  have hroom0 : room cfg (kept enqueuedAcks x.c) = x.c.s.maxEnqueueSize *
      (min (cfg.ringSize - 1) (b.inPool ++ rest).length + 1) := by
    rw [room_waiting x.established hwaiting, hxmit, length_append, length_append, length_cons]
    congr 1
    omega
  obtain ⟨new, hs, hnew, hdata, hsizes⟩ := hqueued.queue
  have hself : c'.m.buf (.pool n) = c1.m.buf (.pool n) := by
    refine hqueued.others _ fun hmem => ?_
    rw [hxmit1] at hmem
    obtain ⟨k, hk, hkn⟩ := mem_map.mp hmem
    cases hkn
    exact (nodup_cons.mp hnodup1).1 hk
  refine ⟨x.userBuf.length + 2, c', p', ?_, ⟨[], .pool n :: new, ?_, .inr ⟨rfl, b, hwaiting⟩,
    nofun, ?_, ?_⟩, ?_⟩
  · rw [countSendLoop, if_neg hne, if_pos hroom, hxmit]
    simp only [hr]
    rw [hloop, hroom0, ← taken_step, hroom1, length_drop]
    rfl
  · rw [hs, hout]
    rfl
  · rw [flatMap_cons, hself, hround.data, hdata, hroom1, hroom0, take_step]
  · intro y hy
    rcases mem_cons.mp hy with rfl | hy
    · rw [hself, hround.dataLen, length_take]
      omega
    · rw [← hmax1]
      exact hsizes y hy
  · have hfree := congrArg (List.flatMap BufId.inPool) hnew
    rw [flatMap_inPool, flatMap_append, flatMap_inPool, hxmit1] at hfree
    have hc : x.c.poolBuffers = b.inPool ++ n :: rest := by
      rw [Ctx.poolBuffers, hwaiting.2.1, hxmit]
      simp
    have hc' : c'.poolBuffers = n :: (b.inPool ++ rest) := by
      rw [Ctx.poolBuffers, hs, hout, hfree]
      simp [BufId.inPool]
    rw [hc, hc']
    exact perm_middle.symm

/-- The whole loop. -/
theorem countSendLoop_filled (x : SendCall) (hmax : 0 < x.c.s.maxEnqueueSize)
    (hne : x.userBuf ≠ []) (hroom : x.c.s.outgoing.length < cfg.ringSize)
    (hpool : x.c.m.xmitBuffers ≠ []) :
    ∃ fuel c' p', countSendLoop cfg enqueuedAcks fuel x.userBuf x.c p =
        some (min x.userBuf.length (room cfg (kept enqueuedAcks x.c)), c', p') ∧
      FilledUp enqueuedAcks x.c c'
        (x.userBuf.take (min x.userBuf.length (room cfg (kept enqueuedAcks x.c)))) := by
  by_cases hwaits : ∃ b, Waiting enqueuedAcks x.c b
  · obtain ⟨b, hwaiting⟩ := hwaits
    exact countSendLoop_given_back x hmax hne hroom hpool hwaiting
  · have hnot : ∀ b, ¬Waiting enqueuedAcks x.c b := fun b hb => hwaits ⟨b, hb⟩
    rw [kept_of_not_waiting hnot]
    obtain ⟨c', p', hloop, hqueued⟩ := @countSendLoop_steady cfg enqueuedAcks
      (x.userBuf.length + 1) x.c x.userBuf p x.established hmax (Nat.lt_succ_self _) hnot x.separate
    obtain ⟨new, hs, hnew, hdata, hsizes⟩ := hqueued.queue
    refine ⟨_, c', p', hloop, ⟨x.c.s.outgoing, new, by rw [hs], .inl ⟨rfl, hnot⟩, fun b hb => ?_,
      hdata, hsizes⟩, ?_⟩
    · exact hqueued.others b fun hmem => (nodup_append.mp x.separate).2.2 b hb b hmem rfl
    · have hfree := congrArg (List.flatMap BufId.inPool) hnew
      rw [flatMap_inPool, flatMap_append, flatMap_inPool] at hfree
      rw [Ctx.poolBuffers, Ctx.poolBuffers, hs, hfree, flatMap_append, append_assoc]

/-- No packet has both a byte and none. -/
theorem SendsPrefix.sublist {c' : Ctx} {userBuf : List UInt8} {r : Int}
    (h : SendsPrefix c userBuf r c') (hmax : c.s.maxEnqueueSize = 0) :
    c'.s.outgoing.Sublist c.s.outgoing := by
  obtain ⟨old, new, hout, hold, -, -, hsizes⟩ := h.queue
  have hnone : new = [] := by
    refine eq_nil_iff_forall_not_mem.mpr fun b hb => ?_
    have := hsizes b hb
    omega
  rw [hout, hnone, append_nil]
  exact hold

theorem toInt16_of_lt {n : Nat} (h : n < 32768) : toInt16 n = n := if_pos h

/-- **`send` ends and queues just a prefix**, with nothing lost, if and only if the call is proper. -/
theorem send_prefix_iff (cfg : Config) (enqueuedAcks : Bool) (x : SendCall) (p : Pending) :
    (∃ fuel r c' p', countSend cfg enqueuedAcks fuel x.userBuf x.c p = some (r, c', p') ∧
      SendsPrefix x.c x.userBuf r c') ↔ Proper cfg enqueuedAcks x := by
  have hsend : ∀ fuel, countSend cfg enqueuedAcks fuel x.userBuf x.c p =
      (countSendLoop cfg enqueuedAcks fuel x.userBuf x.c p).map fun q => (toInt16 q.1, q.2) :=
    fun fuel => if_neg fun h => h x.established
  constructor
  · rintro ⟨fuel, r, c', p', hrun, hsends⟩
    by_contra hnot
    obtain ⟨hne, hnot⟩ := not_or.mp hnot
    obtain ⟨hroom, hnot⟩ := not_or.mp hnot
    obtain ⟨hpool, hnot⟩ := not_or.mp hnot
    rw [not_le] at hroom
    rw [hsend] at hrun
    obtain ⟨⟨k, c1, p1⟩, hloop, hresult⟩ := Option.map_eq_some_iff.mp hrun
    obtain ⟨rfl, hpair⟩ := Prod.mk.inj hresult
    cases hpair
    rcases Nat.eq_zero_or_pos x.c.s.maxEnqueueSize with hmax | hmax
    · exact zero_leaves_packet x hmax hne hroom hpool hloop (hsends.sublist hmax)
    · obtain ⟨fuel', c2, p2, hloop', hfilled⟩ :=
        @countSendLoop_filled cfg enqueuedAcks p x hmax hne hroom hpool
      have hsame' := countSendLoop_unique hloop hloop'
      obtain ⟨rfl, hpair'⟩ := Prod.mk.inj hsame'
      cases hpair'
      refine hnot ⟨hmax, ?_, fun b hwaiting hcarries => ?_⟩
      · by_contra hlarge
        have hrange := hsends.range.1
        have hshort := x.short
        rw [toInt16, if_neg hlarge] at hrange
        omega
      · obtain ⟨hmem, hbuf⟩ := hsends.kept b (by rw [hwaiting.2.1]; exact List.mem_singleton_self _)
          hcarries
        obtain ⟨old', new', hout', hold', -, -, hsizes'⟩ := hfilled.queue
        rcases hold' with ⟨-, hno⟩ | ⟨rfl, -⟩
        · exact hno b hwaiting
        · rw [hout', List.nil_append] at hmem
          have := (hsizes' b hmem).1
          rw [hbuf, hwaiting.2.2] at this
          omega
  · intro hproper
    by_cases hidle : x.userBuf = [] ∨ cfg.ringSize ≤ x.c.s.outgoing.length ∨ x.c.m.xmitBuffers = []
    · refine ⟨1, 0, x.c, p, ?_, ⟨⟨Int.le_refl _, Int.natCast_nonneg _⟩,
        ⟨x.c.s.outgoing, [], (List.append_nil _).symm, List.Sublist.refl _, fun _ _ => rfl, rfl,
          nofun⟩, fun b hb _ => ⟨hb, rfl⟩, List.Perm.refl _⟩⟩
      rw [hsend, countSendLoop]
      by_cases hne : x.userBuf = []
      · rw [if_pos hne]
        rfl
      · rw [if_neg hne]
        rcases hidle.resolve_left hne with hfull | hempty
        · rw [if_neg (not_lt.mpr hfull)]
          rfl
        · rw [hempty]
          split <;> rfl
    · obtain ⟨hne, hidle⟩ := not_or.mp hidle
      obtain ⟨hroom, hpool⟩ := not_or.mp hidle
      obtain ⟨hmax, hlt, hacks⟩ :=
        ((hproper.resolve_left hne).resolve_left hroom).resolve_left hpool
      obtain ⟨fuel, c', p', hloop, hfilled⟩ :=
        @countSendLoop_filled cfg enqueuedAcks p x hmax hne (not_le.mp hroom) hpool
      obtain ⟨old, new, hout, hold, hsame, hdata, hsizes⟩ := hfilled.queue
      refine ⟨fuel, _, c', p', by rw [hsend, hloop]; rfl, ⟨?_,
        ⟨old, new, hout, ?_, hsame, ?_, hsizes⟩, fun b hb hcarries => ?_, hfilled.pool⟩⟩
      · rw [toInt16_of_lt hlt]
        omega
      · rcases hold with ⟨rfl, -⟩ | ⟨rfl, -⟩
        · exact List.Sublist.refl _
        · exact List.nil_sublist _
      · rw [toInt16_of_lt hlt, Int.toNat_natCast]
        exact hdata
      · rcases hold with ⟨rfl, -⟩ | ⟨-, y, hwaiting⟩
        · exact ⟨by rw [hout]; exact List.mem_append_left _ hb, hsame b hb⟩
        · rw [hwaiting.2.1, List.mem_singleton] at hb
          subst hb
          exact absurd hcarries (hacks b hwaiting)

end

/-- A byte for a peer whose segments are to have none. -/
def narrowCall : SendCall where
  c := { oneSocket.ctx 0 with s := { (oneSocket.ctx 0).s with maxEnqueueSize := 0 } }
  userBuf := [0]
  established := rfl
  separate := by decide
  short := by decide

/-- What is queued for it is an empty packet, or another one for ever. -/
theorem narrow_sends_nothing :
    ¬ ∀ (cfg : Config) (enqueuedAcks : Bool) (x : SendCall) (p : Pending),
      ∃ fuel r c' p', countSend cfg enqueuedAcks fuel x.userBuf x.c p = some (r, c', p') ∧
        SendsPrefix x.c x.userBuf r c' := by
  intro h
  obtain ⟨fuel, r, c', p', hrun, hsends⟩ := h someConfig true narrowCall ⟨0, 0⟩
  rw [countSend, if_neg (fun hst => hst rfl)] at hrun
  obtain ⟨⟨k, c1, p1⟩, hloop, hresult⟩ := Option.map_eq_some_iff.mp hrun
  obtain ⟨-, hpair⟩ := Prod.mk.inj hresult
  cases hpair
  exact zero_leaves_packet narrowCall rfl (List.cons_ne_nil _ _) (by decide)
    (List.cons_ne_nil _ _) hloop (hsends.sublist rfl)

end SdcBoot.Mtcp
