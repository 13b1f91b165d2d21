/-
# mTCP: one socket, from its opening on

A connection is opened by `connect`, or by a SYN that a listening socket answers.  From then on one
socket can be followed alone: the segments that are meant for it, the calls of its user and its
turns in `drivePackets2` are its moves.  What the other sockets do to the shared part meanwhile is
one more move.

An answer is what the user gets from a move: bytes that were read, bytes that were taken to be sent.
-/
import SdcBoot.Mtcp.Stack

namespace SdcBoot.Mtcp

open Lib

/-! ## 1. Moves -/

inductive Move where
  | segment (resolves : Bool) (g : Segment)
  | drive (env : Env)
  | recv (userBufLen : Nat) (resolves : Bool)
  | send (userBuf : List UInt8)
  | enqueue (data : List UInt8)
  | shutdownRead
  | close
  | others (m : Shared)

structure Answer where
  read : List UInt8
  taken : List UInt8

def Answer.none : Answer := ⟨[], []⟩

/-- A buffer of the pool is filled by the user and handed to `enqueue`; if it is refused it goes
back. -/
def enqueueData (cfg : Config) (data : List UInt8) (c : Ctx) : Bool × Ctx :=
  match c.m.getXmitBuf with
  | (none, _) => (false, c)
  | (some n, m) =>
    let r := enqueue cfg (.pool n) ({ c with m := m }.setBuf (.pool n) fun b => b.withData data)
    if r.1 = TCP_RC_GOOD then (true, r.2)
    else (false, { r.2 with m := r.2.m.returnXmitBuf (.pool n) })

theorem enqueueData_s (cfg : Config) (data : List UInt8) (c : Ctx) :
    ∃ out, (enqueueData cfg data c).2.s = { c.s with outgoing := out } := by
  unfold enqueueData
  split
  · exact ⟨_, rfl⟩
  · rename_i n m _
    obtain ⟨out, hq, -⟩ := enqueue_s cfg (.pool n)
      ({ c with m := m }.setBuf (.pool n) fun b => b.withData data)
    refine ⟨out, ?_⟩
    dsimp only
    split
    · exact hq
    · exact hq

/-- `process` does not find a socket that is closed or waits. -/
def receive (cfg : Config) (resolves : Bool) (g : Segment) (c : Ctx) : Ctx :=
  if c.s.state = .closed ∨ c.s.state = .timeWait then c else process2 cfg resolves g c

def move (cfg : Config) (c : Ctx) : Move → Answer × Ctx
  | .segment resolves g => (Answer.none, receive cfg resolves g c)
  | .drive env => (Answer.none, (driveSocket cfg env c).2)
  | .recv userBufLen resolves =>
    (⟨(Mtcp.recv cfg resolves userBufLen c).1.getD [], []⟩,
      (Mtcp.recv cfg resolves userBufLen c).2)
  | .send userBuf =>
    (⟨[], userBuf.take ((Mtcp.send cfg userBuf c).1.getD 0)⟩, (Mtcp.send cfg userBuf c).2)
  | .enqueue data =>
    (⟨[], if (enqueueData cfg data c).1 then data else []⟩, (enqueueData cfg data c).2)
  | .shutdownRead => (Answer.none, { c with s := { c.s with disableReads := true } })
  | .close => (Answer.none, closeLocal cfg c)
  | .others m => (Answer.none, { c with m := m })

/-! ## 2. How a connection begins -/

/-- A fresh socket with a receive buffer, and `connect`. -/
def opened (cfg : Config) (i : Nat) (iss : UInt32) (srcPort host dstPort size : Nat) (m : Shared) :
    Ctx :=
  connect2 cfg srcPort host dstPort
    { s := { freshSocket i iss with
        rcv := (setRecvBuffer size true (freshSocket i iss).rcv).2 }
      m := m.setBuf (.connect i) fun _ => zeroBuffer }

/-- The sizes `setRecvBuffer` takes. -/
def SizeOk (size : Nat) : Prop := 512 ≤ size ∧ size ≤ 16384

theorem setRecvBuffer_ok {size : Nat} (h : SizeOk size) (r : RcvBuffer) :
    setRecvBuffer size true r =
      (true, { r with rcvBufSize := size, rcvBuffer := some fun _ => 0 }) := by
  unfold setRecvBuffer
  rw [if_neg (by have := h.1; omega), if_neg (by have := h.1; have := h.2; omega), if_pos rfl]

/-- The socket that `connect` leaves. -/
theorem opened_s (cfg : Config) (i : Nat) (iss : UInt32) (srcPort host dstPort : Nat) {size : Nat}
    (m : Shared) (h : SizeOk size) :
    (opened cfg i iss srcPort host dstPort size m).s =
      { freshSocket i iss with
        srcPort := srcPort, dstHost := host, dstPort := dstPort, state := .synSent
        rcv := ⟨some fun _ => 0, 0, 0, 0, size⟩, outgoing := [.connect i] } := by
  have hpos : ¬ (0 = cfg.ringSize) := ne_of_lt cfg.ringPos
  unfold opened connect2
  rw [setRecvBuffer_ok h]
  simp [freshSocket, enqueueConnect, enqueue, TcpSocket.refuses, hpos]

/-- The socket that a SYN opens. -/
theorem processSyn_s (cfg : Config) {w : World} {i j : Nat} {rest : List Nat} (iss : UInt32)
    (g : Segment) (havail : w.m.availSocketTable = j :: rest)
    (h : SizeOk (w.sock i).rcv.rcvBufSize) :
    (processSyn cfg iss true g i w).sock j =
      { (freshSocket j iss).setMaxEnqueueSize cfg g with
        pendingAccept := true, srcPort := (w.sock i).srcPort, dstHost := g.srcHost
        dstPort := g.srcPort, state := .synRecved, ackNum := g.seqnum + 1
        rcv := ⟨some fun _ => 0, 0, 0, 0, (w.sock i).rcv.rcvBufSize⟩
        outgoing := [.connect i] } := by
  have hpos : ¬ (0 = cfg.ringSize) := ne_of_lt cfg.ringPos
  unfold processSyn
  rw [havail]
  dsimp only
  rw [setRecvBuffer_ok h, if_pos rfl]
  simp [World.on, World.put, World.ctx, reinit, freshSocket, enqueueConnect, enqueue,
    TcpSocket.refuses, TcpSocket.setMaxEnqueueSize, hpos]

end SdcBoot.Mtcp
