/-
# mTCP: the two ends of a connection

Both ends of a connection are sockets of mTCP, and each of them sends and receives.  The network
between them loses, repeats, delays and reorders: a packet that was on the wire once comes at any
time, any number of times, or never.

One end lays its bytes out in its sequence space, and the other puts together what comes.  In every
interleaving of the two, what one user has read is the start of what the other one has sent.
-/
import SdcBoot.Mtcp.Receive
import SdcBoot.Mtcp.Sequence

namespace SdcBoot.Mtcp

open Lib

/-! ## 1. The ends -/

/-- A socket, with what is noted about what it sends and about what it receives. -/
structure End where
  flow : Flow
  track : Track
  same : track.c = flow.c

def End.step (cfg : Config) (e : End) (mv : Move) : Answer × End :=
  ((e.flow.step cfg mv).1,
    ⟨(e.flow.step cfg mv).2, (e.track.step cfg mv).2, congrArg (fun c => (move cfg c mv).2) e.same⟩)

/-- A move of one of the ends. -/
def endsStep (cfg : Bool → Config) (ends : Bool → End) (call : Bool × Move) :
    Answer × (Bool → End) :=
  let r := (ends call.1).step (cfg call.1) call.2
  (r.1, Function.update ends call.1 r.2)

/-- The packet comes as the segment; how far it acknowledges is left open. -/
structure ComesAs (p : Packet) (g : Segment) : Prop where
  seqnum : g.seqnum = p.headers.seqnum
  codeBits : g.codeBits = p.headers.codeBits
  data : g.data = p.payload

/-- A segment comes to `e` from its peer, whose numbers begin at `iss`.  If it brings bytes, it is
not misplaced, and its number has not come round. -/
def Arrives (cfg : Config) (iss : UInt32) (e peer : End) (g : Segment) : Prop :=
  (∃ p ∈ peer.flow.c.m.wire, p.socket = peer.flow.c.s.self ∧ ComesAs p g) ∧
    (BringsData cfg e.track.c.s g → ¬ Misplaced e.track.c.s g ∧
      ∀ k, g.seqnum = iss + 1 + UInt32.ofNat k →
        k + g.data.length ≤ peer.flow.accepted.length → Near e.track.put k)

/-- **The condition on a move.** -/
def Connected (cfg : Bool → Config) (iss : Bool → UInt32) (ends : Bool → End)
    (call : Bool × Move) : Prop :=
  InTurn (cfg call.1) (iss call.1) (ends call.1).flow call.2 ∧
    ∀ resolves g, call.2 = .segment resolves g →
      Arrives (cfg call.1) (iss !call.1) (ends call.1) (ends !call.1) g

/-! ## 2. What one sends is what the other takes -/

/-- A packet on the wire carries bytes of the stream. -/
theorem Laid.carries {iss : UInt32} {f : Flow} (h : Laid iss f) {p : Packet} {g : Segment}
    (hp : p ∈ f.c.m.wire) (hself : p.socket = f.c.s.self) (hg : ComesAs p g) :
    ∃ k, Carries ⟨iss, f.accepted⟩ g k ∧ (g.data ≠ [] →
      g.seqnum = iss + 1 + UInt32.ofNat k ∧ k + g.data.length ≤ f.accepted.length) := by
  have hsyn : g.codeBits.syn = true → g.seqnum = iss ∧ g.data = [] := by
    rw [hg.codeBits, hg.seqnum, hg.data]
    exact h.syn p hp hself
  by_cases hdata : g.data = []
  · have hno : g.data ≠ [] → False := fun hne => hne hdata
    exact ⟨0, ⟨fun hs => (hsyn hs).1, fun hne => (hno hne).elim, fun hne => (hno hne).elim,
      fun hne => (hno hne).elim⟩, fun hne => (hno hne).elim⟩
  · obtain ⟨k, hseq, hlen, hslice⟩ := h.data p hp hself (hg.data ▸ hdata)
    rw [← hg.seqnum] at hseq
    rw [← hg.data] at hlen hslice
    exact ⟨k, ⟨fun hs => (hsyn hs).1, fun hne hs => absurd (hsyn hs).2 hne, fun _ _ => hseq,
      fun _ => ⟨hlen, hslice⟩⟩, fun _ => ⟨hseq, hlen⟩⟩

/-- The peer may send more. -/
theorem Follows.more {irs : UInt32} {stream : List UInt8} {t : Track}
    (h : Follows ⟨irs, stream⟩ t) (more : List UInt8) : Follows ⟨irs, stream ++ more⟩ t := by
  refine ⟨h.unsynced, h.synced, h.ackNum, h.fin, h.buffer,
    h.delivered.trans (List.prefix_append stream more), fun ring hring => ?_⟩
  obtain ⟨hvalid, hput, heq⟩ := h.ring ring hring
  refine ⟨hvalid, ?_, ?_⟩
  · rw [List.length_append]
    exact Nat.le_add_right_of_le hput
  · rw [List.take_append_of_le_length hput]
    exact heq

/-! ## 3. Every interleaving -/

/-- The invariant. -/
structure Joined (iss : Bool → UInt32) (ends : Bool → End) : Prop where
  ordered : ∀ i, Ordered (iss i) (ends i).flow
  follows : ∀ i, Follows ⟨iss !i, (ends !i).flow.accepted⟩ (ends i).track

variable {cfg : Bool → Config} {iss : Bool → UInt32} {ends : Bool → End}

/-- What comes is what the receiver expects. -/
theorem Joined.expected (h : Joined iss ends) {call : Bool × Move}
    (hok : Connected cfg iss ends call) :
    Expected (cfg call.1) ⟨iss !call.1, (ends !call.1).flow.accepted⟩ (ends call.1).track call.2 := by
  obtain ⟨i, mv⟩ := call
  cases mv with
  | segment resolves g =>
    obtain ⟨⟨p, hp, hself, hg⟩, hnear⟩ := hok.2 resolves g rfl
    obtain ⟨k, hcarries, hplace⟩ := (h.ordered (!i)).laid.carries hp hself hg
    refine ⟨k, hcarries, fun hbrings => ?_⟩
    obtain ⟨hseq, hlen⟩ := hplace hbrings.1
    exact ⟨(hnear hbrings).2 k hseq hlen, (hnear hbrings).1⟩
  | _ => trivial

/-- **One move of either end.** -/
theorem joined_step (h : Joined iss ends) {call : Bool × Move}
    (hok : Connected cfg iss ends call) : Joined iss (endsStep cfg ends call).2 := by
  have hexp := h.expected hok
  obtain ⟨i, mv⟩ := call
  have hself : (endsStep cfg ends (i, mv)).2 i = ((ends i).step (cfg i) mv).2 :=
    Function.update_self ..
  have hother : (endsStep cfg ends (i, mv)).2 (!i) = ends !i :=
    Function.update_of_ne (Bool.not_ne_self i) ..
  have hboth : ∀ {P : Bool → Prop}, P i → P (!i) → ∀ j, P j := by
    intro P hi hn j
    cases i <;> cases j <;> assumption
  refine ⟨hboth ?_ ?_, hboth ?_ ?_⟩
  · rw [hself]
    exact ordered_step (h.ordered i) hok.1
  · rw [hother]
    exact h.ordered (!i)
  · rw [hself, hother]
    exact follows_step (h.follows i) hexp
  · -- the stream of the end that moved has grown
    rw [hother, Bool.not_not, hself]
    have hpeer := h.follows (!i)
    rw [Bool.not_not] at hpeer
    exact hpeer.more _

/-- **What is read is what was sent**, in both directions and in every interleaving of the two
ends. -/
theorem read_is_sent (cfg : Bool → Config) (iss : Bool → UInt32) (ends : Bool → End)
    (calls : List (Bool × Move)) (hstarts : ∀ i, Starts (cfg i) (iss i) (ends i).flow)
    (hbegins : ∀ i, Begins (cfg i) ⟨iss !i, (ends !i).flow.accepted⟩ (ends i).track)
    (hok : Guarded (endsStep cfg) (Connected cfg iss) ends calls) (i : Bool) :
    (run (endsStep cfg) ends calls i).track.delivered <+:
      (run (endsStep cfg) ends calls (!i)).flow.accepted := by
  have hinv : Joined iss (run (endsStep cfg) ends calls) :=
    Guarded.run_invariant (I := Joined iss) (fun _ _ h hok => joined_step h hok) calls ends
      ⟨fun j => (hstarts j).ordered, fun j => (hbegins j).follows⟩ hok
  exact (hinv.follows i).delivered

/-- A socket that connects at 5000, and the one that answers its SYN. -/
def twoEnds : Bool → End
  | true => ⟨⟨opened someConfig 0 5000 4000 7 80 1024 (init 1 2).m, [], false,
      fun _ => zeroBuffer.packet 0⟩,
      ⟨opened someConfig 0 5000 4000 7 80 1024 (init 1 2).m, [], 0, false, false⟩, rfl⟩
  | false => ⟨answered, answering, rfl⟩

/-- The connection is opened, and a byte goes over. -/
def byteOver : List (Bool × Move) :=
  [(true, .drive (arp true)), (false, .drive (arp true)),
    (true, .segment true (bare 100 5001 (Role.codeBits .synAck))), (true, .send [97]),
    (true, .drive (arp true)),
    (false, .segment true { firstByte 101 with codeBits := { CodeBits.justAck with psh := true } }),
    (false, .recv 10 true)]

theorem byteOver_read :
    (run (endsStep fun _ => someConfig) twoEnds byteOver false).track.delivered <+:
      (run (endsStep fun _ => someConfig) twoEnds byteOver true).flow.accepted := by
  have hsize : SizeOk 1024 := by
    unfold SizeOk
    decide
  refine read_is_sent (fun _ => someConfig) (fun i => if i then 5000 else 100) twoEnds byteOver ?_ ?_
    ⟨⟨trivial, nofun⟩, ⟨trivial, nofun⟩, ⟨⟨fun _ => Or.inr ?_, fun _ _ => ?_, fun _ h => ?_,
      fun _ h => ?_⟩, ?_⟩, ⟨trivial, nofun⟩, ⟨trivial, nofun⟩, ⟨⟨fun _ => Or.inr ?_, fun _ _ => ?_,
      fun _ h => ?_, fun _ h => ?_⟩, ?_⟩, ⟨trivial, nofun⟩, trivial⟩ false
  · rintro (_ | _)
    · exact answered_starts
    · exact Starts.connect 0 4000 7 80 1024 (init 1 2).m (by decide +kernel) (by decide +kernel)
  · rintro (_ | _)
    · exact Begins.syn (run (step someConfig) (init 2 1) [.getSocket 0, .listen 1 4000 1024]) 1 0 [] 100
        (bare 5000 0 .justSyn) (by decide +kernel) hsize rfl
    · exact Begins.connect 0 5000 4000 7 80 1024 (init 1 2).m hsize
  · decide +kernel
  · decide +kernel
  · cases h
  · cases h
  · rintro _ _ ⟨⟩
    exact ⟨⟨_, List.mem_of_getElem? (i := 0) rfl, by decide +kernel, by decide +kernel,
      by decide +kernel, by decide +kernel⟩, fun h => absurd rfl h.1⟩
  · decide +kernel
  · decide +kernel
  · decide +kernel
  · decide +kernel
  · rintro _ _ ⟨⟩
    refine ⟨⟨_, List.mem_of_getElem? (i := 2) rfl, by decide +kernel, by decide +kernel,
      by decide +kernel, by decide +kernel⟩, fun _ => ⟨?_, fun k _ hk => ?_⟩⟩
    · rintro (⟨-, -, h⟩ | ⟨h, -⟩)
      · cases h
      · cases h
    · have hk : k + 1 ≤ 1 := hk
      obtain rfl : k = 0 := by omega
      unfold Near
      decide +kernel

end SdcBoot.Mtcp
