/-
# What comes out of reassembly (`ip.cpp`)

A BigPacket should be one datagram, from its first byte to the end of its last fragment.  A slot is
known by source and ident alone, though a datagram is by destination and protocol as well; and that
the last fragment has come is remembered by a flag, which is set also for a fragment that is thrown
away, and says nothing of where the end is.  Fragments that agree in these things (`Suits`) come out
as they should.
-/
import SdcBoot.Mtcp.BigPacket
import SdcBoot.Mtcp.Ip

namespace SdcBoot.Mtcp

open List

/-! ## 1. A datagram that is whole -/

/-- The datagram a frame is part of: source, destination, protocol and ident. -/
def Frame.datagramKey (f : Frame) : Nat × Nat × Nat × Nat :=
  (f.ntohl 26, f.ntohl 30, f.protocol, f.ntohs 18)

/-- A frame as a fragment in a slot. -/
def Frame.fragment (f : Frame) : Fragment Frame := ⟨f.fragmentOffset, f.payloadLen, f⟩

def Fragment.stop {β : Type} (g : Fragment β) : Nat := g.offset + g.length

/-- One behind the other. -/
def Tiles : Nat → List (Fragment Frame) → Prop
  | _, [] => True
  | k, g :: rest => g.offset = k ∧ Tiles g.stop rest

def total (frags : List (Fragment Frame)) : Nat := (frags.map Fragment.length).sum

/-- **Fragments of one datagram**, without gaps and overlaps, up to the end of its last one; `A` says
which frames have come in.  The BigPacket has their data, and a header for just that. -/
structure Whole (A : Frame → Prop) (frags : List (Fragment Frame)) : Prop where
  arrived : ∀ g ∈ frags, A g.packet ∧ g = g.packet.fragment
  one : ∀ g ∈ frags, ∀ h ∈ frags, g.packet.datagramKey = h.packet.datagramKey
  tiles : Tiles 0 frags
  last : ∃ g ∈ frags, g.packet.isLastFragment = true ∧ g.stop = total frags
  header : ∀ old first, (makeBigPacket old first frags).ntohs 16 = 20 + total frags
  payload : ∀ old first, (makeBigPacket old first frags).bytes 34 (total frags) = fragData frags

theorem fragData_length (frags : List (Fragment Frame)) : (fragData frags).length = total frags := by
  unfold fragData total
  rw [length_flatMap]
  refine congrArg List.sum (map_congr_left fun g _ => ?_)
  unfold Datagram.bytes
  rw [length_map, length_range]

variable {frags : List (Fragment Frame)} {k : Nat}

theorem makeBigPacket_header (old : Nat → UInt8) (first : Datagram)
    (h : total frags + 20 < 65536) : (makeBigPacket old first frags).ntohs 16 = 20 + total frags := by
  have hlen : fragsLength frags = total frags := Nat.mod_eq_of_lt (by unfold total at h; omega)
  change 256 * (UInt8.ofNat ((fragsLength frags + 20) / 256)).toNat +
    (UInt8.ofNat (fragsLength frags + 20)).toNat = _
  rw [hlen, UInt8.toNat_ofNat_of_lt' (show (total frags + 20) / 256 < 256 by omega),
    UInt8.toNat_ofNat']
  omega

theorem makeBigPacket_payload (old : Nat → UInt8) (first : Datagram) (frags : List (Fragment Frame)) :
    (makeBigPacket old first frags).bytes 34 (total frags) = fragData frags := by
  have hlen := fragData_length frags
  unfold Datagram.bytes
  refine ext_getElem (by rw [length_map, length_range, hlen]) fun i h1 h2 => ?_
  rw [getElem_map, getElem_range]
  change (if 34 + i = 14 then _ else _) = _
  rw [if_neg (by omega), if_neg (by omega), if_neg (by omega), if_neg (by omega), if_neg (by omega),
    Nat.add_sub_cancel_left, getD_eq_getElem _ _ h2]

/-! ## 2. A list without gaps -/

theorem tiles_of_complete {cfg : FragConfig} (hcfg : cfg.bigPacketSize < 65536)
    (frags : List (Fragment Frame)) (h : complete k frags = true)
    (hinside : ∀ g ∈ frags, g.Inside cfg) : Tiles k frags := by
  induction frags generalizing k with
  | nil => trivial
  | cons g frags ih =>
    rw [complete, Bool.and_eq_true, beq_iff_eq] at h
    have hg : g.offset + g.length ≤ cfg.bigPacketSize := hinside g mem_cons_self
    refine ⟨h.1, ?_⟩
    rw [← h.1, Nat.mod_eq_of_lt (by omega)] at h
    exact ih h.2 fun g' hg' => hinside g' (mem_cons_of_mem g hg')

/-- In such a list each fragment stops before the end, and one at it. -/
theorem stop_le_total (h : Tiles k frags) : ∀ g ∈ frags, g.stop ≤ k + total frags := by
  induction frags generalizing k with
  | nil =>
    intro g hg
    cases hg
  | cons f frags ih =>
    obtain ⟨hoff, hrest⟩ := h
    have htotal : total (f :: frags) = f.length + total frags := rfl
    intro g hg
    rcases mem_cons.mp hg with rfl | hg
    · unfold Fragment.stop
      omega
    · have := ih hrest g hg
      unfold Fragment.stop at this ⊢
      omega

theorem stop_eq_total (h : Tiles k frags)
    (hne : frags ≠ []) : ∃ g ∈ frags, g.stop = k + total frags := by
  induction frags generalizing k with
  | nil => exact absurd rfl hne
  | cons f frags ih =>
    obtain ⟨hoff, hrest⟩ := h
    have htotal : total (f :: frags) = f.length + total frags := rfl
    by_cases hnil : frags = []
    · refine ⟨f, mem_cons_self, ?_⟩
      rw [hnil]
      change f.offset + f.length = k + (f.length + 0)
      omega
    · obtain ⟨g, hg, hstop⟩ := ih hrest hnil
      refine ⟨g, mem_cons_of_mem f hg, ?_⟩
      unfold Fragment.stop at hstop ⊢
      omega

namespace Reassembly

/-! ## 3. Slots of one datagram -/

/-- The fragments of a slot are frames of one datagram, and no last one is passed by another. -/
structure Consistent (A : Frame → Prop) (fc : FragControl Frame) : Prop where
  arrived : ∀ g ∈ fc.frags, A g.packet ∧ g = g.packet.fragment
  key : ∀ g ∈ fc.frags, g.packet.ntohl 26 = fc.srcAddr ∧ g.packet.ntohs 18 = fc.ident
  one : ∀ g ∈ fc.frags, ∀ h ∈ fc.frags, g.packet.datagramKey = h.packet.datagramKey
  ends : ∀ g ∈ fc.frags, ∀ h ∈ fc.frags, g.packet.isLastFragment = true → h.stop ≤ g.stop
  last : fc.inUse = true → fc.lastFragRcvd = true →
    ∃ g ∈ fc.frags, g.packet.isLastFragment = true

/-- A frame agrees with a fragment that is held: destination and protocol; neither passes the other,
if that is a last one; and a duplicate of it is a last fragment only if it is one. -/
structure AgreesWith (f : Frame) (g : Fragment Frame) : Prop where
  dest : f.ntohl 30 = g.packet.ntohl 30
  protocol : f.protocol = g.packet.protocol
  stop : f.isLastFragment = true → g.stop ≤ f.fragment.stop
  stopped : g.packet.isLastFragment = true → f.fragment.stop ≤ g.stop
  duplicate : f.isLastFragment = true → f.fragmentOffset = g.offset → f.payloadLen = g.length →
    g.packet.isLastFragment = true

/-- A frame that comes in is measured right, and agrees with what the slot of its source and ident
holds. -/
structure Suits (cfg : FragConfig) (s : Reassembly Frame) (f : Frame) : Prop where
  measured : f.fragInfo.tooBig cfg = decide (cfg.bigPacketSize < f.fragmentOffset + f.payloadLen)
  agrees : ∀ fc ∈ s.fragControl, fc.isFor f.fragInfo.src f.fragInfo.ident = true →
    ∀ g ∈ fc.frags, AgreesWith f g

/-- What happens to the reassembly, with frames. -/
inductive Happening where
  | arrives (f : Frame)
  | purgeOverdue (overdue : Nat → Bool)
  | returnBigPacket (bp : Nat)

def Happening.event : Happening → Event Frame
  | .arrives f => .fragment f.fragInfo f
  | .purgeOverdue overdue => .purgeOverdue overdue
  | .returnBigPacket bp => .returnBigPacket bp

/-- All slots are consistent, and all fragments inside a BigPacket. -/
structure Kept (cfg : FragConfig) (A : Frame → Prop) (s : Reassembly Frame) : Prop where
  consistent : ∀ fc ∈ s.fragControl, Consistent A fc
  inside : s.Inside cfg

variable {cfg : FragConfig} {A : Frame → Prop} {s : Reassembly Frame}

theorem killed_consistent (fc : FragControl Frame) : Consistent A fc.killed :=
  ⟨nofun, nofun, nofun, nofun, nofun⟩

theorem Kept.kill (h : Kept cfg A s) (i : Nat) (fc : FragControl Frame) :
    Kept cfg A (s.killFragmentControl i fc) where
  consistent := fun g hg => (mem_or_eq_of_mem_set hg).elim (h.consistent g) fun heq =>
    heq ▸ killed_consistent fc
  inside := h.inside.kill i fc

variable {fc : FragControl Frame}

theorem Kept.put (h : Kept cfg A s) {i : Nat} (hfc : Consistent A fc)
    (hinside : ∀ g ∈ fc.frags, g.Inside cfg) : Kept cfg A (s.put i fc) where
  consistent := fun g hg => (mem_or_eq_of_mem_set hg).elim (h.consistent g) fun heq => heq ▸ hfc
  inside := h.inside.put hinside

/-- Fragments without gaps, of a slot that knows its last one, are whole. -/
theorem Consistent.whole (h : Consistent A fc) (huse : fc.inUse = true)
    (hlast : fc.lastFragRcvd = true) (hcomplete : complete 0 fc.frags = true)
    (hcfg : cfg.bigPacketSize + 20 < 65536) (hinside : ∀ g ∈ fc.frags, g.Inside cfg) :
    Whole A fc.frags := by
  have htiles := tiles_of_complete (by omega) fc.frags hcomplete hinside
  obtain ⟨g, hg, hglast⟩ := h.last huse hlast
  obtain ⟨e, he, hend⟩ := stop_eq_total htiles (ne_nil_of_mem hg)
  have hge := h.ends g hg e he hglast
  have hle := stop_le_total htiles g hg
  have hsize : total fc.frags ≤ cfg.bigPacketSize := by
    have hin : e.offset + e.length ≤ cfg.bigPacketSize := hinside e he
    unfold Fragment.stop at hend
    omega
  exact ⟨h.arrived, h.one, htiles, ⟨g, hg, hglast, by omega⟩,
    fun old first => makeBigPacket_header old first (by omega),
    fun old first => makeBigPacket_payload old first fc.frags⟩

theorem Kept.inserted (h : Kept cfg A s) (i : Nat) (hfc : Consistent A fc) (huse : fc.inUse = true)
    (hcfg : cfg.bigPacketSize + 20 < 65536) (hinside : ∀ g ∈ fc.frags, g.Inside cfg) :
    Kept cfg A (s.inserted cfg i fc).1 ∧ ∀ b ∈ (s.inserted cfg i fc).2, Whole A b.frags := by
  unfold Reassembly.inserted
  split
  next hwhole =>
    rw [Bool.and_eq_true] at hwhole
    unfold Reassembly.makeBigPacket
    cases s.bigPacketFreeList with
    | nil => exact ⟨h.kill i fc, nofun⟩
    | cons bp rest =>
      refine ⟨⟨(h.kill i fc).consistent, (h.kill i fc).inside⟩, fun b hb => ?_⟩
      rw [← Option.mem_some.mp hb]
      exact hfc.whole huse hwhole.1 hwhole.2 hcfg hinside
  next =>
    split
    · exact ⟨h.kill i fc, nofun⟩
    · exact ⟨h.put hfc hinside, nofun⟩

/-- With a frame that agrees, a slot is still consistent. -/
theorem Consistent.insert (h : Consistent A fc) {f : Frame} (hA : A f)
    (hkey : f.ntohl 26 = fc.srcAddr ∧ f.ntohs 18 = fc.ident)
    (hagrees : ∀ g ∈ fc.frags, AgreesWith f g) {n : Nat} (hn : n ≤ fc.frags.length) :
    Consistent A { fc with lastFragRcvd := fc.lastFragRcvd || f.isLastFragment
                           frags := fc.frags.insertIdx n f.fragment } := by
  have hmem : ∀ g, g ∈ fc.frags.insertIdx n f.fragment → g = f.fragment ∨ g ∈ fc.frags :=
    fun g hg => eq_or_mem_of_mem_insertIdx hg
  have hsame : ∀ g ∈ fc.frags, f.datagramKey = g.packet.datagramKey := by
    intro g hg
    obtain ⟨hsrc, hident⟩ := h.key g hg
    unfold Frame.datagramKey
    rw [(hagrees g hg).dest, (hagrees g hg).protocol, hkey.1, hkey.2, hsrc, hident]
  refine ⟨fun g hg => ?_, fun g hg => ?_, fun g hg g' hg' => ?_, fun g hg g' hg' hlast => ?_, ?_⟩
  · rcases hmem g hg with rfl | hg
    · exact ⟨hA, rfl⟩
    · exact h.arrived g hg
  · rcases hmem g hg with rfl | hg
    · exact hkey
    · exact h.key g hg
  · rcases hmem g hg with rfl | hg <;> rcases hmem g' hg' with rfl | hg'
    · rfl
    · exact hsame g' hg'
    · exact (hsame g hg).symm
    · exact h.one g hg g' hg'
  · rcases hmem g hg with rfl | hg <;> rcases hmem g' hg' with rfl | hg'
    · exact le_rfl
    · exact (hagrees g' hg').stop hlast
    · exact (hagrees g hg).stopped hlast
    · exact h.ends g hg g' hg' hlast
  · intro huse hlast
    rcases Bool.or_eq_true_iff.mp hlast with hlast | hlast
    · obtain ⟨g, hg, hglast⟩ := h.last huse hlast
      exact ⟨g, (mem_insertIdx hn).mpr (.inr hg), hglast⟩
    · exact ⟨f.fragment, (mem_insertIdx hn).mpr (.inl rfl), hlast⟩

/-- The flag, as one expression. -/
theorem flagged_eq (fc : FragControl Frame) (last : Bool) :
    (if last then { fc with lastFragRcvd := true } else fc) =
      { fc with lastFragRcvd := fc.lastFragRcvd || last } := by
  cases last with
  | true => rw [if_pos rfl, Bool.or_true]
  | false => rw [if_neg Bool.false_ne_true, Bool.or_false]

theorem Kept.addFragment (h : Kept cfg A s) {f : Frame} (hA : A f)
    (hcfg : cfg.bigPacketSize + 20 < 65536) (hsuits : Suits cfg s f) {i : Nat}
    (hi : i < s.fragControl.length)
    (hfor : (s.fragControl.getD i .idle).isFor f.fragInfo.src f.fragInfo.ident = true) :
    Kept cfg A (s.addFragment cfg f.fragInfo f i (s.fragControl.getD i .idle)).1 ∧
      ∀ b ∈ (s.addFragment cfg f.fragInfo f i (s.fragControl.getD i .idle)).2, Whole A b.frags := by
  have hfc := h.consistent _ (getD_mem hi)
  have hagrees := hsuits.agrees _ (getD_mem hi) hfor
  have hslot := h.inside _ (getD_mem hi)
  generalize s.fragControl.getD i .idle = fc at hfor hfc hagrees hslot ⊢
  unfold FragControl.isFor at hfor
  rw [Bool.and_eq_true, Bool.and_eq_true, beq_iff_eq, beq_iff_eq] at hfor
  unfold Reassembly.addFragment
  split
  · exact ⟨h.kill i fc, nofun⟩
  next hbig =>
    have hfits : f.fragmentOffset + f.payloadLen ≤ cfg.bigPacketSize := by
      have hmeasured := hsuits.measured
      rw [Bool.eq_false_iff.mpr hbig] at hmeasured
      exact Nat.le_of_not_lt (of_decide_eq_false hmeasured.symm)
    dsimp only
    rw [flagged_eq]
    have hpos : fc.insertPos f.fragInfo.offset ≤ fc.frags.length := findIdx_le_length
    have hinsert := hfc.insert hA ⟨hfor.1.2.symm, hfor.2.symm⟩ hagrees hpos
    have hinside : ∀ g ∈ fc.frags.insertIdx (fc.insertPos f.fragInfo.offset) f.fragment,
        g.Inside cfg := by
      intro g hg
      rcases eq_or_mem_of_mem_insertIdx hg with rfl | hg
      · exact hfits
      · exact hslot g hg
    have hsame : ∀ last offset, ({ fc with lastFragRcvd := last } : FragControl Frame).insertPos offset =
        fc.insertPos offset := fun _ _ => rfl
    rw [hsame]
    dsimp only
    cases hat : fc.frags[fc.insertPos f.fragInfo.offset]? with
    | none => exact h.inserted i hinsert hfor.1.1 hcfg hinside
    | some g =>
      dsimp only
      have hg : g ∈ fc.frags := mem_of_getElem? hat
      split
      next hdup =>
        refine ⟨h.put ⟨hfc.arrived, hfc.key, hfc.one, hfc.ends, fun huse hlast => ?_⟩ hslot, nofun⟩
        rcases Bool.or_eq_true_iff.mp hlast with hlast | hlast
        · exact hfc.last huse hlast
        · exact ⟨g, hg, (hagrees g hg).duplicate hlast hdup.1 hdup.2⟩
      next =>
        split
        · exact ⟨h.kill i _, nofun⟩
        · exact h.inserted i hinsert hfor.1.1 hcfg hinside

/-- What is asked of a happening. -/
def Suit (cfg : FragConfig) (s : Reassembly Frame) : Happening → Prop
  | .arrives f => Suits cfg s f
  | _ => True

/-- And of a run. -/
def AllSuit (cfg : FragConfig) : Reassembly Frame → List Happening → Prop
  | _, [] => True
  | s, h :: rest => Suit cfg s h ∧ AllSuit cfg (s.step cfg h.event).1 rest

/-- **One happening** keeps the slots consistent, and a BigPacket is whole. -/
theorem Kept.step (h : Kept cfg A s) (hcfg : cfg.bigPacketSize + 20 < 65536) {e : Happening}
    (hA : ∀ f, e = .arrives f → A f) (he : Suit cfg s e) :
    Kept cfg A (s.step cfg e.event).1 ∧ ∀ b ∈ (s.step cfg e.event).2, Whole A b.frags := by
  cases e with
  | arrives f =>
    change Kept cfg A (s.processFragment cfg f.fragInfo f).1 ∧
      ∀ b ∈ (s.processFragment cfg f.fragInfo f).2, Whole A b.frags
    unfold Reassembly.processFragment
    cases hfind : findFragControl s.fragControl f.fragInfo.src f.fragInfo.ident with
    | none =>
      refine ⟨?_, nofun⟩
      unfold Reassembly.startFragment
      cases findOpenFragControl s.fragControl with
      | none => exact h
      | some i =>
        dsimp only
        split
        · exact h
        next hbig =>
          have hfits : f.fragmentOffset + f.payloadLen ≤ cfg.bigPacketSize := by
            have hmeasured := he.measured
            rw [Bool.eq_false_iff.mpr hbig] at hmeasured
            exact Nat.le_of_not_lt (of_decide_eq_false hmeasured.symm)
          have hput : Kept cfg A (s.put i ⟨true, f.fragInfo.last, f.fragInfo.src, f.fragInfo.ident,
              [f.fragment]⟩) := h.put ⟨?_, ?_, ?_, ?_, ?_⟩ ?_
          · exact ⟨hput.consistent, hput.inside⟩
          · intro g hg
            rw [mem_singleton.mp hg]
            exact ⟨hA f rfl, rfl⟩
          · intro g hg
            rw [mem_singleton.mp hg]
            exact ⟨rfl, rfl⟩
          · intro g hg g' hg'
            rw [mem_singleton.mp hg, mem_singleton.mp hg']
          · intro g hg g' hg' _
            rw [mem_singleton.mp hg, mem_singleton.mp hg']
          · intro _ hlast
            exact ⟨f.fragment, mem_singleton_self _, hlast⟩
          · intro g hg
            rw [mem_singleton.mp hg]
            exact hfits
    | some i =>
      obtain ⟨hi, hfor, -⟩ := findIdx?_eq_some_iff_getElem.mp hfind
      refine h.addFragment (hA f rfl) hcfg he hi ?_
      rw [getD_eq_getElem _ _ hi]
      exact hfor
  | purgeOverdue overdue =>
    exact ⟨purgeOverdue_keeps (fun t i _ ht => ht.kill i _) overdue h, nofun⟩
  | returnBigPacket bp =>
    refine ⟨?_, nofun⟩
    change Kept cfg A (s.returnBigPacket bp)
    unfold Reassembly.returnBigPacket
    split
    · exact ⟨h.consistent, h.inside⟩
    · exact h

/-- **A run** whose frames all suit makes whole datagrams. -/
theorem Kept.run (h : Kept cfg A s) (hcfg : cfg.bigPacketSize + 20 < 65536)
    {happenings : List Happening} (hA : ∀ f, .arrives f ∈ happenings → A f)
    (hsuit : AllSuit cfg s happenings) :
    ∀ b ∈ (s.run cfg (happenings.map Happening.event)).2, Whole A b.frags := by
  induction happenings generalizing s with
  | nil =>
    intro b hb
    cases hb
  | cons e happenings ih =>
    obtain ⟨hnext, hmade⟩ := h.step hcfg (fun f hf => hA f (hf ▸ mem_cons_self)) hsuit.1
    intro b hb
    rcases mem_append.mp hb with hb | hb
    · exact hmade b (Option.mem_toList.mp hb)
    · exact ih hnext (fun f hf => hA f (mem_cons_of_mem e hf)) hsuit.2 b hb

theorem init_kept (slots : Nat) : Kept cfg A (init slots) := by
  constructor
  · intro fc hfc
    rw [eq_of_mem_replicate hfc]
    exact ⟨nofun, nofun, nofun, nofun, nofun⟩
  · intro fc hfc
    rw [eq_of_mem_replicate hfc]
    exact nofun

end Reassembly

end SdcBoot.Mtcp
