/-
# Upper memory: `DosUmbLink` and `FreeProcessMem`

Upper memory blocks form a chain of their own from `uppermem_root`.  `DosUmbLink(1)` makes it the
continuation of the low chain, by giving the last low block the type `MCB_NORMAL`;
`DosUmbLink(0)` undoes this.  `FreeProcessMem`, called when a process ends, links upper memory,
frees every block the process owns, and restores the link state.

`freeProcessMem_spec` says exactly what is left: from any of the three layouts (no upper memory,
linked, not linked) every block of the process is free, every other MCB is as it was, and so is
the link state.
-/
import SdcBoot.Memory.Chain

namespace SdcBoot.Memory

open Lib List

/-! ## 1. The functions -/

/-- The loop of `DosUmbLink`: where it stops, with the block before, or `none` inside if an
invalid MCB makes the function return. -/
def umbWalk (m : Nat → Mcb) (uppermemRoot : Nat) :
    Nat → Nat → Option Nat → Option (Option (Nat × Option Nat))
  | 0, _, _ => none
  | fuel + 1, p, q =>
    if p ≠ uppermemRoot ∧ (m p).mType ≠ MCB_LAST then
      if !(m p).valid then some none
      else umbWalk m uppermemRoot fuel (nxtMCB m p) (some p)
    else some (some (p, q))

/-- `DosUmbLink`.  (If the walk stops at once there is no block before the root to unlink, and
the code would follow an uninitialised pointer: that too is `none`.) -/
def dosUmbLink (a : Arena) (n : Nat) : Option Arena :=
  if a.uppermemRoot = 0xffff then some a
  else if n > 1 ∨ a.uppermemLink % 2 = n then some a
  else
    match umbWalk a.mem a.uppermemRoot walkFuel a.firstMcb none with
    | none => none
    | some none => some a
    | some (some (p, q)) =>
      if n = 0 then
        match q with
        | none => none
        | some q =>
          let m :=
            if (a.mem q).mType = MCB_NORMAL ∧ p = a.uppermemRoot then
              put a.mem q { a.mem q with mType := MCB_LAST }
            else a.mem
          some { a with mem := m, uppermemLink := n }
      else if (a.mem p).mType = MCB_LAST then
        some { a with mem := put a.mem p { a.mem p with mType := MCB_NORMAL }, uppermemLink := n }
      else some a

/-- The loop of `FreeProcessMem`. -/
def freeWalk (ps : Nat) : Nat → Arena → Nat → Option (Int × Arena)
  | 0, _, _ => none
  | fuel + 1, a, p =>
    if !(a.mem p).valid then some (DE_MCBDESTRY, a)
    else
      let a := if (a.mem p).mPsp = ps then (dosMemFree a p).2 else a
      if (a.mem p).mType = MCB_LAST then some (SUCCESS, a)
      else freeWalk ps fuel a (nxtMCB a.mem p)

/-- `FreeProcessMem`. -/
def freeProcessMem (a : Arena) (ps : Nat) : Option (Int × Arena) :=
  let oldumbstate := a.uppermemLink % 2
  match dosUmbLink a 1 with
  | none => none
  | some a =>
    match freeWalk ps walkFuel a a.firstMcb with
    | none => none
    | some (rc, a) =>
      if rc ≠ SUCCESS then some (rc, a)
      else (dosUmbLink a oldumbstate).map fun a => (SUCCESS, a)

/-! ## 2. Freeing the blocks of one owner -/

/-- The memory with the MCBs at `segs` that `ps` owns made free. -/
def released (ps : Nat) (m : Nat → Mcb) (segs : List Nat) : Nat → Mcb := fun s =>
  if s ∈ segs ∧ (m s).mPsp = ps then { m s with mPsp := FREE_PSP } else m s

/-- The MCB of a block when `ps` has ended. -/
def Mcb.releasedBy (ps : Nat) (b : Mcb) : Mcb :=
  if b.mPsp = ps then { b with mPsp := FREE_PSP } else b

@[simp] theorem releasedBy_mSize (ps : Nat) (b : Mcb) : (b.releasedBy ps).mSize = b.mSize := by
  unfold Mcb.releasedBy
  split <;> rfl

@[simp] theorem releasedBy_mType (ps : Nat) (b : Mcb) : (b.releasedBy ps).mType = b.mType := by
  unfold Mcb.releasedBy
  split <;> rfl

variable {hi lo ps root : Nat} {m : Nat → Mcb} {segs : List Nat} {b l : Block}
  {bs low up : List Block} {a : Arena}

theorem released_of_mem {s : Nat} (h : s ∈ segs) : released ps m segs s = (m s).releasedBy ps := by
  simp [released, Mcb.releasedBy, h]

theorem released_of_not_mem {s : Nat} (h : s ∉ segs) : released ps m segs s = m s := by
  simp [released, h]

/-- `DosMemFree` of a block of the process, in terms of its MCB. -/
theorem freeStep_mem (a : Arena) {p : Nat} (hp : p ≠ 0) (hv : (a.mem p).valid = true) :
    (if (a.mem p).mPsp = ps then (dosMemFree a p).2 else a) =
      { a with mem := put a.mem p ((a.mem p).releasedBy ps) } := by
  have hfree : (a.mem p).freeable = true := by
    have := hv
    simp only [Mcb.valid, Bool.and_eq_true] at this
    exact this.2
  split
  · rename_i hps
    simp [dosMemFree, hp, hfree, Mcb.releasedBy, hps]
  · rename_i hps
    have hself : put a.mem p (a.mem p) = a.mem := Function.update_eq_self p a.mem
    rw [Mcb.releasedBy, if_neg hps, hself]

theorem releasedBy_twice (ps : Nat) (b : Mcb) : (b.releasedBy ps).releasedBy ps = b.releasedBy ps := by
  unfold Mcb.releasedBy
  by_cases h : b.mPsp = ps
  · rw [if_pos h]
    split <;> rfl
  · rw [if_neg h, if_neg h]

/-- Freeing one block first and then the rest. -/
theorem released_put (ps : Nat) (m : Nat → Mcb) (p : Nat) (segs : List Nat) :
    released ps (put m p ((m p).releasedBy ps)) segs = released ps m (p :: segs) := by
  funext s
  by_cases hs : s = p
  · subst hs
    rw [released_of_mem (mem_cons_self)]
    by_cases hmem : s ∈ segs
    · rw [released_of_mem hmem, put_self, releasedBy_twice]
    · rw [released_of_not_mem hmem, put_self]
  · by_cases hmem : s ∈ segs
    · rw [released_of_mem hmem, put_ne hs, released_of_mem (.tail _ hmem)]
    · rw [released_of_not_mem hmem, put_ne hs, released_of_not_mem]
      simp [hs, hmem]

/-- The tail of a chain, in a memory that differs only at the head. -/
theorem Chain.tail {c : Block} {x : Mcb} (h : Chain m lo (b :: c :: bs) hi) :
    Chain (put m lo x) (lo + 1 + b.hdr.mSize) (c :: bs) hi := by
  refine ⟨h.tiles.2.2.congr fun s hs _ => put_ne (by omega) _, h.ends.2, fun d hd => ?_⟩
  exact h.sizes d (.tail _ hd)

/-- **The loop frees just the blocks of the process.** -/
theorem freeWalk_spec (ps hi : Nat) (hhi : hi ≤ 0x10000) : ∀ (bs : List Block) (fuel : Nat)
    (a : Arena) (lo : Nat), 0 < lo → Chain a.mem lo bs hi → bs.length ≤ fuel →
    freeWalk ps fuel a lo =
      some (SUCCESS, { a with mem := released ps a.mem (bs.map Tile.seg) })
  | [], _, _, _, _, h, _ => nomatch h.ends
  | b :: bs, 0, _, _, _, _, hlen => nomatch hlen
  | b :: bs, fuel + 1, a, lo, hlo, h, hlen => by
    have hseg : b.seg = lo := h.tiles.1
    have hmb : a.mem lo = b.hdr := h.tiles.2.1
    have hv : (a.mem lo).valid = true := hseg ▸ h.valid mem_cons_self
    unfold freeWalk
    rw [if_neg (by simp [hv])]
    rw [freeStep_mem a (by omega) hv]
    simp only [put_self, releasedBy_mType, hmb]
    cases bs with
    | nil =>
      have hlast : b.hdr.mType = MCB_LAST := h.ends
      have hrel := released_put ps a.mem lo []
      have hnil : ∀ m, released ps m [] = m := fun m => funext fun s => released_of_not_mem (by simp)
      rw [hnil, hmb] at hrel
      rw [if_pos hlast, hrel]
      simp [hseg]
    | cons c bs =>
      have hnorm : b.hdr.mType = MCB_NORMAL := h.ends.1
      have hle := h.tiles.2.2.length_le
      simp only [length_cons] at hle hlen
      have hnext : nxtMCB (put a.mem lo (b.hdr.releasedBy ps)) lo = lo + 1 + b.hdr.mSize := by
        rw [nxtMCB, put_self, releasedBy_mSize]
        exact nxtMCBsize_eq (by omega)
      rw [if_neg (by rw [hnorm]; decide), hnext,
        freeWalk_spec ps hi hhi (c :: bs) fuel _ _ (by omega) h.tail (by simpa using hlen)]
      have hrel := released_put ps a.mem lo ((c :: bs).map Tile.seg)
      rw [hmb] at hrel
      rw [hrel]
      simp [hseg]

/-! ## 3. Linking and unlinking -/

/-- A `MCB_NORMAL` block in front of the root is passed. -/
theorem umbWalk_pass {fuel : Nat} {q : Option Nat} (hmb : m lo = b.hdr) (hne : lo ≠ root)
    (hnorm : b.hdr.mType = MCB_NORMAL) (hsize : b.hdr.mSize ≠ 0xffff)
    (hend : lo + 1 + b.hdr.mSize < 0x10000) :
    umbWalk m root (fuel + 1) lo q = umbWalk m root fuel (lo + 1 + b.hdr.mSize) (some lo) := by
  have hv : b.hdr.valid = true := by simp [Mcb.valid, Mcb.freeable, hnorm, hsize]
  have hnext : nxtMCB m lo = lo + 1 + b.hdr.mSize := by
    rw [nxtMCB, hmb]
    exact nxtMCBsize_eq hend
  rw [umbWalk, if_pos ⟨hne, by rw [hmb, hnorm]; decide⟩, hmb, hv, hnext]
  rfl

/-- Along low memory that is linked, the walk stops at the root, behind the last low block. -/
theorem umbWalk_to_root (hroot : root < 0x10000) :
    ∀ (pre : List Block) (fuel lo : Nat) (q : Option Nat),
      Tiles Mcb.mSize m lo (pre ++ [l]) root →
      (∀ b ∈ pre ++ [l], b.hdr.mType = MCB_NORMAL ∧ b.hdr.mSize ≠ 0xffff) →
      pre.length + 1 < fuel → umbWalk m root fuel lo q = some (some (root, some l.seg))
  | pre, 0, _, _, _, _, hf => absurd hf (by omega)
  | [], 1, _, _, _, _, hf => absurd hf (by simp)
  | [], fuel + 2, lo, q, h, hb, _ => by
    obtain ⟨hseg, hml, hend⟩ := h
    have hend' : lo + 1 + l.hdr.mSize = root := hend
    obtain ⟨hn, hs⟩ := hb l (by simp)
    rw [umbWalk_pass hml (by omega) hn hs (by omega), hend', umbWalk, if_neg (by simp), hseg]
  | b :: pre, fuel + 1, lo, q, h, hb, hf => by
    obtain ⟨hseg, hmb, htail⟩ := h
    have hle : lo + 1 + b.hdr.mSize ≤ root := htail.le
    obtain ⟨hn, hs⟩ := hb b (by simp)
    rw [umbWalk_pass hmb (by omega) hn hs (by omega)]
    refine umbWalk_to_root hroot pre fuel _ _ htail (fun c hc => hb c ?_) (by simp at hf; omega)
    simp only [cons_append, mem_cons]
    exact .inr hc

/-- Along low memory that is not linked, the walk stops at the last low block. -/
theorem umbWalk_to_last (hroot : root < 0x10000) :
    ∀ (pre : List Block) (fuel lo : Nat) (q : Option Nat), Chain m lo (pre ++ [l]) root →
      pre.length < fuel → ∃ q', umbWalk m root fuel lo q = some (some (l.seg, q'))
  | pre, 0, _, _, _, hf => absurd hf (by omega)
  | [], fuel + 1, lo, q, h, _ => by
    obtain ⟨hseg, hml, -⟩ := h.tiles
    have hlast : l.hdr.mType = MCB_LAST := h.ends
    refine ⟨q, ?_⟩
    rw [umbWalk, if_neg (by simp [hml, hlast]), hseg]
  | b :: pre, fuel + 1, lo, q, h, hf => by
    obtain ⟨hseg, hmb, htail⟩ := h.tiles
    have hne : pre ++ [l] ≠ [] := by simp
    have hends := (ends_cons hne).mp h.ends
    have hle : lo + 1 + b.hdr.mSize ≤ root := htail.le
    have hch : Chain m (lo + 1 + b.hdr.mSize) (pre ++ [l]) root :=
      ⟨htail, hends.2, fun c hc => h.sizes c (.tail _ hc)⟩
    obtain ⟨q', hq'⟩ := umbWalk_to_last hroot pre fuel _ (some lo) hch (by simp at hf; omega)
    refine ⟨q', ?_⟩
    rw [umbWalk_pass hmb (by omega) hends.1 (h.sizes b (by simp)) (by omega), hq']

/-- **How memory is laid out**: low blocks, and upper blocks from the root, as one chain when
linked and as two when not. -/
inductive Layout (a : Arena) (low up : List Block) (hi : Nat) : Prop
  | noUmb (hroot : a.uppermemRoot = 0xffff) (hup : up = []) (hlow : Chain a.mem a.firstMcb low hi)
  | linked (hroot : a.uppermemRoot < 0xffff) (hlink : a.uppermemLink = 1)
      (hlow : low ≠ [] ∧ Tiles Mcb.mSize a.mem a.firstMcb low a.uppermemRoot) (hup : up ≠ [])
      (hchain : Chain a.mem a.firstMcb (low ++ up) hi)
  | unlinked (hroot : a.uppermemRoot < 0xffff) (hlink : a.uppermemLink = 0)
      (hlow : Chain a.mem a.firstMcb low a.uppermemRoot)
      (hup : Chain a.mem a.uppermemRoot up hi)

/-- A block when `ps` has ended. -/
def releaseBlock (ps : Nat) (b : Block) : Block := ⟨b.seg, b.hdr.releasedBy ps⟩

theorem tiles_released {ps : Nat} {m : Nat → Mcb} {segs : List Nat} :
    ∀ {bs : List Block} {lo hi : Nat}, Tiles Mcb.mSize m lo bs hi → (∀ b ∈ bs, b.seg ∈ segs) →
      Tiles Mcb.mSize (released ps m segs) lo (bs.map (releaseBlock ps)) hi
  | [], _, _, h, _ => h
  | b :: bs, lo, hi, ⟨hseg, hmb, htail⟩, hin => by
    have hlo : lo ∈ segs := hseg ▸ hin b (by simp)
    refine ⟨hseg, by rw [released_of_mem hlo, hmb]; rfl, ?_⟩
    have hsize : (releaseBlock ps b).hdr.mSize = b.hdr.mSize := releasedBy_mSize ps b.hdr
    rw [hsize]
    exact tiles_released htail fun c hc => hin c (.tail _ hc)

theorem chain_length_le (h : Chain m lo bs hi) (hhi : hi ≤ 0x10000) : bs.length ≤ walkFuel := by
  have := h.tiles.length_le
  unfold walkFuel
  omega

/-- Linking upper memory: the last low block becomes `MCB_NORMAL`. -/
theorem link_spec {pre : List Block} (hroot : a.uppermemRoot < 0xffff) (hlink : a.uppermemLink = 0)
    (hlow : Chain a.mem a.firstMcb (pre ++ [l]) a.uppermemRoot)
    (hup : Chain a.mem a.uppermemRoot up hi) :
    dosUmbLink a 1 = some { a with
        mem := put a.mem l.seg { l.hdr with mType := MCB_NORMAL }, uppermemLink := 1 } ∧
      Tiles Mcb.mSize (put a.mem l.seg { l.hdr with mType := MCB_NORMAL }) a.firstMcb
        (pre ++ [⟨l.seg, { l.hdr with mType := MCB_NORMAL }⟩]) a.uppermemRoot ∧
      Chain (put a.mem l.seg { l.hdr with mType := MCB_NORMAL }) a.firstMcb
        (pre ++ [⟨l.seg, { l.hdr with mType := MCB_NORMAL }⟩] ++ up) hi := by
  have hlast : l.hdr.mType = MCB_LAST := ((ends_append (by simp)).mp hlow.ends).2
  obtain ⟨hl1, hl2, hml⟩ := hlow.tiles.mem_bounds l (by simp)
  constructor
  · have hlen : pre.length < walkFuel := by
      have := chain_length_le hlow (by omega)
      simp at this
      omega
    obtain ⟨q', hwalk⟩ := umbWalk_to_last (by omega) pre walkFuel a.firstMcb none hlow hlen
    have hne : a.uppermemRoot ≠ 0xffff := by omega
    unfold dosUmbLink
    rw [if_neg hne, if_neg (by simp [hlink]), hwalk]
    simp only [Nat.one_ne_zero, if_false, hml, hlast, if_true]
  · obtain ⟨mid, hpre, hseg, hml', hend⟩ := tiles_append.mp hlow.tiles
    subst hseg
    have hag : ∀ c, c < l.seg ∨ a.uppermemRoot ≤ c →
        put a.mem l.seg { l.hdr with mType := MCB_NORMAL } c = a.mem c := by
      intro c hc
      exact put_ne (by omega) _
    have hnew : Tiles Mcb.mSize (put a.mem l.seg { l.hdr with mType := MCB_NORMAL }) l.seg
        [⟨l.seg, { l.hdr with mType := MCB_NORMAL }⟩] a.uppermemRoot :=
      ⟨rfl, put_self _ _ _, hend⟩
    have htiles := Tiles.edit hpre hnew hup.tiles hag
    refine ⟨?_, htiles, ?_, ?_⟩
    · have hend0 : Tiles Mcb.mSize a.mem a.uppermemRoot [] a.uppermemRoot := rfl
      have hnil := Tiles.edit hpre hnew hend0 hag
      simpa using hnil
    · have hupne : up ≠ [] := by
        rintro rfl
        exact hup.ends
      refine (ends_append hupne).mpr ⟨fun b hb => ?_, hup.ends⟩
      rcases mem_append.mp hb with hb | hb
      · exact ((ends_append (by simp)).mp hlow.ends).1 b hb
      · rw [mem_singleton.mp hb]
    · intro b hb
      simp only [mem_append, mem_singleton] at hb
      rcases hb with (hb | rfl) | hb
      · exact hlow.sizes b (by simp [hb])
      · exact hlow.sizes l (by simp)
      · exact hup.sizes b hb

/-- Unlinking upper memory: the last low block becomes `MCB_LAST`. -/
theorem unlink_spec {a : Arena} {pre : List Block} {l : Block} (hroot : a.uppermemRoot < 0xffff)
    (hlink : a.uppermemLink = 1)
    (hlow : Tiles Mcb.mSize a.mem a.firstMcb (pre ++ [l]) a.uppermemRoot)
    (hnorm : ∀ b ∈ pre ++ [l], b.hdr.mType = MCB_NORMAL ∧ b.hdr.mSize ≠ 0xffff) :
    dosUmbLink a 0 = some { a with
      mem := put a.mem l.seg { l.hdr with mType := MCB_LAST }, uppermemLink := 0 } := by
  have hml : a.mem l.seg = l.hdr := (hlow.mem_bounds l (by simp)).2.2
  have hlen : pre.length + 1 < walkFuel := by
    have := hlow.length_le
    simp only [length_append] at this
    unfold walkFuel
    omega
  have hwalk := umbWalk_to_root (by omega) pre walkFuel a.firstMcb none hlow hnorm hlen
  have hne : a.uppermemRoot ≠ 0xffff := by omega
  unfold dosUmbLink
  rw [if_neg hne, if_neg (by simp [hlink]), hwalk]
  simp only [if_true, hml, (hnorm l (by simp)).1, and_self]

/-- **`FreeProcessMem`**: every block of the process is free, every other MCB and the link state
are as they were. -/
theorem freeProcessMem_spec (ps : Nat) (hfirst : 0 < a.firstMcb) (hhi : hi ≤ 0x10000)
    (h : Layout a low up hi) :
    freeProcessMem a ps = some (SUCCESS,
      { a with mem := released ps a.mem ((low ++ up).map Tile.seg) }) := by
  have hstay : ∀ (b : Arena) (n : Nat), b.uppermemRoot = 0xffff ∨ b.uppermemLink % 2 = n →
      dosUmbLink b n = some b := by
    intro b n hb
    unfold dosUmbLink
    split
    · rfl
    · rename_i hroot
      rw [if_pos (.inr (hb.resolve_left hroot))]
  unfold freeProcessMem
  cases h with
  | noUmb hroot hup hlow =>
    subst hup
    rw [hstay a 1 (.inl hroot)]
    simp only [freeWalk_spec ps hi hhi low walkFuel a a.firstMcb hfirst hlow
      (chain_length_le hlow hhi), ne_eq, not_true_eq_false, if_false, append_nil]
    rw [hstay { a with mem := released ps a.mem (low.map Tile.seg) } _ (.inl hroot)]
    rfl
  | linked hroot hlink hlow hup hchain =>
    have hone : a.uppermemLink % 2 = 1 := by rw [hlink]
    rw [hstay a 1 (.inr hone)]
    simp only [freeWalk_spec ps hi hhi (low ++ up) walkFuel a a.firstMcb hfirst hchain
      (chain_length_le hchain hhi), ne_eq, not_true_eq_false, if_false]
    rw [hstay { a with mem := released ps a.mem ((low ++ up).map Tile.seg) } _ (.inr rfl)]
    rfl
  | unlinked hroot hlink hlow hup =>
    obtain ⟨pre, l, rfl⟩ : ∃ pre l, low = pre ++ [l] := by
      cases hl : low.reverse with
      | nil =>
        rw [reverse_eq_nil_iff.mp hl] at hlow
        exact nomatch hlow.ends
      | cons l r =>
        refine ⟨r.reverse, l, ?_⟩
        have := congrArg List.reverse hl
        simpa using this
    obtain ⟨hlinked, htiles, hchain⟩ := link_spec hroot hlink hlow hup
    rw [hlinked]
    set m1 := put a.mem l.seg { l.hdr with mType := MCB_NORMAL } with hm1
    set segs := ((pre ++ [l]) ++ up).map Tile.seg with hsegs
    have hfree := freeWalk_spec ps hi hhi _ walkFuel { a with mem := m1, uppermemLink := 1 }
      a.firstMcb hfirst hchain (chain_length_le hchain hhi)
    have hsame : (pre ++ [(⟨l.seg, { l.hdr with mType := MCB_NORMAL }⟩ : Block)] ++ up).map
        Tile.seg = segs := by simp [hsegs]
    rw [hsame] at hfree
    simp only [hfree, ne_eq, not_true_eq_false, if_false, hlink]
    have hunlink := @unlink_spec { a with mem := released ps m1 segs, uppermemLink := 1 }
      (pre.map (releaseBlock ps)) (releaseBlock ps ⟨l.seg, { l.hdr with mType := MCB_NORMAL }⟩)
      hroot rfl ?_ ?_
    · rw [hunlink, Option.map_some]
      have hl : l.seg ∈ segs := by simp [hsegs]
      have hml : a.mem l.seg = l.hdr := (hlow.tiles.mem_bounds l (by simp)).2.2
      have hlast : l.hdr.mType = MCB_LAST := ((ends_append (by simp)).mp hlow.ends).2
      have hmem : put (released ps m1 segs) l.seg
          { (({ l.hdr with mType := MCB_NORMAL } : Mcb).releasedBy ps) with mType := MCB_LAST } =
            released ps a.mem segs := by
        funext c
        by_cases hc : c = l.seg
        · rw [hc, put_self, released_of_mem hl, hml]
          unfold Mcb.releasedBy
          split <;> simp [← hlast]
        · rw [put_ne hc]
          by_cases hmem : c ∈ segs
          · rw [released_of_mem hmem, released_of_mem hmem, hm1, put_ne hc]
          · rw [released_of_not_mem hmem, released_of_not_mem hmem, hm1, put_ne hc]
      have harena : ∀ m, ({ a with mem := m, uppermemLink := 0 } : Arena) = { a with mem := m } := by
        intro m
        rw [← hlink]
      simp only [releaseBlock, hmem, harena]
    · have hrel := @tiles_released ps _ segs _ _ _ htiles fun b hb => by
        rw [← hsame]
        exact mem_map_of_mem (mem_append_left _ hb)
      simpa using hrel
    · have hupne : up ≠ [] := by
        rintro rfl
        exact hup.ends
      intro b hb
      obtain ⟨c, hc, rfl⟩ : ∃ c ∈ pre ++ [(⟨l.seg, { l.hdr with mType := MCB_NORMAL }⟩ : Block)],
          releaseBlock ps c = b := by
        rw [← mem_map, map_append]
        exact hb
      simp only [releaseBlock, releasedBy_mType, releasedBy_mSize]
      exact ⟨((ends_append hupne).mp hchain.ends).1 c hc, hchain.sizes c (mem_append_left _ hc)⟩

theorem ends_released {t ps : Nat} : ∀ {bs : List Block},
    Ends t bs → Ends t (bs.map (releaseBlock ps))
  | [b], h => (releasedBy_mType ps b.hdr).trans h
  | b :: c :: bs, h => ⟨(releasedBy_mType ps b.hdr).trans h.1, @ends_released _ _ (c :: bs) h.2⟩

theorem Chain.released (h : Chain m lo bs hi) (hin : ∀ b ∈ bs, b.seg ∈ segs) :
    Chain (released ps m segs) lo (bs.map (releaseBlock ps)) hi := by
  refine ⟨tiles_released h.tiles hin, ends_released h.ends, fun b hb => ?_⟩
  obtain ⟨c, hc, rfl⟩ := mem_map.mp hb
  rw [releaseBlock, releasedBy_mSize]
  exact h.sizes c hc

/-- Freeing the blocks of a process keeps the layout. -/
theorem Layout.released (h : Layout a low up hi)
    (ps : Nat) : Layout { a with mem := Memory.released ps a.mem ((low ++ up).map Tile.seg) }
      (low.map (releaseBlock ps)) (up.map (releaseBlock ps)) hi := by
  have hlow : ∀ b ∈ low, b.seg ∈ (low ++ up).map Tile.seg :=
    fun b hb => mem_map_of_mem (mem_append_left _ hb)
  have hup : ∀ b ∈ up, b.seg ∈ (low ++ up).map Tile.seg :=
    fun b hb => mem_map_of_mem (mem_append_right _ hb)
  cases h with
  | noUmb hroot hnil hchain =>
    exact .noUmb hroot (by rw [hnil]; rfl) (hchain.released hlow)
  | linked hroot hlink hl hne hchain =>
    refine .linked hroot hlink ⟨by simpa using hl.1, tiles_released hl.2 hlow⟩ (by simpa using hne) ?_
    rw [← map_append]
    exact hchain.released fun b hb => mem_map_of_mem hb
  | unlinked hroot hlink hl hu =>
    exact .unlinked hroot hlink (hl.released hlow) (hu.released hup)

/-- In every layout the memory holds the MCBs of the blocks. -/
theorem Layout.mem (h : Layout a low up hi) (hb : b ∈ low ++ up) : a.mem b.seg = b.hdr := by
  cases h with
  | noUmb hroot hnil hchain =>
    rw [hnil, append_nil] at hb
    exact (hchain.tiles.mem_bounds b hb).2.2
  | linked hroot hlink hl hne hchain => exact (hchain.tiles.mem_bounds b hb).2.2
  | unlinked hroot hlink hl hu =>
    rcases mem_append.mp hb with hb | hb
    · exact (hl.tiles.mem_bounds b hb).2.2
    · exact (hu.tiles.mem_bounds b hb).2.2

end SdcBoot.Memory
