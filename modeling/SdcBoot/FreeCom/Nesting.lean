/-
# The batch contexts are well nested

Every block given out is freed once or belongs to one context (`Sound.blocks`), every file opened is
closed once or is the file of one context, the bottom context has saved the echo flag of the time
when no batch was active, and the stack changes at its top only.  Each of these is kept by what the
operations are made of: giving out a block, freeing it, changing the context on top, pushing and
`exit_batch`.  `Sound` puts them together, with the blocks that are in hand and the contexts on top
that are not set up yet.

GOTO while a label is searched, and CALL of a command that is no batch file but leaves something in
its context or on top of it, break this; `Proper` says which steps do not.
-/
import SdcBoot.FreeCom.Batch
import Mathlib.Data.List.Basic
import Mathlib.Data.List.Count

namespace SdcBoot.FreeCom

open List Option

/-! ## 1. The account of blocks and files -/

/-- What `exit_batch` frees. -/
def BContext.owned (c : BContext) : List Nat := c.block :: c.strings

/-- All that the contexts own. -/
def owned (cs : List BContext) : List Nat := cs.flatMap BContext.owned

/-- The files that are open. -/
def openFiles (cs : List BContext) : List Nat := cs.flatMap fun c => c.bfile.toList

@[simp] theorem owned_nil : owned [] = [] := rfl

@[simp] theorem owned_cons (c : BContext) (cs : List BContext) :
    owned (c :: cs) = c.owned ++ owned cs := rfl

@[simp] theorem openFiles_nil : openFiles [] = [] := rfl

@[simp] theorem openFiles_cons (c : BContext) (cs : List BContext) :
    openFiles (c :: cs) = c.bfile.toList ++ openFiles cs := rfl

/-- The context of a FOR, or of a batch file whose name is known. -/
def BContext.Named (c : BContext) : Prop := c.forvar.isSome ∨ c.bfnam.isSome

/-- What the echo flag `e` will be when the contexts are gone. -/
def baseEcho : Bool → List BContext → Bool
  | e, [] => e
  | _, c :: cs => baseEcho c.echo cs

/-- The stack of `s` is that of `s₀` with contexts taken from the top, and new ones put there. -/
def Stacked (s₀ s : Contexts) : Prop :=
  s₀.blocks ≤ s.blocks ∧ ∃ fresh kept, s.bc.map BContext.block = fresh ++ kept ∧
    kept <:+ s₀.bc.map BContext.block ∧ ∀ b ∈ fresh, s₀.blocks ≤ b

/-- **The account.**  `s` is reached from `s₀`; the blocks in `hand` were given out and are neither
freed nor attached yet; the `k` contexts on top may be without a name. -/
structure Sound (e : Bool) (s₀ s : Contexts) (hand : List Nat) (k : Nat) : Prop where
  blocks : ∀ b, s.freed.count b + hand.count b + (owned s.bc).count b =
    if b < s.blocks then 1 else 0
  files : ∀ f, s.closed.count f + (openFiles s.bc).count f = if f < s.files then 1 else 0
  fault : s.fault = false
  base : baseEcho s.echo s.bc = e
  stacked : Stacked s₀ s
  named : ∀ c ∈ s.bc.drop k, c.Named

section

variable {e : Bool} {s₀ s : Contexts} {hand : List Nat} {k : Nat}

theorem Sound.alloc (h : Sound e s₀ s hand k) : Sound e s₀ s.alloc (s.blocks :: hand) k := by
  refine ⟨fun b => ?_, h.files, h.fault, h.base, ⟨h.stacked.1.trans (Nat.le_succ _), h.stacked.2⟩,
    h.named⟩
  have := h.blocks b
  change s.freed.count b + (s.blocks :: hand).count b + (owned s.bc).count b =
    if b < s.blocks + 1 then 1 else 0
  rw [count_cons]
  by_cases hb : s.blocks = b
  · subst hb
    simp at this ⊢
    omega
  · rw [if_neg (by simpa using hb)]
    by_cases hlt : b < s.blocks
    · rw [if_pos hlt] at this
      rw [if_pos (by omega)]
      omega
    · rw [if_neg hlt] at this
      rw [if_neg (by omega)]
      omega

theorem Sound.free {b : Nat} (h : Sound e s₀ s (b :: hand) k) : Sound e s₀ (s.free [b]) hand k := by
  refine ⟨fun b' => ?_, h.files, h.fault, h.base, h.stacked, h.named⟩
  have := h.blocks b'
  change (s.freed ++ [b]).count b' + hand.count b' + (owned s.bc).count b' = _
  rw [count_cons] at this
  rw [count_append, count_cons, count_nil]
  refine Eq.trans ?_ this
  omega

variable {c c' : BContext} {rest : List BContext} {hand' : List Nat}

/-- The context on top is changed: what it gains and loses is in hand before and after. -/
theorem Sound.top {k' : Nat} (h : Sound e s₀ s hand k) (hbc : s.bc = c :: rest)
    (hblock : c'.block = c.block) (hecho : c'.echo = c.echo) (hfile : c'.bfile = c.bfile)
    (howned : ∀ b, hand'.count b + c'.strings.count b = hand.count b + c.strings.count b)
    (hnamed : ∀ d ∈ (c' :: rest).drop k', d.Named) :
    Sound e s₀ { s with bc := c' :: rest } hand' k' := by
  refine ⟨fun b => ?_, fun f => ?_, h.fault, ?_, ⟨h.stacked.1, ?_⟩, hnamed⟩
  · have := h.blocks b
    have hown := howned b
    rw [hbc] at this
    simp only [owned_cons, BContext.owned, count_append, count_cons, hblock] at this ⊢
    omega
  · have := h.files f
    rw [hbc] at this
    simpa [hfile] using this
  · have := h.base
    rw [hbc] at this
    exact (congrArg (fun x => baseEcho x rest) hecho).trans this
  · obtain ⟨-, fresh, kept, hmap, hkept, hfresh⟩ := h.stacked
    rw [hbc] at hmap
    exact ⟨fresh, kept, by simpa [hblock] using hmap, hkept, hfresh⟩

section

variable (h : Sound e s₀ s hand k)
include h

/-- The context on top is changed, and keeps what it is. -/
theorem Sound.change (hbc : s.bc = c :: rest)
    (hblock : c'.block = c.block) (hecho : c'.echo = c.echo) (hfile : c'.bfile = c.bfile)
    (howned : ∀ b, hand'.count b + c'.strings.count b = hand.count b + c.strings.count b)
    (hkind : c.Named → c'.Named) : Sound e s₀ { s with bc := c' :: rest } hand' k := by
  refine h.top hbc hblock hecho hfile howned ?_
  have hn := h.named
  rw [hbc] at hn
  cases k with
  | zero =>
    intro d hd
    rcases mem_cons.mp hd with rfl | hd
    · exact hkind (hn c (by simp))
    · exact hn d (by simpa using .inr hd)
  | succ k => exact hn

theorem Sound.newBatchContext :
    Sound e s₀ { s.alloc with bc := { initBatchContext s.blocks with echo := s.echo } :: s.bc }
      hand (k + 1) := by
  refine ⟨fun b => ?_, fun f => ?_, h.fault, ?_, ⟨h.stacked.1.trans (Nat.le_succ _), ?_⟩, h.named⟩
  · have := h.alloc.blocks b
    simp only [owned_cons, BContext.owned, BContext.strings, initBatchContext, count_append,
      count_cons, toList_none, count_nil] at this ⊢
    simp only [Contexts.alloc] at this ⊢
    omega
  · exact h.files f
  · exact h.base
  · obtain ⟨hle, fresh, kept, hmap, hkept, hfresh⟩ := h.stacked
    refine ⟨s.blocks :: fresh, kept, by simp [initBatchContext, hmap], hkept, fun b hb => ?_⟩
    rcases mem_cons.mp hb with rfl | hb
    · exact hle
    · exact hfresh b hb

/-- **`exit_batch`** frees what the context on top owns, and puts the echo flag back. -/
theorem Sound.exitBatch : Sound e s₀ s.exitBatch hand (k - 1) := by
  unfold Contexts.exitBatch
  cases hbc : s.bc with
  | nil =>
    refine ⟨h.blocks, h.files, h.fault, h.base, h.stacked, ?_⟩
    rw [hbc]
    simp
  | cons c rest =>
    refine ⟨fun b => ?_, fun f => ?_, h.fault, ?_, ⟨h.stacked.1, ?_⟩, ?_⟩
    · have := h.blocks b
      rw [hbc] at this
      simp only [Contexts.clearBatchContext, Contexts.free, owned_cons, BContext.owned,
        count_append, count_cons, count_nil] at this ⊢
      refine Eq.trans ?_ this
      omega
    · have := h.files f
      rw [hbc] at this
      simp only [Contexts.clearBatchContext, Contexts.free, openFiles_cons, count_append]
        at this ⊢
      refine Eq.trans ?_ this
      omega
    · have := h.base
      rw [hbc] at this
      exact this
    · obtain ⟨-, fresh, kept, hmap, hkept, hfresh⟩ := h.stacked
      rw [hbc, map_cons] at hmap
      cases fresh with
      | nil =>
        refine ⟨[], rest.map BContext.block, rfl, ?_, by simp⟩
        exact (suffix_cons c.block _).trans (hmap ▸ hkept)
      | cons b fresh =>
        have htail : rest.map BContext.block = fresh ++ kept := (List.cons.inj hmap).2
        exact ⟨fresh, kept, htail, hkept, fun b' hb' => hfresh b' (mem_cons_of_mem b hb')⟩
    · have hn := h.named
      rw [hbc] at hn
      intro d hd
      cases k with
      | zero => exact hn d (mem_cons_of_mem c (by simpa using hd))
      | succ k => exact hn d (by simpa using hd)

end

end

variable {s : Contexts} {c : BContext} {rest : List BContext}

theorem setTop_eq (hbc : s.bc = c :: rest)
    (f : BContext → BContext) : s.setTop f = { s with bc := f c :: rest } := by
  unfold Contexts.setTop
  rw [hbc]

/-! ## 2. The FOR contexts on top -/

/-- The contexts that are left when the FOR contexts on top are gone. -/
def dropFor (cs : List BContext) : List BContext := cs.dropWhile fun c => c.forvar.isSome

variable {e : Bool} {s₀ : Contexts} {hand : List Nat}

theorem killForFrom_spec (cs : List BContext) :
    ∀ {s : Contexts}, s.bc = cs → Sound e s₀ s hand 0 →
      Sound e s₀ (Contexts.killForFrom cs s) hand 0 ∧
        (Contexts.killForFrom cs s).bc = dropFor cs := by
  induction cs with
  | nil => exact fun hbc h => ⟨h, hbc⟩
  | cons c rest ih =>
    intro s hbc h
    unfold Contexts.killForFrom
    by_cases hfor : c.forvar.isSome
    · rw [if_pos hfor]
      have hexit : s.exitBatch.bc = rest := by
        unfold Contexts.exitBatch
        rw [hbc]
      obtain ⟨hs, hbc'⟩ := ih hexit h.exitBatch
      refine ⟨hs, hbc'.trans ?_⟩
      unfold dropFor
      rw [dropWhile_cons_of_pos (by simpa using hfor)]
    · rw [if_neg hfor]
      refine ⟨h, ?_⟩
      unfold dropFor
      rw [dropWhile_cons_of_neg (by simpa using hfor), hbc]

theorem Sound.killFor (h : Sound e s₀ s hand 0) :
    Sound e s₀ s.killFor hand 0 ∧ s.killFor.bc = dropFor s.bc := killForFrom_spec s.bc rfl h

/-- Where no FOR is on top, nothing is killed. -/
theorem killFor_eq (hbc : s.bc = c :: rest) (hfor : c.forvar = none) : s.killFor = s := by
  unfold Contexts.killFor
  rw [hbc]
  unfold Contexts.killForFrom
  simp [hfor]

theorem dropFor_head {cs : List BContext} (h : dropFor cs = c :: rest) : c.forvar = none := by
  induction cs with
  | nil => cases h
  | cons d cs ih =>
    unfold dropFor at h ih
    by_cases hd : d.forvar.isSome
    · rw [dropWhile_cons_of_pos (by simpa using hd)] at h
      exact ih h
    · rw [dropWhile_cons_of_neg (by simpa using hd)] at h
      cases h
      simpa using hd

/-! ## 3. Batch files -/

/-- The strings of a batch file can be had. -/
def BatchCall.Granted (a : BatchCall) : Prop := a.bfirst = true ∧ a.params.isSome

section

variable {e : Bool} {s₀ s : Contexts} {hand : List Nat} {k : Nat}

variable {a : BatchCall} {c : BContext} {rest : List BContext} {ev : ReadEvent}

variable {fullname : Nat} {f : BContext → BContext} {d : BContext}

/-- The context on top is set up, or given up. -/
theorem startBatch_spec (h : Sound e s₀ s [fullname] 1) (hbc : s.bc = c :: rest)
    (hnam : c.bfnam = none) (hfirst : c.bfirst = none) (hparams : c.params = none) :
    Sound e s₀ (s.startBatch a fullname) [] 0 ∧
      (a.Granted → ∃ d, (s.startBatch a fullname).bc = d :: rest ∧ d.block = c.block ∧
        d.echo = c.echo ∧ d.forvar = c.forvar ∧ d.bfnam = some fullname) ∧
      (¬ a.Granted → (s.startBatch a fullname).bc = rest) := by
  have h1 : Sound e s₀ { s with bc := { c with bfnam := some fullname } :: rest } [] 0 := by
    refine h.top hbc rfl rfl rfl (fun b => ?_) (fun d hd => ?_)
    · simp only [BContext.strings, hnam, count_append, toList_some, toList_none, count_nil]
      omega
    · have hn := h.named
      rw [hbc] at hn
      rcases mem_cons.mp hd with rfl | hd
      · exact .inr rfl
      · exact hn d (by simpa using hd)
  have htop : s.setTop (fun c => { c with bfnam := some fullname }) =
      { s with bc := { c with bfnam := some fullname } :: rest } := setTop_eq hbc _
  cases hb : a.bfirst with
  | false =>
    have hstart : s.startBatch a fullname =
        Contexts.exitBatch { s with bc := { c with bfnam := some fullname } :: rest } := by
      unfold Contexts.startBatch
      rw [htop]
      simp [hb]
    rw [hstart]
    refine ⟨h1.exitBatch, fun hg => ?_, fun _ => rfl⟩
    rw [BatchCall.Granted, hb] at hg
    cases hg.1
  | true =>
    have h2 : Sound e s₀ { s.alloc with bc := { c with
        bfnam := some fullname, bfirst := some s.blocks } :: rest } [] 0 := by
      refine h1.alloc.change rfl rfl rfl rfl (fun b => ?_) (fun _ => .inr rfl)
      simp only [BContext.strings, hfirst, count_append, toList_some, toList_none,
        count_nil, count_cons]
      omega
    cases hp : a.params with
    | none =>
      have hstart : s.startBatch a fullname = Contexts.exitBatch { s.alloc with
          bc := { c with bfnam := some fullname, bfirst := some s.blocks } :: rest } := by
        unfold Contexts.startBatch
        rw [htop]
        simp [hb, hp, Contexts.setTop, Contexts.alloc]
      rw [hstart]
      refine ⟨h2.exitBatch, fun hg => ?_, fun _ => rfl⟩
      rw [BatchCall.Granted, hp] at hg
      cases hg.2
    | some n =>
      let d : BContext := { c with
        bfnam := some fullname
        bfirst := some s.blocks
        params := some (s.blocks + 1)
        numParams := n }
      have hstart : s.startBatch a fullname = { s.alloc.alloc with bc := d :: rest } := by
        unfold Contexts.startBatch
        rw [htop]
        simp [hb, hp, Contexts.setTop, Contexts.alloc, d]
      rw [hstart]
      refine ⟨?_, fun _ => ⟨d, rfl, rfl, rfl, rfl, rfl⟩, fun hno => ?_⟩
      · refine h2.alloc.change rfl rfl rfl rfl (fun b => ?_) (fun _ => .inr rfl)
        simp only [BContext.strings, d, hparams, count_append, toList_some,
          toList_none, count_nil, count_cons, Contexts.alloc]
        omega
      · exact absurd ⟨hb, by simp [hp]⟩ hno

/-- The context is cleared to be used again. -/
theorem Sound.clear (h : Sound e s₀ s hand k) (hk : k ≤ 1) (hbc : s.bc = c :: rest) :
    Sound e s₀ { s.clearBatchContext c with
      bc := { initBatchContext c.block with echo := c.echo } :: rest } hand 1 := by
  refine ⟨fun b => ?_, fun f => ?_, h.fault, ?_, ⟨h.stacked.1, ?_⟩, ?_⟩
  · have := h.blocks b
    rw [hbc] at this
    simp only [Contexts.clearBatchContext, owned_cons, BContext.owned, count_append,
      count_cons, initBatchContext, BContext.strings, toList_none, count_nil]
      at this ⊢
    refine Eq.trans ?_ this
    omega
  · have := h.files f
    rw [hbc] at this
    simp only [Contexts.clearBatchContext, openFiles_cons, count_append, initBatchContext,
      toList_none, count_nil] at this ⊢
    refine Eq.trans ?_ this
    omega
  · have := h.base
    rw [hbc] at this
    exact this
  · obtain ⟨-, fresh, kept, hmap, hkept, hfresh⟩ := h.stacked
    rw [hbc] at hmap
    exact ⟨fresh, kept, by simpa [initBatchContext] using hmap, hkept, hfresh⟩
  · have hn := h.named
    rw [hbc] at hn
    intro d hd
    have hd' : d ∈ rest := by simpa using hd
    refine hn d ?_
    cases k with
    | zero => exact mem_cons_of_mem c hd'
    | succ k =>
      obtain rfl : k = 0 := by omega
      simpa using hd'

/-- The transfer to another batch file: the contexts below stay, and so does the echo flag that was
saved. -/
theorem transfer_spec (h : Sound e s₀ s [fullname] k) (hk : k ≤ 1) (hbc : s.bc = c :: rest) :
    let s' := Contexts.startBatch { s.clearBatchContext c with
      bc := { initBatchContext c.block with echo := c.echo } :: rest } a fullname
    Sound e s₀ s' [] 0 ∧
      (a.Granted → ∃ d, s'.bc = d :: rest ∧ d.block = c.block ∧ d.echo = c.echo ∧
        d.forvar = none ∧ d.bfnam = some fullname) ∧
      (¬ a.Granted → s'.bc = rest) := by
  exact startBatch_spec (h.clear hk hbc) rfl rfl rfl rfl

/-- **`batch`** over contexts that are set up. -/
theorem batch_spec (h : Sound e s₀ s [] 0) :
    Sound e s₀ (s.batch a) [] 0 ∧
      (a.abspath = true → a.Granted → ∀ c rest, dropFor s.bc = c :: rest →
        ∃ d, (s.batch a).bc = d :: rest ∧ d.block = c.block ∧ d.echo = c.echo ∧ d.forvar = none ∧
          d.bfnam = some s.blocks) := by
  unfold Contexts.batch
  cases hp : a.abspath with
  | false => exact ⟨h, nofun⟩
  | true =>
    obtain ⟨hs, hbc⟩ := h.alloc.killFor
    have hbc' : s.alloc.killFor.bc = dropFor s.bc := hbc
    simp only
    cases hd : dropFor s.bc with
    | nil =>
      rw [hd] at hbc'
      refine ⟨?_, nofun⟩
      rw [hbc']
      cases a.context with
      | false => exact hs.free
      | true => exact (startBatch_spec hs.newBatchContext rfl rfl rfl rfl).1
    | cons c rest =>
      rw [hd] at hbc'
      obtain ⟨hsound, hgranted, -⟩ := transfer_spec (a := a) hs (Nat.zero_le 1) hbc'
      rw [hbc']
      refine ⟨hsound, fun _ hg c' rest' heq => ?_⟩
      cases heq
      exact hgranted hg

/-- `batch` under CALL, over the context that CALL has made. -/
theorem batch_called (h : Sound e s₀ s [] 1) (hbc : s.bc = c :: rest) (hfor : c.forvar = none)
    (hp : a.abspath = true) :
    Sound e s₀ (s.batch a) [] 0 ∧
      (a.Granted → ∃ d, (s.batch a).bc = d :: rest ∧ d.bfnam.isSome) ∧
      (¬ a.Granted → (s.batch a).bc = rest) := by
  unfold Contexts.batch
  rw [if_pos hp, killFor_eq (s := s.alloc) hbc hfor]
  have hbc' : s.alloc.bc = c :: rest := hbc
  obtain ⟨hsound, hgranted, hfail⟩ := transfer_spec (a := a) h.alloc le_rfl hbc'
  simp only [hbc']
  refine ⟨hsound, fun hg => ?_, hfail⟩
  obtain ⟨d, hd, -, -, -, hnam⟩ := hgranted hg
  exact ⟨d, hd, by simp [hnam]⟩

/-! ## 4. GOTO and FOR -/

/-- No label is searched yet where GOTO sets one. -/
def GotoCall.Fresh (a : GotoCall) (s : Contexts) : Prop :=
  a.label ≠ [] → a.strdup = true → ∀ c rest, dropFor s.bc = c :: rest → c.blabel = none

/-- **`cmd_goto`**: the FOR contexts are gone, and the batch file is searched from its start. -/
theorem goto_spec {a : GotoCall} (h : Sound e s₀ s [] 0) (hfresh : a.Fresh s) :
    Sound e s₀ (s.cmdGoto a) [] 0 ∧
      (a.label ≠ [] → a.strdup = true → ∀ c rest, dropFor s.bc = c :: rest →
        ∃ d, (s.cmdGoto a).bc = d :: rest ∧ d.block = c.block ∧ d.forvar = none ∧
          d.bfnam = c.bfnam ∧ d.brewind = true ∧ d.blabel.isSome ∧ d.label = a.label) := by
  obtain ⟨hs, hbc⟩ := h.killFor
  unfold Contexts.cmdGoto
  cases hd : dropFor s.bc with
  | nil =>
    rw [hd] at hbc
    simp only [hbc]
    exact ⟨hs, nofun⟩
  | cons c rest =>
    rw [hd] at hbc
    simp only [hbc]
    by_cases hl : a.label = []
    · rw [if_pos hl]
      exact ⟨hs.exitBatch, fun h => absurd hl h⟩
    · rw [if_neg hl]
      cases hdup : a.strdup with
      | false => exact ⟨by simpa using hs, nofun⟩
      | true =>
        have hnone : c.blabel = none := hfresh hl hdup c rest hd
        have hfor : c.forvar = none := dropFor_head hd
        rw [setTop_eq (s := s.killFor.alloc) hbc]
        refine ⟨?_, fun _ _ c' rest' heq => ?_⟩
        · refine hs.alloc.change hbc rfl rfl rfl (fun b => ?_) id
          simp only [BContext.strings, hnone, count_append, toList_some, toList_none]
          omega
        · cases heq
          exact ⟨_, rfl, rfl, hfor, rfl, rfl, rfl, rfl⟩

/-- All that FOR needs can be had. -/
def ForCall.Granted (a : ForCall) : Prop :=
  a.expands = true ∧ a.context = true ∧ a.forproto = true ∧ a.forvar = true ∧ a.params.isSome

/-- **`doFOR`** puts its context over all others, or leaves everything as it is. -/
theorem doFOR_spec {a : ForCall} (h : Sound e s₀ s [] k) :
    (a.Granted → k = 0 → Sound e s₀ (s.doFOR a) [] 0) ∧
      (a.Granted → ∃ d, (s.doFOR a).bc = d :: s.bc ∧ d.forvar.isSome) ∧
      (¬ a.Granted → Sound e s₀ (s.doFOR a) [] k ∧ (s.doFOR a).bc = s.bc ∧
        (s.doFOR a).echo = s.echo) := by
  -- what is given up leaves everything as it is
  have hfail : (a.Granted → False) → ∀ t, s.doFOR a = t →
      Sound e s₀ t [] k ∧ t.bc = s.bc ∧ t.echo = s.echo →
      (a.Granted → k = 0 → Sound e s₀ (s.doFOR a) [] 0) ∧
        (a.Granted → ∃ d, (s.doFOR a).bc = d :: s.bc ∧ d.forvar.isSome) ∧
        (¬ a.Granted → Sound e s₀ (s.doFOR a) [] k ∧ (s.doFOR a).bc = s.bc ∧
          (s.doFOR a).echo = s.echo) :=
    fun hno t ht hsame =>
      ⟨fun hg => (hno hg).elim, fun hg => (hno hg).elim, fun _ => ht ▸ hsame⟩
  cases h1 : a.expands with
  | false =>
    refine hfail (fun hg => by rw [hg.1] at h1; cases h1) s ?_ ⟨h, rfl, rfl⟩
    simp [Contexts.doFOR, h1]
  | true =>
    cases h2 : a.context with
    | false =>
      refine hfail (fun hg => by rw [hg.2.1] at h2; cases h2) s ?_ ⟨h, rfl, rfl⟩
      simp [Contexts.doFOR, h1, h2, Contexts.newBatchContext]
    | true =>
      let n : BContext := { initBatchContext s.blocks with echo := s.echo }
      have hn : Sound e s₀ { s.alloc with bc := n :: s.bc } [] (k + 1) := h.newBatchContext
      cases h3 : a.forproto with
      | false =>
        refine hfail (fun hg => by rw [hg.2.2.1] at h3; cases h3)
          (Contexts.exitBatch { s.alloc with bc := n :: s.bc }) ?_ ⟨hn.exitBatch, rfl, rfl⟩
        simp [Contexts.doFOR, h1, h2, h3, Contexts.newBatchContext, n]
      | true =>
        let n1 : BContext := { n with forproto := some (s.blocks + 1) }
        have hn1 : Sound e s₀ { s.alloc.alloc with bc := n1 :: s.bc } [] (k + 1) := by
          refine hn.alloc.change rfl rfl rfl rfl (fun b => ?_) id
          simp [BContext.strings, n1, n, initBatchContext, Contexts.alloc]
        cases h4 : a.forvar with
        | false =>
          refine hfail (fun hg => by rw [hg.2.2.2.1] at h4; cases h4)
            (Contexts.exitBatch { s.alloc.alloc with bc := n1 :: s.bc }) ?_
            ⟨hn1.exitBatch, rfl, rfl⟩
          simp [Contexts.doFOR, h1, h2, h3, h4, Contexts.newBatchContext, Contexts.setTop,
            Contexts.alloc, n1, n]
        | true =>
          let n2 : BContext := { n1 with forvar := some (s.blocks + 1 + 1) }
          have hn2 : ∀ k', (∀ d ∈ (n2 :: s.bc).drop k', d.Named) →
              Sound e s₀ { s.alloc.alloc.alloc with bc := n2 :: s.bc } [] k' := by
            refine fun k' hnamed => hn1.alloc.top rfl rfl rfl rfl (fun b => ?_) hnamed
            simp [BContext.strings, n2, n1, n, initBatchContext, Contexts.alloc, count_cons]
          cases h5 : a.params with
          | none =>
            refine hfail (fun hg => by have := hg.2.2.2.2; rw [h5] at this; cases this)
              (Contexts.exitBatch { s.alloc.alloc.alloc with bc := n2 :: s.bc }) ?_
              ⟨(hn2 (k + 1) h.named).exitBatch, rfl, rfl⟩
            simp [Contexts.doFOR, h1, h2, h3, h4, h5, Contexts.newBatchContext, Contexts.setTop,
              Contexts.alloc, n2, n1, n]
          | some m =>
            let n3 : BContext := { n2 with
              params := some (s.blocks + 1 + 1 + 1)
              numParams := m
              shiftlevel := 1 }
            have hrun : s.doFOR a = { s.alloc.alloc.alloc.alloc with bc := n3 :: s.bc } := by
              simp [Contexts.doFOR, h1, h2, h3, h4, h5, Contexts.newBatchContext, Contexts.setTop,
                Contexts.alloc, n3, n2, n1, n]
            rw [hrun]
            refine ⟨fun _ hk => ?_, fun _ => ⟨n3, rfl, rfl⟩, fun hno => ?_⟩
            · subst hk
              have hnamed : ∀ d ∈ (n2 :: s.bc).drop 0, d.Named := by
                intro d hd
                rcases mem_cons.mp hd with rfl | hd
                · exact .inl rfl
                · exact h.named d hd
              refine (hn2 0 hnamed).alloc.change rfl rfl rfl rfl (fun b => ?_) id
              simp [BContext.strings, n3, n2, n1, n, initBatchContext, Contexts.alloc, count_cons]
              omega
            · exact absurd ⟨h1, h2, h3, h4, by simp [h5]⟩ hno

/-! ## 5. CALL -/

/-- A command that leaves the contexts and the echo flag `e` as they are, under CALL. -/
def Quiet (e : Bool) : Command → Prop
  | .other => True
  | .echo on => on = e
  | .batch a => a.abspath = false
  | .goto a => a.label ≠ [] ∧ a.strdup = false
  | .doFor a => ¬ a.Granted
  | .call context options c => context = false ∨ (options = true ∧ Quiet e c)

/-- The context on top is that of a batch file. -/
def TopBatch (s : Contexts) : Prop := ∃ b rest, s.bc = b :: rest ∧ b.bfnam.isSome

/-- **What CALL may run**: a quiet command, or a batch file; and what gives up the context that CALL
has made, where the one below is that of a batch file. -/
def CalledOk (s : Contexts) (c : Command) : Prop :=
  Quiet s.echo c ∨ (∃ a, c = .batch a ∧ a.abspath = true ∧ (a.Granted ∨ TopBatch s)) ∨
    ∃ a, c = .goto a ∧ a.label = [] ∧ TopBatch s

/-- **What keeps the contexts in order**: GOTO sets no label while one is searched, and CALL has no
wrong options and runs what it may. -/
def CommandOk (s : Contexts) : Command → Prop
  | .goto a => a.Fresh s
  | .call context options c => context = false ∨ (options = true ∧ CalledOk s c)
  | _ => True

/-- The context that CALL has made. -/
def callContext (s : Contexts) : BContext := { initBatchContext s.blocks with echo := s.echo }

/-- CALL has made its context. -/
def called (s : Contexts) : Contexts := { s.alloc with bc := callContext s :: s.bc }

theorem call_eq (s : Contexts) (c : Command) :
    s.command (.call true true c) = Contexts.endCall s.blocks ((called s).command c) := rfl

/-- The context of CALL is taken away as `exit_batch` would take it. -/
theorem remove_eq {t : Contexts} (hbc : t.bc = callContext s :: rest)
    (hecho : t.echo = s.echo) : { t.free [s.blocks] with bc := rest } = t.exitBatch := by
  unfold Contexts.exitBatch
  rw [hbc]
  simp [callContext, Contexts.clearBatchContext, Contexts.free, BContext.strings, initBatchContext,
    hecho]

/-- CALL of what leaves its context alone. -/
theorem call_removed {c : Command} (ht : Sound e s₀ ((called s).command c) [] (k + 1))
    (hbc : ((called s).command c).bc = (called s).bc)
    (hecho : ((called s).command c).echo = s.echo) :
    Sound e s₀ (s.command (.call true true c)) [] k ∧
      (s.command (.call true true c)).bc = s.bc ∧ (s.command (.call true true c)).echo = s.echo := by
  have hbc' : ((called s).command c).bc = callContext s :: s.bc := hbc
  have hrun : s.command (.call true true c) = ((called s).command c).exitBatch := by
    rw [call_eq, ← remove_eq hbc' hecho]
    unfold Contexts.endCall
    simp only [hbc']
    rfl
  rw [hrun]
  refine ⟨ht.exitBatch, ?_, ?_⟩
  · unfold Contexts.exitBatch
    rw [hbc']
  · unfold Contexts.exitBatch
    rw [hbc']
    rfl

/-- **A quiet command is quiet**, over a context that is not that of a FOR; by recursion over the
CALLs. -/
theorem quiet_spec {c : Command} {n : BContext} (h : Sound e s₀ s [] k) (hbc : s.bc = n :: rest)
    (hfor : n.forvar = none) (hq : Quiet s.echo c) :
    Sound e s₀ (s.command c) [] k ∧ (s.command c).bc = s.bc ∧ (s.command c).echo = s.echo := by
  induction c generalizing s k n rest with
  | other => exact ⟨h, rfl, rfl⟩
  | echo on =>
    have hs : s.command (.echo on) = s := by
      change { s with echo := on } = s
      rw [show on = s.echo from hq]
    rw [hs]
    exact ⟨h, rfl, rfl⟩
  | batch a =>
    have hs : s.command (.batch a) = s := by
      change s.batch a = s
      unfold Contexts.batch
      rw [show a.abspath = false from hq]
      rfl
    rw [hs]
    exact ⟨h, rfl, rfl⟩
  | goto a =>
    have hs : s.command (.goto a) = s := by
      change s.cmdGoto a = s
      unfold Contexts.cmdGoto
      rw [killFor_eq hbc hfor]
      simp [hq.1, hq.2]
    rw [hs]
    exact ⟨h, rfl, rfl⟩
  | doFor a => exact (doFOR_spec h).2.2 hq
  | call context options c ih =>
    rcases hq with rfl | ⟨rfl, hq⟩
    · exact ⟨h, rfl, rfl⟩
    · cases context with
      | false => exact ⟨h, rfl, rfl⟩
      | true =>
        obtain ⟨hs, hbc', hecho⟩ := ih (s := called s) h.newBatchContext rfl rfl hq
        exact call_removed hs hbc' hecho

/-- CALL of what has put something else on top: it stays. -/
theorem call_stays {c : Command} {b : BContext} (hbc : ((called s).command c).bc = b :: rest)
    (hnam : b.bfnam.isSome) : s.command (.call true true c) = (called s).command c := by
  rw [call_eq]
  unfold Contexts.endCall
  simp only [hbc]
  rw [if_neg]
  rintro ⟨-, hnone⟩
  rw [isNone_iff_eq_none] at hnone
  simp [hnone] at hnam

/-- **CALL.** -/
theorem call_spec {c : Command} (h : Sound e s₀ s [] 0) (hok : CalledOk s c) :
    Sound e s₀ (s.command (.call true true c)) [] 0 := by
  have hn : Sound e s₀ (called s) [] 1 := h.newBatchContext
  rcases hok with hq | ⟨a, rfl, hp, hok⟩ | ⟨a, rfl, hl, b, rest, hbc, hnam⟩
  · obtain ⟨hs, hbc, hecho⟩ := quiet_spec hn rfl rfl hq
    exact (call_removed hs hbc hecho).1
  · obtain ⟨hs, hgranted, hfail⟩ := batch_called hn rfl rfl hp
    by_cases hg : a.Granted
    · obtain ⟨d, hd, hdnam⟩ := hgranted hg
      rw [call_stays (c := .batch a) hd hdnam]
      exact hs
    · obtain ⟨b, rest, hbc, hnam⟩ := hok.resolve_left hg
      rw [call_stays (c := .batch a) ((hfail hg).trans hbc) hnam]
      exact hs
  · have hrun : (called s).command (.goto a) = (called s).exitBatch := by
      change (called s).cmdGoto a = _
      unfold Contexts.cmdGoto
      rw [killFor_eq (s := called s) rfl rfl]
      simp [hl, called]
    have hexit : ((called s).command (.goto a)).bc = s.bc := by
      rw [hrun]
      rfl
    rw [call_stays (hexit.trans hbc) hnam, hrun]
    exact hn.exitBatch

/-- **Every command but ECHO keeps the account.** -/
theorem command_spec {c : Command} (h : Sound e s₀ s [] 0) (hok : CommandOk s c)
    (hecho : ∀ on, c = .echo on → s.bc ≠ []) : Sound e s₀ (s.command c) [] 0 := by
  cases c with
  | other => exact h
  | echo on =>
    refine ⟨h.blocks, h.files, h.fault, ?_, h.stacked, h.named⟩
    have hbase := h.base
    cases hbc : s.bc with
    | nil => exact absurd hbc (hecho on rfl)
    | cons c rest =>
      rw [hbc] at hbase
      change baseEcho on s.bc = e
      rw [hbc]
      exact hbase
  | batch a => exact (batch_spec h).1
  | goto a => exact (goto_spec h hok).1
  | doFor a =>
    by_cases hg : a.Granted
    · exact (doFOR_spec h).1 hg rfl
    · exact ((doFOR_spec h).2.2 hg).1
  | call context options c =>
    cases context with
    | false => exact h
    | true =>
      rcases hok with hno | ⟨rfl, hok⟩
      · cases hno
      · exact call_spec h hok

/-! ## 6. Reading a line -/

/-- The contexts at the end of a round. -/
def Round.contexts : Round → Contexts
  | .next s => s
  | .stop _ s => s

/-- A block of the context on top is freed, and the context no longer points to it. -/
theorem Sound.detach {b : Nat} (h : Sound e s₀ s [] 0) (hbc : s.bc = c :: rest)
    (hblock : (f c).block = c.block) (hecho : (f c).echo = c.echo) (hfile : (f c).bfile = c.bfile)
    (howned : ∀ x, [b].count x + (f c).strings.count x = c.strings.count x)
    (hkind : c.Named → (f c).Named) : Sound e s₀ ((s.free [b]).setTop f) [] 0 := by
  rw [setTop_eq (s := s.free [b]) hbc]
  have hhand : Sound e s₀ { s with bc := f c :: rest } [b] 0 := by
    refine h.change hbc hblock hecho hfile (fun x => ?_) hkind
    rw [howned x, count_nil, zero_add]
  exact hhand.free

/-- The context on top is changed in what it does not own. -/
theorem Sound.adjust (h : Sound e s₀ s [] 0)
    (hf : ∀ c, (f c).owned = c.owned ∧ (f c).echo = c.echo ∧ (f c).bfile = c.bfile ∧
      (f c).forvar = c.forvar ∧ (f c).bfnam = c.bfnam) : Sound e s₀ (s.setTop f) [] 0 := by
  cases hbc : s.bc with
  | nil =>
    have hs : s.setTop f = s := by
      unfold Contexts.setTop
      rw [hbc]
    rwa [hs]
  | cons c rest =>
    obtain ⟨hown, hecho, hfile, hfor, hnam⟩ := hf c
    obtain ⟨hblock, hstrings⟩ := List.cons.inj hown
    rw [setTop_eq hbc]
    refine h.change hbc hblock hecho hfile (fun b => ?_) (fun hc => ?_)
    · rw [hstrings]
    · unfold BContext.Named at hc ⊢
      rwa [hfor, hnam]

theorem forRound_spec (h : Sound e s₀ s [] 0) (hbc : s.bc = c :: rest) :
    Sound e s₀ (forRound ev c s).contexts [] 0 := by
  have hshift : Sound e s₀ (s.setTop fun c => { c with shiftlevel := c.shiftlevel + 1 }) [] 0 :=
    h.adjust fun c => ⟨rfl, rfl, rfl, rfl, rfl⟩
  unfold forRound
  split
  · exact h.exitBatch
  · split
    · rename_i b hfind
      split
      · exact h
      · refine h.detach hbc rfl rfl rfl (fun x => ?_) id
        simp only [BContext.strings, hfind, count_append, toList_some, toList_none, count_nil]
        omega
    · rename_i hfind
      split
      · exact hshift
      · split
        · exact h.exitBatch
        · split
          · rw [setTop_eq (s := s.alloc) hbc]
            refine h.alloc.change hbc rfl rfl rfl (fun x => ?_) id
            simp only [BContext.strings, hfind, count_append, toList_some, toList_none]
            omega
          · exact h.alloc.free.adjust fun c => ⟨rfl, rfl, rfl, rfl, rfl⟩

theorem lineRound_spec {text : List Char} (h : Sound e s₀ s [] 0) (hbc : s.bc = d :: rest)
    (hlabel : d.blabel = c.blabel) : Sound e s₀ (lineRound text c s).contexts [] 0 := by
  unfold lineRound
  simp only
  generalize (if (ltrimcl (text.reverse.dropWhile fun x => x == '\n' || x == '\r').reverse).head? =
    some '@' then ltrimcl ((ltrimcl (text.reverse.dropWhile fun x =>
      x == '\n' || x == '\r').reverse).drop 1)
    else ltrimcl (text.reverse.dropWhile fun x => x == '\n' || x == '\r').reverse) = first
  split
  · exact h
  · split
    · split
      · rename_i b hb
        split
        · refine h.detach hbc rfl rfl rfl (fun x => ?_) id
          simp only [BContext.strings, hlabel, hb, count_append, toList_some,
            toList_none, count_nil]
          omega
        · exact h
      · exact h
    · split
      · exact h
      · exact h

section

variable (h : Sound e s₀ s [] 0)
include h

theorem fileRound_spec (hbc : s.bc = d :: rest)
    (hlabel : d.blabel = c.blabel) : Sound e s₀ (fileRound ev c s).contexts [] 0 := by
  have hcount : Sound e s₀ (s.setTop fun c => { c with blinecnt := c.blinecnt + 1 }) [] 0 :=
    h.adjust fun c => ⟨rfl, rfl, rfl, rfl, rfl⟩
  unfold fileRound
  split
  · split
    · exact hcount.exitBatch
    · rw [setTop_eq hbc] at hcount ⊢
      exact lineRound_spec hcount rfl hlabel
  · exact hcount.exitBatch

/-- The batch file on top is opened. -/
theorem Sound.opened (hbc : s.bc = c :: rest) (hfile : c.bfile = none) :
    Sound e s₀ ({ s with files := s.files + 1 }.setTop fun c =>
      { c with bfile := some s.files, bclose := true }) [] 0 := by
  rw [setTop_eq (s := { s with files := s.files + 1 }) hbc]
  have hnamed := h.named
  rw [hbc] at hnamed
  refine ⟨fun b => ?_, fun f => ?_, h.fault, ?_, ⟨h.stacked.1, ?_⟩, fun d hd => ?_⟩
  · have := h.blocks b
    rw [hbc] at this
    exact this
  · have := h.files f
    rw [hbc] at this
    simp only [openFiles_cons, hfile, count_append, toList_none, toList_some, count_cons] at this ⊢
    by_cases hf : s.files = f
    · subst hf
      simp at this ⊢
      omega
    · rw [if_neg (by simpa using hf)]
      by_cases hlt : f < s.files
      · rw [if_pos hlt] at this
        rw [if_pos (by omega)]
        omega
      · rw [if_neg hlt] at this
        rw [if_neg (by omega)]
        omega
  · have := h.base
    rw [hbc] at this
    exact this
  · have := h.stacked.2
    rw [hbc] at this
    exact this
  · rcases mem_cons.mp hd with rfl | hd
    · exact hnamed c (by simp)
    · exact hnamed d (by simpa using .inr hd)

theorem batchRound_spec (hbc : s.bc = c :: rest)
    (hfor : ¬ c.forvar.isSome) : Sound e s₀ (batchRound ev c s).contexts [] 0 := by
  have hnam : c.bfnam.isSome := by
    have hn := h.named
    rw [hbc] at hn
    exact (hn c (by simp)).resolve_left hfor
  have hrewind : ∀ {t : Contexts} {d : BContext}, Sound e s₀ t [] 0 → t.bc = d :: rest →
      d.blabel = c.blabel →
      Sound e s₀ (fileRound ev c (t.setTop fun c =>
        { c with brewind := false, blinecnt := 0 })).contexts [] 0 := by
    intro t d ht htbc hd
    have hadj : Sound e s₀ (t.setTop fun c => { c with brewind := false, blinecnt := 0 }) [] 0 :=
      ht.adjust fun c => ⟨rfl, rfl, rfl, rfl, rfl⟩
    rw [setTop_eq htbc] at hadj ⊢
    exact fileRound_spec hadj rfl hd
  unfold batchRound
  by_cases hfile : c.bfile.isNone
  · rw [if_pos hfile]
    have hfault : { s with fault := s.fault || c.bfnam.isNone } = s := by
      have : c.bfnam.isNone = false := by
        cases hb : c.bfnam with
        | none =>
          rw [hb] at hnam
          cases hnam
        | some b => rfl
      rw [this, Bool.or_false]
    rw [hfault]
    simp only
    split
    · exact h.exitBatch
    · have hopen := h.opened hbc (Option.isNone_iff_eq_none.mp hfile)
      have htop := setTop_eq (s := { s with files := s.files + 1 }) hbc
        fun c => { c with bfile := some s.files, bclose := true }
      rw [htop] at hopen ⊢
      split
      · exact hrewind hopen rfl rfl
      · split
        · exact hopen.exitBatch
        · exact fileRound_spec hopen rfl rfl
  · rw [if_neg hfile]
    split
    · exact hrewind h hbc rfl
    · exact fileRound_spec h hbc rfl

theorem closeBatchFile_spec : Sound e s₀ (closeBatchFile s) [] 0 := by
  unfold closeBatchFile
  cases hbc : s.bc with
  | nil => exact h
  | cons c rest =>
    simp only
    split
    · have hnamed := h.named
      rw [hbc] at hnamed
      refine ⟨fun b => ?_, fun f => ?_, h.fault, ?_, ⟨h.stacked.1, ?_⟩, fun d hd => ?_⟩
      · have := h.blocks b
        rw [hbc] at this
        exact this
      · have := h.files f
        rw [hbc] at this
        simp only [openFiles_cons, count_append, toList_none, count_nil] at this ⊢
        omega
      · have := h.base
        rw [hbc] at this
        exact this
      · have := h.stacked.2
        rw [hbc] at this
        exact this
      · rcases mem_cons.mp hd with rfl | hd
        · exact hnamed c (by simp)
        · exact hnamed d (by simpa using .inr hd)
    · exact h

end

/-- **`readbatchline`** keeps the account, by induction on its rounds. -/
theorem readbatchline_spec (es : List ReadEvent) : ∀ {s : Contexts} {first : Option Line}
    {s' : Contexts}, Sound e s₀ s [] 0 → readbatchline es s = some (first, s') →
    Sound e s₀ s' [] 0 := by
  induction es with
  | nil =>
    intro s first s' h hrun
    unfold readbatchline at hrun
    cases hbc : s.bc with
    | nil =>
      rw [hbc] at hrun
      cases hrun
      exact h
    | cons c rest =>
      rw [hbc] at hrun
      cases hrun
  | cons ev es ih =>
    intro s first s' h hrun
    unfold readbatchline at hrun
    cases hbc : s.bc with
    | nil =>
      rw [hbc] at hrun
      cases hrun
      exact h
    | cons c rest =>
      rw [hbc] at hrun
      simp only at hrun
      have hround : Sound e s₀
          (if c.forvar.isSome then forRound ev c s else batchRound ev c s).contexts [] 0 := by
        split
        · exact forRound_spec h hbc
        · rename_i hfor
          exact batchRound_spec h hbc hfor
      revert hrun hround
      generalize (if c.forvar.isSome then forRound ev c s else batchRound ev c s) = round
      intro hrun hround
      cases round with
      | next t => exact ih hround hrun
      | stop l t =>
        cases hrun
        exact closeBatchFile_spec hround

end

/-! ## 7. Every run -/

/-- Each block is freed once, or belongs to one context and is not freed; each file is closed once,
or is the file of one context; no null pointer was followed. -/
structure Accounted (s : Contexts) : Prop where
  blocks : ∀ b, s.freed.count b + (owned s.bc).count b = if b < s.blocks then 1 else 0
  files : ∀ f, s.closed.count f + (openFiles s.bc).count f = if f < s.files then 1 else 0
  fault : s.fault = false

/-- The blocks of the contexts, from the top. -/
def Contexts.stack (s : Contexts) : List Nat := s.bc.map BContext.block

/-- **What lies under a context stays there** as long as the context does. -/
def Stays (s s' : Contexts) : Prop :=
  ∀ above b below, s.stack = above ++ b :: below → b ∈ s'.stack →
    ∃ above', s'.stack = above' ++ b :: below

/-- The depth of the stack without the FOR contexts. -/
def depth (cs : List BContext) : Nat := cs.countP fun c => !c.forvar.isSome

/-- **What the commands do to the stack** when all they need can be had: a transfer to another batch
file takes the place of the one that was active, GOTO finds it on top, and FOR is put over all. -/
def Effect (s : Contexts) (c : Command) (s' : Contexts) : Prop :=
  match c with
  | .batch a => a.abspath = true → a.Granted → ∀ c rest, dropFor s.bc = c :: rest →
      depth s'.bc = depth s.bc ∧ ∃ d, s'.bc = d :: rest ∧ d.block = c.block ∧ d.echo = c.echo ∧
        d.forvar = none ∧ d.bfnam = some s.blocks
  | .goto a => a.label ≠ [] → a.strdup = true → ∀ c rest, dropFor s.bc = c :: rest →
      ∃ d, s'.bc = d :: rest ∧ d.block = c.block ∧ d.forvar = none ∧ d.bfnam = c.bfnam ∧
        d.brewind = true ∧ d.blabel.isSome ∧ d.label = a.label
  | .doFor a => a.Granted → ∃ d, s'.bc = d :: s.bc ∧ d.forvar.isSome
  | _ => True

/-- The steps that keep the contexts in order. -/
def Proper (s : Contexts) : ContextOp → Prop
  | .command c => CommandOk s c
  | .read _ => True

/-- ECHO is not used while no batch is active. -/
def NoIdleEcho (s : Contexts) (op : ContextOp) : Prop := ∀ on, op = .command (.echo on) → s.bc ≠ []

/-- What holds of a step. -/
def StepNested (s : Contexts) (op : ContextOp) (out : Option Line × Contexts) : Prop :=
  Accounted out.2 ∧ Stays s out.2 ∧ ∀ c, op = .command c → Effect s c out.2

theorem depth_dropFor (cs : List BContext) : depth (dropFor cs) = depth cs := by
  induction cs with
  | nil => rfl
  | cons c cs ih =>
    unfold dropFor depth at ih ⊢
    by_cases hc : c.forvar.isSome
    · rw [dropWhile_cons_of_pos (by simpa using hc), ih, countP_cons_of_neg]
      simp [hc]
    · rw [dropWhile_cons_of_neg (by simpa using hc)]

section

variable {e : Bool} {s₀ s s' : Contexts} {k : Nat}

theorem Sound.accounted (h : Sound e s₀ s [] k) : Accounted s :=
  ⟨fun b => by simpa using h.blocks b, h.files, h.fault⟩

/-- The account is taken up from here. -/
theorem Sound.here (h : Sound e s₀ s [] k) : Sound e s s [] k :=
  ⟨h.blocks, h.files, h.fault, h.base, ⟨le_rfl, [], s.bc.map BContext.block, rfl,
    suffix_refl _, fun _ hb => absurd hb (not_mem_nil)⟩, h.named⟩

variable {b : Nat}

theorem mem_owned_of_mem_stack {cs : List BContext} (h : b ∈ cs.map BContext.block) :
    b ∈ owned cs := by
  obtain ⟨c, hc, rfl⟩ := mem_map.mp h
  exact mem_flatMap.mpr ⟨c, hc, mem_cons_self⟩

theorem count_stack_le (cs : List BContext) (b : Nat) :
    (cs.map BContext.block).count b ≤ (owned cs).count b := by
  induction cs with
  | nil => simp
  | cons c cs ih =>
    simp only [map_cons, owned_cons, BContext.owned, count_cons, count_append]
    omega

theorem Accounted.nodup (h : Accounted s) : s.stack.Nodup := by
  rw [nodup_iff_count_le_one]
  intro b
  have hle := count_stack_le s.bc b
  have hb := h.blocks b
  unfold Contexts.stack
  split at hb <;> omega

theorem Accounted.lt (h : Accounted s) (hb : b ∈ s.stack) : b < s.blocks := by
  have hpos := count_pos_iff.mpr (mem_owned_of_mem_stack hb)
  have hacc := h.blocks b
  by_contra hlt
  rw [if_neg hlt] at hacc
  omega

theorem Sound.stays (h : Sound e s s' [] k) (hs : Accounted s) : Stays s s' := by
  intro above b below hstack hb
  obtain ⟨-, fresh, kept, hmap, ⟨gone, hgone⟩, hfresh⟩ := h.stacked
  have hmem : b ∈ s.stack := by
    rw [hstack]
    simp
  have hkept : b ∈ kept := by
    have hb' : b ∈ fresh ++ kept := hmap ▸ hb
    refine (mem_append.mp hb').resolve_left fun hf => ?_
    have := hfresh b hf
    have := hs.lt hmem
    omega
  obtain ⟨x, y, rfl⟩ := append_of_mem hkept
  have hsame : (gone ++ x) ++ b :: y = above ++ b :: below := by
    rw [append_assoc, hgone]
    exact hstack
  have hnodup := hs.nodup
  rw [hstack, nodup_middle, nodup_cons] at hnodup
  have habove : b ∉ above := fun h => hnodup.1 (mem_append_left below h)
  have hbelow : b ∉ below := fun h => hnodup.1 (mem_append_right above h)
  obtain ⟨-, -, rfl⟩ := (append_cons_inj_of_notMem habove hbelow).mp hsame.symm
  exact ⟨fresh ++ x, by rw [append_assoc]; exact hmap⟩

/-- **One step** of a run in order: the account is kept, and what the step does. -/
theorem step_nested {op : ContextOp} (h : Sound e s s [] 0) (hok : Proper s op) :
    (∃ e', Sound e' (contextStep s op).2 (contextStep s op).2 [] 0 ∧
      (NoIdleEcho s op → e' = e)) ∧ StepNested s op (contextStep s op) := by
  cases op with
  | read es =>
    have hs : Sound e s (contextStep s (.read es)).2 [] 0 := by
      change Sound e s ((readbatchline es s).getD (none, s)).2 [] 0
      cases hrun : readbatchline es s with
      | none => exact h
      | some out => exact readbatchline_spec es h hrun
    exact ⟨⟨e, hs.here, fun _ => rfl⟩, hs.accounted, hs.stays h.accounted, nofun⟩
  | command c =>
    have heffect : Effect s c (s.command c) := by
      cases c with
      | batch a =>
        intro hp hg c rest hd
        obtain ⟨d, hbc, hrest⟩ := (batch_spec h).2 hp hg c rest hd
        refine ⟨?_, d, hbc, hrest⟩
        have hd0 : c.forvar = none := dropFor_head hd
        change depth (s.batch a).bc = depth s.bc
        rw [← depth_dropFor s.bc, hd, hbc]
        unfold depth
        rw [countP_cons, countP_cons, hd0, hrest.2.2.1]
      | goto a => exact (goto_spec h hok).2
      | doFor a => exact (doFOR_spec h).2.1
      | other => trivial
      | echo on => trivial
      | call context options c => trivial
    have hstep : ∀ d, ContextOp.command c = .command d → Effect s d (s.command c) := by
      intro d hd
      cases hd
      exact heffect
    by_cases hidle : NoIdleEcho s (.command c)
    · have hs : Sound e s (s.command c) [] 0 := by
        refine command_spec h hok fun on hon => hidle on ?_
        rw [hon]
      exact ⟨⟨e, hs.here, fun _ => rfl⟩, hs.accounted, hs.stays h.accounted, hstep⟩
    · have hnot := hidle
      simp only [NoIdleEcho, not_forall, not_not] at hnot
      obtain ⟨on, hon, hnil⟩ := hnot
      obtain rfl : c = .echo on := ContextOp.command.inj hon
      have hs : Sound on s (s.command (.echo on)) [] 0 := by
        refine ⟨h.blocks, h.files, h.fault, ?_, h.stacked, h.named⟩
        change baseEcho on s.bc = on
        rw [hnil]
        rfl
      exact ⟨⟨on, hs.here, fun hno => absurd hno hidle⟩, hs.accounted, hs.stays h.accounted, hstep⟩

end

/-- **The batch contexts are well nested in every run whose steps are in order.**  And when the stack
is empty again, the echo flag is what it was when it was empty last. -/
theorem contexts_well_nested (echo : Bool) (ops : List ContextOp)
    (hok : Lib.Guarded contextStep Proper (Contexts.idle echo) ops) :
    Lib.Along contextStep StepNested (Contexts.idle echo) ops ∧
      ∀ as bs, ops = as ++ bs →
        (Lib.run contextStep (Contexts.idle echo) as).bc = [] →
        Lib.Guarded contextStep NoIdleEcho (Lib.run contextStep (Contexts.idle echo) as) bs →
        (Lib.run contextStep (Contexts.idle echo) ops).bc = [] →
        (Lib.run contextStep (Contexts.idle echo) ops).echo =
          (Lib.run contextStep (Contexts.idle echo) as).echo := by
  have hstart : ∃ e, Sound e (Contexts.idle echo) (Contexts.idle echo) [] 0 := by
    refine ⟨echo, fun b => ?_, fun f => ?_, rfl, rfl, ⟨le_rfl, [], [], rfl, List.suffix_refl _, ?_⟩, ?_⟩
    · simp [Contexts.idle]
    · simp [Contexts.idle]
    · simp
    · simp [Contexts.idle]
  have hinv : ∀ s op, (∃ e, Sound e s s [] 0) → Proper s op →
      ∃ e, Sound e (contextStep s op).2 (contextStep s op).2 [] 0 := by
    rintro s op ⟨e, h⟩ hop
    obtain ⟨⟨e', h', -⟩, -⟩ := step_nested h hop
    exact ⟨e', h'⟩
  refine ⟨Lib.Along.of_invariant hinv (fun s op h hop => ?_) ops _ hstart hok, ?_⟩
  · obtain ⟨e, h⟩ := h
    exact (step_nested h hop).2
  · rintro as bs rfl hempty hidle hend
    obtain ⟨has, hbs⟩ := (Lib.along_append as bs _).mp hok
    obtain ⟨e, h⟩ := Lib.Guarded.run_invariant hinv as _ hstart has
    have hecho : ∀ {t : Contexts}, Sound e t t [] 0 → t.bc = [] → t.echo = e := by
      intro t ht hnil
      have := ht.base
      rw [hnil] at this
      exact this
    rw [Lib.run_append] at hend ⊢
    have hfinal : Sound e _ _ [] 0 := Lib.Guarded.run_invariant
      (I := fun s => Sound e s s [] 0) (fun s op hs hop => ?_) bs _ h (Lib.Guarded.and bs _ hbs hidle)
    · rw [hecho hfinal hend, hecho h hempty]
    · obtain ⟨⟨e', h', he⟩, -⟩ := step_nested hs hop.1
      rwa [he hop.2] at h'

/-- A round that reads a line, or comes to the end of the file. -/
def lineEvent (line : Option (List Char)) : ReadEvent :=
  ⟨false, false, false, false, true, true, line, false⟩

/-- A batch file calls another, which turns echo off, runs a FOR over two elements and goes to a label
that it does not have. -/
def missingLabel : List ContextOp :=
  [.command (.batch ⟨true, true, true, some 0⟩), .read [lineEvent (some "call sub".toList)],
    .command (.call true true (.batch ⟨true, true, true, some 1⟩)),
    .read [lineEvent (some "@echo off".toList)], .command (.echo false),
    .command (.doFor ⟨true, true, true, true, some 2⟩), .read [lineEvent none],
    .read [lineEvent none], .read [lineEvent none, lineEvent (some "goto end".toList)],
    .command (.goto ⟨"end".toList, true⟩),
    .read [lineEvent (some ":start".toList), lineEvent none, lineEvent none]]

theorem missingLabel_nested :
    Lib.Along contextStep StepNested (Contexts.idle true) missingLabel ∧
      (Lib.run contextStep (Contexts.idle true) missingLabel).echo = true := by
  have hnested := contexts_well_nested true missingLabel
    ⟨trivial, trivial, .inr ⟨rfl, .inr (.inl ⟨_, rfl, rfl, .inl ⟨rfl, rfl⟩⟩)⟩, trivial, trivial,
      trivial, trivial, trivial, trivial, fun _ _ c rest h => by cases h; rfl, trivial, trivial⟩
  have hbusy : Lib.Guarded contextStep NoIdleEcho (Contexts.idle true) missingLabel := by
    refine ⟨?_, ?_, ?_, ?_, ?_, ?_, ?_, ?_, ?_, ?_, ?_, trivial⟩
    all_goals
      intro on h
      cases h
    decide
  exact ⟨hnested.1, hnested.2 [] missingLabel rfl rfl hbusy (by decide)⟩

/-- A second GOTO in one line loses the first label, GOTO under CALL loses its label, and FOR under
CALL leaves a context on the stack that is freed. -/
theorem contexts_disordered :
    ¬ Accounted (Lib.run contextStep (Contexts.idle true)
        [.command (.batch ⟨true, true, true, some 0⟩), .command (.goto ⟨"a".toList, true⟩),
          .command (.goto ⟨"b".toList, true⟩)]) ∧
      ¬ Accounted (Lib.run contextStep (Contexts.idle true)
        [.command (.call true true (.goto ⟨"a".toList, true⟩))]) ∧
      ¬ Accounted (Lib.run contextStep (Contexts.idle true)
        [.command (.call true true (.doFor ⟨true, true, true, true, some 1⟩))]) := by
  refine ⟨fun h => ?_, fun h => ?_, fun h => ?_⟩
  · exact nomatch h.blocks 4
  · exact nomatch h.blocks 1
  · exact nomatch h.blocks 0

end SdcBoot.FreeCom
