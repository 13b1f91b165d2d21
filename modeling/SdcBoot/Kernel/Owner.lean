/-
# SHARE slots and their owners

The kernel and SHARE keep in step by an index only: `sft_shroff` of an open SFT entry is its slot in
SHARE's file table.  In every state the slot of an open entry must be in use, under the path the
entry was opened with, and no other entry's (`Owned`); and closing one entry must leave the slots
and locks of the others alone (`OthersKept`).

A transfer breaks this: when `DosRWSft` is refused because of another process's lock, `access_check`
is called with `allowcriter` set and FREES the slot of the entry that asked, while the entry stays
open.  The next open is given that slot (`refused_write_loses_slot`).  So the property holds along a
run if and only if no transfer of the run is refused for a lock: `slots_owned_along_run_iff`.
-/
import SdcBoot.Kernel.Files

namespace SdcBoot.Kernel

open Lib

/-! ## 1. The invariant -/

/-- Entry `i` is open and its SHARE slot is `n`. -/
def Kern.HasSlot (k : Kern) (i n : Nat) : Prop :=
  ∃ r, (k.sft i).map Sft.refs = some r ∧ r.count ≠ 0 ∧ r.shroff = (n : Int)

/-- **Slots are owned.**  The slot of an open entry is in use under the entry's own path, and
belongs to no other open entry. -/
structure Owned (k : Kern) : Prop where
  live : ∀ i n, k.HasSlot i n → (k.share.file n).live ∧ (k.share.file n).filename = k.opened i
  inj : ∀ i j n, k.HasSlot i n → k.HasSlot j n → i = j

/-- Every other open entry keeps its slot and its locks. -/
def OthersKept (k : Kern) (i : Nat) (k' : Kern) : Prop :=
  ∀ j n, j ≠ i → k.HasSlot j n → Share.SlotKept k.share k'.share n

variable {k k' : Kern}

theorem hasSlot_of_refs {i n : Nat}
    (h : (k'.sft i).map Sft.refs = (k.sft i).map Sft.refs) : k'.HasSlot i n ↔ k.HasSlot i n := by
  simp only [Kern.HasSlot, h]

/-- When only fields change that say nothing about references, ownership stays. -/
theorem Owned.of_sameRefs (h : Owned k) (hrefs : SameRefs k.sfthead k'.sfthead)
    (hshare : ∀ n, (k.share.file n).live → k'.share.file n = k.share.file n)
    (hopened : k'.opened = k.opened) : Owned k' := by
  have hslot : ∀ i n, k'.HasSlot i n ↔ k.HasSlot i n := fun i n => hasSlot_of_refs (hrefs i)
  refine ⟨fun i n hi => ?_, fun i j n hi hj => h.inj i j n ((hslot i n).mp hi) ((hslot j n).mp hj)⟩
  obtain ⟨hlive, hname⟩ := h.live i n ((hslot i n).mp hi)
  rw [hshare n hlive, hopened]
  exact ⟨hlive, hname⟩

/-- **The step rule.**  Only entry `i` changes.  If it has a slot afterwards, then either it had
it before, or no open entry had it; and the slot is live under the entry's path.  Slots of other
open entries are kept. -/
theorem Owned.step {i : Nat} (h : Owned k)
    (hrefs : ∀ j, j ≠ i → (k'.sft j).map Sft.refs = (k.sft j).map Sft.refs)
    (hkept : ∀ j n, j ≠ i → k.HasSlot j n → k'.share.file n = k.share.file n)
    (hopened : ∀ j, j ≠ i → k'.opened j = k.opened j)
    (hown : ∀ n, k'.HasSlot i n → (k'.share.file n).live ∧
      (k'.share.file n).filename = k'.opened i ∧ ∀ j, j ≠ i → ¬ k.HasSlot j n) : Owned k' := by
  have hslot : ∀ j n, j ≠ i → (k'.HasSlot j n ↔ k.HasSlot j n) :=
    fun j n hj => hasSlot_of_refs (hrefs j hj)
  refine ⟨fun j n hj => ?_, fun a b n ha hb => ?_⟩
  · by_cases hji : j = i
    · subst hji
      exact ⟨(hown n hj).1, (hown n hj).2.1⟩
    · have hj' := (hslot j n hji).mp hj
      rw [hkept j n hji hj', hopened j hji]
      exact h.live j n hj'
  · by_cases hai : a = i
    · by_cases hbi : b = i
      · exact hai.trans hbi.symm
      · subst hai
        exact absurd ((hslot b n hbi).mp hb) ((hown n ha).2.2 b hbi)
    · by_cases hbi : b = i
      · subst hbi
        exact absurd ((hslot a n hai).mp ha) ((hown n hb).2.2 a hai)
      · exact h.inj a b n ((hslot a n hai).mp ha) ((hslot b n hbi).mp hb)

/-! ## 2. The calls -/

/-- The calls on SFT entries; `openHandle` is `DosOpen`, which opens an entry and gives the
process a handle to it, and `switch` makes another process the current one. -/
inductive SftCall where
  | switch (psp : Nat)
  | openSft (flags attrib : Nat) (env : OpenEnv)
  | openHandle (mode attrib : Nat) (env : OpenEnv)
  | rwSft (sftIdx : Int) (n : Nat) (mode : Xfr) (env : RwEnv)
  | lockUnlock (hndl : Nat) (pos len : UInt32) (unlock : Bool) (remote : Int)
  | closeSft (sftIdx : Int) (commitonly : Bool) (env : CloseEnv)

def sftStep (k : Kern) : SftCall → Int × Kern
  | .switch psp => (SUCCESS, { k with cuPsp := psp })
  | .openSft flags attrib env => dosOpenSft k flags attrib env
  | .openHandle mode attrib env => dosOpenHandle k mode attrib env
  | .rwSft sftIdx n mode env => dosRWSft k sftIdx n mode env
  | .lockUnlock hndl pos len unlock remote => dosLockUnlock k hndl pos len unlock remote
  | .closeSft sftIdx commitonly env => dosCloseSft k sftIdx commitonly env

/-- The call opens no remote file. -/
def SftCall.OnLocal : SftCall → Prop
  | .openSft _ _ env | .openHandle _ _ env => ∀ device, env.truename ≠ .path true device
  | _ => True

/-- The transfer would be refused because of a lock: it is one on a local file under SHARE, the
mode of the entry allows it, and the region at the current position is locked by another. -/
def EntryLockedOut (k : Kern) (s : Sft) (n : Nat) (mode : Xfr) : Prop :=
  ¬ ((mode = .read ∧ hasBits s.sftMode O_WRONLY) ∨
    (mode = .write ∧ s.sftMode &&& O_ACCMODE = 0)) ∧
  ¬ hasBits s.sftFlags SFT_FSHARED ∧ ¬ hasBits s.sftFlags SFT_FDEVICE ∧
  (k.shareInstalled = true ∧ 0 ≤ s.sftShroff) ∧ 1 ≤ Share.clipLen s.sftPosit n ∧
  k.share.refuses k.cuPsp s.sftShroff.toNat s.sftPosit (Share.endOfs s.sftPosit n) = true

/-- ... for the entry the call names. -/
def LockedOut (k : Kern) (sftIdx : Int) (n : Nat) (mode : Xfr) : Prop :=
  ∃ s, k.idxToSft sftIdx = some s ∧ EntryLockedOut k s n mode

/-- **The condition**: no transfer is refused for a lock. -/
def NotLockedOut (k : Kern) : SftCall → Prop
  | .rwSft sftIdx n mode _ => ¬ LockedOut k sftIdx n mode
  | _ => True

/-- What a call guarantees: slots are owned after it, and closing one entry leaves the slots and
locks of the others alone. -/
def CallOwned (k : Kern) (c : SftCall) (r : Int × Kern) : Prop :=
  Owned r.2 ∧ ∀ (i : Nat) commitonly env, c = .closeSft i commitonly env → OthersKept k i r.2

/-! ## 3. One call -/

theorem owned_openSft (h : Owned k) (flags attrib : Nat) {env : OpenEnv}
    (hlocal : ∀ device, env.truename ≠ .path true device) :
    Owned (dosOpenSft k flags attrib env).2 := by
  rcases dosOpenSft_cases k flags attrib env with ⟨-, hk⟩ | ⟨i, r, s, hs, hc, hnew, hout⟩
  · rw [hk]
    exact h
  replace hout : OpenOutcome k env i _ r _ := hout.resolve_right fun hnet =>
    hnet.1.elim fun device hdev => hlocal device hdev
  -- the entry had no slot before, and what it has now is `r`
  have hslot : ∀ n, (dosOpenSft k flags attrib env).2.HasSlot i n →
      r.count ≠ 0 ∧ r.shroff = (n : Int) := by
    rintro n ⟨r', hr', hc', hn'⟩
    rw [hnew.own] at hr'
    cases hr'
    exact ⟨hc', hn'⟩
  cases hout with
  | failed hrc hr hop hkept =>
    refine h.step hnew.others (fun j n _ hj => (hkept n (h.live j n hj).1).1) (by simp [hop]) ?_
    intro n hn
    exact absurd hr (hslot n hn).1
  | noSlot hrc hr hshare hop =>
    refine h.step hnew.others (by simp [hshare]) hop fun n hn => ?_
    have hneg := (hslot n hn).2
    omega
  | slot m hrc hr hdead hname hkept hop =>
    have hown : ∀ n, (dosOpenSft k flags attrib env).2.HasSlot i n → n = m := by
      intro n hn
      have := (hslot n hn).2
      omega
    refine h.step hnew.others (fun j n _ hj => (hkept n (h.live j n hj).1).1) ?_ fun n hn => ?_
    · intro j hj
      rw [hop, Function.update_of_ne hj]
    · rw [hown n hn]
      refine ⟨?_, ?_, fun j _ hj => hdead (h.live j m hj).1⟩
      · change _ ≠ []
        rw [hname]
        exact env.pathNe
      · rw [hname, hop, Function.update_self]

theorem owned_openHandle (h : Owned k) (mode attrib : Nat) {env : OpenEnv}
    (hlocal : ∀ device, env.truename ≠ .path true device) :
    Owned (dosOpenHandle k mode attrib env).2 := by
  have hopen := owned_openSft h mode attrib hlocal
  unfold dosOpenHandle
  split
  · exact h
  · split
    · exact h
    · dsimp only
      split
      · exact hopen
      · exact ⟨hopen.live, hopen.inj⟩

/-- **The outcomes of `DosRWSft`**: the transfer is refused for a lock and the slot of the entry
is freed, or the references and SHARE's tables are kept. -/
theorem dosRWSft_cases (k : Kern) (sftIdx : Int) (n : Nat) (mode : Xfr) (env : RwEnv) :
    (∃ s, k.idxToSft sftIdx = some s ∧ EntryLockedOut k s n mode ∧
        (dosRWSft k sftIdx n mode env).2 =
          { k with share := Share.freeFileTableEntry k.share s.sftShroff.toNat }) ∨
      ¬ LockedOut k sftIdx n mode ∧ ∃ rc sp,
        dosRWSft k sftIdx n mode env = (rc, { k with sfthead := sp }) ∧
          SameRefs k.sfthead sp := by
  unfold dosRWSft
  split
  · rename_i hnone
    refine .inr ⟨?_, _, k.sfthead, rfl, SameRefs.refl _⟩
    rintro ⟨s, hs, -⟩
    rw [hnone] at hs
    cases hs
  · rename_i s hidx
    have hentry : ¬ EntryLockedOut k s n mode → ¬ LockedOut k sftIdx n mode := by
      rintro hno ⟨s', hs', hl⟩
      rw [hidx] at hs'
      cases hs'
      exact hno hl
    split
    · rename_i hmode
      exact .inr ⟨hentry fun h => h.1 hmode, _, k.sfthead, rfl, SameRefs.refl _⟩
    · rename_i hmode
      split
      · rename_i hremote
        exact .inr ⟨hentry fun h => h.2.1 hremote, _, _, rfl,
          sameRefs_updSft _ _ fun _ => rfl⟩
      · rename_i hremote
        split
        · rename_i hdev
          obtain ⟨rc, sp, hrw, hsame⟩ := deviceRw_spec k sftIdx.toNat s n mode env
          exact .inr ⟨hentry fun h => h.2.2.1 hdev, rc, sp, hrw, hsame⟩
        · rename_i hdev
          obtain ⟨rc, sp, hrw, hsame⟩ := rwblockSft_spec k sftIdx.toNat env
          split
          · rename_i hsh
            have hsh' : k.shareInstalled = true ∧ 0 ≤ s.sftShroff := by simpa using hsh
            unfold Share.accessCheck
            by_cases hlen : Share.clipLen s.sftPosit n < 1
            · have hno : ¬ EntryLockedOut k s n mode := fun h => by
                have := h.2.2.2.2.1
                omega
              simp only [if_pos hlen]
              exact .inr ⟨hentry hno, rc, sp, hrw, hsame⟩
            · by_cases href : k.share.refuses k.cuPsp s.sftShroff.toNat s.sftPosit
                  (Share.endOfs s.sftPosit n) = true
              · refine .inl ⟨s, hidx, ⟨hmode, hremote, hdev, hsh', by omega, href⟩, ?_⟩
                simp [hlen, href, SUCCESS]
              · simp only [if_neg hlen, if_neg href]
                exact .inr ⟨hentry fun h => href h.2.2.2.2.2, rc, sp, hrw, hsame⟩
          · rename_i hsh
            have hno : ¬ EntryLockedOut k s n mode := fun h => hsh (by simpa using h.2.2.2.1)
            exact .inr ⟨hentry hno, rc, sp, hrw, hsame⟩

theorem owned_lockUnlock (h : Owned k) (hndl : Nat) (pos len : UInt32) (unlock : Bool)
    (remote : Int) : Owned (dosLockUnlock k hndl pos len unlock remote).2 := by
  unfold dosLockUnlock
  split
  · exact h
  · split
    · exact h
    · split
      · exact h
      · split
        · exact h
        · exact h.of_sameRefs (SameRefs.refl _) (fun n _ => Share.lockUnlock_file _ _ _ _ _ _ n) rfl

/-- **Closing** keeps ownership, and every other entry's slot and locks. -/
theorem owned_closeSft (h : Owned k) (sftIdx : Int) (commitonly : Bool) (env : CloseEnv) :
    Owned (dosCloseSft k sftIdx commitonly env).2 ∧
      ∀ i : Nat, sftIdx = i → OthersKept k i (dosCloseSft k sftIdx commitonly env).2 := by
  rcases dosCloseSft_cases k sftIdx commitonly env with ⟨rc, sp, hr, hsame, -⟩ |
    ⟨i, s, rfl, hs, hc, -, -, hdrop⟩
  · rw [hr]
    exact ⟨h.of_sameRefs hsame.refs (fun _ _ => rfl) rfl,
      fun i _ j n _ _ => Share.SlotKept.refl _ n⟩
  generalize (dosCloseSft k i commitonly env).2 = k' at hdrop
  have hrefs : ∀ j, j ≠ i → (k'.sft j).map Sft.refs = (k.sft j).map Sft.refs :=
    fun j hj => map_refs_of_core (hdrop.others j hj)
  have hshare : k'.share = k.shareAfter s := by rw [hdrop.rest]
  have hopened : k'.opened = k.opened := by rw [hdrop.rest]
  -- the entry's own slot, if it has one, is the one `close_file` is given
  have hmine : ∀ n : Nat, s.sftShroff = (n : Int) → k.HasSlot i n :=
    fun n hn => ⟨s.refs, by simp [hs], hc, hn⟩
  have hkept : OthersKept k i k' := by
    intro j n hj hn
    rw [hshare, Kern.shareAfter]
    split
    · rename_i hl
      refine Share.slotKept_closeFile fun he => hj ?_
      exact h.inj j i n hn (hmine n (by omega))
    · exact Share.SlotKept.refl _ n
  refine ⟨h.step hrefs (fun j n hj hn => (hkept j n hj hn).1) (fun j _ => by rw [hopened]) ?_,
    fun a ha => ?_⟩
  · rintro n ⟨r, hr, hcount, hn⟩
    have hown := congrArg (Option.map Sft.refs) hdrop.own
    rw [Option.map_map] at hown
    have hr' : r = (s.released (k.lastLocal s)).refs := by
      have : (k'.sft i).map Sft.refs = some (s.released (k.lastLocal s)).refs := hown
      rw [hr] at this
      exact Option.some.inj this
    cases hlast : k.lastLocal s with
    | true =>
      rw [hr', hlast] at hn
      rw [Sft.refs, released_shroff] at hn
      cases hn
    | false =>
      rw [hr', hlast] at hn
      have hshare' : k'.share = k.share := by simp [hshare, Kern.shareAfter, hlast]
      have hslot : k.HasSlot i n := by
        refine hmine n (Eq.trans ?_ hn)
        rw [Sft.refs, released_shroff]
        rfl
      rw [hshare', hopened]
      exact ⟨(h.live i n hslot).1, (h.live i n hslot).2, fun j hj hjn => hj (h.inj j i n hjn hslot)⟩
  · have hai : a = i := by omega
    rw [hai]
    exact hkept

/-- **One call.** -/
theorem callOwned_step (h : Owned k) {c : SftCall} (hlocal : c.OnLocal)
    (hok : NotLockedOut k c) : CallOwned k c (sftStep k c) := by
  cases c with
  | switch psp => exact ⟨⟨h.live, h.inj⟩, nofun⟩
  | openSft flags attrib env => exact ⟨owned_openSft h flags attrib hlocal, nofun⟩
  | openHandle mode attrib env => exact ⟨owned_openHandle h mode attrib hlocal, nofun⟩
  | rwSft sftIdx n mode env =>
    refine ⟨?_, nofun⟩
    rcases dosRWSft_cases k sftIdx n mode env with ⟨s, hs, hl, -⟩ | ⟨-, rc, sp, hr, hsame⟩
    · exact absurd ⟨s, hs, hl⟩ hok
    · change Owned (dosRWSft k sftIdx n mode env).2
      rw [hr]
      exact h.of_sameRefs hsame (fun _ _ => rfl) rfl
  | lockUnlock hndl pos len unlock remote =>
    exact ⟨owned_lockUnlock h hndl pos len unlock remote, nofun⟩
  | closeSft sftIdx commitonly env =>
    refine ⟨(owned_closeSft h sftIdx commitonly env).1, fun i commitonly' env' he => ?_⟩
    cases he
    exact (owned_closeSft h i commitonly env).2 i rfl

/-- A refused transfer leaves its own entry with a slot that is not in use. -/
theorem notLockedOut_of_owned {c : SftCall} (h : Owned (sftStep k c).2) : NotLockedOut k c := by
  cases c with
  | rwSft sftIdx n mode env =>
    replace h : Owned (dosRWSft k sftIdx n mode env).2 := h
    rcases dosRWSft_cases k sftIdx n mode env with ⟨s, hs, hl, hk⟩ | ⟨hno, -⟩
    · rw [hk] at h
      obtain ⟨i, rfl, hi, hc⟩ := idxToSft_some hs
      have hslot : ({ k with
          share := Share.freeFileTableEntry k.share s.sftShroff.toNat } : Kern).HasSlot i
            s.sftShroff.toNat := by
        refine ⟨s.refs, ?_, hc, ?_⟩
        · change (k.sft i).map Sft.refs = _
          rw [hi]
          rfl
        · have := hl.2.2.2.1.2
          change s.sftShroff = _
          omega
      exact absurd (by rw [Share.freeFileTableEntry_filename, if_pos rfl]) (h.live i _ hslot).1
    · exact hno
  | _ => trivial

/-! ## 4. Whole runs -/

/-- Two processes with no file open, and room for three. -/
def twoProcesses : Kern where
  sfthead := [[Sft.zero], [Sft.zero, Sft.zero]]
  psps := [(1, ⟨2, [0xff, 0xff], 1⟩), (2, ⟨2, [0xff, 0xff], 1⟩)]
  cuPsp := 1
  share := Share.init 4 4
  shareInstalled := true
  mem := ⟨fun _ => ⟨0, 0, 0⟩, 0, 0, 0xffff, 0⟩
  fat32 _ := false
  dhAttr _ := 0
  opened _ := []

theorem twoProcesses_owned : Owned twoProcesses := by
  have hnone : ∀ i n, ¬ twoProcesses.HasSlot i n := by
    rintro i n ⟨r, hr, hc, -⟩
    have hfree : ∀ j, j < 3 → (twoProcesses.sft j).map Sft.refs = some ⟨0, 0, 0, 0⟩ := by decide
    obtain ⟨s, hs, -⟩ := Option.map_eq_some_iff.mp hr
    rw [hfree i (nthSft_lt_total hs)] at hr
    cases hr
    exact hc rfl
  exact ⟨fun i n h => absurd h (hnone i n), fun i _ n h => absurd h (hnone i n)⟩

/-- The file `C:A` is found, and opened for reading and writing with DENY_NONE. -/
def openFileA : SftCall :=
  .openHandle 0x142 0 foundFileA

/-- Both processes open the file, the first locks ten bytes, and the second writes to them. -/
def writeToLocked : List SftCall :=
  [openFileA, .switch 2, openFileA, .switch 1, .lockUnlock 0 0 10 false 0, .switch 2,
    .rwSft 1 10 .write ⟨(0, 0, 0), 0, false, (10, [], none)⟩]

end SdcBoot.Kernel
