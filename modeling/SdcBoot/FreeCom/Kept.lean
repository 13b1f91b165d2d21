/-
# What COPY does to the files

A copy that succeeds leaves the sources behind one another in the destination, and no file but the
destination changes.  Two things break this where a chain is appended to its first source: when one
source is left to append, the destination is cut to the length of that source and written from its
start; and every error removes the destination, as if it had been made by this copy.

`Job.Spared` says when neither happens.
-/
import Mathlib.Data.List.Basic
import SdcBoot.FreeCom.Copy

namespace SdcBoot.FreeCom

open List

variable {lines : Bytes → List Bytes} {n : FileName} {e : SourceEnv} {s : Source} {w : Work}
  {single : Bool}

/-! ## 1. Only the destination changes -/

theorem bigLoop_sameBut (fuel round : Nat) (rest : Bytes) (w : Work) :
    Volume.SameBut n w.v (bigLoop n e fuel round rest w).2.v := by
  induction fuel generalizing round rest w with
  | zero => exact .refl n w.v
  | succ fuel ih =>
    rw [bigLoop]
    have hwrite := w.sameBut_write n ((rest.take e.bufferSize).take (e.accepts round))
    split
    · exact .refl n w.v
    · split
      · exact .refl n w.v
      · dsimp only
        split
        · exact hwrite
        · split
          · exact hwrite
          · exact hwrite.trans (ih _ _ _)

theorem BIGcopy_sameBut (content : Bytes) (w : Work) :
    Volume.SameBut n w.v (BIGcopy n e content w).2.v := by
  unfold BIGcopy
  split
  · exact .refl n w.v
  · exact bigLoop_sameBut _ _ _ _

theorem copyBinary_sameBut (w : Work) :
    Volume.SameBut n w.v (copyBinary n single e s w).2.v := by
  unfold copyBinary
  dsimp only
  split
  · split
    · have hpresized := w.sameBut_presize n e.junk e.room (s.content w.v e).length
      have hbig := hpresized.trans (@BIGcopy_sameBut n e (s.content w.v e) _)
      split
      · exact hbig.trans (Work.sameBut_cut _ n)
      · exact hbig
    · exact .refl n w.v
  · exact BIGcopy_sameBut _ w

theorem copyText_sameBut (w : Work) : Volume.SameBut n w.v (copyText lines n e s w).2.v := by
  unfold copyText
  split
  · exact Work.sameBut_flush _ n e.flushed
  · exact .refl n w.v

theorem copySource_sameBut (w : Work) :
    Volume.SameBut n w.v (copySource lines n single e s w).2.v := by
  unfold copySource
  split
  · split
    · exact .refl n w.v
    · split
      · exact copyText_sameBut w
      · exact copyBinary_sameBut w
  · exact .refl n w.v

variable {env : Nat → SourceEnv}

theorem copySources_sameBut (k : Nat) (l : List Source) (w : Work) :
    Volume.SameBut n w.v (copySources lines n single env k l w).2.v := by
  induction l generalizing k w with
  | nil => exact .refl n w.v
  | cons s rest ih =>
    rw [copySources]
    have hsource := @copySource_sameBut lines n (env k) s single w
    split
    · exact hsource.trans (ih _ _)
    · exact hsource

/-- **No file but the destination changes.** -/
theorem Job.run_sameBut (j : Job) : Volume.SameBut j.dest j.before (j.run lines).2 := by
  have hopened : Volume.SameBut j.dest j.before j.opened.v := Volume.sameBut_put _ _ _
  have hcopied := hopened.trans
    (@copySources_sameBut lines j.dest j.single j.env.source 0 j.sources j.opened)
  unfold Job.run
  dsimp only
  split
  · refine hcopied.trans ?_
    split
    · exact Work.sameBut_flush _ _ _
    · exact Work.sameBut_flush _ _ _
  · exact hcopied.trans (Volume.sameBut_put _ _ _)

/-! ## 2. When nothing goes wrong -/

/-- `BIGcopy` goes through `len` bytes: there is memory, no read fails, every write is taken as a
whole, and ^Break is not pressed. -/
structure SourceEnv.Big (e : SourceEnv) (len : Nat) : Prop where
  memory : e.bufferSize ≠ 0
  first : e.readFails 0 = false
  rounds : ∀ k, k * e.bufferSize < len →
    min e.bufferSize (len - k * e.bufferSize) ≤ e.accepts k ∧ e.breaks k = false ∧
      e.readFails (k + 1) = false

/-- A source is copied as a whole. -/
structure SourceEnv.Clear (e : SourceEnv) (n : FileName) (single : Bool) (s : Source)
    (v : Volume) : Prop where
  known : v.known s.path = true
  opens : e.opens = true
  noBreak : e.breakBefore = false ∧ e.breakAfter = false
  text : s.text v = true →
    e.textMemory = true ∧ e.readError = false ∧ e.writeError = false
  presizes : s.text v = false → sizeChanged n single s v = true → e.presizes = true
  big : s.text v = false → e.Big (s.content v e).length

theorem bigLoop_ok_iff (hsize : e.bufferSize ≠ 0) {fuel round : Nat} {rest : Bytes} {w : Work}
    (hfuel : rest.length < fuel) :
    (bigLoop n e fuel round rest w).1 = 0 ↔ e.readFails round = false ∧
      ∀ k, k * e.bufferSize < rest.length →
        min e.bufferSize (rest.length - k * e.bufferSize) ≤ e.accepts (round + k) ∧
          e.breaks (round + k) = false ∧ e.readFails (round + k + 1) = false := by
  induction fuel generalizing round rest w with
  | zero => exact absurd hfuel (Nat.not_lt_zero _)
  | succ fuel ih =>
    rw [bigLoop]
    cases hread : e.readFails round with
    | true => simp
    | false =>
      by_cases hnil : rest = []
      · simp [hnil]
      · have hpos : 0 < rest.length := length_pos_iff.mpr hnil
        have hdrop : (rest.drop e.bufferSize).length < fuel := by
          rw [length_drop]
          omega
        have hchunk : (rest.take e.bufferSize).length = min e.bufferSize rest.length :=
          length_take
        have hih := fun w => @ih (round + 1) (rest.drop e.bufferSize) w hdrop
        rw [length_drop] at hih
        simp only [Bool.false_eq_true, if_false, hnil, true_and]
        constructor
        · intro hok k hk
          split at hok
          · cases hok
          · rename_i haccepts
            split at hok
            · cases hok
            · rename_i hbreaks
              obtain ⟨hnext, hrest⟩ := (hih _).mp hok
              cases k with
              | zero =>
                rw [zero_mul, Nat.sub_zero, add_zero]
                exact ⟨by omega, by simpa using hbreaks, hnext⟩
              | succ k =>
                rw [Nat.succ_mul] at hk ⊢
                have hk' := hrest k (by omega)
                rw [show round + 1 + k = round + (k + 1) by omega] at hk'
                rwa [show rest.length - (k * e.bufferSize + e.bufferSize) =
                  rest.length - e.bufferSize - k * e.bufferSize by omega]
        · intro hall
          obtain ⟨haccepts, hbreaks, hnext⟩ := hall 0 (by omega)
          rw [zero_mul, Nat.sub_zero, add_zero, ← hchunk] at haccepts
          rw [add_zero] at hbreaks hnext
          rw [if_neg (not_lt.mpr haccepts), hbreaks, if_neg (by simp)]
          refine (hih _).mpr ⟨hnext, fun k hk => ?_⟩
          have hk' := hall (k + 1) (by rw [Nat.succ_mul]; omega)
          rw [Nat.succ_mul] at hk'
          rw [show round + 1 + k = round + (k + 1) by omega]
          rwa [show rest.length - e.bufferSize - k * e.bufferSize =
            rest.length - (k * e.bufferSize + e.bufferSize) by omega]

theorem BIGcopy_ok_iff {content : Bytes} :
    (BIGcopy n e content w).1 = 0 ↔ e.Big content.length := by
  unfold BIGcopy
  by_cases hsize : e.bufferSize = 0
  · rw [if_pos hsize]
    exact ⟨nofun, fun h => absurd hsize h.memory⟩
  · rw [if_neg hsize, bigLoop_ok_iff hsize (Nat.lt_succ_self _)]
    simp only [zero_add]
    exact ⟨fun ⟨hfirst, hrounds⟩ => ⟨hsize, hfirst, hrounds⟩, fun h => ⟨h.first, h.rounds⟩⟩

theorem copyBinary_ok_iff :
    (copyBinary n single e s w).1 = true ↔
      (sizeChanged n single s w.v = true → e.presizes = true) ∧
        e.Big (s.content w.v e).length := by
  unfold copyBinary
  cases sizeChanged n single s w.v with
  | true =>
    cases e.presizes with
    | true => simp [BIGcopy_ok_iff]
    | false => simp
  | false => simp [BIGcopy_ok_iff]

theorem copyText_ok_iff :
    (copyText lines n e s w).1 = true ↔
      e.textMemory = true ∧ e.readError = false ∧ e.writeError = false := by
  unfold copyText
  cases e.textMemory <;> simp

theorem copySource_ok_iff {w : Work} :
    (copySource lines n single e s w).1 = true ↔ e.Clear n single s w.v := by
  have hrun : (copySource lines n single e s w).1 = true ↔
      w.v.known s.path = true ∧ e.opens = true ∧ e.breakBefore = false ∧ e.breakAfter = false ∧
        (if s.text w.v then copyText lines n e s w else copyBinary n single e s w).1 = true := by
    unfold copySource
    cases w.v.known s.path <;> cases e.opens <;> cases e.breakBefore <;> cases e.breakAfter <;> simp
  rw [hrun]
  cases htext : s.text w.v with
  | true =>
    rw [if_pos rfl, copyText_ok_iff]
    constructor
    · rintro ⟨hknown, hopens, hbefore, hafter, hok⟩
      exact ⟨hknown, hopens, ⟨hbefore, hafter⟩, fun _ => hok,
        fun hno => absurd (htext.symm.trans hno) (by decide),
        fun hno => nomatch htext.symm.trans hno⟩
    · intro h
      exact ⟨h.known, h.opens, h.noBreak.1, h.noBreak.2, h.text htext⟩
  | false =>
    rw [if_neg (by decide), copyBinary_ok_iff]
    constructor
    · rintro ⟨hknown, hopens, hbefore, hafter, hpresizes, hbig⟩
      exact ⟨hknown, hopens, ⟨hbefore, hafter⟩,
        fun hno => absurd (htext.symm.trans hno) (by decide), fun _ => hpresizes, fun _ => hbig⟩
    · intro h
      exact ⟨h.known, h.opens, h.noBreak.1, h.noBreak.2, h.presizes htext, h.big htext⟩

/-- A source is read the same while another file is written. -/
theorem Source.sameBut {v v' : Volume} (hsame : Volume.SameBut n v v') (hne : s.path ≠ n) :
    v'.known s.path = v.known s.path ∧ s.text v' = s.text v ∧ s.content v' e = s.content v e ∧
      sizeChanged n single s v' = sizeChanged n single s v := by
  have hfile := hsame.2 _ hne
  unfold Volume.known Source.text Source.content sizeChanged Volume.data
  rw [hsame.1, hfile]
  exact ⟨rfl, rfl, rfl, rfl⟩

variable {v : Volume} {d : Bytes} {pos : Nat} {names : Names} {dst : FileName}

theorem SourceEnv.Clear.congr {v' : Volume} (hsame : Volume.SameBut n v v') (hne : s.path ≠ n) :
    e.Clear n single s v' ↔ e.Clear n single s v := by
  obtain ⟨hknown, htext, hcontent, hsize⟩ := @Source.sameBut n e s single v v' hsame hne
  constructor <;> intro h
  all_goals
    exact ⟨hknown ▸ h.known, h.opens, h.noBreak, htext ▸ h.text, htext ▸ hsize ▸ h.presizes,
      htext ▸ hcontent ▸ h.big⟩

theorem copySources_ok_iff {k : Nat} {l : List Source} {w : Work} (hapart : ∀ s ∈ l, s.path ≠ n) :
    (copySources lines n single env k l w).1 = true ↔
      ∀ i s, l[i]? = some s → (env (k + i)).Clear n single s w.v := by
  induction l generalizing k w with
  | nil => simp [copySources]
  | cons s rest ih =>
    have hrest : ∀ s ∈ rest, s.path ≠ n := fun s hs => hapart s (.tail _ hs)
    have hsame := @copySource_sameBut lines n (env k) s single w
    have hfirst := @copySource_ok_iff lines n (env k) s single w
    rw [copySources]
    constructor
    · intro hok i t hi
      split at hok
      · rename_i hs
        cases i with
        | zero =>
          cases hi
          exact hfirst.mp hs
        | succ i =>
          have hmem : rest[i]? = some t := by simpa using hi
          have hclear := (ih hrest).mp hok i t hmem
          rw [add_right_comm, add_assoc] at hclear
          exact (SourceEnv.Clear.congr hsame (hrest t (mem_of_getElem? hmem))).mp hclear
      · rename_i hs
        cases hok
    · intro hall
      rw [if_pos (hfirst.mpr (hall 0 s rfl))]
      refine (ih hrest).mpr fun i t hi => ?_
      have hclear := hall (i + 1) t (by simpa using hi)
      rw [add_right_comm, add_assoc]
      exact (SourceEnv.Clear.congr hsame (hrest t (mem_of_getElem? hi))).mpr hclear

/-! ## 3. What is written -/

theorem bigLoop_at (hsize : e.bufferSize ≠ 0) {fuel round : Nat} {rest : Bytes} (hat : w.At n d pos)
    (hpos : pos ≤ d.length) (hfuel : rest.length < fuel)
    (hok : (bigLoop n e fuel round rest w).1 = 0) :
    (bigLoop n e fuel round rest w).2.At n (overwrite d pos rest) (pos + rest.length) := by
  induction fuel generalizing round rest d pos w with
  | zero => exact absurd hfuel (Nat.not_lt_zero _)
  | succ fuel ih =>
    rw [bigLoop] at hok ⊢
    split at hok
    · cases hok
    · rename_i hread
      rw [if_neg hread]
      by_cases hnil : rest = []
      · rw [if_pos hnil, hnil, overwrite_nil]
        exact hat
      · have hlen : 0 < rest.length := length_pos_iff.mpr hnil
        rw [if_neg hnil] at hok ⊢
        dsimp only at hok ⊢
        split at hok
        · cases hok
        · rename_i haccepts
          rw [if_neg haccepts]
          split at hok
          · cases hok
          · rename_i hbreaks
            rw [if_neg hbreaks]
            have hchunk : (rest.take e.bufferSize).take (e.accepts round) =
                rest.take e.bufferSize := take_of_length_le (Nat.le_of_not_lt haccepts)
            rw [hchunk] at hok ⊢
            have hdrop : (rest.drop e.bufferSize).length < fuel := by
              rw [length_drop]
              omega
            have hnext := ih (hat.write (rest.take e.bufferSize))
              (length_overwrite_ge hpos) hdrop hok
            rw [overwrite_overwrite hpos, take_append_drop, add_assoc,
              ← length_append, take_append_drop] at hnext
            exact hnext

theorem BIGcopy_at {content : Bytes} (hat : w.At n d pos) (hpos : pos ≤ d.length)
    (hok : (BIGcopy n e content w).1 = 0) :
    (BIGcopy n e content w).2.At n (overwrite d pos content) (pos + content.length) := by
  have hsize := (BIGcopy_ok_iff.mp hok).memory
  unfold BIGcopy at hok ⊢
  rw [if_neg hsize] at hok ⊢
  exact bigLoop_at hsize hat hpos (Nat.lt_succ_self _) hok

/-- A file that is not copied in text mode. -/
structure Source.Plain (s : Source) (v : Volume) : Prop where
  file : v.device s.path = false
  noText : s.ascii = false

theorem Source.plain_iff : s.Plain v ↔ v.device s.path = false ∧ s.ascii = false :=
  ⟨fun h => ⟨h.file, h.noText⟩, fun ⟨hfile, hno⟩ => ⟨hfile, hno⟩⟩

theorem Source.Plain.text (h : s.Plain v) : s.text v = false := by
  simp [Source.text, h.file, h.noText]

theorem Source.Plain.content (h : s.Plain v) : s.content v e = v.data s.path := by
  simp [Source.content, h.file]

theorem copySource_plain {w : Work} (hplain : s.Plain w.v)
    (hok : (copySource lines n single e s w).1 = true) :
    (copySource lines n single e s w).2 = (copyBinary n single e s w).2 ∧
      (copyBinary n single e s w).1 = true := by
  have hclear := copySource_ok_iff.mp hok
  have hbinary := copyBinary_ok_iff.mpr ⟨hclear.presizes hplain.text, hclear.big hplain.text⟩
  unfold copySource
  rw [hclear.known, hclear.opens, hclear.noBreak.1, hplain.text]
  exact ⟨rfl, hbinary⟩

/-- **Appended**: a source that is one of several goes to the end. -/
theorem copySource_appends (hat : w.At n d d.length) (hplain : s.Plain w.v)
    (hok : (copySource lines n false e s w).1 = true) :
    (copySource lines n false e s w).2.At n (d ++ w.v.data s.path)
      (d ++ w.v.data s.path).length := by
  obtain ⟨hsame, hbinary⟩ := @copySource_plain lines n e s false w hplain hok
  rw [hsame]
  unfold copyBinary at hbinary ⊢
  simp only [sizeChanged, Bool.false_and, Bool.false_eq_true, if_false, hplain.content,
    beq_iff_eq] at hbinary ⊢
  have hwritten := BIGcopy_at hat le_rfl hbinary
  rwa [overwrite_end, ← length_append] at hwritten

/-- **The only source** is what the destination holds then, whatever it held before. -/
theorem copySource_replaces (hat : w.At n d pos) (hplain : s.Plain w.v)
    (hok : (copySource lines n true e s w).1 = true) :
    (copySource lines n true e s w).2.At n (w.v.data s.path) (w.v.data s.path).length := by
  obtain ⟨hsame, hbinary⟩ := @copySource_plain lines n e s true w hplain hok
  have hchanged : sizeChanged n true s w.v = true := by
    simp [sizeChanged, hplain.file, hat.plain]
  have hpresizes := (copyBinary_ok_iff.mp hbinary).1 hchanged
  rw [hsame]
  unfold copyBinary at hbinary ⊢
  simp only [hchanged, hpresizes, if_true, hplain.content, beq_iff_eq] at hbinary ⊢
  have hsized := hat.presize e.junk e.room (w.v.data s.path).length
  have hwritten := BIGcopy_at hsized (Nat.zero_le _) hbinary
  rw [overwrite_start (length_resize_le _ _ _ _), zero_add] at hwritten
  split
  · exact hwritten.cut
  · exact hwritten

/-- Several sources stand behind one another. -/
theorem copySources_appends {k : Nat} {l : List Source}
    (hat : w.At n d d.length) (hapart : ∀ s ∈ l, s.path ≠ n) (hplain : ∀ s ∈ l, s.Plain w.v)
    (hok : (copySources lines n false env k l w).1 = true) :
    (copySources lines n false env k l w).2.At n (d ++ l.flatMap fun s => w.v.data s.path)
      (d ++ l.flatMap fun s => w.v.data s.path).length := by
  induction l generalizing k d w with
  | nil =>
    rw [flatMap_nil, append_nil]
    exact hat
  | cons s rest ih =>
    rw [copySources] at hok ⊢
    split at hok
    · rename_i hs
      rw [if_pos hs]
      have hsame := @copySource_sameBut lines n (env k) s false w
      have hnext := copySource_appends hat (hplain s mem_cons_self) hs
      have hdata : ∀ t ∈ rest, (copySource lines n false (env k) s w).2.v.data t.path =
          w.v.data t.path := by
        intro t ht
        rw [Volume.data, hsame.2 _ (hapart t (.tail _ ht))]
        rfl
      have hwritten := ih hnext (fun t ht => hapart t (.tail _ ht))
        (fun t ht => ⟨hsame.1 ▸ (hplain t (.tail _ ht)).file,
          (hplain t (.tail _ ht)).noText⟩) hok
      rw [flatMap_congr hdata, append_assoc] at hwritten
      rw [flatMap_cons]
      exact hwritten
    · cases hok

/-! ## 4. A copy, and when it does what it should -/

namespace Job

/-- Nothing but files, none of them in text mode. -/
structure Plain (j : Job) : Prop where
  dest : j.before.device j.dest = false
  sources : ∀ s ∈ j.sources, s.Plain j.before

/-- The destination is not one of the sources that are copied. -/
def Apart (j : Job) : Prop := ∀ s ∈ j.sources, s.path ≠ j.dest

/-- Everything that is asked of DOS works, and ^Break is not pressed. -/
structure Clear (j : Job) : Prop where
  sources : ∀ k s, j.sources[k]? = some s → (j.env.source k).Clear j.dest j.single s j.before
  closes : j.env.closes = true

/-- **What a copy should do.**  `copied`: the sources stand in the destination, behind what it held
if it was to be kept.  `sources`: they are as they were.  `keeps`: after an error, what was to be
kept is still there. -/
structure Sound (lines : Bytes → List Bytes) (j : Job) : Prop where
  copied : (j.run lines).1 = true → j.Plain →
    (j.run lines).2.file j.dest =
      some (j.kept ++ j.sources.flatMap fun s => j.before.data s.path)
  sources : ∀ s ∈ j.sources, (j.run lines).2.file s.path = j.before.file s.path
  keeps : j.append = true → (j.run lines).1 = false → ∀ old, j.before.file j.dest = some old →
    ∃ more, (j.run lines).2.file j.dest = some (old ++ more)

/-- **When it does**: where it appends to a file, nothing goes wrong, and it is not so that a single
source is appended in binary mode to a file that is not empty. -/
def Spared (j : Job) : Prop :=
  j.append = true → ∀ old, j.before.file j.dest = some old →
    j.Clear ∧ (j.sources.length = 1 → j.Plain → old = [])

theorem run_ok_iff {j : Job} (hapart : j.Apart) : (j.run lines).1 = true ↔ j.Clear := by
  have hopened : Volume.SameBut j.dest j.before j.opened.v := Volume.sameBut_put _ _ _
  have hsources := @copySources_ok_iff lines j.dest j.single j.env.source 0 j.sources j.opened hapart
  have hclear : (∀ i s, j.sources[i]? = some s →
      (j.env.source (0 + i)).Clear j.dest j.single s j.opened.v) ↔
      ∀ k s, j.sources[k]? = some s → (j.env.source k).Clear j.dest j.single s j.before := by
    refine forall_congr' fun i => forall_congr' fun s => imp_congr_right fun hi => ?_
    rw [zero_add]
    exact SourceEnv.Clear.congr hopened (hapart s (mem_of_getElem? hi))
  have hrun : (j.run lines).1 = true ↔
      (copySources lines j.dest j.single j.env.source 0 j.sources j.opened).1 = true ∧
        j.env.closes = true := by
    unfold run
    dsimp only
    split
    · rename_i h
      simpa using h
    · rename_i h
      simpa using h
  rw [hrun, hsources, hclear]
  exact ⟨fun ⟨hs, hc⟩ => ⟨hs, hc⟩, fun h => ⟨h.sources, h.closes⟩⟩

variable {j : Job}

theorem opened_at (hdest : j.before.device j.dest = false) :
    j.opened.At j.dest j.kept j.kept.length :=
  ⟨hdest, Volume.put_self _ hdest, rfl, rfl⟩

theorem asc_of_plain (hplain : j.Plain) : j.asc = false := by
  unfold asc
  cases hlast : j.sources.getLast? with
  | none => rfl
  | some s => exact (hplain.sources s (mem_of_getLast? hlast)).noText

/-- What a copy leaves, when the sources were copied to `data`. -/
theorem run_file (hplain : j.Plain) {data : Bytes}
    (hat : (copySources lines j.dest j.single j.env.source 0 j.sources j.opened).2.At j.dest data
      data.length) (hok : (j.run lines).1 = true) : (j.run lines).2.file j.dest = some data := by
  unfold run at hok ⊢
  simp only [asc_of_plain hplain] at hok ⊢
  split
  · exact (hat.flush _).file
  · rename_i hno
    rw [if_neg hno] at hok
    cases hok

theorem copied_of_run (hok : (j.run lines).1 = true) :
    (copySources lines j.dest j.single j.env.source 0 j.sources j.opened).1 = true := by
  unfold run at hok
  dsimp only at hok
  split at hok
  · rename_i h
    exact (Bool.and_eq_true_iff.mp h).1
  · cases hok

theorem single_iff : j.single = true ↔ j.sources.length = 1 := by
  simp [single]

/-- **A copy that succeeds**: a single source replaces what there was, several come behind it. -/
theorem run_copied (hapart : j.Apart) (hplain : j.Plain) (hok : (j.run lines).1 = true) :
    (j.run lines).2.file j.dest = some ((if j.sources.length = 1 then [] else j.kept) ++
      j.sources.flatMap fun s => j.before.data s.path) := by
  have hopened : Volume.SameBut j.dest j.before j.opened.v := Volume.sameBut_put _ _ _
  have hsources := copied_of_run hok
  have hat := opened_at hplain.dest
  have hdata : ∀ s ∈ j.sources, j.opened.v.data s.path = j.before.data s.path := by
    intro s hs
    rw [Volume.data, hopened.2 _ (hapart s hs)]
    rfl
  have hplain' : ∀ s ∈ j.sources, s.Plain j.opened.v := fun s hs =>
    ⟨hopened.1 ▸ (hplain.sources s hs).file, (hplain.sources s hs).noText⟩
  refine run_file hplain ?_ hok
  by_cases hone : j.sources.length = 1
  · obtain ⟨s, hs⟩ := length_eq_one_iff.mp hone
    rw [if_pos hone, nil_append]
    rw [single_iff.mpr hone] at hsources ⊢
    rw [hs] at hsources hdata hplain' ⊢
    rw [copySources] at hsources ⊢
    split at hsources
    · rename_i hfirst
      rw [if_pos hfirst, copySources]
      have hwritten := copySource_replaces hat (hplain' s mem_cons_self) hfirst
      rw [hdata s mem_cons_self] at hwritten
      simpa using hwritten
    · cases hsources
  · have hsingle : j.single = false := by
      cases h : j.single with
      | true => exact absurd (single_iff.mp h) hone
      | false => rfl
    rw [if_neg hone]
    rw [hsingle] at hsources ⊢
    rw [← flatMap_congr hdata]
    exact copySources_appends hat hapart hplain' hsources

/-- After an error the destination is gone. -/
theorem run_failed (hno : (j.run lines).1 = false) {old : Bytes}
    (hold : j.before.file j.dest = some old) : (j.run lines).2.file j.dest = none := by
  have hdest : j.before.device j.dest = false := by
    cases hdev : j.before.device j.dest with
    | true =>
      rw [j.before.noFile _ hdev] at hold
      cases hold
    | false => rfl
  have hopened : Volume.SameBut j.dest j.before j.opened.v := Volume.sameBut_put _ _ _
  have hsame := hopened.trans
    (@copySources_sameBut lines j.dest j.single j.env.source 0 j.sources j.opened)
  unfold run at hno ⊢
  dsimp only at hno ⊢
  split at hno
  · cases hno
  · rename_i h
    rw [if_neg h]
    exact Volume.put_self none (hsame.1 ▸ hdest)

theorem sound_iff (hapart : j.Apart) : j.Sound lines ↔ j.Spared := by
  have hsources : ∀ s ∈ j.sources, (j.run lines).2.file s.path = j.before.file s.path :=
    fun s hs => j.run_sameBut.2 _ (hapart s hs)
  constructor
  · intro h happend old hold
    have hok : (j.run lines).1 = true := by
      by_contra hno
      have hno := Bool.eq_false_of_not_eq_true hno
      obtain ⟨more, hmore⟩ := h.keeps happend hno old hold
      rw [run_failed hno hold] at hmore
      cases hmore
    refine ⟨(run_ok_iff hapart).mp hok, fun hone hplain => ?_⟩
    have hcopied := h.copied hok hplain
    rw [run_copied hapart hplain hok, if_pos hone, nil_append] at hcopied
    have hkept : j.kept = old := by rw [kept, if_pos happend, Volume.data, hold]; rfl
    rw [hkept] at hcopied
    exact self_eq_append_left.mp (Option.some.inj hcopied)
  · intro h
    refine ⟨fun hok hplain => ?_, hsources, fun happend hno old hold => ?_⟩
    · rw [run_copied hapart hplain hok]
      split
      · rename_i hone
        have hkept : j.kept = [] := by
          unfold kept
          split
          · rename_i happend
            cases hold : j.before.file j.dest with
            | none => rw [Volume.data, hold]; rfl
            | some old =>
              rw [Volume.data, hold]
              exact (h happend old hold).2 hone hplain
          · rfl
        rw [hkept]
      · rfl
    · have hok := (@run_ok_iff lines j hapart).mpr (h happend old hold).1
      rw [hok] at hno
      cases hno

end Job

/-! ## 5. Requests -/

/-- The volume after copies that were made one after the other. -/
def afterJobs (lines : Bytes → List Bytes) : Volume → List Job → Volume
  | v, [] => v
  | _, j :: rest => afterJobs lines (j.run lines).2 rest

/-- Copies, one after the other: each finds what the one before left, all but the last succeed, and
the last as well if `ok`. -/
def InTurn (lines : Bytes → List Bytes) (ok : Bool) : Volume → List Job → Prop
  | _, [] => True
  | v, j :: rest => j.before = v ∧ ((j.run lines).1 = true ∨ (rest = [] ∧ ok = false)) ∧
      InTurn lines ok (j.run lines).2 rest

/-- The copies of a command are what it does to the files, and none is made over its own source. -/
structure Copied.Sound (lines : Bytes → List Bytes) (v : Volume) (r : Copied) : Prop where
  apart : ∀ j ∈ r.jobs, j.Apart
  inTurn : InTurn lines r.ok v r.jobs
  after : r.after = afterJobs lines v r.jobs

theorem afterJobs_append {js ks : List Job} :
    afterJobs lines v (js ++ ks) = afterJobs lines (afterJobs lines v js) ks := by
  induction js generalizing v with
  | nil => rfl
  | cons j js ih => exact ih

theorem InTurn.append {lines : Bytes → List Bytes} {ok : Bool} {v : Volume} {js ks : List Job}
    (h : InTurn lines true v js) (h' : InTurn lines ok (afterJobs lines v js) ks) :
    InTurn lines ok v (js ++ ks) := by
  induction js generalizing v with
  | nil => exact h'
  | cons j js ih =>
    obtain ⟨hbefore, hok, hrest⟩ := h
    exact ⟨hbefore, .inl (hok.resolve_right fun hno => nomatch hno.2), ih hrest h'⟩

/-- A copy is planned of the volume as it is, and not over its own source. -/
theorem plan_job {srcFile : FileName} {src : List CopySource} {append : Bool} {env : StepEnv}
    {j : Job} (h : plan names dst src append srcFile env v = .job j) : j.before = v ∧ j.Apart := by
  unfold plan at h
  dsimp only at h
  split_ifs at h with hempty hself hquit hno hbreak
  rw [← Planned.job.inj h]
  refine ⟨rfl, fun s hs => ?_⟩
  obtain ⟨c, hc, rfl⟩ := mem_map.mp hs
  rintro heq
  refine hself (.inr ?_)
  rw [map_map]
  exact mem_map.mpr ⟨c, hc, heq⟩

theorem Copied.Sound.none (lines : Bytes → List Bytes) (v : Volume) (ok : Bool) :
    Copied.Sound lines v ⟨ok, v, []⟩ := ⟨nofun, trivial, rfl⟩

theorem copyLoop_sound {src : List CopySource} {append : Bool} {env : Nat → StepEnv} (k : Nat)
    (found : List FileName) (v : Volume) :
    (copyLoop names dst src append env k found v).Sound names.lines v := by
  induction found generalizing k v with
  | nil => exact .none _ v true
  | cons srcFile rest ih =>
    rw [copyLoop]
    cases hplan : plan names dst src append srcFile (env k) v with
    | refused => exact .none _ v false
    | skipped => exact ih (k + 1) v
    | job j =>
      obtain ⟨hbefore, hapart⟩ := plan_job hplan
      dsimp only
      cases hok : (j.run names.lines).1 with
      | true =>
        have hrest := ih (k + 1) (j.run names.lines).2
        rw [if_pos rfl]
        refine ⟨fun i hi => ?_, ⟨hbefore, .inl hok, hrest.inTurn⟩, hrest.after⟩
        rcases mem_cons.mp hi with rfl | hi
        · exact hapart
        · exact hrest.apart i hi
      | false =>
        rw [if_neg (by decide)]
        refine ⟨fun i hi => ?_, ⟨hbefore, .inr ⟨rfl, rfl⟩, trivial⟩, rfl⟩
        rw [mem_singleton.mp hi]
        exact hapart

theorem copyFiles_sound {names : Names} {dst : FileName} {h : Chain} {env : ChainEnv}
    {v : Volume} : (copyFiles names dst h env v).Sound names.lines v := by
  have hcopy (src : List CopySource) (append : Bool) :
      (copy names dst h.first.fnam src append env v).Sound names.lines v := by
    unfold copy
    split_ifs
    · exact .none _ v false
    · exact copyLoop_sound 0 _ v
    · exact copyLoop_sound 0 _ v
  unfold copyFiles
  split_ifs
  · exact .none _ v false
  · exact hcopy _ _
  · exact hcopy _ _
  · exact .none _ v false

theorem copyChains_sound {env : Nat → ChainEnv} (k : Nat) (chains : List Chain) (v : Volume) :
    (copyChains names dst env k chains v).Sound names.lines v := by
  induction chains generalizing k v with
  | nil => exact .none _ v true
  | cons h rest ih =>
    rw [copyChains]
    have hfirst := @copyFiles_sound names dst h (env k) v
    dsimp only
    cases hok : (copyFiles names dst h (env k) v).ok with
    | true =>
      have hrest := ih (k + 1) (copyFiles names dst h (env k) v).after
      rw [if_pos rfl]
      have hturn := hfirst.inTurn
      rw [hok] at hturn
      refine ⟨fun j hj => (mem_append.mp hj).elim (hfirst.apart j) (hrest.apart j), ?_, ?_⟩
      · exact hturn.append (hfirst.after ▸ hrest.inTurn)
      · rw [afterJobs_append, ← hfirst.after]
        exact hrest.after
    | false =>
      rw [if_neg (by decide)]
      exact hfirst

theorem cmdCopy_sound {names : Names} {inDirectory : FileName → Option FileName}
    {args : List Argument} {optA optB : Bool} {env : Nat → ChainEnv} {v : Volume} :
    (cmdCopy names inDirectory args optA optB env v).Sound names.lines v := by
  unfold cmdCopy
  split
  · exact .none _ v false
  · exact copyChains_sound 0 _ v

/-- **COPY does what it should, but for what it appends to a file.**  The copies of a command, which
are all it does, are sound if and only if they are spared. -/
theorem copy_sound_iff (names : Names) (inDirectory : FileName → Option FileName)
    (args : List Argument) (optA optB : Bool) (env : Nat → ChainEnv) (v : Volume) :
    InTurn names.lines (cmdCopy names inDirectory args optA optB env v).ok v
        (cmdCopy names inDirectory args optA optB env v).jobs ∧
      (cmdCopy names inDirectory args optA optB env v).after =
        afterJobs names.lines v (cmdCopy names inDirectory args optA optB env v).jobs ∧
      ∀ j ∈ (cmdCopy names inDirectory args optA optB env v).jobs,
        j.Sound names.lines ↔ j.Spared := by
  have hsound := @cmdCopy_sound names inDirectory args optA optB env v
  exact ⟨hsound.inTurn, hsound.after, fun j hj => Job.sound_iff (hsound.apart j hj)⟩

/-! ## 6. A file appended to its own beginning -/

/-- Names that are true paths already, and one line to a text. -/
def plainNames : Names where
  truepath := id
  fillFnam := fun dst _ => dst
  dfnfilename := id
  lines := fun text => [text]

/-- Everything works, but for the reads of the sources from `bad` on. -/
def workingEnv (bad : Nat) (k : Nat) : SourceEnv where
  opens := true
  breakBefore := false
  presizes := true
  room := 0
  junk := fun _ => 0
  bufferSize := 4096
  readFails := fun _ => decide (bad ≤ k)
  accepts := fun _ => 4096
  breaks := fun _ => false
  cuts := true
  deviceInput := []
  textMemory := true
  readError := false
  writeError := false
  flushed := 0
  breakAfter := false

def workingChain (bad : Nat) : ChainEnv where
  memory := true
  found := []
  step := fun _ => ⟨true, .yes, false, true, workingEnv bad, true⟩

/-- `a` holds one byte, `b` and `c` another. -/
def threeFiles : Volume where
  file := fun n => if n = ['a'] then some [1] else if n = ['b'] then some [2]
    else if n = ['c'] then some [3] else none
  device := fun _ => false
  noFile := nofun

/-- `COPY a+b a` leaves `b` only; `COPY a+b+c a`, when `c` cannot be read, leaves nothing. -/
theorem append_loses_file :
    (∃ j ∈ (cmdCopy plainNames some [.sources ['a', '+', 'b'], .sources ['a']] false false
        (fun _ => workingChain 9) threeFiles).jobs, ¬ j.Sound plainNames.lines) ∧
      ∃ j ∈ (cmdCopy plainNames some [.sources ['a', '+', 'b', '+', 'c'], .sources ['a']] false
        false (fun _ => workingChain 1) threeFiles).jobs, ¬ j.Sound plainNames.lines := by
  refine ⟨⟨⟨threeFiles, ['a'], true, [⟨['b'], false, false⟩], (workingChain 9).step 0⟩, ?_, ?_⟩,
    ⟨⟨threeFiles, ['a'], true, [⟨['b'], false, false⟩, ⟨['c'], false, false⟩],
      (workingChain 1).step 0⟩, ?_, ?_⟩⟩
  · exact List.mem_singleton.mpr rfl
  · intro h
    have hcopied := h.copied (by decide) ⟨rfl, by simp [threeFiles, Source.plain_iff]⟩
    cases hcopied
  · exact List.mem_singleton.mpr rfl
  · intro h
    obtain ⟨more, hmore⟩ := h.keeps rfl (by decide) [1] (by decide)
    have hgone : ((Job.mk threeFiles ['a'] true [⟨['b'], false, false⟩, ⟨['c'], false, false⟩]
        ((workingChain 1).step 0)).run plainNames.lines).2.file ['a'] = none := by decide
    rw [hgone] at hmore
    cases hmore

end SdcBoot.FreeCom
