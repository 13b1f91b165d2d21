/-
# `truename`: what the whole function returns

On a local drive whose current path is canonical (`Local`), `truename` returns canonical paths only.
Their prefix is the hidden one of the drive, or, if SUBST is not looked through, the drive letter
that the caller sees.  What the function makes of a canonical path is that path again, as long as
its last component is not taken for a character device.

The capitals come from a table that is loaded with the country; of it only its shape is assumed
(`Upcases`), which the table that is built in has.
-/
import SdcBoot.Kernel.Canonical

namespace SdcBoot.Kernel.Truename

open Lib List

/-! ## 1. Capitals -/

/-- `upMMem`: the ASCII letters, and the bytes from 80h on through the table. -/
def upMMem (map : UInt8 → UInt8) (c : UInt8) : UInt8 :=
  if c ≥ 0x61 ∧ c ≤ 0x7a then c - 0x20 else if c > 0x7f then map c else c

/-- A table whose entries are characters of names, none of them a wildcard, and in capitals. -/
structure Upcases (map : UInt8 → UInt8) : Prop where
  name : ∀ c, 0x7f < c → nameChar (map c) = true ∧ map c ≠ question
  upper : ∀ c, 0x7f < c → upMMem map (map c) = map c

/-- The start of `_nlsFUpcaseHardcoded`; behind it every byte stays as it is. -/
def fUpcase : List UInt8 :=
  [0x80, 0x9a, 0x45, 0x41, 0x8e, 0x41, 0x8f, 0x80, 0x45, 0x45, 0x45, 0x49, 0x49, 0x49, 0x8e, 0x8f,
   0x90, 0x92, 0x92, 0x4f, 0x99, 0x4f, 0x55, 0x55, 0x59, 0x99, 0x9a, 0x9b, 0x9c, 0x9d, 0x9e, 0x9f,
   0x41, 0x49, 0x4f, 0x55, 0xa5, 0xa5]

def nlsFUpcaseHardcoded (c : UInt8) : UInt8 := fUpcase.getD (c.toNat - 0x80) c

/-- What is decided of every byte is so for every byte. -/
theorem forall_byte {p : UInt8 → Prop} (h : ∀ n < 256, p (UInt8.ofNat n)) (c : UInt8) : p c := by
  have hc := h c.toNat (UInt8.toNat_lt c)
  rwa [UInt8.ofNat_toNat] at hc

theorem upcases_hardcoded : Upcases nlsFUpcaseHardcoded where
  name := forall_byte (by decide +kernel)
  upper := forall_byte (by decide +kernel)

section

variable {map : UInt8 → UInt8}

variable {c : UInt8}

theorem upMMem_of_le (h : c ≤ 0x7f) :
    upMMem map c = if c ≥ 0x61 ∧ c ≤ 0x7a then c - 0x20 else c := by
  rw [upMMem]
  split
  · rfl
  · rw [if_neg (UInt8.not_lt.mpr h)]

theorem upMMem_of_gt (h : 0x7f < c) : upMMem map c = map c := by
  have hz : ∀ c : UInt8, 0x7f < c → ¬ (c ≥ 0x61 ∧ c ≤ 0x7a) := forall_byte (by decide +kernel)
  rw [upMMem, if_neg (hz c h), if_pos h]

theorem ascii_name : ∀ c : UInt8, c ≤ 0x7f → nameChar c = true →
    nameChar (if c ≥ 0x61 ∧ c ≤ 0x7a then c - 0x20 else c) = true ∧
      ((if c ≥ 0x61 ∧ c ≤ 0x7a then c - 0x20 else c) = question → c = question) :=
  forall_byte (by decide +kernel)

theorem ascii_idem : ∀ c : UInt8, c ≤ 0x7f → (c ≥ 0x61 ∧ c ≤ 0x7a) →
    c - 0x20 ≤ 0x7f ∧ ¬ (c - 0x20 ≥ 0x61 ∧ c - 0x20 ≤ 0x7a) :=
  forall_byte (by decide +kernel)

theorem upMMem_name (hmap : Upcases map) (h : nameChar c = true) :
    nameChar (upMMem map c) = true ∧ (upMMem map c = question → c = question) := by
  by_cases hc : c ≤ 0x7f
  · rw [upMMem_of_le hc]
    exact ascii_name c hc h
  · have hc := UInt8.not_le.mp hc
    rw [upMMem_of_gt hc]
    exact ⟨(hmap.name c hc).1, fun h => absurd h (hmap.name c hc).2⟩

theorem upMMem_idem (hmap : Upcases map) (c : UInt8) :
    upMMem map (upMMem map c) = upMMem map c := by
  by_cases hc : c ≤ 0x7f
  · rw [upMMem_of_le hc]
    split
    · rename_i hz
      obtain ⟨hle, hnot⟩ := ascii_idem c hc hz
      rw [upMMem_of_le hle, if_neg hnot]
    · rename_i hz
      rw [upMMem_of_le hc, if_neg hz]
  · have hc := UInt8.not_le.mp hc
    rw [upMMem_of_gt hc]
    exact hmap.upper c hc

theorem upMMem_backslash : upMMem map backslash = backslash := rfl

theorem upMMem_dot : upMMem map dot = dot := rfl

section

variable (hmap : Upcases map)
include hmap

theorem Piece.upper {n : Nat} {s : Path} (h : Piece n s) :
    Piece n (s.map (upMMem map)) := by
  refine ⟨by simpa using h.1, by simpa using h.2.1, ?_⟩
  rw [all_map, all_eq_true]
  exact fun c hc => (upMMem_name hmap (all_eq_true.mp h.2.2 c hc)).1

theorem Name83.upper {c : Path} (h : Name83 c) :
    Name83 (c.map (upMMem map)) := by
  obtain ⟨name, ext, rfl, hname, hext⟩ := h
  refine ⟨_, _, map_append, hname.upper hmap, ?_⟩
  rcases hext with rfl | ⟨e, rfl, he⟩
  · exact .inl rfl
  · exact .inr ⟨_, rfl, he.upper hmap⟩

theorem Piece.question_upper {n : Nat} {s : Path} (h : Piece n s)
    (hmem : question ∈ s.map (upMMem map)) : question ∈ s := by
  obtain ⟨c, hc, heq⟩ := mem_map.mp hmem
  rw [← (upMMem_name hmap (all_eq_true.mp h.2.2 c hc)).2 heq]
  exact hc

theorem Name83.question_upper {c : Path} (h : Name83 c)
    (hmem : question ∈ c.map (upMMem map)) : question ∈ c := by
  obtain ⟨name, ext, rfl, hname, hext⟩ := h
  rw [map_append] at hmem
  rcases mem_append.mp hmem with hmem | hmem
  · exact mem_append_left ext (hname.question_upper hmap hmem)
  · rcases hext with rfl | ⟨e, rfl, he⟩
    · cases hmem
    · rcases mem_cons.mp hmem with hmem | hmem
      · rw [upMMem_dot] at hmem
        cases hmem
      · exact mem_append_right name (mem_cons_of_mem dot (he.question_upper hmap hmem))

theorem Names.upper {wild : Bool} {comps : List Path} (h : Names wild comps) :
    Names wild (comps.map (List.map (upMMem map))) := by
  have hquestion : ∀ c ∈ comps, question ∉ c → question ∉ c.map (upMMem map) :=
    fun c hc hnot hmem => hnot ((h.form c hc).question_upper hmap hmem)
  refine ⟨?_, ?_, ?_⟩
  · intro d hd
    obtain ⟨c, hc, rfl⟩ := mem_map.mp hd
    exact (h.form c hc).upper hmap
  · intro d hd
    rw [← map_dropLast] at hd
    obtain ⟨c, hc, rfl⟩ := mem_map.mp hd
    exact hquestion c (dropLast_subset comps hc) (h.inner c hc)
  · intro hwild d hd
    obtain ⟨c, hc, rfl⟩ := mem_map.mp hd
    exact hquestion c hc (h.last hwild c hc)

end

end

/-! ## 2. A local drive -/

/-- A CDS whose current path is canonical: its hidden prefix, which ends at the backslash offset,
the components of the current directory, and possibly a backslash. -/
structure CanonicalCds (cds : Cds) (hidden : Path) (comps : List Path) : Prop where
  network : cds.network = false
  path : ∃ trail, (trail = [] ∨ trail = [backslash]) ∧
    cds.cdsCurrentPath = hidden ++ (render backslash comps ++ trail)
  offset : cds.cdsBackslashOffset = hidden.length
  room : cds.cdsCurrentPath.length < MAX_CDSPATH
  names : Names false comps
  hidden : ∃ letter dirs, hidden = letter :: colon :: render backslash dirs ∧ Names false dirs

/-- A name on a local drive that no device, no redirector and no joined drive takes away. -/
structure Local (env : NameMap) (src : Path) (cds : Cds) (hidden : Path) (comps : List Path) :
    Prop where
  upcase : ∃ map, Upcases map ∧ env.up = upMMem map
  notUnc : src.take 2 ≠ [backslash, backslash]
  drive : env.getCds (driveOf env.toNameEnv src) = some cds
  canonical : CanonicalCds cds hidden comps
  noDevice : (env.isDevice src && plainDevice env.toNameEnv (behindDrive src)) = false
  noRemote : env.qremote src = none
  noJoin : env.joined = []

/-- The prefix of the result: the hidden one, or the letter that the caller sees. -/
def prefixOf (env : NameMap) (mode : Mode) (src hidden : Path) : Path :=
  if mode.skipPhysical then driveName (driveOf env.toNameEnv src) else hidden

/-- The components that the loop starts with. -/
def startNames (cds : Cds) (src : Path) (comps : List Path) : List Path :=
  if (behindDrive src).head?.any isSep || !cds.dirExists then [] else comps

/-- The character in front of the name behind the drive. -/
def beforeName (env : NameMap) (src : Path) : UInt8 :=
  let before := if src.tail.head? = some colon then colon else env.before
  if (behindDrive src).head?.any isSep then (behindDrive src).headD before else before

/-- The name behind the drive and the backslash of the root. -/
def relative (src : Path) : Path :=
  if (behindDrive src).head?.any isSep then (behindDrive src).tail else behindDrive src

theorem open_colon (x : UInt8) : Open [x, colon] := by
  intro h
  have h : some colon = some backslash := h
  exact nomatch Option.some.inj h

variable {cds : Cds} {dest hidden pre src : Path} {comps : List Path} {env : NameMap} {mode : Mode}
  {wild : Bool}

theorem CanonicalCds.open (h : CanonicalCds cds hidden comps) : Open hidden := by
  obtain ⟨letter, dirs, heq, hdirs⟩ := h.hidden
  rw [heq]
  exact @open_render [letter, colon] (open_colon letter) dirs hdirs.form

theorem open_driveName (n : Nat) : Open (driveName n) := open_colon _

theorem open_prefixOf {env : NameMap} {mode : Mode} {src hidden : Path} (h : Open hidden) :
    Open (prefixOf env mode src hidden) := by
  unfold prefixOf
  split
  · exact open_driveName _
  · exact h

/-- The trailing backslash is removed before the loop starts. -/
theorem removeTrail {trail : Path} (hpre : Open pre) (hcomps : ∀ c ∈ comps, Name83 c)
    (htrail : trail = [] ∨ trail = [backslash]) :
    (if (pre ++ (render backslash comps ++ trail)).getLast? = some backslash
      then (pre ++ (render backslash comps ++ trail)).dropLast
      else pre ++ (render backslash comps ++ trail)) = pre ++ render backslash comps := by
  rcases htrail with rfl | rfl
  · rw [append_nil, if_neg (open_render hpre hcomps)]
  · rw [← append_assoc, if_pos (by simp), dropLast_concat]

/-- `p[0] = '\\'` changes nothing when there is a component or a backslash, and is the backslash of
the root otherwise. -/
theorem force_backslash {comps : List Path} {trail : Path}
    (htrail : trail = [] ∨ trail = [backslash]) :
    ∃ trail', (trail' = [] ∨ trail' = [backslash]) ∧
      backslash :: (render backslash comps ++ trail).tail = render backslash comps ++ trail' := by
  cases comps with
  | nil =>
    refine ⟨[backslash], .inr rfl, ?_⟩
    rcases htrail with rfl | rfl
    · rfl
    · rfl
  | cons c comps => exact ⟨trail, htrail, rfl⟩

theorem currentPath_eq (h : CanonicalCds cds hidden comps) (hmedia : cds.mediaOk = true) :
    ∃ trail, (trail = [] ∨ trail = [backslash]) ∧ currentPath cds =
      .ok (hidden ++ (render backslash (if cds.dirExists then comps else []) ++ trail)) := by
  obtain ⟨trail, htrail, hpath⟩ := h.path
  have htake : cds.cdsCurrentPath.take (MAX_CDSPATH - 1) = cds.cdsCurrentPath := by
    refine take_of_length_le ?_
    have hroom := h.room
    omega
  simp only [currentPath, htake, h.network, hmedia]
  cases hdir : cds.dirExists with
  | true => exact ⟨trail, htrail, by rw [hpath]; rfl⟩
  | false =>
    rw [hpath, h.offset]
    rw [take_append, take_of_length_le (by omega), Nat.add_sub_cancel_left]
    cases comps with
    | nil =>
      refine ⟨trail.take 1, ?_, by simp⟩
      rcases htrail with rfl | rfl
      · exact .inl rfl
      · exact .inr rfl
    | cons c comps => exact ⟨[backslash], .inr rfl, rfl⟩

/-- **Where the loop starts**: behind the prefix and the components of the current directory. -/
theorem start_eq (h : Local env src cds hidden comps) (hmedia : cds.mediaOk = true) :
    start env mode (driveOf env.toNameEnv src) cds (env.isDevice src)
        (if src.tail.head? = some colon then colon else env.before) (behindDrive src) =
      .ok { root := backslash, rootPos := (prefixOf env mode src hidden).length,
            before := beforeName env src, src := relative src,
            dest := prefixOf env mode src hidden ++
              render backslash (startNames cds src comps) } := by
  obtain ⟨trail, htrail, hcp⟩ := currentPath_eq h.canonical hmedia
  have hopen := @open_prefixOf env mode src hidden h.canonical.open
  have hpre : (if mode.skipPhysical then driveName (driveOf env.toNameEnv src) else hidden) =
      prefixOf env mode src hidden := rfl
  rw [start, h.noDevice, if_neg Bool.false_ne_true, hcp]
  have htake : (hidden ++ (render backslash (if cds.dirExists then comps else []) ++ trail)).take
      cds.cdsBackslashOffset = hidden := by
    rw [h.canonical.offset, take_left]
  have hdrop : (hidden ++ (render backslash (if cds.dirExists then comps else []) ++ trail)).drop
      cds.cdsBackslashOffset = render backslash (if cds.dirExists then comps else []) ++ trail := by
    rw [h.canonical.offset, drop_left]
  simp only [Except.bind, htake, hdrop, hpre]
  obtain ⟨trail', htrail', hforce⟩ := @force_backslash (if cds.dirExists then comps else []) trail
    htrail
  rw [hforce]
  have hnames : ∀ c ∈ (if cds.dirExists then comps else []), Name83 c := by
    intro c hc
    split at hc
    · exact h.canonical.names.form c hc
    · cases hc
  congr 2
  unfold startNames
  cases habs : (behindDrive src).head?.any isSep with
  | true =>
    simp only [if_true, Bool.true_or, render_nil, append_nil]
    rw [if_neg hopen]
  | false =>
    simp only [Bool.false_eq_true, if_false]
    rw [removeTrail hopen hnames htrail']
    cases cds.dirExists <;> rfl

/-! ## 3. Canonical results -/

theorem truenameIn_eq (h : Local env src cds hidden comps) (hsrc : src ≠ [])
    (hmedia : cds.mediaOk = true) :
    truenameIn env mode src =
      (componentsAt backslash (prefixOf env mode src hidden).length (beforeName env src)
          ((relative src).length + 1) (relative src)
          (prefixOf env mode src hidden ++ render backslash (startNames cds src comps)) false).bind
        fun r => finish env mode (env.isDevice src && !cds.network)
          (prefixOf env mode src hidden).length r.1 r.2 := by
  have hremote : (if mode.skipPhysical then none else env.qremote src) = none := by
    rw [h.noRemote]
    exact ite_self none
  rw [truenameIn, if_neg hsrc, if_neg h.notUnc, h.drive]
  simp only [hremote, start_eq h hmedia, Except.bind]

/-- Without the medium there is no path. -/
theorem truenameIn_no_media {env : NameMap} {mode : Mode} {src : Path} {cds : Cds} {hidden : Path}
    {comps : List Path} (h : Local env src cds hidden comps) (hsrc : src ≠ [])
    (hmedia : cds.mediaOk = false) : truenameIn env mode src = .error DE_PATHNOTFND := by
  have hremote : (if mode.skipPhysical then none else env.qremote src) = none := by
    rw [h.noRemote]
    exact ite_self none
  have hcp : currentPath cds = .error DE_PATHNOTFND := by
    simp [currentPath, h.canonical.network, hmedia]
  rw [truenameIn, if_neg hsrc, if_neg h.notUnc, h.drive]
  simp only [hremote, start, h.noDevice, Bool.false_eq_true, if_false, hcp, Except.bind]

theorem finish_eq {device : Bool} {rootPos : Nat} (hjoin : env.joined = []) {path : Path}
    (h : finish env mode device rootPos dest wild = .ok path) :
    (wild = true → mode.allowWildcards = true) ∧
      path = (if dest.length = 2 then dest ++ [backslash] else dest).take rootPos ++
        ((if dest.length = 2 then dest ++ [backslash] else dest).drop rootPos).map env.up := by
  unfold finish at h
  rw [hjoin] at h
  split at h
  · cases h
  rename_i hwild
  extract_lets d1 d2 slashed at h
  rw [show (if slashed || mode.skipPhysical then none else join d2 []) = none from ite_self none]
    at h
  simp only at h
  split at h
  · cases h
  · obtain rfl := Except.ok.inj h
    refine ⟨fun hw => ?_, rfl⟩
    simpa [hw] using hwild

/-- The backslash of the root. -/
theorem Built.pad (hpre : 2 ≤ pre.length) (h : Built pre (dest, wild)) :
    Built pre (if dest.length = 2 then dest ++ [backslash] else dest, wild) := by
  split
  · obtain ⟨comps, trail, hdest, hnames, -⟩ := h
    have hdest : dest = pre ++ render backslash comps ++ trail := hdest
    have hzero := congrArg List.length hdest
    rw [length_append, length_append] at hzero
    have htrail : trail = [] := length_eq_zero_iff.mp (by omega)
    have hrender : render backslash comps = [] := length_eq_zero_iff.mp (by omega)
    have hcomps : comps = [] := by
      cases comps with
      | nil => rfl
      | cons c comps => cases hrender
    subst hcomps
    refine ⟨[], [backslash], ?_, hnames, .inr ⟨rfl, nofun, nofun, nofun⟩⟩
    rw [hdest, htrail]
    simp
  · exact h

theorem render_upper {map : UInt8 → UInt8} (comps : List Path) :
    (render backslash comps).map (upMMem map) =
      render backslash (comps.map (List.map (upMMem map))) := by
  induction comps with
  | nil => rfl
  | cons c comps ih =>
    rw [render_cons, map_append, ih, map_cons, upMMem_backslash, map_cons, render_cons]

theorem Canonical.of_built {map : UInt8 → UInt8} (hmap : Upcases map) {allow : Bool}
    (hallow : wild = true → allow = true) (h : Built pre (dest, wild)) :
    Canonical (upMMem map) allow pre
      (dest.take pre.length ++ (dest.drop pre.length).map (upMMem map)) := by
  obtain ⟨comps, trail, hdest, hnames, htrail⟩ := h
  have hdest : dest = pre ++ (render backslash comps ++ trail) := by
    rw [← append_assoc]
    exact hdest
  have hup : trail.map (upMMem map) = trail := by
    rcases htrail with rfl | ⟨rfl, -⟩
    · rfl
    · rfl
  refine ⟨comps.map (List.map (upMMem map)), trail, ?_, ?_, ?_, ?_⟩
  · rw [hdest, take_left, drop_left, map_append, render_upper, hup, append_assoc]
  · have hupper := hnames.upper hmap
    exact ⟨hupper.form, hupper.inner, fun hfalse => hupper.last (by
      cases wild with
      | false => rfl
      | true => exact absurd (hallow rfl) (by simp [hfalse]))⟩
  · intro d hd
    obtain ⟨c, -, rfl⟩ := mem_map.mp hd
    rw [map_map]
    exact map_congr_left fun x _ => upMMem_idem hmap x
  · rcases htrail with rfl | ⟨rfl, hfalse⟩
    · exact .inl rfl
    · exact .inr ⟨rfl, hfalse.upper hmap⟩

theorem two_le_prefixOf (h : CanonicalCds cds hidden comps) :
    2 ≤ (prefixOf env mode src hidden).length := by
  obtain ⟨letter, dirs, heq, -⟩ := h.hidden
  unfold prefixOf
  split
  · exact le_refl 2
  · rw [heq, length_cons, length_cons]
    omega

theorem startNames_names {cds : Cds} {src hidden : Path} {comps : List Path}
    (h : CanonicalCds cds hidden comps) : Names false (startNames cds src comps) := by
  unfold startNames
  split
  · exact ⟨nofun, nofun, nofun⟩
  · exact h.names

theorem start_room (h : CanonicalCds cds hidden comps) :
    (prefixOf env mode src hidden ++ render backslash (startNames cds src comps)).length <
      SFTMAX := by
  obtain ⟨trail, -, hpath⟩ := h.path
  have hroom := h.room
  rw [hpath, length_append, length_append] at hroom
  have hpre : (prefixOf env mode src hidden).length ≤ hidden.length + 2 := by
    unfold prefixOf
    split
    · rw [show (driveName (driveOf env.toNameEnv src)).length = 2 from rfl]
      omega
    · omega
  have hnames : (render backslash (startNames cds src comps)).length ≤
      (render backslash comps).length := by
    unfold startNames
    split
    · exact Nat.zero_le _
    · exact le_refl _
  rw [length_append]
  simp only [MAX_CDSPATH, SFTMAX] at *
  omega

/-- **Only canonical paths, and none above the prefix.**  What `truename` returns on a local drive
is canonical over the prefix; a name that goes up above the prefix is not found. -/
theorem truename_canonical {env : NameMap} {mode : Mode} {src : Path} {cds : Cds} {hidden : Path}
    {comps : List Path} (h : Local env src cds hidden comps) :
    (∀ path, truenameIn env mode src = .ok path →
      Canonical env.up mode.allowWildcards (prefixOf env mode src hidden) path) ∧
    (climbs (startNames cds src comps).length (steps (beforeName env src) (relative src)) = true →
      truenameIn env mode src = .error DE_PATHNOTFND) := by
  by_cases hsrc : src = []
  · subst hsrc
    refine ⟨fun path hpath => ?_, fun hclimbs => ?_⟩
    · rw [truenameIn, if_pos rfl] at hpath
      cases hpath
    · simp [steps, relative, behindDrive, words] at hclimbs
  cases hmedia : cds.mediaOk with
  | false =>
    have heq := @truenameIn_no_media env mode src cds hidden comps h hsrc hmedia
    refine ⟨fun path hpath => ?_, fun _ => heq⟩
    rw [heq] at hpath
    cases hpath
  | true =>
    have hopen := @open_prefixOf env mode src hidden h.canonical.open
    have hnames := @startNames_names cds src hidden comps h.canonical
    rw [truenameIn_eq h hsrc hmedia]
    refine ⟨fun path hpath => ?_, fun hclimbs => ?_⟩
    · obtain ⟨⟨dest, wild⟩, h1, h2⟩ := bind_ok hpath
      have hbuilt := (componentsAt_built hopen hnames h1).pad (two_le_prefixOf h.canonical)
      obtain ⟨hallow, rfl⟩ := finish_eq h.noJoin h2
      obtain ⟨map, hmap, hup⟩ := h.upcase
      rw [hup]
      exact Canonical.of_built hmap hallow hbuilt
    · rw [componentsAt_climbs hopen hnames (Nat.lt_succ_self _) (.inl (start_room h.canonical))
        hclimbs]
      rfl

/-! ## 4. A drive made by SUBST -/

/-- `C:\` -/
def rootC : Cds where
  cdsCurrentPath := [0x43, colon, backslash]
  cdsBackslashOffset := 2
  network := false
  mediaOk := true
  dirExists := true

/-- `C:\A`, as SUBST leaves it. -/
def substA : Cds where
  cdsCurrentPath := [0x43, colon, backslash, 0x41]
  cdsBackslashOffset := 4
  network := false
  mediaOk := true
  dirExists := true

/-- The name, without its extension, is `NUL`. -/
def isNul (fname : Path) : Bool :=
  ((getRoot fname).takeWhile (· != dot)).map (upMMem nlsFUpcaseHardcoded) == [0x4e, 0x55, 0x4c]

/-- A machine with a drive C:, which is the default one, and a drive D:, which SUBST has made. -/
def twoDrives (c d : Cds) : NameMap where
  defaultDrive := 2
  getCds n := if n = 2 then some c else if n = 3 then some d else none
  isDevice := isNul
  up := upMMem nlsFUpcaseHardcoded
  qremote _ := none
  joined := []
  dir_exists _ := true
  before := 0
  drive := by
    intro n cds h
    split at h
    · omega
    split at h
    · omega
    · cases h

def physical : Mode where
  skipPhysical := false
  checkDevPath := true
  allowWildcards := false

def logical : Mode where
  skipPhysical := true
  checkDevPath := false
  allowWildcards := false

theorem canonical_rootC : CanonicalCds rootC [0x43, colon] [] where
  network := rfl
  path := ⟨[backslash], .inr rfl, rfl⟩
  offset := rfl
  room := by decide
  names := ⟨nofun, nofun, nofun⟩
  hidden := ⟨0x43, [], rfl, nofun, nofun, nofun⟩

theorem name83_A : Name83 [0x41] :=
  ⟨[0x41], [], rfl, ⟨nofun, by decide, by decide⟩, .inl rfl⟩

theorem canonical_substA : CanonicalCds substA [0x43, colon, backslash, 0x41] [] where
  network := rfl
  path := ⟨[], .inl rfl, rfl⟩
  offset := rfl
  room := by decide
  names := ⟨nofun, nofun, nofun⟩
  hidden := by
    refine ⟨0x43, [[0x41]], rfl, ?_, nofun, ?_⟩
    · intro c hc
      rw [mem_singleton.mp hc]
      exact name83_A
    · intro _ c hc
      rw [mem_singleton.mp hc]
      decide

/-- A name on D: -/
theorem local_substA (hunc : src.take 2 ≠ [backslash, backslash])
    (hdrive : driveOf (twoDrives rootC substA).toNameEnv src = 3) (hnul : isNul src = false) :
    Local (twoDrives rootC substA) src substA [0x43, colon, backslash, 0x41] [] where
  upcase := ⟨nlsFUpcaseHardcoded, upcases_hardcoded, rfl⟩
  notUnc := hunc
  drive := by rw [hdrive]; rfl
  canonical := canonical_substA
  noDevice := by
    have hdev : (twoDrives rootC substA).isDevice src = false := hnul
    rw [hdev]
    rfl
  noRemote := rfl
  noJoin := rfl

/-- `D:X` is `C:\A\X`, and above D: there is nothing. -/
theorem truename_canonical_subst :
    Canonical (upMMem nlsFUpcaseHardcoded) false [0x43, colon, backslash, 0x41]
      [0x43, colon, backslash, 0x41, backslash, 0x58] ∧
    truenameIn (twoDrives rootC substA) physical [0x44, colon, dot, dot] =
      .error DE_PATHNOTFND :=
  ⟨(@truename_canonical (twoDrives rootC substA) physical [0x44, colon, 0x78] substA _ []
      (local_substA (by decide) (by decide) (by decide))).1 _ (by decide +kernel),
    (@truename_canonical (twoDrives rootC substA) physical [0x44, colon, dot, dot] substA _ []
      (local_substA (by decide) (by decide) (by decide))).2 (by decide +kernel)⟩

/-- When SUBST is not looked through, `D:X` is `D:\X`, and the hidden prefix stays hidden. -/
theorem truename_keeps_letter :
    ¬ ∀ (env : NameMap) (mode : Mode) (src path : Path) (cds : Cds) (hidden : Path)
      (comps : List Path), Local env src cds hidden comps → truenameIn env mode src = .ok path →
      Canonical env.up mode.allowWildcards hidden path := by
  intro hall
  obtain ⟨comps, trail, heq, -⟩ := hall (twoDrives rootC substA) logical [0x44, colon, 0x78]
    [0x44, colon, backslash, 0x58] substA _ []
    (local_substA (by decide) (by decide) (by decide)) (by decide +kernel)
  rw [List.append_assoc] at heq
  exact absurd (List.cons_eq_cons.mp heq).1 (by decide)

end SdcBoot.Kernel.Truename
