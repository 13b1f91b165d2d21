/-
# `truename`: canonical paths stay as they are

The loop over the components copies a canonical path: every component fits its 8.3 form, there is no
dot to strip and no wildcard to expand, and the path is no longer than it was.  So on a drive that
SUBST has not made, `truename` gives back its own results (`truename_idempotent`).

That needs the result not to be the name of a character device, even if the name was none.  A device
is recognised by the last component of what is written, so `\DEV\NUL\.` is not one, but what comes
out of it is.
-/
import SdcBoot.Kernel.Absolute

namespace SdcBoot.Kernel.Truename

open Lib List

/-! ## 1. One component -/

variable {c dest hidden path rest src : Path} {pneDot wild : Bool} {before : UInt8} {rootPos : Nat}
  {env : NameMap} {mode : Mode} {cds : Cds} {comps : List Path} {map : UInt8 → UInt8}

theorem component_atEnd {i : Nat} (h : atEnd src = true) :
    component src dest i pneDot wild = .ok (src, dest, wild) := by
  cases src with
  | nil => rfl
  | cons x src =>
    rw [atEnd_cons] at h
    rw [component, if_pos h]

/-- A run of characters for which there is room is copied. -/
theorem component_append : ∀ {n dest : Path} {i : Nat} {wild : Bool},
    n.all nameChar = true → n.length ≤ i → dest.length + n.length ≤ SFTMAX →
    component (n ++ src) dest i pneDot wild =
      component src (dest ++ n) (i - n.length) pneDot (wild || n.contains question) := by
  intro n
  induction n with
  | nil => simp
  | cons x n ih =>
    intro dest i wild hall hlen hroom
    rw [all_cons, Bool.and_eq_true] at hall
    obtain ⟨hdir, hsep, hdot, hstar⟩ := nameChar_iff.mp hall.1
    rw [length_cons] at hlen hroom
    rw [cons_append, component, if_neg (by simp [hsep]), if_neg hstar, if_neg hdot,
      if_neg (by omega), if_neg (by simp [hdir]), addChar_eq (by omega)]
    change component (n ++ src) (dest ++ [x]) (i - 1) pneDot (wild || x == question) = _
    rw [ih hall.2 (by omega) (by rw [length_append, length_singleton]; omega)]
    rw [append_assoc, singleton_append, length_cons, Nat.sub_sub, add_comm 1,
      contains_cons, Bool.or_assoc]
    congr 3
    exact Bool.beq_comm

/-- **A component in 8.3 form is copied.** -/
theorem component_copy (hc : Name83 c) (hrest : atEnd rest = true)
    (hroom : dest.length + c.length ≤ SFTMAX) :
    component (c ++ rest) dest FNAME_SIZE false wild =
      .ok (rest, dest ++ c, wild || c.contains question) := by
  obtain ⟨name, ext, rfl, ⟨-, hname, hall⟩, hext⟩ := hc
  rw [length_append] at hroom
  rw [append_assoc, component_append hall hname (by omega)]
  rcases hext with rfl | ⟨e, rfl, hne, he, heall⟩
  · rw [nil_append, component_atEnd hrest, append_nil]
  · rw [length_cons] at hroom
    have hnot : ¬ atEnd (e ++ rest) = true := by
      cases e with
      | nil => exact absurd rfl hne
      | cons x e =>
        have hx := nameChar_iff.mp (all_eq_true.mp heall x mem_cons_self)
        rw [cons_append, atEnd_cons, hx.2.1]
        exact Bool.false_ne_true
    rw [cons_append, component, if_neg (by decide), if_neg (by decide), if_pos rfl,
      if_neg Bool.false_ne_true, if_neg hnot, if_neg (by simp [dirChar_dot]),
      addChar_eq (by rw [length_append]; omega)]
    change component (e ++ rest) (dest ++ name ++ [dot]) FEXT_SIZE true _ = _
    rw [component_append heall he (by simp only [length_append, length_singleton]; omega),
      component_atEnd hrest]
    have hquestion : question ≠ dot := by decide
    simp [hquestion, Bool.or_assoc]

/-! ## 2. The loop -/

theorem atEnd_render {comps : List Path} {trail : Path} (h : trail = [] ∨ trail = [backslash]) :
    atEnd (render backslash comps ++ trail) = true := by
  cases comps with
  | nil =>
    rcases h with rfl | rfl
    · rfl
    · rfl
  | cons c comps => rfl

theorem head_name83 {c rest : Path} (hc : Name83 c) :
    (c ++ rest).head? ≠ some dot ∧ (c ++ rest).dropWhile isSep = c ++ rest := by
  obtain ⟨name, ext, rfl, ⟨hne, -, hall⟩, -⟩ := hc
  cases name with
  | nil => exact absurd rfl hne
  | cons x name =>
    obtain ⟨-, hsep, hdot, -⟩ := nameChar_iff.mp (all_eq_true.mp hall x mem_cons_self)
    refine ⟨fun h => hdot (Option.some.inj h), ?_⟩
    rw [cons_append, cons_append, dropWhile_cons_of_neg (by simp [hsep])]

/-- One component of a canonical path, with its backslash or without. -/
theorem componentsAt_component {fuel : Nat} {q : Path} (hq : Open q) (hc : Name83 c)
    (hrest : atEnd rest = true) (hsrc : src.dropWhile isSep = c ++ rest)
    (hroom : q.length + c.length < SFTMAX) :
    componentsAt backslash rootPos before (fuel + 1) src q false =
      componentsAt backslash rootPos before fuel rest (q ++ backslash :: c)
        (c.contains question) := by
  obtain ⟨hhead, -⟩ := @head_name83 c rest hc
  have hne : src ≠ [] := by
    rintro rfl
    exact append_ne_nil_of_left_ne_nil hc.ne_nil rest hsrc.symm
  have hopen : q.getLast? ≠ some backslash := hq
  rw [componentsAt, if_neg hne, if_neg Bool.false_ne_true, if_pos hopen, addChar_eq (by omega)]
  simp only [Except.bind, hsrc]
  rw [if_neg hhead, component_copy hc hrest
    (by rw [length_append, length_singleton]; omega)]
  simp

/-- **The loop copies a canonical path.** -/
theorem componentsAt_copy {before : UInt8} {rootPos : Nat} {trail : Path} :
    ∀ {comps : List Path} {fuel : Nat} {q : Path} {wild : Bool}, Open q → Names wild comps →
      (trail = [] ∨ trail = [backslash] ∧ Names false comps) →
      (q ++ (render backslash comps ++ trail)).length ≤ SFTMAX →
      (render backslash comps ++ trail).length ≤ fuel →
      ∃ w, componentsAt backslash rootPos before fuel (render backslash comps ++ trail) q false =
        .ok (q ++ (render backslash comps ++ trail), w) ∧
        (w = true → ∃ c ∈ comps, question ∈ c) := by
  intro comps
  induction comps with
  | nil =>
    intro fuel q wild hq _ htrail hroom hfuel
    rw [render_nil, nil_append] at hroom hfuel ⊢
    rcases htrail with rfl | ⟨rfl, -⟩
    · exact ⟨false, by rw [componentsAt_nil, append_nil], nofun⟩
    · have hopen : q.getLast? ≠ some backslash := hq
      rw [length_append, length_singleton] at hroom
      obtain ⟨fuel, rfl⟩ := Nat.exists_eq_succ_of_ne_zero (Nat.ne_zero_of_lt hfuel)
      refine ⟨false, ?_, nofun⟩
      rw [componentsAt, if_neg (cons_ne_nil _ _), if_neg Bool.false_ne_true, if_pos hopen,
        addChar_eq (by omega)]
      exact componentsAt_nil fuel
  | cons c comps ih =>
    intro fuel q wild hq hnames htrail hroom hfuel
    have hc := hnames.form c mem_cons_self
    have hend : trail = [] ∨ trail = [backslash] := htrail.imp_right And.left
    have hlen : (q ++ backslash :: c).length + (render backslash comps ++ trail).length ≤ SFTMAX := by
      rw [← length_append]
      simpa using hroom
    rw [render_cons, append_assoc, length_append, length_cons] at hfuel
    have hfuel : c.length + (render backslash comps ++ trail).length < fuel := by omega
    obtain ⟨fuel, rfl⟩ := Nat.exists_eq_succ_of_ne_zero (Nat.ne_zero_of_lt hfuel)
    have hsrc : (render backslash (c :: comps) ++ trail).dropWhile isSep =
        c ++ (render backslash comps ++ trail) := by
      rw [render_cons, append_assoc, cons_append, dropWhile_cons_of_pos rfl]
      exact (head_name83 hc).2
    have hqc : q.length + c.length < SFTMAX := by
      rw [length_append, length_cons] at hlen
      omega
    rw [componentsAt_component hq hc (atEnd_render hend) hsrc hqc]
    have heq : q ++ (render backslash (c :: comps) ++ trail) =
        q ++ backslash :: c ++ (render backslash comps ++ trail) := by simp
    rw [heq]
    by_cases hquestion : question ∈ c
    · -- a wildcard, so this is the last one
      have hlast : comps = [] := by
        cases comps with
        | nil => rfl
        | cons d comps => exact absurd hquestion (hnames.inner c mem_cons_self)
      have hnil : trail = [] := by
        rcases htrail with htrail | ⟨-, hfalse⟩
        · exact htrail
        · exact absurd hquestion (hfalse.last rfl c mem_cons_self)
      subst hlast hnil
      refine ⟨true, ?_, fun _ => ⟨c, mem_cons_self, hquestion⟩⟩
      rw [contains_iff_mem.mpr hquestion]
      exact (componentsAt_nil fuel).trans (by simp)
    · have hcons : ∀ w, Names w (c :: comps) → Names w comps := fun w h =>
        ⟨fun d hd => h.form d (mem_cons_of_mem c hd),
          fun d hd => h.inner d (by
            cases comps with
            | nil => cases hd
            | cons e comps => exact mem_cons_of_mem c hd),
          fun hw d hd => h.last hw d (mem_cons_of_mem c hd)⟩
      have hopen : Open (q ++ backslash :: c) := by
        rw [← singleton_append, ← append_assoc]
        exact open_append hc.ne_nil hc.ne_backslash
      obtain ⟨w, hw, hmem⟩ := @ih fuel _ wild hopen (hcons wild hnames) (htrail.imp_right fun h =>
        ⟨h.1, hcons false h.2⟩) (by rw [length_append]; exact hlen) (by omega)
      refine ⟨w, ?_, fun h => ?_⟩
      · rw [Bool.eq_false_iff.mpr (fun h => hquestion (contains_iff_mem.mp h))]
        exact hw
      · obtain ⟨d, hd, hd'⟩ := hmem h
        exact ⟨d, mem_cons_of_mem c hd, hd'⟩

/-! ## 3. How long a path may be -/

theorem dropComponentAt_length : ∀ {n : Nat} {dest d : Path},
    dest.length ≤ SFTMAX → dropComponentAt rootPos n dest = .ok d → d.length ≤ SFTMAX := by
  intro n
  induction n with
  | zero =>
    intro dest d _ h
    cases h
  | succ n ih =>
    intro dest d hlen h
    rw [dropComponentAt] at h
    have hlast : dest.dropLast.length ≤ SFTMAX := by
      rw [length_dropLast]
      omega
    split at h
    · cases h
      exact hlast
    split at h
    · cases h
    · exact ih hlast h

theorem componentsAt_length {root : UInt8} : ∀ {fuel : Nat}
    {src dest : Path} {wild : Bool} {r : Path × Bool}, dest.length ≤ SFTMAX →
    componentsAt root rootPos before fuel src dest wild = .ok r → r.1.length ≤ SFTMAX := by
  intro fuel
  induction fuel with
  | zero =>
    intro src dest wild r hlen h
    cases h
    exact hlen
  | succ fuel ih =>
    intro src dest wild r hlen h
    rw [componentsAt] at h
    split at h
    · cases h
      exact hlen
    split at h
    · cases h
    obtain ⟨d, h1, h2⟩ := bind_ok h
    have hd : d.length ≤ SFTMAX := by
      split at h1
      · exact addChar_length h1
      · cases h1
        exact hlen
    have hlast : d.dropLast.length ≤ SFTMAX := by
      rw [length_dropLast]
      omega
    extract_lets name twoDots rest at h2
    split at h2
    · split at h2
      · split at h2
        · obtain ⟨d', h3, h4⟩ := bind_ok h2
          exact ih (dropComponentAt_length hlast h3) h4
        · exact ih hlast h2
      · cases h2
    · obtain ⟨r', h3, h4⟩ := bind_ok h2
      exact ih (component_length hd h3) h4

/-- Where there is an answer, there is a name and a medium. -/
theorem truenameIn_medium (h : Local env src cds hidden comps)
    (hpath : truenameIn env mode src = .ok path) : src ≠ [] ∧ cds.mediaOk = true := by
  have hsrc : src ≠ [] := by
    rintro rfl
    cases hpath
  refine ⟨hsrc, ?_⟩
  by_contra hmedia
  rw [truenameIn_no_media h hsrc (Bool.eq_false_iff.mpr hmedia)] at hpath
  cases hpath

/-- A path is no longer than `SFTMAX`, and it is more than a drive. -/
theorem truenameIn_length (h : Local env src cds hidden comps)
    (hpath : truenameIn env mode src = .ok path) : path.length ≤ SFTMAX ∧ path.length ≠ 2 := by
  obtain ⟨hsrc, hmedia⟩ := truenameIn_medium h hpath
  rw [truenameIn_eq h hsrc hmedia] at hpath
  obtain ⟨r, h1, h2⟩ := bind_ok hpath
  have hr := componentsAt_length (start_room h.canonical).le h1
  obtain ⟨-, rfl⟩ := finish_eq h.noJoin h2
  rw [length_append, length_map, ← length_append, take_append_drop]
  split
  · rename_i hlen
    rw [length_append, hlen]
    exact ⟨by decide, by decide⟩
  · rename_i hlen
    exact ⟨hr, hlen⟩

/-! ## 4. The same path again -/

/-- The letter of a drive leads back to the drive. -/
theorem drive_letter : ∀ n < 0x20,
    ((upMMem map (UInt8.ofNat (n % 0x20 + 0x41))).toNat + 256 - 0x41) % 256 = n := by
  intro n hn
  have hle : ∀ n < 0x20, UInt8.ofNat (n % 0x20 + 0x41) ≤ 0x7f := by decide +kernel
  have heq : ∀ n < 0x20,
      ((if UInt8.ofNat (n % 0x20 + 0x41) ≥ 0x61 ∧ UInt8.ofNat (n % 0x20 + 0x41) ≤ 0x7a
        then UInt8.ofNat (n % 0x20 + 0x41) - 0x20
        else UInt8.ofNat (n % 0x20 + 0x41)).toNat + 256 - 0x41) % 256 = n := by decide +kernel
  rw [upMMem_of_le (hle n hn)]
  exact heq n hn

theorem driveOf_driveName {env : NameEnv} (hup : env.up = upMMem map) {n : Nat} (hn : n < 0x20)
    (rest : Path) : driveOf env (driveName n ++ rest) = n := by
  have hcolon : (driveName n ++ rest).tail.head? = some colon := rfl
  rw [driveOf, if_pos hcolon, hup]
  exact drive_letter n hn

theorem behindDrive_driveName (n : Nat) (rest : Path) : behindDrive (driveName n ++ rest) = rest := by
  rfl

/-- What `finish` makes of a canonical path. -/
theorem finish_canonical {env : NameMap} {mode : Mode} {n : Nat} {rest : Path} {wild : Bool}
    (hjoin : env.joined = []) (hwild : wild = true → mode.allowWildcards = true)
    (hrest : rest ≠ []) (hup : rest.map env.up = rest) :
    finish env mode false 2 (driveName n ++ rest) wild = .ok (driveName n ++ rest) := by
  have hlen : (driveName n ++ rest).length ≠ 2 := by
    have hpos := length_pos_iff.mpr hrest
    rw [length_append, show (driveName n).length = 2 from rfl]
    omega
  have hcond : (wild && !mode.allowWildcards) = false := by
    cases wild with
    | false => rfl
    | true => rw [hwild rfl]; rfl
  have hcopy : (driveName n ++ rest).take 2 ++ ((driveName n ++ rest).drop 2).map env.up =
      driveName n ++ rest := by
    rw [show (driveName n ++ rest).drop 2 = rest from rfl, hup]
    rfl
  unfold finish
  rw [hcond, if_neg Bool.false_ne_true, if_neg hlen, hjoin]
  simp only [hcopy, join, ite_self, Bool.and_false, Bool.false_and, Bool.false_eq_true, if_false]

/-- **`truename` is idempotent** on a drive without SUBST, as long as its result is not the name of a
character device. -/
theorem truename_idempotent {env : NameMap} {mode : Mode} {src path : Path} {cds : Cds}
    {comps : List Path} (h : Local env src cds (driveName (driveOf env.toNameEnv src)) comps)
    (hremote : ∀ p, env.qremote p = none) (hdevice : env.isDevice path = false)
    (hpath : truenameIn env mode src = .ok path) : truenameIn env mode path = .ok path := by
  have hlead : ∀ p, prefixOf env mode p (driveName (driveOf env.toNameEnv p)) =
      driveName (driveOf env.toNameEnv p) := fun p => ite_self _
  obtain ⟨hlen, htwo⟩ := truenameIn_length h hpath
  obtain ⟨names, trail, hcanon, hnames, hcaps, htrail⟩ := (truename_canonical h).1 path hpath
  rw [hlead, List.append_assoc] at hcanon
  have hn := env.drive h.drive
  obtain ⟨map, hmap, hup⟩ := h.upcase
  have hdrive : driveOf env.toNameEnv path = driveOf env.toNameEnv src := by
    rw [hcanon, driveOf_driveName hup hn]
  have hbehind : behindDrive path = render backslash names ++ trail := by
    rw [hcanon, behindDrive_driveName]
  have hne : render backslash names ++ trail ≠ [] := by
    intro hnil
    rw [hcanon, hnil, List.append_nil] at htwo
    exact htwo rfl
  have hmedia := (truenameIn_medium h hpath).2
  have hlocal : Local env path cds (driveName (driveOf env.toNameEnv path)) comps :=
    { upcase := h.upcase
      notUnc := by
        rw [hcanon]
        intro heq
        have heq : driveName (driveOf env.toNameEnv src) = [backslash, backslash] := heq
        exact absurd (List.cons_eq_cons.mp heq).2 (by decide)
      drive := by rw [hdrive]; exact h.drive
      canonical := by rw [hdrive]; exact h.canonical
      noDevice := by rw [hdevice]; rfl
      noRemote := hremote path
      noJoin := h.noJoin }
  have hpne : path ≠ [] := by
    rw [hcanon]
    exact List.cons_ne_nil _ _
  have hcomps : ∀ c ∈ names, c.map env.up = c := hcaps
  have hrest : (render backslash names ++ trail).map env.up = render backslash names ++ trail := by
    rw [List.map_append, map_render (by rw [hup]) hcomps]
    rcases htrail with rfl | ⟨rfl, -⟩
    · rfl
    · rw [hup]
      rfl
  rw [truenameIn_eq hlocal hpne hmedia, hdevice, hlead, hdrive]
  obtain ⟨rest, hcons⟩ : ∃ rest, render backslash names ++ trail = backslash :: rest := by
    cases names with
    | nil =>
      rcases htrail with rfl | ⟨rfl, -⟩
      · exact absurd rfl hne
      · exact ⟨[], rfl⟩
    | cons c names => exact ⟨_, rfl⟩
  have habs : (behindDrive path).head?.any isSep = true := by
    rw [hbehind, hcons]
    rfl
  have hrelative : relative path = rest := by
    rw [relative, if_pos habs, hbehind, hcons]
    rfl
  have hstart : startNames cds path comps = [] := by
    rw [startNames, habs, Bool.true_or, if_pos rfl]
  have hrelated : rest.length + 1 = (render backslash names ++ trail).length := by
    rw [hcons, List.length_cons]
  have hroom : (driveName (driveOf env.toNameEnv src) ++ (render backslash names ++ trail)).length ≤
      SFTMAX := by rw [← hcanon]; exact hlen
  obtain ⟨w, hcopy, hw⟩ := @componentsAt_copy (beforeName env path)
    (driveName (driveOf env.toNameEnv src)).length trail names (rest.length + 1)
    (driveName (driveOf env.toNameEnv src)) mode.allowWildcards (open_driveName _) hnames htrail
    hroom hrelated.ge
  have hallow : w = true → mode.allowWildcards = true := by
    intro h
    obtain ⟨c, hc, hquestion⟩ := hw h
    by_contra hnot
    exact hnames.last (Bool.eq_false_iff.mpr hnot) c hc hquestion
  have hfinish := @finish_canonical env mode (driveOf env.toNameEnv src) _ w h.noJoin hallow hne
    hrest
  rw [hrelative, hstart, render_nil, List.append_nil]
  cases names with
  | nil =>
    -- the root: the loop has nothing to do
    obtain rfl : trail = [backslash] := by
      rcases htrail with rfl | ⟨rfl, -⟩
      · exact absurd rfl hne
      · rfl
    obtain rfl : rest = [] := (List.cons_eq_cons.mp hcons).2.symm
    have hroot := @finish_canonical env mode (driveOf env.toNameEnv src) _ false h.noJoin
      (fun h => absurd h Bool.false_ne_true) hne hrest
    rw [componentsAt_nil, hcanon]
    exact hroot
  | cons c names =>
    -- the backslash of the root is skipped here, and appended by the loop
    have hc := hnames.form c List.mem_cons_self
    have hend := @atEnd_render names trail (htrail.imp_right And.left)
    have hsplit : rest = c ++ (render backslash names ++ trail) := by
      rw [render_cons, List.append_assoc, List.cons_append] at hcons
      exact (List.cons_eq_cons.mp hcons).2.symm
    have hqc : (driveName (driveOf env.toNameEnv src)).length + c.length < SFTMAX := by
      rw [hcons, hsplit] at hroom
      simp only [List.length_append, List.length_cons] at hroom
      omega
    have hdrop : rest.dropWhile isSep = c ++ (render backslash names ++ trail) := by
      rw [hsplit]
      exact (head_name83 hc).2
    have hdrop' : (render backslash (c :: names) ++ trail).dropWhile isSep =
        c ++ (render backslash names ++ trail) := by
      rw [hcons, List.dropWhile_cons_of_pos rfl]
      exact hdrop
    rw [componentsAt_component (open_driveName _) hc hend hdrop' hqc] at hcopy
    rw [componentsAt_component (open_driveName _) hc hend hdrop hqc, hcopy, hcanon]
    exact hfinish

theorem local_rootC {src : Path} (hunc : src.take 2 ≠ [backslash, backslash])
    (hdrive : driveOf (twoDrives rootC substA).toNameEnv src = 2) (hnul : isNul src = false) :
    Local (twoDrives rootC substA) src rootC [0x43, colon] [] where
  upcase := ⟨nlsFUpcaseHardcoded, upcases_hardcoded, rfl⟩
  notUnc := hunc
  drive := by rw [hdrive]; rfl
  canonical := canonical_rootC
  noDevice := by
    have hdev : (twoDrives rootC substA).isDevice src = false := hnul
    rw [hdev]
    rfl
  noRemote := rfl
  noJoin := rfl

/-- `x.\y\` is `C:\X\Y\`, and stays it. -/
theorem truename_idempotent_root :
    truenameIn (twoDrives rootC substA) physical
      [0x43, colon, backslash, 0x58, backslash, 0x59, backslash] =
      .ok [0x43, colon, backslash, 0x58, backslash, 0x59, backslash] :=
  @truename_idempotent (twoDrives rootC substA) physical
    [0x78, dot, backslash, 0x79, backslash] _ rootC []
    (local_rootC (by decide) (by decide) (by decide)) (fun _ => rfl) (by decide)
    (by decide +kernel)

/-- `C:\a..b`, which no call has made. -/
def dotted : Cds where
  cdsCurrentPath := [0x43, colon, backslash, 0x61, dot, dot, 0x62]
  cdsBackslashOffset := 2
  network := false
  mediaOk := true
  dirExists := true

/-- `\DEV\NUL\.` is no device, and `C:\DEV\NUL` is one; and out of a current path that is not
canonical comes a path that is an error. -/
theorem truename_not_idempotent :
    (¬ ∀ (env : NameMap) (mode : Mode) (src path : Path) (cds : Cds) (comps : List Path),
      Local env src cds (driveName (driveOf env.toNameEnv src)) comps →
      (∀ p, env.qremote p = none) → env.isDevice src = false →
      truenameIn env mode src = .ok path → truenameIn env mode path = .ok path) ∧
    ¬ ∀ (env : NameMap) (mode : Mode) (src path : Path) (cds : Cds),
      env.getCds (driveOf env.toNameEnv src) = some cds → cds.network = false →
      cds.cdsBackslashOffset = 2 →
      cds.cdsCurrentPath.take 2 = driveName (driveOf env.toNameEnv src) → env.joined = [] →
      (∀ p, env.qremote p = none) → env.isDevice src = false → env.isDevice path = false →
      truenameIn env mode src = .ok path → truenameIn env mode path = .ok path := by
  refine ⟨fun hall => ?_, fun hall => ?_⟩
  · have hlocal := @local_rootC
      [backslash, 0x44, 0x45, 0x56, backslash, 0x4e, 0x55, 0x4c, backslash, dot] (by decide)
      (by decide) (by decide)
    have h := hall (twoDrives rootC substA) physical _
      [0x43, colon, backslash, 0x44, 0x45, 0x56, backslash, 0x4e, 0x55, 0x4c] rootC [] hlocal
      (fun _ => rfl) (by decide) (by decide +kernel)
    cases h
  · have h := hall (twoDrives dotted substA) physical [0x78]
      [0x43, colon, backslash, 0x41, dot, dot, 0x42, backslash, 0x58] dotted rfl rfl rfl
      (by decide) rfl (fun _ => rfl) (by decide) (by decide) (by decide +kernel)
    cases h

end SdcBoot.Kernel.Truename
