/-
# Names in directory entries: 8.3 and back

A directory entry holds a name as 11 bytes, 8 and 3, filled up with blanks.  `ConvertName83ToNameSZ`
of `kernel/fatdir.c` makes a string of it, and `ConvertNameSZToName83` makes 11 bytes of a component
of a path.  Blanks are allowed inside a name, so the first works from the last blank backward.

Both ways round nothing is lost but blanks at the end of a part, and the dot of an extension that has
nothing else.
-/
import SdcBoot.Dir.Volume
import SdcBoot.Kernel.Canonical
import Mathlib.Data.List.DropRight

namespace SdcBoot.Dir.Names

open Kernel.Truename List

/-! ## 1. The functions -/

/-- Without its last blanks. -/
def trimmed (s : Path) : Path := s.rdropWhile (· == blank)

/-- `ConvertName83ToNameSZ`: the bytes in front of the terminator. -/
def convertName83ToNameSZ (srcFCBName : Path) : Path :=
  let noExtension := srcFCBName.head? == some dot
  let name := trimmed (srcFCBName.take FNAME_SIZE)
  let ext := trimmed (srcFCBName.drop FNAME_SIZE)
  -- not for ".", ".."
  if !noExtension && ext != [] then name ++ dot :: ext else name

/-- The loop of `ConvertNameSZToName83`: the 11 bytes, and where it stops in the memory from
`dirname` on. -/
def convertLoop : Path → Nat → Path → Path × Path
  | [], _, fcbname => (fcbname, [])
  | x :: dirname, i, fcbname =>
    if i ≥ FNAME_SIZE + FEXT_SIZE then (fcbname, x :: dirname)
    else if x = dot then convertLoop dirname FNAME_SIZE fcbname
    else if x ≠ 0 ∧ x ≠ backslash then convertLoop dirname (i + 1) (fcbname.set i x)
    else (fcbname, x :: dirname)

/-- **`ConvertNameSZToName83`**. -/
def convertNameSZToName83 (dirname : Path) : Path × Path :=
  convertLoop dirname 0 (List.replicate (FNAME_SIZE + FEXT_SIZE) blank)

/-! They are those of the walk through the directories, where a name has its eleven bytes. -/

theorem name83ToNameSZ_toList (name : Name) :
    Dir.convertName83ToNameSZ name = convertName83ToNameSZ name.toList := by
  have hfirst : name.toList.head? = some name.first := by
    rw [head?_eq_getElem?]
    exact getElem?_eq_getElem (by simp)
  have htrim : trimBlanks = trimmed := rfl
  simp only [Dir.convertName83ToNameSZ, convertName83ToNameSZ, hfirst, htrim, FNAME_SIZE]
  by_cases hdot : name.first = dot <;>
    by_cases hext : trimmed (name.toList.drop 8) = [] <;> simp [hdot, hext]

theorem convertLoop_toList (dirname : Path) : ∀ (i : Nat) (fcbname : Name),
    (Dir.convertLoop dirname i fcbname).1.toList = (convertLoop dirname i fcbname.toList).1 := by
  induction dirname with
  | nil => exact fun _ _ => rfl
  | cons x dirname ih =>
    intro i fcbname
    have hset : (fcbname.setIfInBounds i x).toList = fcbname.toList.set i x := by simp
    simp only [Dir.convertLoop, convertLoop, FNAME_SIZE, FEXT_SIZE, ← hset]
    split_ifs <;> first | rfl | exact ih .. | simp_all [dot]

theorem nameSZToName83_toList (dirname : Path) :
    (Dir.convertNameSZToName83 dirname).1.toList = (convertNameSZToName83 dirname).1 :=
  convertLoop_toList dirname 0 _

/-! ## 2. Blanks -/

/-- Bytes that mean nothing special in a name. -/
def Plain (s : Path) : Prop := ∀ x ∈ s, x ≠ dot ∧ x ≠ backslash ∧ x ≠ 0

variable {name s : Path} {x : UInt8} {n : Nat}

theorem trimmed_append_blanks (s : Path) :
    trimmed s ++ List.replicate (s.length - (trimmed s).length) blank = s := by
  have hall : s.rtakeWhile (· == blank) =
      List.replicate (s.rtakeWhile (· == blank)).length blank := by
    refine eq_replicate_iff.mpr ⟨rfl, fun x hx => ?_⟩
    simpa using mem_rtakeWhile_imp hx
  have hsplit : trimmed s ++ s.rtakeWhile (· == blank) = s :=
    rdropWhile_append_rtakeWhile ..
  have hlen : s.length - (trimmed s).length = (s.rtakeWhile (· == blank)).length := by
    have := congrArg List.length hsplit
    rw [length_append] at this
    omega
  rw [hlen, ← hall, hsplit]

theorem trimmed_length_le (s : Path) : (trimmed s).length ≤ s.length :=
  (List.rdropWhile_prefix _ _).length_le

theorem Plain.trimmed (h : Plain s) : Plain (trimmed s) := fun x hx =>
  h x ((List.rdropWhile_prefix _ _).subset hx)

/-- Blanks at the end make no difference. -/
theorem trimmed_blanks (s : Path) (n : Nat) :
    trimmed (s ++ List.replicate n blank) = trimmed s := by
  induction n with
  | zero => rw [replicate_zero, append_nil]
  | succ n ih =>
    rw [replicate_succ', ← append_assoc, trimmed, rdropWhile_concat_pos _ _ _ rfl]
    exact ih

/-! ## 3. The loop -/

/-- The bytes from place `i` on replaced by `s`. -/
def placed (fcbname : Path) (i : Nat) (s : Path) : Path :=
  fcbname.take i ++ s ++ fcbname.drop (i + s.length)

theorem convertLoop_plain (hs : Plain s) : ∀ {rest : Path} {i : Nat} {fcbname : Path},
    fcbname.length = 11 → i + s.length ≤ 11 →
    convertLoop (s ++ rest) i fcbname = convertLoop rest (i + s.length) (placed fcbname i s) := by
  induction s with
  | nil =>
    intro rest i fcbname _ _
    simp [placed]
  | cons x s ih =>
    intro rest i fcbname hlen hi
    rw [length_cons] at hi
    obtain ⟨h1, h2, h3⟩ := hs x mem_cons_self
    have hlim : ¬ i ≥ FNAME_SIZE + FEXT_SIZE := by
      unfold FNAME_SIZE FEXT_SIZE
      omega
    rw [cons_append, convertLoop, if_neg hlim, if_neg h1, if_pos ⟨h3, h2⟩,
      ih (fun y hy => hs y (mem_cons_of_mem x hy)) (by rw [length_set, hlen]) (by omega)]
    have hplaced : placed (fcbname.set i x) (i + 1) s = placed fcbname i (x :: s) := by
      unfold placed
      rw [drop_set_of_lt (by omega), take_add_one, take_set_of_le (le_refl i),
        getElem?_set_self (by omega), length_cons, add_assoc, add_comm 1]
      simp
    congr 1
    rw [length_cons]
    omega

/-- A terminator, or the end of the component, stops it. -/
theorem convertLoop_stop (hx : x = 0 ∨ x = backslash) (rest : Path) (i : Nat)
    (fcbname : Path) : convertLoop (x :: rest) i fcbname = (fcbname, x :: rest) := by
  have hdot : x ≠ dot := by
    rintro rfl
    rcases hx with h | h <;> cases h
  have hnot : ¬ (x ≠ 0 ∧ x ≠ backslash) := fun h => hx.elim h.1 h.2
  rw [convertLoop, if_neg hdot, if_neg hnot, ite_self]

theorem take_filled {m : Nat} (hn : s.length ≤ n) (hm : n ≤ m) :
    (s ++ List.replicate (m - s.length) blank).take n =
      s ++ List.replicate (n - s.length) blank := by
  rw [take_append, take_of_length_le hn, take_replicate, min_eq_left (by omega)]

theorem drop_filled {m : Nat} (hn : s.length ≤ n) :
    (s ++ List.replicate (m - s.length) blank).drop n = List.replicate (m - n) blank := by
  rw [drop_append, drop_of_length_le hn, drop_replicate, nil_append]
  congr 1
  omega

/-- The 11 blanks with a name in front. -/
theorem placed_blanks (name : Path) :
    placed (List.replicate (FNAME_SIZE + FEXT_SIZE) blank) 0 name =
      name ++ List.replicate (11 - name.length) blank := by
  unfold placed
  rw [take_zero, nil_append, zero_add, drop_replicate]
  rfl

/-- A name without an extension. -/
theorem convert_name (hname : Plain name) (hlen : name.length ≤ 8) (hx : x = 0 ∨ x = backslash)
    (mem : Path) :
    convertNameSZToName83 (name ++ x :: mem) =
      (name ++ List.replicate (11 - name.length) blank, x :: mem) := by
  unfold convertNameSZToName83
  rw [convertLoop_plain hname (by rfl) (by omega), convertLoop_stop hx, placed_blanks]

/-- A name with an extension. -/
theorem convert_ext {ext : Path} (hname : Plain name) (hlen : name.length ≤ 8) (hext : Plain ext)
    (hlen' : ext.length ≤ 3) (hx : x = 0 ∨ x = backslash) (mem : Path) :
    convertNameSZToName83 (name ++ dot :: (ext ++ x :: mem)) =
      (name ++ List.replicate (8 - name.length) blank ++
        (ext ++ List.replicate (3 - ext.length) blank), x :: mem) := by
  unfold convertNameSZToName83
  have hlim : ¬ 0 + name.length ≥ FNAME_SIZE + FEXT_SIZE := by
    unfold FNAME_SIZE FEXT_SIZE
    omega
  rw [convertLoop_plain hname (by rfl) (by omega), placed_blanks, convertLoop, if_neg hlim, if_pos rfl,
    convertLoop_plain hext ?_ ?_, convertLoop_stop hx, placed, FNAME_SIZE,
    take_filled hlen (by decide), drop_filled (by omega), append_assoc]
  · rw [show 11 - (8 + ext.length) = 3 - ext.length by omega]
  · rw [length_append, length_replicate]
    omega
  · unfold FNAME_SIZE
    omega

/-! ## 4. Round trips -/

/-- **From the directory and back.** -/
theorem name83_back (hlen : name.length = 11) (hplain : Plain name) (mem : Path) :
    convertNameSZToName83 (convertName83ToNameSZ name ++ 0 :: mem) = (name, 0 :: mem) := by
  have hname : Plain (name.take 8) := fun x hx => hplain x (take_subset 8 name hx)
  have hext : Plain (name.drop 8) := fun x hx => hplain x (drop_subset 8 name hx)
  have hlen8 : (name.take 8).length = 8 := by
    rw [length_take, hlen]
    rfl
  have hlen3 : (name.drop 8).length = 3 := by
    rw [length_drop, hlen]
  have hle8 := trimmed_length_le (name.take 8)
  have hle3 := trimmed_length_le (name.drop 8)
  rw [hlen8] at hle8
  rw [hlen3] at hle3
  have hback8 := trimmed_append_blanks (name.take 8)
  have hback3 := trimmed_append_blanks (name.drop 8)
  rw [hlen8] at hback8
  rw [hlen3] at hback3
  have hdot : (name.head? == some dot) = false := by
    cases name with
    | nil => rfl
    | cons x name => simpa using (hplain x mem_cons_self).1
  unfold convertName83ToNameSZ
  simp only [hdot, Bool.not_false, Bool.true_and, FNAME_SIZE, bne_iff_ne, ite_not]
  by_cases hnone : trimmed (name.drop 8) = []
  · rw [if_pos hnone, convert_name hname.trimmed hle8 (.inl rfl)]
    rw [hnone, nil_append] at hback3
    have hsplit : 11 - (trimmed (name.take 8)).length = 8 - (trimmed (name.take 8)).length + 3 := by
      omega
    rw [hsplit, replicate_add, ← append_assoc, hback8]
    rw [length_nil, Nat.sub_zero] at hback3
    rw [hback3, take_append_drop]
  · rw [if_neg hnone, append_assoc, cons_append,
      convert_ext hname.trimmed hle8 hext.trimmed hle3 (.inl rfl), hback8, hback3, take_append_drop]

/-- A component without blanks at the ends of its two parts, and without a dot that stands alone. -/
def stripped (c : Path) : Path :=
  let ext := trimmed (c.dropWhile (· != dot)).tail
  trimmed (c.takeWhile (· != dot)) ++ if ext = [] then [] else dot :: ext

theorem nameChar_plain (h : nameChar x = true) : x ≠ dot ∧ x ≠ backslash ∧ x ≠ 0 := by
  refine ⟨(nameChar_iff.mp h).2.2.1, nameChar_ne_backslash h, ?_⟩
  rintro rfl
  cases h

theorem Piece.plain (h : Piece n s) : Plain s :=
  fun x hx => nameChar_plain (all_eq_true.mp h.2.2 x hx)

theorem takeWhile_name {rest : Path} (h : Plain name) :
    (name ++ dot :: rest).takeWhile (· != dot) = name := by
  rw [takeWhile_append_of_pos fun x hx => by simpa using (h x hx).1]
  simp

theorem dropWhile_name {rest : Path} (h : Plain name) :
    (name ++ dot :: rest).dropWhile (· != dot) = dot :: rest := by
  rw [dropWhile_append_of_pos fun x hx => by simpa using (h x hx).1]
  simp

/-- What the entry of a name says. -/
theorem name83_of_parts {ext : Path} (hne : name ≠ []) (hname : Plain name)
    (hlen : name.length ≤ 8) :
    convertName83ToNameSZ (name ++ List.replicate (8 - name.length) blank ++
        (ext ++ List.replicate (3 - ext.length) blank)) =
      trimmed name ++ if trimmed ext = [] then [] else dot :: trimmed ext := by
  have h8 : (name ++ List.replicate (8 - name.length) blank).length = 8 := by
    rw [length_append, length_replicate]
    omega
  have hhead : ((name ++ List.replicate (8 - name.length) blank ++
      (ext ++ List.replicate (3 - ext.length) blank)).head? == some dot) = false := by
    cases name with
    | nil => exact absurd rfl hne
    | cons x name => simpa using (hname x mem_cons_self).1
  unfold convertName83ToNameSZ
  simp only [hhead, FNAME_SIZE, take_left' h8, drop_left' h8, trimmed_blanks,
    Bool.not_false, Bool.true_and, bne_iff_ne, ite_not]
  split
  · rw [append_nil]
  · rfl

/-- **From a component and back.** -/
theorem component_back {c : Path} (h : Name83 c) (hx : x = 0 ∨ x = backslash) (mem : Path) :
    (convertNameSZToName83 (c ++ x :: mem)).2 = x :: mem ∧
      convertName83ToNameSZ (convertNameSZToName83 (c ++ x :: mem)).1 = stripped c := by
  obtain ⟨name, ext, rfl, hname, hext⟩ := h
  have hplain := Piece.plain hname
  have hlen : name.length ≤ 8 := hname.2.1
  rcases hext with rfl | ⟨e, rfl, he⟩
  · have hall : ∀ y ∈ name, (y != dot) = true := fun y hy => by simpa using (hplain y hy).1
    rw [append_nil, convert_name hplain hlen hx]
    refine ⟨rfl, ?_⟩
    have hparts := @name83_of_parts name [] hname.1 hplain hlen
    have hsplit : 11 - name.length = 8 - name.length + 3 := by omega
    rw [hsplit, replicate_add, ← append_assoc]
    refine hparts.trans ?_
    unfold stripped
    rw [takeWhile_eq_self_iff.mpr hall, dropWhile_eq_nil_iff.mpr hall]
    rfl
  · have hlen' : e.length ≤ 3 := he.2.1
    rw [show Kernel.Truename.dot = dot from rfl, append_assoc, cons_append,
      convert_ext hplain hlen (Piece.plain he) hlen' hx]
    refine ⟨rfl, (name83_of_parts hname.1 hplain hlen).trans ?_⟩
    unfold stripped
    rw [takeWhile_name hplain, dropWhile_name hplain]
    rfl

/-- **8.3 names go round both ways**: the 11 bytes of a directory entry come back, and of a component
in 8.3 form, as `truename` makes them, all but blanks at the end of a part and a dot that is left
alone. -/
theorem names83_round_trip {name c : Path} (hlen : name.length = 11) (hplain : Plain name)
    (hc : Name83 c) {x : UInt8} (hx : x = 0 ∨ x = backslash) (mem : Path) :
    convertNameSZToName83 (convertName83ToNameSZ name ++ 0 :: mem) = (name, 0 :: mem) ∧
      (convertNameSZToName83 (c ++ x :: mem)).2 = x :: mem ∧
      convertName83ToNameSZ (convertNameSZToName83 (c ++ x :: mem)).1 = stripped c :=
  ⟨name83_back hlen hplain mem, component_back hc hx mem⟩

/-- `READ ME` with blanks behind it and no extension, and the component `A .B`. -/
def readme : Path := [0x52, 0x45, 0x41, 0x44, 0x20, 0x4d, 0x45, 0x20, 0x20, 0x20, 0x20]

def blankInside : Path := [0x41, 0x20, 0x2e, 0x42]

theorem blankInside_name83 : Name83 blankInside :=
  ⟨[0x41, 0x20], [0x2e, 0x42], rfl, ⟨by decide, by decide, by decide⟩,
    .inr ⟨[0x42], rfl, by decide, by decide, by decide⟩⟩

theorem readme_plain : Plain readme := fun x hx => of_decide_eq_true (all_eq_true.mp
  (show readme.all (fun x => decide (x ≠ dot ∧ x ≠ backslash ∧ x ≠ 0)) = true from rfl) x hx)

theorem names83_readme :
    convertNameSZToName83 (convertName83ToNameSZ readme ++ [0]) = (readme, [0]) ∧
      convertName83ToNameSZ readme = readme.take 7 ∧
      convertName83ToNameSZ (convertNameSZToName83 (blankInside ++ [0])).1 = [0x41, 0x2e, 0x42] := by
  have h := @names83_round_trip readme blankInside rfl readme_plain
    blankInside_name83 0 (.inl rfl) []
  exact ⟨h.1, by decide, h.2.2.trans (by decide)⟩

/-- **A dot that does not come back.**  `truename` takes `A. ` for a component; on the way through a
directory entry its extension of one blank is lost, and the dot with it. -/
theorem blank_extension_lost :
    component [0x41, 0x2e, 0x20] [0x43, 0x3a, 0x5c] FNAME_SIZE false false =
        .ok ([], [0x43, 0x3a, 0x5c, 0x41, 0x2e, 0x20], false) ∧
      convertName83ToNameSZ (convertNameSZToName83 [0x41, 0x2e, 0x20, 0]).1 = [0x41] ∧
      [0x41] ≠ trimmed [0x41] ++ dot :: trimmed [0x20] := by
  decide

end SdcBoot.Dir.Names
