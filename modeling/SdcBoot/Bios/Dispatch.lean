/-
# Which procedure an interrupt 14h calls

`int14_entry` computes an address in the table of the commands from AH, compares it with the end of
the table and calls through the word it finds there.  `Dispatches` says what that is for.

The comparison lets one word too many through: `jb` is taken when `cmdmax` is below the address, so
the word at `cmdmax` itself is called.  And `and $0xfe` after a shift by seven masks the top bit of
AH.
-/
import SdcBoot.Bios.Int14

namespace SdcBoot.Bios

open Lib.Word List

/-! ## 1. What the procedures leave alone -/

variable (img : Image) (ports : Ports)

/-- Whatever the UART answers, the three procedures give everything but AX back. -/
theorem int14Stat_returns (m : Machine) : ∃ evs, Returns m (int14Stat ports m) evs := by
  obtain ⟨lcr, line, modem, -, heq⟩ := int14Stat_eq ports m
  refine ⟨statEvents m.dx lcr line modem, ?_⟩
  rw [heq]
  exact ⟨⟨rfl, rfl, rfl, rfl, rfl, rfl, rfl, rfl⟩, rfl, calls_stat ..⟩

theorem poll_goes (bit : UInt8) (rounds : Nat) (m : Machine) :
    ∃ evs, Goes m (poll ports bit rounds m).2 evs ∧ calls evs = [] := by
  induction rounds generalizing m with
  | zero => exact ⟨[], ⟨rfl, rfl, rfl, rfl, rfl, rfl, rfl, (append_nil _).symm⟩, rfl⟩
  | succ rounds ih =>
    obtain ⟨evs, ⟨hgoes, -, hcall⟩⟩ := int14Stat_returns ports m
    rw [poll]
    by_cases hbit : (int14Stat ports m).ah &&& bit ≠ 0
    · simp only [if_pos hbit]
      exact ⟨evs, hgoes, hcall⟩
    · simp only [if_neg hbit]
      obtain ⟨evs', hgoes', hcall'⟩ :=
        ih { int14Stat ports m with cx := (int14Stat ports m).cx - 1 }
      refine ⟨evs ++ evs', hgoes.trans hgoes'.from_cx, ?_⟩
      rw [calls_append, hcall, hcall']
      rfl

theorem sendByte_goes (m : Machine) : ∃ evs, Goes m (sendByte ports m) evs ∧ calls evs = [] := by
  obtain ⟨evs, ⟨hgoes, -, hcall⟩⟩ := int14Stat_returns ports ((m.setAl m.bl).outAl)
  refine ⟨.outb m.dx (m.setAl m.bl).al :: evs, ⟨hgoes.bx, hgoes.dx, hgoes.si, hgoes.di, hgoes.ds,
    hgoes.cs, hgoes.stack, hgoes.log.trans ?_⟩, hcall⟩
  change m.log ++ [Event.outb m.dx _] ++ evs = _
  rw [append_assoc]
  rfl

theorem takeByte_goes (m : Machine) :
    ∃ bx evs, Goes { m with bx := bx } (takeByte ports m) evs ∧ calls evs = [] := by
  set m1 : Machine := { m.inAl ports with bx := (m.inAl ports).ax } with hm1
  obtain ⟨evs, ⟨hgoes, -, hcall⟩⟩ := int14Stat_returns ports m1
  refine ⟨m1.bx, .inb m.dx (ports m.log m.dx) :: evs, ⟨hgoes.bx, hgoes.dx, hgoes.si, hgoes.di,
    hgoes.ds, hgoes.cs, hgoes.stack, hgoes.log.trans ?_⟩, hcall⟩
  change m.log ++ [Event.inb m.dx _] ++ evs = _
  rw [append_assoc]
  rfl

theorem int14Xmit_returns (m : Machine) : ∃ evs, Returns m (int14Xmit ports m) evs := by
  set m0 : Machine := { m with bx := m.ax, stack := m.cx :: m.bx :: m.stack } with hm0
  obtain ⟨evs, hgoes, hcall⟩ :=
    poll_goes ports RF_8250_LSR_THRE ((TIMEOUT - 1).toNat + 1) { m0 with cx := TIMEOUT }
  change Goes _ (pollLoop ports RF_8250_LSR_THRE { m0 with cx := TIMEOUT }).2 evs at hgoes
  generalize hpoll : pollLoop ports RF_8250_LSR_THRE { m0 with cx := TIMEOUT } = polled at *
  rw [int14Xmit_eq hm0 hpoll]
  have hfrom : Goes m0 polled.2 evs := hgoes.from_cx
  split
  · obtain ⟨evs', hgoes', hcall'⟩ := sendByte_goes ports polled.2
    refine ⟨evs ++ evs', (hfrom.trans hgoes').popped ?_⟩
    rw [calls_append, hcall, hcall']
    rfl
  · have hset : Goes m0 (polled.2.setAh (polled.2.ah ||| 0x80)) evs :=
      ⟨hfrom.bx, hfrom.dx, hfrom.si, hfrom.di, hfrom.ds, hfrom.cs, hfrom.stack, hfrom.log⟩
    exact ⟨evs, hset.popped hcall⟩

theorem int14Recv_returns (m : Machine) : ∃ evs, Returns m (int14Recv ports m) evs := by
  set m0 : Machine := { m with stack := m.cx :: m.bx :: m.stack } with hm0
  obtain ⟨evs, hgoes, hcall⟩ :=
    poll_goes ports RF_8250_LSR_RDY ((TIMEOUT - 1).toNat + 1) { m0 with cx := TIMEOUT }
  change Goes _ (pollLoop ports RF_8250_LSR_RDY { m0 with cx := TIMEOUT }).2 evs at hgoes
  generalize hpoll : pollLoop ports RF_8250_LSR_RDY { m0 with cx := TIMEOUT } = polled at *
  rw [int14Recv_eq hm0 hpoll]
  have hfrom : Goes m0 polled.2 evs := hgoes.from_cx
  split
  · obtain ⟨bx, evs', hgoes', hcall'⟩ := takeByte_goes ports polled.2
    have hfirst : Goes { m0 with bx := bx } { polled.2 with bx := bx } evs :=
      ⟨rfl, hfrom.dx, hfrom.si, hfrom.di, hfrom.ds, hfrom.cs, hfrom.stack, hfrom.log⟩
    refine ⟨evs ++ evs', (hfirst.trans hgoes').popped ?_⟩
    rw [calls_append, hcall, hcall']
    rfl
  · have hset : Goes m0 ((polled.2.setAh (polled.2.ah ||| 0x80)).setAl 0x0) evs :=
      ⟨hfrom.bx, hfrom.dx, hfrom.si, hfrom.di, hfrom.ds, hfrom.cs, hfrom.stack, hfrom.log⟩
    exact ⟨evs, hset.popped hcall⟩

/-! ## 2. What the dispatcher is for -/

/-- The procedure that a command is for. -/
def Image.handler (img : Image) (ah : UInt8) : UInt16 :=
  if ah = 1 then img.xmit else if ah = 2 then img.recv else img.stat

/-- The word of the BIOS data area that has the base port. -/
def slot (mem : Memory) (dx : UInt16) : UInt16 := mem BDA_SEG (dx <<< 1)

/-- **What the interrupt is for**: it returns, with all registers but AX and with the stack as they
were; without a port or a command there is an error and nothing goes over the bus, and otherwise the
one procedure for the command has been called. -/
def Dispatches (img : Image) (mem : Memory) (m : Machine) (exit : Exit) : Prop :=
  ∃ m' evs, exit = .iret m' ∧ Goes m m' evs ∧ m'.cx = m.cx ∧
    (4 ≤ m.ah.toNat ∨ slot mem m.dx = 0 → m'.ax = ERROR_RETURN ∧ evs = []) ∧
    (m.ah.toNat < 4 ∧ slot mem m.dx ≠ 0 → calls evs = [img.handler m.ah])

/-! ## 3. The table -/

/-- The offset into the table. -/
def command (ax : UInt16) : UInt16 := (ax >>> 7) &&& 0xfe

set_option maxRecDepth 8192 in
theorem command_toNat (ax : UInt16) : (command ax).toNat = 2 * ((hiByte ax).toNat % 128) := by
  have hall : ∀ y < 512, y &&& 254 = 2 * (y / 2 % 128) := by decide
  have hlt := ax.toNat_lt
  have hshift : (ax >>> 7).toNat = ax.toNat / 128 := by
    rw [UInt16.toNat_shiftRight]
    exact Nat.shiftRight_eq_div_pow _ 7
  unfold command
  rw [UInt16.toNat_and, hshift, hiByte_toNat]
  refine (hall _ (by omega)).trans ?_
  omega

/-- The check takes a command for valid when it ends with the table, one too far. -/
theorem beyond_iff (ax : UInt16) :
    img.cmdmax < img.cmdtbl + command ax ↔ 4 < (hiByte ax).toNat % 128 := by
  have hroom := img.room
  have hcmd := command_toNat ax
  have h8 : (8 : UInt16).toNat = 8 := rfl
  unfold Image.cmdmax
  rw [UInt16.lt_iff_toNat_lt, UInt16.toNat_add, UInt16.toNat_add, h8,
    Nat.mod_eq_of_lt (by omega), Nat.mod_eq_of_lt (by omega)]
  omega

/-! ## 4. The entry -/

/-- The pushes of the entry. -/
def saved (m : Machine) : List UInt16 := m.ds :: m.di :: m.si :: m.dx :: m.cx :: m.bx :: m.stack

theorem enter_eq (m : Machine) : enter img m = { m with
    bx := img.cmdtbl + command m.ax, cx := img.cmdmax, si := command m.ax, ds := m.cs
    stack := saved m } := by
  unfold enter Machine.popDs Machine.pop Machine.push
  rfl

theorem fetchPort_eq (mem : Memory) (m : Machine) : fetchPort mem m = { m with
    dx := slot mem m.dx, si := m.dx <<< 1 } := by
  unfold fetchPort Machine.popDs Machine.pop Machine.push
  rfl

theorem int14Entry_eq (mem : Memory) (m : Machine) :
    int14Entry img ports mem m =
      if img.cmdmax < img.cmdtbl + command m.ax then
        restore { enter img m with ax := ERROR_RETURN }
      else if slot mem m.dx = 0 then
        restore { fetchPort mem (enter img m) with ax := ERROR_RETURN }
      else callSi img ports { fetchPort mem (enter img m) with
        si := mem m.cs (img.cmdtbl + command m.ax) } := by
  unfold int14Entry
  dsimp only
  rw [fetchPort_eq, enter_eq]

variable {m : Machine} {v : UInt16} {st : List UInt16}

section

variable (h : m.stack = v :: st)
include h

theorem popBx_eq :
    m.popBx = { m with bx := v, stack := st } := by simp [Machine.popBx, Machine.pop, h]

theorem popCx_eq :
    m.popCx = { m with cx := v, stack := st } := by simp [Machine.popCx, Machine.pop, h]

theorem popDx_eq :
    m.popDx = { m with dx := v, stack := st } := by simp [Machine.popDx, Machine.pop, h]

theorem popSi_eq :
    m.popSi = { m with si := v, stack := st } := by simp [Machine.popSi, Machine.pop, h]

theorem popDi_eq :
    m.popDi = { m with di := v, stack := st } := by simp [Machine.popDi, Machine.pop, h]

theorem popDs_eq :
    m.popDs = { m with ds := v, stack := st } := by simp [Machine.popDs, Machine.pop, h]

end

/-- Everything that was pushed comes back. -/
theorem restore_goes {m m1 : Machine} {evs : List Event} (hstack : m1.stack = saved m)
    (hcs : m1.cs = m.cs) (hlog : m1.log = m.log ++ evs) :
    ∃ m', restore m1 = .iret m' ∧ Goes m m' evs ∧ m'.cx = m.cx ∧ m'.ax = m1.ax := by
  unfold restore
  rw [popDs_eq hstack, popDi_eq rfl, popSi_eq rfl, popDx_eq rfl, popCx_eq rfl, popBx_eq rfl]
  exact ⟨_, rfl, ⟨rfl, rfl, rfl, rfl, rfl, hcs, rfl, hlog⟩, rfl, rfl⟩

/-- A call of one of the procedures. -/
theorem callSi_goes (img : Image) (ports : Ports) {m m1 : Machine} (hstack : m1.stack = saved m)
    (hcs : m1.cs = m.cs) (hlog : m1.log = m.log)
    (htarget : m1.si = img.stat ∨ m1.si = img.xmit ∨ m1.si = img.recv) :
    ∃ m' evs, callSi img ports m1 = .iret m' ∧ Goes m m' (.call m1.si :: evs) ∧ m'.cx = m.cx ∧
      calls evs = [] := by
  set called : Machine := { m1 with log := m1.log ++ [.call m1.si] } with hcalled
  have hrun : ∀ {m2 : Machine} {evs : List Event}, Returns called m2 evs →
      ∃ m' evs, restore m2 = .iret m' ∧ Goes m m' (.call m1.si :: evs) ∧ m'.cx = m.cx ∧
        calls evs = [] := by
    intro m2 evs h
    have hlog2 : m2.log = m.log ++ .call m1.si :: evs := by
      rw [h.goes.log, hcalled, hlog, append_assoc]
      rfl
    obtain ⟨m', hm', hgoes, hcx, -⟩ := restore_goes (h.goes.stack.trans hstack)
      (h.goes.cs.trans hcs) hlog2
    exact ⟨m', evs, hm', hgoes, hcx, h.call⟩
  obtain ⟨e1, h1⟩ := int14Stat_returns ports called
  obtain ⟨e2, h2⟩ := int14Xmit_returns ports called
  obtain ⟨e3, h3⟩ := int14Recv_returns ports called
  unfold callSi
  dsimp only
  split
  · exact hrun h1
  · split
    · exact hrun h2
    · split
      · exact hrun h3
      · rename_i hn1 hn2 hn3
        exact absurd htarget (by tauto)

/-- The table, as far as the check lets commands through. -/
theorem Image.Loaded.target {img : Image} {mem : Memory} {cs : UInt16} (h : img.Loaded mem cs)
    {ax : UInt16} (hk : (hiByte ax).toNat % 128 ≤ 4) :
    mem cs (img.cmdtbl + command ax) =
      if (hiByte ax).toNat % 128 = 4 then 0
      else if (hiByte ax).toNat % 128 = 1 then img.xmit
      else if (hiByte ax).toNat % 128 = 2 then img.recv
      else img.stat := by
  have hcmd : command ax = UInt16.ofNat (2 * ((hiByte ax).toNat % 128)) := by
    rw [← command_toNat, UInt16.ofNat_toNat]
  rw [hcmd]
  generalize (hiByte ax).toNat % 128 = k at hk
  match k, hk with
  | 0, _ => exact (congrArg (mem cs) (UInt16.add_zero _)).trans h.init
  | 1, _ => exact h.send
  | 2, _ => exact h.receive
  | 3, _ => exact h.status
  | 4, _ => exact h.max

/-- **The dispatcher is right** if and only if the port does not exist, or AH is one of the four
commands, or what is left of AH without its top bit is above 4. -/
theorem int14_dispatches_iff {img : Image} {mem : Memory} {m : Machine} (h : img.Loaded mem m.cs)
    (ports : Ports) :
    Dispatches img mem m (int14Entry img ports mem m) ↔
      slot mem m.dx = 0 ∨ m.ah.toNat < 4 ∨ 4 < m.ah.toNat % 128 := by
  rw [int14Entry_eq]
  by_cases hbeyond : img.cmdmax < img.cmdtbl + command m.ax
  · have h4 : 4 < m.ah.toNat % 128 := (beyond_iff img m.ax).mp hbeyond
    rw [if_pos hbeyond]
    refine iff_of_true ?_ (.inr (.inr h4))
    rw [enter_eq]
    obtain ⟨m', hm', hgoes, hcx, hax⟩ := @restore_goes m { m with
          ax := ERROR_RETURN, bx := img.cmdtbl + command m.ax, cx := img.cmdmax
          si := command m.ax, ds := m.cs, stack := saved m } [] rfl rfl (List.append_nil _).symm
    exact ⟨m', [], hm', hgoes, hcx, fun _ => ⟨hax, rfl⟩, fun hlt => absurd hlt.1 (by omega)⟩
  have hk : m.ah.toNat % 128 ≤ 4 := Nat.le_of_not_lt fun hlt => hbeyond ((beyond_iff img m.ax).mpr hlt)
  rw [if_neg hbeyond]
  by_cases hslot : slot mem m.dx = 0
  · rw [if_pos hslot, fetchPort_eq, enter_eq]
    refine iff_of_true ?_ (.inl hslot)
    obtain ⟨m', hm', hgoes, hcx, hax⟩ := @restore_goes m { m with
          ax := ERROR_RETURN, bx := img.cmdtbl + command m.ax, cx := img.cmdmax
          dx := slot mem m.dx, si := m.dx <<< 1, ds := m.cs, stack := saved m } [] rfl rfl
        (List.append_nil _).symm
    exact ⟨m', [], hm', hgoes, hcx, fun _ => ⟨hax, rfl⟩, fun hne => absurd hslot hne.2⟩
  rw [if_neg hslot, fetchPort_eq, enter_eq]
  have htarget : mem m.cs (img.cmdtbl + command m.ax) =
      if m.ah.toNat % 128 = 4 then 0 else if m.ah.toNat % 128 = 1 then img.xmit
        else if m.ah.toNat % 128 = 2 then img.recv else img.stat := h.target hk
  by_cases h4 : m.ah.toNat % 128 = 4
  · rw [htarget, if_pos h4]
    refine iff_of_false ?_ (fun hor => hor.elim hslot (by omega))
    rintro ⟨m', evs, hexit, -⟩
    unfold callSi at hexit
    dsimp only at hexit
    rw [if_neg img.stat_ne.symm, if_neg img.xmit_ne.symm, if_neg img.recv_ne.symm] at hexit
    cases hexit
  rw [if_neg h4] at htarget
  obtain ⟨m', evs, hexit, hgoes, hcx, hcall⟩ := @callSi_goes img ports m { m with
        bx := img.cmdtbl + command m.ax, cx := img.cmdmax, dx := slot mem m.dx
        si := mem m.cs (img.cmdtbl + command m.ax), ds := m.cs, stack := saved m } rfl rfl rfl (by
      change mem m.cs _ = _ ∨ mem m.cs _ = _ ∨ mem m.cs _ = _
      rw [htarget]
      split
      · exact .inr (.inl rfl)
      · split
        · exact .inr (.inr rfl)
        · exact .inl rfl)
  rw [hexit]
  constructor
  · rintro ⟨m1, evs1, hm1, hgoes1, -, herr, -⟩
    right
    left
    by_contra hge
    obtain ⟨-, hnone⟩ := herr (.inl (by omega))
    have hlog := hgoes.log
    rw [Exit.iret.inj hm1, hgoes1.log, hnone] at hlog
    have := congrArg List.length hlog
    simp at this
  · intro hcond
    have hlt : m.ah.toNat < 4 := (hcond.resolve_left hslot).elim id (by omega)
    refine ⟨m', _, rfl, hgoes, hcx, fun hor => absurd (hor.resolve_right hslot) (by omega),
      fun _ => ?_⟩
    change calls ([Event.call _] ++ evs) = _
    rw [calls_append, hcall]
    change [mem m.cs _] = [img.handler m.ah]
    rw [htarget, Image.handler, Nat.mod_eq_of_lt (by omega)]
    congr 1
    have h1 : m.ah.toNat = 1 ↔ m.ah = 1 := UInt8.toNat_inj (b := 1)
    have h2 : m.ah.toNat = 2 ↔ m.ah = 2 := UInt8.toNat_inj (b := 2)
    simp only [h1, h2]

/-- The image and the memory of a machine with one serial port. -/
def comImage : Image :=
  ⟨0x16b, 0x175, 0x18a, 0x1b5, by decide, by decide, by decide, by decide, by decide, by decide,
    by decide⟩

def comMemory : Memory := fun seg off =>
  if seg = BDA_SEG then if off = 0 then 0x3f8 else 0
  else if off = 0x16d then comImage.xmit
  else if off = 0x16f then comImage.recv
  else if off = 0x173 then 0
  else comImage.stat

theorem comImage_loaded : comImage.Loaded comMemory 0x1000 := ⟨rfl, rfl, rfl, rfl, rfl⟩

/-- A call of the interrupt with AX, for port 0. -/
def caller (ax : UInt16) : Machine := ⟨ax, 1, 2, 0, 3, 4, 5, 0x1000, [0x100, 0x2000, 0xf202], []⟩

theorem int14_dispatches_status :
    Dispatches comImage comMemory (caller 0x0300)
      (int14Entry comImage (fun _ _ => 0x60) comMemory (caller 0x0300)) :=
  (int14_dispatches_iff comImage_loaded fun _ _ => 0x60).mpr (.inr (.inl (by decide)))

/-- **Command 4 is called through the word behind the table**, which is zero: control goes to the
PSP.  And command 80h is taken for command 0, because its top bit is masked. -/
theorem int14_dispatches_wild :
    (∃ m, int14Entry comImage (fun _ _ => 0x60) comMemory (caller 0x0400) = .lost 0 m) ∧
      ¬ Dispatches comImage comMemory (caller 0x0400)
        (int14Entry comImage (fun _ _ => 0x60) comMemory (caller 0x0400)) ∧
      ¬ Dispatches comImage comMemory (caller 0x8000)
        (int14Entry comImage (fun _ _ => 0x60) comMemory (caller 0x8000)) := by
  refine ⟨⟨_, rfl⟩, ?_, ?_⟩
  · rintro ⟨m', evs, hexit, -⟩
    cases hexit
  · rintro ⟨m', evs, hexit, -, -, herr, -⟩
    obtain ⟨hax, -⟩ := herr (.inl (by decide))
    rw [← Exit.iret.inj hexit] at hax
    cases hax

end SdcBoot.Bios
