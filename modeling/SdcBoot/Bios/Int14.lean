/-
# Serial ports through interrupt 14h

`src/int14.S` stays resident and takes the place of the BIOS in serial I/O: `int14_entry` looks the
command in AH up in a table and calls one of three procedures, which talk to a UART over its ports.

A port is read by asking `Ports`, which may answer anything and knows all that went before; `log` is
what went over the bus, with the calls through the table.  A procedure that returns is a function
on machines here; `stack` holds what is pushed and popped.
-/
import SdcBoot.Lib.Word

namespace SdcBoot.Bios

open Lib.Word List

/-! ## 1. The machine -/

inductive Event where
  | inb (port : UInt16) (value : UInt8)
  | outb (port : UInt16) (value : UInt8)
  /-- A near call through the table. -/
  | call (target : UInt16)
  deriving DecidableEq

structure Machine where
  ax : UInt16
  bx : UInt16
  cx : UInt16
  dx : UInt16
  si : UInt16
  di : UInt16
  ds : UInt16
  cs : UInt16
  stack : List UInt16
  log : List Event

/-- What is read from a port after everything in the log. -/
abbrev Ports : Type := List Event → UInt16 → UInt8

/-- The words of memory, by segment and offset. -/
abbrev Memory : Type := UInt16 → UInt16 → UInt16

namespace Machine

def al (m : Machine) : UInt8 := loByte m.ax

def ah (m : Machine) : UInt8 := hiByte m.ax

def bl (m : Machine) : UInt8 := loByte m.bx

def setAl (m : Machine) (v : UInt8) : Machine := { m with ax := word v m.ah }

def setAh (m : Machine) (v : UInt8) : Machine := { m with ax := word m.al v }

def push (m : Machine) (v : UInt16) : Machine := { m with stack := v :: m.stack }

/-- The word on top, and the machine without it. -/
def pop (m : Machine) : UInt16 × Machine :=
  (m.stack.headD 0, { m with stack := m.stack.tail })

def popBx (m : Machine) : Machine := { m.pop.2 with bx := m.pop.1 }

def popCx (m : Machine) : Machine := { m.pop.2 with cx := m.pop.1 }

def popDx (m : Machine) : Machine := { m.pop.2 with dx := m.pop.1 }

def popSi (m : Machine) : Machine := { m.pop.2 with si := m.pop.1 }

def popDi (m : Machine) : Machine := { m.pop.2 with di := m.pop.1 }

def popDs (m : Machine) : Machine := { m.pop.2 with ds := m.pop.1 }

/-- `in %dx, %al` -/
def inAl (ports : Ports) (m : Machine) : Machine :=
  { m.setAl (ports m.log m.dx) with log := m.log ++ [.inb m.dx (ports m.log m.dx)] }

/-- `out %al, %dx` -/
def outAl (m : Machine) : Machine := { m with log := m.log ++ [.outb m.dx m.al] }

end Machine

def ERROR_RETURN : UInt16 := 0x8000
def BDA_SEG : UInt16 := 0x40
def R_8250_LCR : UInt16 := 0x3
def R_8250_LSR : UInt16 := 0x5
def R_8250_MSR : UInt16 := 0x6
def RF_8250_LSR_RDY : UInt8 := 0x01
def RF_8250_LSR_THRE : UInt8 := 0x20
def TIMEOUT : UInt16 := 0xffff

/-! ## 2. The procedures -/

/-- `int14_stat`: the line and the modem status. -/
def int14Stat (ports : Ports) (m : Machine) : Machine :=
  let m := m.push m.dx
  let m := { m with dx := m.dx + R_8250_LCR }
  let m := m.inAl ports
  let m := m.setAl (m.al &&& 0x7f)
  let m := m.outAl
  let m := { m with dx := m.dx + 2 }
  let m := { m with ax := 0 }
  let m := m.inAl ports
  let m := { m with ax := m.ax <<< 8 }
  let m := { m with dx := m.dx + 1 }
  let m := m.inAl ports
  m.popDx

/-- The loop of `int14_xmit` and `int14_recv`, which `loop` closes; whether a status had the bit. -/
def poll (ports : Ports) (bit : UInt8) : Nat → Machine → Bool × Machine
  | 0, m => (false, m)
  | rounds + 1, m =>
    let m := int14Stat ports m
    if m.ah &&& bit ≠ 0 then (true, m)
    else poll ports bit rounds { m with cx := m.cx - 1 }

/-- `loop` counts `cx` down until it is zero. -/
def pollLoop (ports : Ports) (bit : UInt8) (m : Machine) : Bool × Machine :=
  poll ports bit ((m.cx - 1).toNat + 1) m

/-- Label 2 of `int14_xmit`: the byte goes out. -/
def sendByte (ports : Ports) (m : Machine) : Machine :=
  let m := m.setAl m.bl
  let m := m.outAl
  let m := int14Stat ports m
  let m := m.setAl m.bl
  m.setAh (m.ah &&& 0x7f)

/-- `int14_xmit`: sends AL. -/
def int14Xmit (ports : Ports) (m : Machine) : Machine :=
  let m := m.push m.bx
  let m := { m with bx := m.ax }
  let m := m.push m.cx
  let (found, m) := pollLoop ports RF_8250_LSR_THRE { m with cx := TIMEOUT }
  let m := if found then sendByte ports m else m.setAh (m.ah ||| 0x80)
  m.popCx.popBx

/-- Label 2 of `int14_recv`: the byte comes in. -/
def takeByte (ports : Ports) (m : Machine) : Machine :=
  let m := m.inAl ports
  let m := { m with bx := m.ax }
  let m := int14Stat ports m
  let m := m.setAh (m.ah &&& 0x7f)
  m.setAl m.bl

/-- `int14_recv`: receives into AL. -/
def int14Recv (ports : Ports) (m : Machine) : Machine :=
  let m := m.push m.bx
  let m := m.push m.cx
  let (found, m) := pollLoop ports RF_8250_LSR_RDY { m with cx := TIMEOUT }
  let m := if found then takeByte ports m else (m.setAh (m.ah ||| 0x80)).setAl 0x0
  m.popCx.popBx

variable {m m0 m1 : Machine} {polled : Bool × Machine} {i : UInt16} {status : UInt8}
  {timeout : Prop} {start : Nat} {evs : List Event}

/-- `int14_xmit`, from the loop on. -/
theorem int14Xmit_eq {ports : Ports}
    (hm0 : m0 = { m with bx := m.ax, stack := m.cx :: m.bx :: m.stack })
    (hpoll : pollLoop ports RF_8250_LSR_THRE { m0 with cx := TIMEOUT } = polled) :
    int14Xmit ports m = (if polled.1 then sendByte ports polled.2
      else polled.2.setAh (polled.2.ah ||| 0x80)).popCx.popBx := by
  subst hm0 hpoll
  rfl

/-- `int14_recv`, from the loop on. -/
theorem int14Recv_eq {ports : Ports} (hm0 : m0 = { m with stack := m.cx :: m.bx :: m.stack })
    (hpoll : pollLoop ports RF_8250_LSR_RDY { m0 with cx := TIMEOUT } = polled) :
    int14Recv ports m = (if polled.1 then takeByte ports polled.2
      else (polled.2.setAh (polled.2.ah ||| 0x80)).setAl 0x0).popCx.popBx := by
  subst hm0 hpoll
  rfl

/-! ## 3. The entry -/

/-- Where the assembler puts the table and the procedures.  The first 256 bytes of the segment are
the PSP, and the whole is far smaller than a segment. -/
structure Image where
  cmdtbl : UInt16
  stat : UInt16
  xmit : UInt16
  recv : UInt16
  room : cmdtbl.toNat + 256 ≤ 65536
  stat_ne : stat ≠ 0
  xmit_ne : xmit ≠ 0
  recv_ne : recv ≠ 0
  stat_xmit : stat ≠ xmit
  stat_recv : stat ≠ recv
  xmit_recv : xmit ≠ recv

/-- Behind the four words of the table. -/
def Image.cmdmax (img : Image) : UInt16 := img.cmdtbl + 8

/-- The image is in memory at `CS`. -/
structure Image.Loaded (img : Image) (mem : Memory) (cs : UInt16) : Prop where
  init : mem cs img.cmdtbl = img.stat
  send : mem cs (img.cmdtbl + 2) = img.xmit
  receive : mem cs (img.cmdtbl + 4) = img.recv
  status : mem cs (img.cmdtbl + 6) = img.stat
  max : mem cs img.cmdmax = 0

/-- How an interrupt ends. -/
inductive Exit where
  | iret (m : Machine)
  /-- A call to an address that is none of the procedures. -/
  | lost (target : UInt16) (m : Machine)

/-- From label 2 on. -/
def restore (m : Machine) : Exit :=
  .iret m.popDs.popDi.popSi.popDx.popCx.popBx

/-- `callw *%si` -/
def callSi (img : Image) (ports : Ports) (m : Machine) : Exit :=
  let called := { m with log := m.log ++ [.call m.si] }
  if m.si = img.stat then restore (int14Stat ports called)
  else if m.si = img.xmit then restore (int14Xmit ports called)
  else if m.si = img.recv then restore (int14Recv ports called)
  else .lost m.si called

/-- `int14_entry` up to the check: the registers are saved, and `bx` is the address in the table. -/
def enter (img : Image) (m : Machine) : Machine :=
  let m := m.push m.bx
  let m := m.push m.cx
  let m := m.push m.dx
  let m := m.push m.si
  let m := m.push m.di
  let m := m.push m.ds
  let m := (m.push m.cs).popDs
  let m := { m with bx := img.cmdtbl, cx := img.cmdmax, si := m.ax }
  let m := { m with si := m.si >>> 7 }
  let m := { m with si := m.si &&& 0xfe }
  { m with bx := m.bx + m.si }

/-- The base port from the BIOS data area. -/
def fetchPort (mem : Memory) (m : Machine) : Machine :=
  let m := m.push m.ds
  let m := (m.push BDA_SEG).popDs
  let m := { m with dx := m.dx <<< 1 }
  let m := { m with si := m.dx }
  let m := { m with dx := mem m.ds m.si }
  m.popDs

/-- **`int14_entry`**. -/
def int14Entry (img : Image) (ports : Ports) (mem : Memory) (m : Machine) : Exit :=
  let m := enter img m
  if m.cx < m.bx then restore { m with ax := ERROR_RETURN }
  else
    let m := fetchPort mem m
    if m.dx = 0 then restore { m with ax := ERROR_RETURN }
    else callSi img ports { m with si := mem m.ds m.bx }

/-! ## 4. Reading the status -/

/-- The four accesses of `int14_stat`. -/
def statEvents (base : UInt16) (lcr line modem : UInt8) : List Event :=
  [.inb (base + R_8250_LCR) lcr, .outb (base + R_8250_LCR) (lcr &&& 0x7f),
    .inb (base + R_8250_LSR) line, .inb (base + R_8250_MSR) modem]

theorem lsr_port (base : UInt16) : base + R_8250_LCR + 2 = base + R_8250_LSR := by
  rw [UInt16.add_assoc]
  rfl

theorem msr_port (base : UInt16) : base + R_8250_LSR + 1 = base + R_8250_MSR := by
  rw [UInt16.add_assoc]
  rfl

/-- Only AX and the log change, and AH is the line status. -/
theorem int14Stat_eq (ports : Ports) (m : Machine) :
    ∃ lcr line modem, line = ports (m.log ++ [.inb (m.dx + R_8250_LCR) lcr,
        .outb (m.dx + R_8250_LCR) (lcr &&& 0x7f)]) (m.dx + R_8250_LSR) ∧
      int14Stat ports m = { m with
        ax := word modem line
        log := m.log ++ statEvents m.dx lcr line modem } := by
  set lcr := ports m.log (m.dx + R_8250_LCR) with hlcr
  set line := ports (m.log ++ [.inb (m.dx + R_8250_LCR) lcr, .outb (m.dx + R_8250_LCR) (lcr &&& 0x7f)])
    (m.dx + R_8250_LSR) with hline
  refine ⟨lcr, line, ports (m.log ++ [.inb (m.dx + R_8250_LCR) lcr,
    .outb (m.dx + R_8250_LCR) (lcr &&& 0x7f), .inb (m.dx + R_8250_LSR) line])
    (m.dx + R_8250_MSR), rfl, ?_⟩
  unfold int14Stat Machine.inAl Machine.outAl Machine.push Machine.popDx Machine.pop Machine.setAl
    Machine.al Machine.ah
  simp only [lsr_port, msr_port, loByte_word, headD_cons, tail_cons, shiftLeft_eight,
    hiByte_word, statEvents, append_assoc, cons_append, nil_append, ← hlcr, ← hline]

/-! ## 5. What went over the bus -/

/-- What was read from a port, in order. -/
def reads (port : UInt16) (log : List Event) : List UInt8 :=
  log.filterMap fun
    | .inb p v => if p = port then some v else none
    | _ => none

/-- What was written to a port, in order. -/
def writes (port : UInt16) (log : List Event) : List UInt8 :=
  log.filterMap fun
    | .outb p v => if p = port then some v else none
    | _ => none

/-- The calls through the table. -/
def calls (log : List Event) : List UInt16 :=
  log.filterMap fun
    | .call target => some target
    | _ => none

theorem reads_append (port : UInt16) (a b : List Event) :
    reads port (a ++ b) = reads port a ++ reads port b := filterMap_append

theorem writes_append (port : UInt16) (a b : List Event) :
    writes port (a ++ b) = writes port a ++ writes port b := filterMap_append

theorem reads_cons (port : UInt16) (v : UInt8) (evs : List Event) :
    reads port (.inb port v :: evs) = v :: reads port evs := by
  simp [reads]

theorem reads_cons_ne {port p : UInt16} (h : p ≠ port) (v : UInt8) (evs : List Event) :
    reads port (.inb p v :: evs) = reads port evs := by
  simp [reads, h]

theorem writes_cons (port : UInt16) (v : UInt8) (evs : List Event) :
    writes port (.outb port v :: evs) = v :: writes port evs := by
  simp [writes]

theorem calls_append (a b : List Event) : calls (a ++ b) = calls a ++ calls b :=
  filterMap_append

section

variable (base : UInt16)
include base

/-- The registers of a UART are different ports, wherever it is. -/
theorem port_ne {j : UInt16} (h : i ≠ j) : base + i ≠ base + j :=
  fun hij => h ((UInt16.add_right_inj base).mp hij)

theorem base_ne (h : i ≠ 0) : base + i ≠ base := by
  intro hij
  exact port_ne base h (hij.trans (UInt16.add_zero base).symm)

theorem reads_line_stat (lcr line modem : UInt8) :
    reads (base + R_8250_LSR) (statEvents base lcr line modem) = [line] := by
  have h1 : base + R_8250_LCR ≠ base + R_8250_LSR := port_ne base (by decide)
  have h2 : base + R_8250_MSR ≠ base + R_8250_LSR := port_ne base (by decide)
  simp [reads, statEvents, h1, h2]

theorem reads_data_stat (lcr line modem : UInt8) :
    reads base (statEvents base lcr line modem) = [] := by
  have h1 : base + R_8250_LCR ≠ base := base_ne base (by decide)
  have h2 : base + R_8250_LSR ≠ base := base_ne base (by decide)
  have h3 : base + R_8250_MSR ≠ base := base_ne base (by decide)
  simp [reads, statEvents, h1, h2, h3]

theorem writes_data_stat (lcr line modem : UInt8) :
    writes base (statEvents base lcr line modem) = [] := by
  have h1 : base + R_8250_LCR ≠ base := base_ne base (by decide)
  simp [writes, statEvents, h1]

theorem calls_stat (lcr line modem : UInt8) :
    calls (statEvents base lcr line modem) = [] := rfl

end

/-! ## 6. Polling -/

/-- A UART: the line statuses it shows one after the other, and whatever else is read. -/
structure Uart where
  line : Nat → UInt8
  other : Ports

/-- The line status comes from the stream. -/
def Uart.ports (u : Uart) (base : UInt16) : Ports := fun log port =>
  if port = base + R_8250_LSR then u.line (reads port log).length else u.other log port

/-- `n` polls have been made for a bit, and no more were needed, or there could be no more. -/
structure Uart.Polled (u : Uart) (bit : UInt8) (n : Nat) (found : Bool) : Prop where
  pos : 1 ≤ n
  most : n ≤ 65535
  before : ∀ k, k + 1 < n → u.line k &&& bit = 0
  last : found = true ↔ u.line (n - 1) &&& bit ≠ 0
  timeout : found = false → n = 65535

/-- Some status that can be polled has the bit. -/
def Uart.Ready (u : Uart) (bit : UInt8) : Prop := ∃ k < TIMEOUT.toNat, u.line k &&& bit ≠ 0

variable {u : Uart}

theorem Uart.Polled.ready {bit : UInt8} {n : Nat} {found : Bool}
    (h : u.Polled bit n found) : u.Ready bit ↔ found = true := by
  constructor
  · rintro ⟨k, hk, hbit⟩
    by_contra hnot
    have hn := h.timeout (by simpa using hnot)
    have hlast := fun hne => hnot (h.last.mpr hne)
    rcases lt_or_ge (k + 1) n with hlt | hge
    · exact hbit (h.before k hlt)
    · have hk' : k = n - 1 := by
        have : TIMEOUT.toNat = 65535 := rfl
        omega
      exact hlast (hk' ▸ hbit)
  · intro hfound
    refine ⟨n - 1, ?_, h.last.mp hfound⟩
    have hmost := h.most
    change n - 1 < 65535
    omega

/-- Everything but AX, CX and the log is as it was, and the log has `evs` more. -/
structure Goes (m m' : Machine) (evs : List Event) : Prop where
  bx : m'.bx = m.bx
  dx : m'.dx = m.dx
  si : m'.si = m.si
  di : m'.di = m.di
  ds : m'.ds = m.ds
  cs : m'.cs = m.cs
  stack : m'.stack = m.stack
  log : m'.log = m.log ++ evs

theorem Goes.trans {m₁ m₂ m₃ : Machine} {a b : List Event} (h₁ : Goes m₁ m₂ a) (h₂ : Goes m₂ m₃ b) :
    Goes m₁ m₃ (a ++ b) where
  bx := h₂.bx.trans h₁.bx
  dx := h₂.dx.trans h₁.dx
  si := h₂.si.trans h₁.si
  di := h₂.di.trans h₁.di
  ds := h₂.ds.trans h₁.ds
  cs := h₂.cs.trans h₁.cs
  stack := h₂.stack.trans h₁.stack
  log := by rw [h₂.log, h₁.log, append_assoc]

/-- The statuses `from … from + n - 1` have been read, and nothing has gone over the data port. -/
structure StatusOnly (u : Uart) (base : UInt16) (start n : Nat) (evs : List Event) : Prop where
  line : reads (base + R_8250_LSR) evs = (List.range' start n).map u.line
  data : reads base evs = []
  out : writes base evs = []
  call : calls evs = []

theorem StatusOnly.append {u : Uart} {base : UInt16} {start j k : Nat} {a b : List Event}
    (ha : StatusOnly u base start j a) (hb : StatusOnly u base (start + j) k b) :
    StatusOnly u base start (j + k) (a ++ b) where
  line := by
    rw [reads_append, ha.line, hb.line, ← map_append, ← range'_append_1]
  data := by rw [reads_append, ha.data, hb.data, append_nil]
  out := by rw [writes_append, ha.out, hb.out, append_nil]
  call := by rw [calls_append, ha.call, hb.call, append_nil]

/-- Reading the status takes the next one of the stream. -/
theorem int14Stat_spec (u : Uart) (m : Machine) :
    ∃ evs, Goes m (int14Stat (u.ports m.dx) m) evs ∧
      (int14Stat (u.ports m.dx) m).cx = m.cx ∧
      (int14Stat (u.ports m.dx) m).ah = u.line (reads (m.dx + R_8250_LSR) m.log).length ∧
      StatusOnly u m.dx (reads (m.dx + R_8250_LSR) m.log).length 1 evs := by
  obtain ⟨lcr, line, modem, hline, heq⟩ := int14Stat_eq (u.ports m.dx) m
  have hne : m.dx + R_8250_LCR ≠ m.dx + R_8250_LSR := port_ne m.dx (by decide)
  have hnext : line = u.line (reads (m.dx + R_8250_LSR) m.log).length := by
    rw [hline, Uart.ports, if_pos rfl, reads_append]
    congr 1
    simp [reads, hne]
  refine ⟨statEvents m.dx lcr line modem, ?_, ?_, ?_, ?_⟩
  · rw [heq]
    exact ⟨rfl, rfl, rfl, rfl, rfl, rfl, rfl, rfl⟩
  · rw [heq]
  · rw [heq, Machine.ah, hiByte_word, hnext]
  · refine ⟨?_, reads_data_stat .., writes_data_stat .., calls_stat ..⟩
    rw [reads_line_stat, hnext]
    rfl

/-- **The loop**: from status `start` on it reads until one has the bit. -/
theorem poll_spec (u : Uart) (bit : UInt8) (base : UInt16) : ∀ (rounds : Nat) (m : Machine),
    m.dx = base → ∃ n evs,
      Goes m (poll (u.ports base) bit rounds m).2 evs ∧
      StatusOnly u base (reads (base + R_8250_LSR) m.log).length n evs ∧ n ≤ rounds ∧
      (∀ k, k + 1 < n → u.line ((reads (base + R_8250_LSR) m.log).length + k) &&& bit = 0) ∧
      ((poll (u.ports base) bit rounds m).1 = false → n = rounds) ∧
      (rounds ≠ 0 → 1 ≤ n ∧
        (poll (u.ports base) bit rounds m).2.ah =
          u.line ((reads (base + R_8250_LSR) m.log).length + (n - 1)) ∧
        ((poll (u.ports base) bit rounds m).1 = true ↔
          u.line ((reads (base + R_8250_LSR) m.log).length + (n - 1)) &&& bit ≠ 0)) := by
  intro rounds
  induction rounds with
  | zero =>
    rintro m rfl
    refine ⟨0, [], ⟨rfl, rfl, rfl, rfl, rfl, rfl, rfl, (append_nil _).symm⟩,
      ⟨rfl, rfl, rfl, rfl⟩, le_refl 0, fun k hk => by omega, fun _ => rfl, fun h => absurd rfl h⟩
  | succ rounds ih =>
    rintro m rfl
    obtain ⟨evs, hgoes, hcx, hah, honly⟩ := int14Stat_spec u m
    set start := (reads (m.dx + R_8250_LSR) m.log).length with hstart
    rw [poll]
    by_cases hbit : (int14Stat (u.ports m.dx) m).ah &&& bit ≠ 0
    · simp only [if_pos hbit]
      refine ⟨1, evs, hgoes, honly, by omega, fun k hk => by omega, nofun, fun _ => ?_⟩
      rw [hah] at hbit
      exact ⟨le_refl 1, hah, iff_of_true trivial hbit⟩
    · simp only [if_neg hbit]
      rw [ne_eq, not_not, hah] at hbit
      set m1 : Machine := { int14Stat (u.ports m.dx) m with
        cx := (int14Stat (u.ports m.dx) m).cx - 1 } with hm1
      have hgoes1 : Goes m m1 evs :=
        ⟨hgoes.bx, hgoes.dx, hgoes.si, hgoes.di, hgoes.ds, hgoes.cs, hgoes.stack, hgoes.log⟩
      have hstart1 : (reads (m.dx + R_8250_LSR) m1.log).length = start + 1 := by
        rw [hgoes1.log, reads_append, honly.line, length_append, length_map, length_range']
      obtain ⟨n, evs', hgoes', honly', hn, hbefore, htime, hlast⟩ := ih m1 hgoes1.dx
      rw [hstart1] at honly' hbefore hlast
      refine ⟨1 + n, evs ++ evs', hgoes1.trans hgoes', honly.append honly', by omega, ?_, ?_, ?_⟩
      · intro k hk
        cases k with
        | zero => exact hbit
        | succ k =>
          rw [show start + (k + 1) = start + 1 + k by omega]
          exact hbefore k (by omega)
      · intro h
        rw [htime h, add_comm]
      · intro _
        refine ⟨by omega, ?_⟩
        by_cases hrounds : rounds = 0
        · subst hrounds
          obtain rfl : n = 0 := by omega
          refine ⟨?_, iff_of_false (by simp [poll]) (not_not.mpr hbit)⟩
          exact hah
        · obtain ⟨hpos, hah', hfound⟩ := hlast hrounds
          rw [show start + (1 + n - 1) = start + 1 + (n - 1) by omega]
          exact ⟨hah', hfound⟩

/-- The whole loop from a timeout counter of 65535, when no status has been read before. -/
theorem pollLoop_spec (u : Uart) (bit : UInt8) {m : Machine} (hcx : m.cx = TIMEOUT)
    (hlog : reads (m.dx + R_8250_LSR) m.log = []) :
    ∃ n evs, Goes m (pollLoop (u.ports m.dx) bit m).2 evs ∧ StatusOnly u m.dx 0 n evs ∧
      u.Polled bit n (pollLoop (u.ports m.dx) bit m).1 ∧
      (pollLoop (u.ports m.dx) bit m).2.ah = u.line (n - 1) := by
  have hrounds : (m.cx - 1).toNat + 1 = 65535 := by
    rw [hcx]
    rfl
  unfold pollLoop
  generalize (m.cx - 1).toNat + 1 = rounds at hrounds
  obtain ⟨n, evs, hgoes, honly, hn, hbefore, htime, hlast⟩ := poll_spec u bit m.dx rounds m rfl
  rw [hlog, length_nil] at honly hbefore hlast
  simp only [zero_add] at hbefore hlast
  obtain ⟨hpos, hah, hfound⟩ := hlast (by omega)
  exact ⟨n, evs, hgoes, honly, ⟨hpos, by omega, hbefore, hfound, fun h => (htime h).trans hrounds⟩,
    hah⟩

/-! ## 7. Transmitting and receiving -/

theorem clear_error (s : UInt8) : (s &&& 0x7f) &&& 0x80 = 0 ∧ (s &&& 0x7f) &&& 0x7f = s &&& 0x7f := by
  rw [UInt8.and_assoc, UInt8.and_assoc]
  exact ⟨UInt8.and_zero, rfl⟩

set_option maxRecDepth 4096 in
theorem set_error (s : UInt8) : (s ||| 0x80) &&& 0x80 = 0x80 ∧ (s ||| 0x80) &&& 0x7f = s &&& 0x7f := by
  have hall : ∀ n < 256, (n ||| 0x80) &&& 0x80 = 0x80 ∧ (n ||| 0x80) &&& 0x7f = n &&& 0x7f := by
    decide
  obtain ⟨h1, h2⟩ := hall s.toNat s.toNat_lt
  refine ⟨UInt8.toNat_inj.mp ?_, UInt8.toNat_inj.mp ?_⟩
  · rw [UInt8.toNat_and, UInt8.toNat_or]
    exact h1
  · rw [UInt8.toNat_and, UInt8.toNat_or, UInt8.toNat_and]
    exact h2

/-- AH as the callers of the interrupt read it: bit 7 for a timeout, and the status below. -/
structure Answers (ah status : UInt8) (timeout : Prop) : Prop where
  error : ah &&& 0x80 ≠ 0 ↔ timeout
  status : ah &&& 0x7f = status &&& 0x7f

theorem answers_cleared (h : ¬ timeout) : Answers (status &&& 0x7f) status timeout :=
  ⟨iff_of_false (fun hne => hne (clear_error status).1) h, (clear_error status).2⟩

theorem answers_set (h : timeout) : Answers (status ||| 0x80) status timeout :=
  ⟨iff_of_true (by rw [(set_error status).1]; decide) h, (set_error status).2⟩

theorem getLast_range (n : Nat) : ((List.range (n + 1)).map u.line).getLast? = some (u.line n) := by
  rw [range_succ, map_append]
  simp

@[simp] theorem setAl_ah (m : Machine) (v : UInt8) : (m.setAl v).ah = m.ah := by
  simp [Machine.setAl, Machine.ah]

@[simp] theorem setAh_ah (m : Machine) (v : UInt8) : (m.setAh v).ah = v := by
  simp [Machine.setAh, Machine.ah]

@[simp] theorem setAl_al (m : Machine) (v : UInt8) : (m.setAl v).al = v := by
  simp [Machine.setAl, Machine.al]

/-- Label 2 of `int14_xmit`: one byte is written and one more status is read. -/
theorem sendByte_spec (u : Uart) (hstart : (reads (m.dx + R_8250_LSR) m.log).length = start) :
    ∃ evs, Goes m (sendByte (u.ports m.dx) m) (.outb m.dx m.bl :: evs) ∧
      StatusOnly u m.dx start 1 evs ∧
      (sendByte (u.ports m.dx) m).ah = u.line start &&& 0x7f := by
  obtain ⟨evs, hgoes, hcx, hah, honly⟩ := int14Stat_spec u ((m.setAl m.bl).outAl)
  have hsame : (reads (m.dx + R_8250_LSR) ((m.setAl m.bl).outAl).log).length = start := by
    rw [← hstart]
    change (reads _ (m.log ++ [Event.outb m.dx _])).length = _
    rw [reads_append]
    exact congrArg List.length (append_nil _)
  change StatusOnly u m.dx (reads (m.dx + R_8250_LSR) ((m.setAl m.bl).outAl).log).length 1 evs at honly
  change _ = u.line (reads (m.dx + R_8250_LSR) ((m.setAl m.bl).outAl).log).length at hah
  rw [hsame] at honly hah
  refine ⟨evs, ?_, honly, ?_⟩
  · refine ⟨hgoes.bx, hgoes.dx, hgoes.si, hgoes.di, hgoes.ds, hgoes.cs, hgoes.stack, ?_⟩
    refine hgoes.log.trans ?_
    change m.log ++ [Event.outb m.dx (m.setAl m.bl).al] ++ evs = _
    rw [setAl_al, append_assoc]
    rfl
  · unfold sendByte
    dsimp only
    rw [setAh_ah, setAl_ah]
    exact congrArg (· &&& 0x7f) hah

/-- Label 2 of `int14_recv`: one byte is read and one more status. -/
theorem takeByte_spec (u : Uart) {base : UInt16} (hdx : m.dx = base)
    (hstart : (reads (base + R_8250_LSR) m.log).length = start) :
    ∃ v evs, (takeByte (u.ports base) m).al = v ∧
      (takeByte (u.ports base) m).ah = u.line start &&& 0x7f ∧
      StatusOnly u base start 1 evs ∧
      ∃ bx, Goes { m with bx := bx } (takeByte (u.ports base) m) (.inb base v :: evs) := by
  subst hdx
  set v := u.ports m.dx m.log m.dx with hv
  set m1 : Machine := { m.inAl (u.ports m.dx) with bx := (m.inAl (u.ports m.dx)).ax } with hm1
  obtain ⟨evs, hgoes, hcx, hah, honly⟩ := int14Stat_spec u m1
  have hne : m.dx ≠ m.dx + R_8250_LSR := (base_ne m.dx (by decide)).symm
  have hsame : (reads (m.dx + R_8250_LSR) m1.log).length = start := by
    rw [← hstart]
    change (reads _ (m.log ++ [Event.inb m.dx v])).length = _
    simp [reads, hne]
  change StatusOnly u m.dx (reads (m.dx + R_8250_LSR) m1.log).length 1 evs at honly
  change _ = u.line (reads (m.dx + R_8250_LSR) m1.log).length at hah
  rw [hsame] at honly hah
  refine ⟨v, evs, ?_, ?_, honly, m1.bx, ?_⟩
  · change ((((int14Stat (u.ports m.dx) m1).setAh _).setAl
      ((int14Stat (u.ports m.dx) m1).setAh _).bl)).al = v
    rw [setAl_al]
    exact loByte_word _ _
  · change ((((int14Stat (u.ports m.dx) m1).setAh _).setAl _)).ah = _
    rw [setAl_ah, setAh_ah]
    exact congrArg (· &&& 0x7f) hah
  · refine ⟨hgoes.bx, hgoes.dx, hgoes.si, hgoes.di, hgoes.ds, hgoes.cs, hgoes.stack, ?_⟩
    refine hgoes.log.trans ?_
    change m.log ++ [Event.inb m.dx v] ++ evs = _
    rw [append_assoc]
    rfl

/-- The line statuses that were read: the polls for a bit, and one more if they were successful. -/
def Statuses (u : Uart) (bit : UInt8) (base : UInt16) (evs : List Event) : Prop :=
  ∃ n found, u.Polled bit n found ∧
    reads (base + R_8250_LSR) evs = (List.range (n + found.toNat)).map u.line

/-- AH holds the last status that was read, and bit 7 tells a timeout. -/
def Answered (u : Uart) (bit : UInt8) (base : UInt16) (evs : List Event) (ah : UInt8) : Prop :=
  ∃ status, (reads (base + R_8250_LSR) evs).getLast? = some status ∧
    Answers ah status (¬ u.Ready bit)

/-- What a call leaves behind besides AX: everything as it was, and no call of its own. -/
structure Returns (m m' : Machine) (evs : List Event) : Prop where
  goes : Goes m m' evs
  cx : m'.cx = m.cx
  call : calls evs = []

/-- What `int14_xmit` is for. -/
structure Transmits (u : Uart) (m m' : Machine) (evs : List Event) : Prop where
  back : Returns m m' evs
  statuses : Statuses u RF_8250_LSR_THRE m.dx evs
  answered : Answered u RF_8250_LSR_THRE m.dx evs m'.ah
  data : reads m.dx evs = []
  sent : u.Ready RF_8250_LSR_THRE → writes m.dx evs = [m.al]
  unsent : ¬ u.Ready RF_8250_LSR_THRE → writes m.dx evs = []

/-- What `int14_recv` is for. -/
structure Receives (u : Uart) (m m' : Machine) (evs : List Event) : Prop where
  back : Returns m m' evs
  statuses : Statuses u RF_8250_LSR_RDY m.dx evs
  answered : Answered u RF_8250_LSR_RDY m.dx evs m'.ah
  out : writes m.dx evs = []
  received : u.Ready RF_8250_LSR_RDY → reads m.dx evs = [m'.al]
  unreceived : ¬ u.Ready RF_8250_LSR_RDY → reads m.dx evs = []

/-- The two words that were pushed come back. -/
theorem Goes.popped {bx : UInt16}
    (h : Goes { m with bx := bx, stack := m.cx :: m.bx :: m.stack } m1 evs)
    (hcall : calls evs = []) : Returns m m1.popCx.popBx evs := by
  have hstack : m1.stack = m.cx :: m.bx :: m.stack := h.stack
  refine ⟨⟨?_, h.dx, h.si, h.di, h.ds, h.cs, ?_, h.log⟩, ?_, hcall⟩
  · change m1.stack.tail.headD 0 = m.bx
    rw [hstack]
    rfl
  · change m1.stack.tail.tail = m.stack
    rw [hstack]
    rfl
  · change m1.stack.headD 0 = m.cx
    rw [hstack]
    rfl

/-- Any value of CX is behind `Goes`. -/
theorem Goes.from_cx {cx : UInt16} (h : Goes { m with cx := cx } m1 evs) : Goes m m1 evs :=
  ⟨h.bx, h.dx, h.si, h.di, h.ds, h.cs, h.stack, h.log⟩

theorem int14Xmit_transmits (u : Uart) {m : Machine} (hlog : reads (m.dx + R_8250_LSR) m.log = []) :
    ∃ evs, Transmits u m (int14Xmit (u.ports m.dx) m) evs := by
  set m0 : Machine := { m with bx := m.ax, stack := m.cx :: m.bx :: m.stack } with hm0
  obtain ⟨n, evs, hgoes, honly, hpolled, hah⟩ :=
    @pollLoop_spec u RF_8250_LSR_THRE { m0 with cx := TIMEOUT } rfl hlog
  obtain ⟨k, rfl⟩ : ∃ k, n = k + 1 := ⟨n - 1, by have := hpolled.pos; omega⟩
  have hline := honly.line
  rw [← range_eq_range'] at hline
  have hready := hpolled.ready
  generalize hpoll : pollLoop (u.ports m.dx) RF_8250_LSR_THRE { m0 with cx := TIMEOUT } = polled at *
  rw [int14Xmit_eq hm0 hpoll]
  obtain ⟨found, m1⟩ := polled
  have hdx : m1.dx = m.dx := hgoes.dx
  have hfrom : Goes m0 m1 evs := hgoes.from_cx
  cases found with
  | true =>
    have hyes : u.Ready RF_8250_LSR_THRE := hready.mpr rfl
    have hstart : (reads (m1.dx + R_8250_LSR) m1.log).length = k + 1 := by
      rw [hdx, hgoes.log, reads_append]
      rw [show reads (m.dx + R_8250_LSR) ({ m0 with cx := TIMEOUT } : Machine).log = [] from hlog, hline]
      simp
    obtain ⟨evs', hgoes', honly', hah'⟩ := sendByte_spec u hstart
    rw [hdx] at hgoes' honly' hah'
    have hbl : m1.bl = m.al := congrArg loByte hgoes.bx
    rw [hbl] at hgoes'
    have hall : reads (m.dx + R_8250_LSR) (evs ++ .outb m.dx m.al :: evs') =
        (List.range (k + 1 + 1)).map u.line := by
      have hskip : reads (m.dx + R_8250_LSR) (.outb m.dx m.al :: evs') =
          reads (m.dx + R_8250_LSR) evs' := rfl
      rw [reads_append, hline, hskip, honly'.line, ← map_append,
        show List.range (k + 1 + 1) = List.range (k + 1) ++ [k + 1] from range_succ]
      rfl
    have hwrites : writes m.dx (evs ++ .outb m.dx m.al :: evs') = [m.al] := by
      rw [writes_append, honly.out, nil_append, writes_cons, honly'.out]
    refine ⟨evs ++ .outb m.dx m.al :: evs', (hfrom.trans hgoes').popped ?_, ⟨k + 1, true, hpolled, hall⟩,
      ⟨u.line (k + 1), ?_, ?_⟩, ?_, fun _ => hwrites, fun h => absurd hyes h⟩
    · rw [calls_append, honly.call]
      exact honly'.call
    · rw [hall, getLast_range]
    · change Answers (sendByte (u.ports m.dx) m1).ah _ _
      rw [hah']
      exact answers_cleared (not_not.mpr hyes)
    · rw [reads_append, honly.data]
      exact honly'.data
  | false =>
    have hno : ¬ u.Ready RF_8250_LSR_THRE := fun h => Bool.false_ne_true (hready.mp h)
    have hset : Goes m0 (m1.setAh (m1.ah ||| 0x80)) evs :=
      ⟨hfrom.bx, hfrom.dx, hfrom.si, hfrom.di, hfrom.ds, hfrom.cs, hfrom.stack, hfrom.log⟩
    refine ⟨evs, hset.popped honly.call, ⟨k + 1, false, hpolled, hline⟩, ⟨u.line k, ?_, ?_⟩,
      honly.data, fun h => absurd h hno, fun _ => honly.out⟩
    · rw [hline, getLast_range]
    · change Answers (m1.setAh _).ah _ _
      rw [setAh_ah, hah]
      exact answers_set hno

theorem int14Recv_receives (u : Uart) {m : Machine} (hlog : reads (m.dx + R_8250_LSR) m.log = []) :
    ∃ evs, Receives u m (int14Recv (u.ports m.dx) m) evs := by
  set m0 : Machine := { m with stack := m.cx :: m.bx :: m.stack } with hm0
  obtain ⟨n, evs, hgoes, honly, hpolled, hah⟩ :=
    @pollLoop_spec u RF_8250_LSR_RDY { m0 with cx := TIMEOUT } rfl hlog
  obtain ⟨k, rfl⟩ : ∃ k, n = k + 1 := ⟨n - 1, by have := hpolled.pos; omega⟩
  have hline := honly.line
  rw [← range_eq_range'] at hline
  have hready := hpolled.ready
  generalize hpoll : pollLoop (u.ports m.dx) RF_8250_LSR_RDY { m0 with cx := TIMEOUT } = polled at *
  rw [int14Recv_eq hm0 hpoll]
  obtain ⟨found, m1⟩ := polled
  have hdx : m1.dx = m.dx := hgoes.dx
  have hfrom : Goes m0 m1 evs := hgoes.from_cx
  cases found with
  | true =>
    have hyes : u.Ready RF_8250_LSR_RDY := hready.mpr rfl
    have hstart : (reads (m.dx + R_8250_LSR) m1.log).length = k + 1 := by
      rw [hgoes.log, reads_append]
      rw [show reads (m.dx + R_8250_LSR) ({ m0 with cx := TIMEOUT } : Machine).log = [] from hlog, hline]
      simp
    obtain ⟨v, evs', hal', hah', honly', bx, hgoes'⟩ := takeByte_spec u hdx hstart
    have hall : reads (m.dx + R_8250_LSR) (evs ++ .inb m.dx v :: evs') =
        (List.range (k + 1 + 1)).map u.line := by
      have hne : m.dx ≠ m.dx + R_8250_LSR := (base_ne m.dx (by decide)).symm
      rw [reads_append, hline, reads_cons_ne hne, honly'.line, ← map_append,
        show List.range (k + 1 + 1) = List.range (k + 1) ++ [k + 1] from range_succ]
      rfl
    have hreads : reads m.dx (evs ++ .inb m.dx v :: evs') = [v] := by
      rw [reads_append, honly.data, nil_append, reads_cons, honly'.data]
    have hfirst : Goes { m0 with bx := bx } { m1 with bx := bx } evs :=
      ⟨rfl, hfrom.dx, hfrom.si, hfrom.di, hfrom.ds, hfrom.cs, hfrom.stack, hfrom.log⟩
    refine ⟨evs ++ .inb m.dx v :: evs', (hfirst.trans hgoes').popped ?_, ⟨k + 1, true, hpolled, hall⟩,
      ⟨u.line (k + 1), ?_, ?_⟩, ?_, fun _ => ?_, fun h => absurd hyes h⟩
    · rw [calls_append, honly.call]
      exact honly'.call
    · rw [hall, getLast_range]
    · change Answers (takeByte (u.ports m.dx) m1).ah _ _
      rw [hah']
      exact answers_cleared (not_not.mpr hyes)
    · rw [writes_append, honly.out]
      exact honly'.out
    · rw [hreads, ← hal']
      rfl
  | false =>
    have hno : ¬ u.Ready RF_8250_LSR_RDY := fun h => Bool.false_ne_true (hready.mp h)
    have hset : Goes m0 ((m1.setAh (m1.ah ||| 0x80)).setAl 0x0) evs :=
      ⟨hfrom.bx, hfrom.dx, hfrom.si, hfrom.di, hfrom.ds, hfrom.cs, hfrom.stack, hfrom.log⟩
    refine ⟨evs, hset.popped honly.call, ⟨k + 1, false, hpolled, hline⟩, ⟨u.line k, ?_, ?_⟩,
      honly.out, fun h => absurd h hno, fun _ => honly.data⟩
    · rw [hline, getLast_range]
    · change Answers ((m1.setAh _).setAl _).ah _ _
      rw [setAl_ah, setAh_ah, hah]
      exact answers_set hno

/-- **Transmitting and receiving with any UART**: at most 65535 polls, one byte over the data port if
one of them is successful and none otherwise, and AH is the last line status with bit 7 for a
timeout. -/
theorem serial_exact (u : Uart) (m : Machine) :
    (∃ evs, Transmits u { m with log := [] } (int14Xmit (u.ports m.dx) { m with log := [] }) evs) ∧
      ∃ evs, Receives u { m with log := [] } (int14Recv (u.ports m.dx) { m with log := [] }) evs :=
  ⟨@int14Xmit_transmits u { m with log := [] } rfl, @int14Recv_receives u { m with log := [] } rfl⟩

end SdcBoot.Bios
