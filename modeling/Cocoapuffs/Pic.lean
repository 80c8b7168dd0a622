import Cocoapuffs.WbBram

/-!
# The interrupt controller and its driver

The entity `pic`, and a processor that runs `Pic::InterruptHandler` when
`irqo` is high.  One instant is one rising edge of `clk`.
-/

namespace Cocoapuffs

namespace Pic

/-- The generics of `pic`, with the width of `irqi`. -/
structure Generics where
  baseAddress : BitVec 32
  lines : Nat
  fits : lines ≤ 32

/-- The generic map of `decoder0`. -/
def Generics.decoder (g : Generics) : MmregDecoder.Generics := ⟨g.baseAddress, 1⟩

structure State (g : Generics) where
  decoder0 : MmregDecoder.Reg
  mask : BitVec g.lines
  irqs : BitVec g.lines
deriving DecidableEq

variable {g : Generics}

def State.irqo (s : State g) : Bool := s.irqs != 0

def State.regi (s : State g) : BitVec 32 :=
  if s.decoder0.index = 0 then s.mask.setWidth 32
  else if s.decoder0.index = 1 then s.irqs.setWidth 32
  else 0

def State.wbo (s : State g) : PerBus := ⟨s.regi, s.decoder0.ack⟩

/-- The process `comb`, with the decoder. -/
def step (reset : Bool) (wbi : HostBus) (irqi : BitVec g.lines) (s : State g) : State g :=
  if reset then ⟨MmregDecoder.zeroReg, 0, 0⟩
  else
    { decoder0 := MmregDecoder.comb g.decoder false wbi s.decoder0
      mask :=
        if s.decoder0.write && s.decoder0.index == 0 then s.decoder0.data.setWidth g.lines
        else s.mask
      irqs :=
        if s.decoder0.write && s.decoder0.index == 1 then s.decoder0.data.setWidth g.lines
        else s.irqs ||| s.mask &&& irqi }

/-! ### The driver -/

/-- The lines that have a handler. -/
inductive Line where
  | timer
  | uart
deriving DecidableEq

/-- The bits of `kTimerIrqBit` and `kUartIrqBit`. -/
def Line.bit : Line → Nat
  | .timer => 0
  | .uart => 1

/-- Where the processor is in `Pic::InterruptHandler`. -/
inductive Pc where
  | main
  | putchar
  | readMask
  | readIrqs
  | dispatch (line : Line)
  | handler (line : Line)
  | clearIrq
deriving DecidableEq

/-- The processor: its place, whether the register access of this place is on
the bus, and the variable `irqs`. -/
structure Cpu where
  pc : Pc
  raised : Bool
  irqs : BitVec 32
deriving DecidableEq

/-- The register access at a place; `ClearIrq` writes zero. -/
def Pc.access (base : BitVec 32) : Pc → Option HostBus
  | .readMask => some ⟨base, 0, 0xf, false, true⟩
  | .readIrqs => some ⟨base + 4, 0, 0xf, false, true⟩
  | .clearIrq => some ⟨base + 4, 0, 0xf, true, true⟩
  | _ => none

/-- Where the driver goes after a line's handler. -/
def Line.after : Line → Pc
  | .timer => .dispatch .uart
  | .uart => .clearIrq

/-- A register access: it is raised when the processor gets to it, and is over
when it is acknowledged. -/
def Cpu.transfer (cpu : Cpu) (go ack : Bool) (done : Cpu) : Cpu :=
  if cpu.raised then if ack then done else cpu
  else { cpu with raised := go }

/-- One edge of the processor, which goes on when `go` is high. -/
def Cpu.step (go irqo : Bool) (wbo : PerBus) (cpu : Cpu) : Cpu :=
  match cpu.pc with
  | .main => if go && irqo then { cpu with pc := .putchar } else cpu
  | .putchar => if go then { cpu with pc := .readMask } else cpu
  | .readMask => cpu.transfer go wbo.ack { cpu with pc := .readIrqs, raised := false }
  | .readIrqs => cpu.transfer go wbo.ack ⟨.dispatch .timer, false, wbo.rdt⟩
  | .dispatch line =>
      if go then
        { cpu with pc := if cpu.irqs.getLsbD line.bit then .handler line else line.after }
      else cpu
  | .handler line => if go then { cpu with pc := line.after } else cpu
  | .clearIrq => cpu.transfer go wbo.ack { cpu with pc := .main, raised := false }

/-- The signals and choices at one edge: the lines, whether the processor goes
on, and its access to something else. -/
structure Inputs (g : Generics) where
  irqi : BitVec g.lines
  go : Bool
  other : HostBus

structure System (g : Generics) where
  pic : State g
  cpu : Cpu
deriving DecidableEq

/-- What the processor has on the bus. -/
def Cpu.wbi (base : BitVec 32) (other : HostBus) (cpu : Cpu) : HostBus :=
  if cpu.raised then (cpu.pc.access base).getD other else other

/-- One edge of the controller and the processor. -/
def System.step (i : Inputs g) (s : System g) : System g where
  pic := Pic.step false (s.cpu.wbi g.baseAddress i.other) i.irqi s.pic
  cpu := s.cpu.step i.go s.pic.irqo s.pic.wbo

/-- The lines of `mask` are enabled, and none is pending. -/
def start (mask : BitVec g.lines) : System g := ⟨⟨MmregDecoder.zeroReg, mask, 0⟩, ⟨.main, false, 0⟩⟩

/-- Has the driver a value of the register that it has not cleared yet? -/
def Pc.taken : Pc → Bool
  | .dispatch _ => true
  | .handler _ => true
  | .clearIrq => true
  | _ => false

/-- Is the handler of a line still to be dispatched? -/
def Pc.undispatched : Pc → Line → Bool
  | .dispatch .timer, _ => true
  | .handler .timer, .uart => true
  | .dispatch .uart, .uart => true
  | _, _ => false

/-- Does the driver hold a value with the line's bit, the handler undispatched? -/
def Cpu.holds (cpu : Cpu) (line : Line) : Bool :=
  cpu.pc.undispatched line && cpu.irqs.getLsbD line.bit

/-- The bit of the line is in the register, or the driver holds it. -/
def System.Kept (s : System g) (line : Line) : Prop :=
  s.pic.irqs.getLsbD line.bit = true ∨ s.cpu.holds line = true

/-- The bit is in the register until the driver reads it, and from then on the
driver holds it. -/
def System.Guarded (s : System g) (line : Line) : Prop :=
  s.cpu.holds line = true ∨ s.pic.irqs.getLsbD line.bit = true ∧ s.cpu.pc.taken = false

/-- Would a pulse of the line now be cleared unserved?  It would from the read
of the register on, unless the line's handler is still to start. -/
def System.Exposed (s : System g) (line : Line) : Prop :=
  (s.cpu.pc = .readIrqs ∧ s.cpu.raised = true ∧ s.pic.decoder0.ack = true ∧
      s.pic.irqs.getLsbD line.bit = false) ∨
    (s.cpu.pc.taken = true ∧ s.cpu.holds line = false)

/-! ### The bus -/

theorem index_irqReg {base : BitVec 32}
    (decodes : (⟨base, 1⟩ : MmregDecoder.Generics).Decodes (base + 4#32)) :
    (⟨base, 1⟩ : MmregDecoder.Generics).index (base + 4#32) = 1 := by
  rw [MmregDecoder.Generics.decodes_iff, BitVec.toNat_add] at decodes
  rw [MmregDecoder.Generics.index_eq, BitVec.toNat_add]
  have small := base.isLt
  simp only [Nat.reduceAdd, Nat.reducePow, BitVec.reduceToNat] at decodes ⊢
  omega

/-- What the decoder holds: nothing, or the access of the driver. -/
inductive Bus (s : System g) : Prop where
  | quiet (idle : s.pic.decoder0.state = .idle) (write : s.pic.decoder0.write = false)
      (ack : s.pic.decoder0.ack = false)
  | taken (bus : HostBus) (raised : s.cpu.raised = true)
      (access : s.cpu.pc.access g.baseAddress = some bus) (decodes : g.decoder.Decodes bus.adr)
      (held : s.pic.decoder0 = ⟨.wait1, bus.dat, g.decoder.index bus.adr, bus.we, true⟩)

/-- The edge at which the driver's write to the register has its effect. -/
def System.Clears (s : System g) : Prop :=
  s.cpu.pc = .clearIrq ∧ s.cpu.raised = true ∧ s.pic.decoder0.ack = true

theorem Cpu.step_of_unacked (go irqo : Bool) {wbo : PerBus} {cpu : Cpu} {bus base}
    (raised : cpu.raised = true) (access : cpu.pc.access base = some bus)
    (unacked : wbo.ack = false) : cpu.step go irqo wbo = cpu := by
  cases pc : cpu.pc <;> simp_all [Cpu.step, Cpu.transfer, Pc.access]

theorem Bus.step {s : System g} (bus : Bus s) {i : Inputs g}
    (outside : i.other.cyc = true → ¬ g.decoder.Decodes i.other.adr) : Bus (s.step i) := by
  rcases bus with ⟨idle, write, ack⟩ | ⟨bus, raised, access, decodes, held⟩
  · have control : MmregDecoder.Control s.pic.decoder0 := ⟨by simp [ack, idle], fun _ => write⟩
    by_cases window : (s.cpu.wbi g.baseAddress i.other).cyc = true ∧
        g.decoder.Decodes (s.cpu.wbi g.baseAddress i.other).adr
    · obtain ⟨cyc, decodes⟩ := window
      have raised : s.cpu.raised = true := by
        by_contra low
        rw [Cpu.wbi, if_neg low] at cyc decodes
        exact outside cyc decodes
      cases access : s.cpu.pc.access g.baseAddress with
      | none =>
          rw [Cpu.wbi, if_pos raised, access] at cyc decodes
          exact absurd decodes (outside cyc)
      | some bus =>
          have stays : s.cpu.step i.go s.pic.irqo s.pic.wbo = s.cpu :=
            Cpu.step_of_unacked i.go s.pic.irqo raised access ack
          have same : s.cpu.wbi g.baseAddress i.other = bus := by
            rw [Cpu.wbi, if_pos raised, access, Option.getD_some]
          rw [same] at cyc decodes
          refine .taken bus ?_ ?_ decodes ?_
          · rw [System.step, stays, raised]
          · rw [System.step, stays, access]
          · rw [System.step, Pic.step, same]
            exact MmregDecoder.comb_of_raised control idle decodes cyc
    · have stays : MmregDecoder.comb g.decoder false (s.cpu.wbi g.baseAddress i.other)
          s.pic.decoder0 = s.pic.decoder0 := by
        simp only [MmregDecoder.comb, idle]
        grind
      refine .quiet ?_ ?_ ?_ <;> simp [System.step, Pic.step, stays, idle, write, ack]
  · have waiting : s.pic.decoder0.state = .wait1 := by rw [held]
    refine .quiet ?_ ?_ ?_ <;>
      simp [System.step, Pic.step, MmregDecoder.comb_of_wait _ waiting, MmregDecoder.zeroReg]

/-- Except where the driver clears the register, pulses of enabled lines are
added to it. -/
theorem Bus.irqs_step {s : System g} (bus : Bus s) (i : Inputs g) (kept : ¬ s.Clears) :
    (s.step i).pic.irqs = s.pic.irqs ||| s.pic.mask &&& i.irqi := by
  rcases bus with ⟨idle, write, ack⟩ | ⟨bus, raised, access, decodes, held⟩
  · simp [System.step, Pic.step, write]
  · cases pc : s.cpu.pc with
    | clearIrq => exact absurd ⟨pc, raised, by rw [held]⟩ kept
    | _ =>
        simp only [Pc.access, pc, Option.some.injEq, reduceCtorEq] at access
        try (subst access; simp [System.step, Pic.step, held])

theorem Bus.clear_step {s : System g} (bus : Bus s) (i : Inputs g) (clears : s.Clears) :
    (s.step i).pic.irqs = 0 := by
  obtain ⟨pc, -, acked⟩ := clears
  rcases bus with ⟨idle, write, ack⟩ | ⟨bus, raised, access, decodes, held⟩
  · simp [ack] at acked
  · simp only [Pc.access, pc, Option.some.injEq] at access
    subst access
    have index : g.decoder.index (g.baseAddress + 4#32) = 1 := index_irqReg decodes
    simp [System.step, Pic.step, held, index]

theorem Bus.mask_step {s : System g} (bus : Bus s) (i : Inputs g) :
    (s.step i).pic.mask = s.pic.mask := by
  rcases bus with ⟨idle, write, ack⟩ | ⟨bus, raised, access, decodes, held⟩
  · simp [System.step, Pic.step, write]
  · cases pc : s.cpu.pc with
    | clearIrq =>
        simp only [Pc.access, pc, Option.some.injEq] at access
        subst access
        have index : g.decoder.index (g.baseAddress + 4#32) = 1 := index_irqReg decodes
        simp [System.step, Pic.step, held, index]
    | _ =>
        simp only [Pc.access, pc, Option.some.injEq, reduceCtorEq] at access
        try (subst access; simp [System.step, Pic.step, held])

theorem Bus.rdt {s : System g} (bus : Bus s) (pc : s.cpu.pc = .readIrqs)
    (acked : s.pic.decoder0.ack = true) : s.pic.wbo.rdt = s.pic.irqs.setWidth 32 := by
  rcases bus with ⟨idle, write, ack⟩ | ⟨bus, raised, access, decodes, held⟩
  · simp [ack] at acked
  · simp only [Pc.access, pc, Option.some.injEq] at access
    subst access
    have index : g.decoder.index (g.baseAddress + 4#32) = 1 := index_irqReg decodes
    simp [State.wbo, State.regi, held, index]

/-! ### What one edge of the driver does -/

/-- The edge at which the driver reads the register. -/
def System.Reads (s : System g) : Prop :=
  s.cpu.pc = .readIrqs ∧ s.cpu.raised = true ∧ s.pic.decoder0.ack = true

/-- The handler of the line starts. -/
def System.Starts (s : System g) (i : Inputs g) (line : Line) : Prop :=
  s.cpu.pc = .dispatch line ∧ i.go = true ∧ s.cpu.irqs.getLsbD line.bit = true

theorem taken_of_unread {s : System g} (i : Inputs g) (early : s.cpu.pc.taken = false)
    (unread : ¬ s.Reads) : (s.step i).cpu.pc.taken = false := by
  cases pc : s.cpu.pc with
  | main =>
      by_cases go : i.go = true ∧ s.pic.irqo = true <;>
        simp [System.step, Cpu.step, pc, go, Pc.taken]
  | putchar => cases go : i.go <;> simp [System.step, Cpu.step, pc, go, Pc.taken]
  | readMask =>
      cases raised : s.cpu.raised <;> cases acked : s.pic.decoder0.ack <;>
        simp [System.step, Cpu.step, Cpu.transfer, State.wbo, pc, raised, acked, Pc.taken]
  | readIrqs =>
      cases raised : s.cpu.raised with
      | false => simp [System.step, Cpu.step, Cpu.transfer, pc, raised, Pc.taken]
      | true =>
          cases acked : s.pic.decoder0.ack with
          | false =>
              simp [System.step, Cpu.step, Cpu.transfer, State.wbo, pc, raised, acked, Pc.taken]
          | true => exact absurd ⟨pc, raised, acked⟩ unread
  | dispatch line => simp [Pc.taken, pc] at early
  | handler line => simp [Pc.taken, pc] at early
  | clearIrq => simp [Pc.taken, pc] at early

theorem Bus.read_step {s : System g} (bus : Bus s) (i : Inputs g) (reads : s.Reads) :
    (s.step i).cpu = ⟨.dispatch .timer, false, s.pic.irqs.setWidth 32⟩ := by
  obtain ⟨pc, raised, acked⟩ := reads
  rw [← bus.rdt pc acked]
  simp [System.step, Cpu.step, Cpu.transfer, State.wbo, pc, raised, acked]

theorem holds_step {s : System g} (i : Inputs g) {line : Line} (held : s.cpu.holds line = true)
    (unstarted : ¬ s.Starts i line) : (s.step i).cpu.holds line = true := by
  obtain ⟨undispatched, present⟩ : s.cpu.pc.undispatched line = true ∧
      s.cpu.irqs.getLsbD line.bit = true := by simpa [Cpu.holds] using held
  cases go : i.go with
  | false =>
      have stays : (s.step i).cpu = s.cpu := by
        cases pc : s.cpu.pc <;> simp [pc, Pc.undispatched] at undispatched <;>
          simp [System.step, Cpu.step, pc, go]
      rw [stays, held]
  | true =>
      have others : ∀ first, s.cpu.pc = .dispatch first → line ≠ first := by
        rintro first pc rfl
        exact unstarted ⟨pc, go, present⟩
      cases pc : s.cpu.pc with
      | dispatch first =>
          have other := others first pc
          cases first <;> cases line <;> simp [pc, Pc.undispatched] at undispatched other
          by_cases timer : s.cpu.irqs.getLsbD Line.timer.bit = true <;>
            simp [System.step, Cpu.step, pc, go, Cpu.holds, present, timer, Line.after,
              Pc.undispatched]
      | handler first =>
          cases first <;> cases line <;> simp [pc, Pc.undispatched] at undispatched
          simp [System.step, Cpu.step, pc, go, Cpu.holds, present, Line.after, Pc.undispatched]
      | _ => simp [pc, Pc.undispatched] at undispatched

/-- What the driver does not hold after the read it does not come to hold. -/
theorem not_holds_step {s : System g} (i : Inputs g) {line : Line} (taken : s.cpu.pc.taken = true)
    (unheld : s.cpu.holds line = false) (kept : ¬ s.Clears) :
    (s.step i).cpu.pc.taken = true ∧ (s.step i).cpu.holds line = false := by
  cases pc : s.cpu.pc with
  | dispatch first =>
      cases go : i.go with
      | false => simp_all [System.step, Cpu.step]
      | true =>
          by_cases present : s.cpu.irqs.getLsbD first.bit = true <;> cases first <;> cases line <;>
            simp_all [System.step, Cpu.step, Cpu.holds, Pc.taken, Pc.undispatched, Line.after]
  | handler first =>
      cases go : i.go with
      | false => simp_all [System.step, Cpu.step]
      | true =>
          cases first <;> cases line <;>
            simp_all [System.step, Cpu.step, Cpu.holds, Pc.taken, Pc.undispatched, Line.after]
  | clearIrq =>
      cases raised : s.cpu.raised with
      | false => simp [System.step, Cpu.step, Cpu.transfer, pc, raised, Pc.taken, Cpu.holds,
          Pc.undispatched]
      | true =>
          cases acked : s.pic.decoder0.ack with
          | false => simp [System.step, Cpu.step, Cpu.transfer, State.wbo, pc, raised, acked,
              Pc.taken, Cpu.holds, Pc.undispatched]
          | true => exact absurd ⟨pc, raised, acked⟩ kept
  | _ => simp [pc, Pc.taken] at taken

theorem unstarted_of_exposed {s : System g} {line : Line} (exposed : s.Exposed line)
    (i : Inputs g) : ¬ s.Starts i line := by
  rintro ⟨pc, -, present⟩
  rcases exposed with ⟨reading, -⟩ | ⟨-, unheld⟩
  · simp [pc] at reading
  · cases line <;> simp [Cpu.holds, pc, Pc.undispatched, present] at unheld

section Runs

variable (mask : BitVec g.lines) (inputs : Nat → Inputs g)

/-- The states of a run. -/
abbrev states : Nat → System g := Trace.run System.step (start mask) inputs

/-- A pulse of the line at an edge. -/
def Pulse (line : Line) (n : Nat) : Prop := (inputs n).irqi.getLsbD line.bit = true

/-- There was a pulse of the line after its handler last started. -/
def Waiting (line : Line) (n : Nat) : Prop :=
  ∃ m, m < n ∧ Pulse inputs line m ∧ ∀ k, m ≤ k → k < n →
    ¬ (states mask inputs k).Starts (inputs k) line

/-- Both lines are enabled, and the other accesses of the processor are outside
the window of the controller. -/
structure Environment : Prop where
  enabled : ∀ line : Line, mask.getLsbD line.bit = true
  outside : ∀ n, (inputs n).other.cyc = true → ¬ g.decoder.Decodes (inputs n).other.adr

variable {mask inputs}

theorem waiting_succ {line : Line} {n : Nat} (waiting : Waiting mask inputs line (n + 1)) :
    (Waiting mask inputs line n ∨ Pulse inputs line n) ∧
      ¬ (states mask inputs n).Starts (inputs n) line := by
  obtain ⟨m, lt, pulse, unstarted⟩ := waiting
  refine ⟨?_, unstarted n (by omega) (by omega)⟩
  rcases Nat.lt_succ_iff_lt_or_eq.mp lt with earlier | rfl
  · exact Or.inl ⟨m, earlier, pulse, fun k after before => unstarted k after (by omega)⟩
  · exact Or.inr pulse

theorem waiting_of_arrived {line : Line} {n : Nat}
    (arrived : Waiting mask inputs line n ∨ Pulse inputs line n)
    (unstarted : ¬ (states mask inputs n).Starts (inputs n) line) :
    Waiting mask inputs line (n + 1) := by
  rcases arrived with ⟨m, lt, pulse, earlier⟩ | pulse
  · refine ⟨m, by omega, pulse, fun k after before => ?_⟩
    rcases Nat.lt_succ_iff_lt_or_eq.mp before with lt | rfl
    · exact earlier k after lt
    · exact unstarted
  · refine ⟨n, by omega, pulse, fun k after before => ?_⟩
    obtain rfl : k = n := by omega
    exact unstarted

section Kept

variable (environment : Environment mask inputs)
include environment

theorem bus_states (n : Nat) : Bus (states mask inputs n) := by
  induction n with
  | zero => exact .quiet rfl rfl rfl
  | succ n bus => exact bus.step (environment.outside n)

theorem mask_states (n : Nat) : (states mask inputs n).pic.mask = mask := by
  induction n with
  | zero => rfl
  | succ n same => exact ((bus_states environment n).mask_step (inputs n)).trans same

/-- A pulse is added to the register, and what is in it stays, until the driver
clears it. -/
theorem irqs_of_arrived {line : Line} {n : Nat} (kept : ¬ (states mask inputs n).Clears)
    (arrived : (states mask inputs n).pic.irqs.getLsbD line.bit = true ∨ Pulse inputs line n) :
    (states mask inputs (n + 1)).pic.irqs.getLsbD line.bit = true := by
  have grown := (bus_states environment n).irqs_step (inputs n) kept
  rw [states, Trace.run_succ, grown, BitVec.getLsbD_or, BitVec.getLsbD_and,
    mask_states environment, environment.enabled]
  rcases arrived with present | pulse
  · simp [present]
  · simp [show (inputs n).irqi.getLsbD line.bit = true from pulse]

theorem guarded_states
    (safe : ∀ n line, Pulse inputs line n → ¬ (states mask inputs n).Exposed line)
    {n : Nat} {line : Line} (waiting : Waiting mask inputs line n) :
    (states mask inputs n).Guarded line := by
  induction n with
  | zero =>
      obtain ⟨m, lt, -⟩ := waiting
      exact absurd lt (Nat.not_lt_zero m)
  | succ n ih =>
      obtain ⟨arrived, unstarted⟩ := waiting_succ waiting
      cases held : (states mask inputs n).cpu.holds line with
      | true => exact Or.inl (holds_step (inputs n) held unstarted)
      | false =>
          have early : (states mask inputs n).cpu.pc.taken = false := by
            rcases arrived with before | pulse
            · rcases ih before with holds | ⟨-, early⟩
              · simp [held] at holds
              · exact early
            · by_contra late
              exact safe n line pulse (Or.inr ⟨by simpa using late, held⟩)
          have present : (states mask inputs n).pic.irqs.getLsbD line.bit = true ∨
              Pulse inputs line n := by
            rcases arrived with before | pulse
            · rcases ih before with holds | ⟨present, -⟩
              · simp [held] at holds
              · exact Or.inl present
            · exact Or.inr pulse
          by_cases reads : (states mask inputs n).Reads
          · have present : (states mask inputs n).pic.irqs.getLsbD line.bit = true := by
              rcases present with present | pulse
              · exact present
              · by_contra absent
                obtain ⟨pc, raised, acked⟩ := reads
                exact safe n line pulse (Or.inl ⟨pc, raised, acked, by simpa using absent⟩)
            left
            rw [states, Trace.run_succ, (bus_states environment n).read_step (inputs n) reads]
            have bound : line.bit < 32 := by cases line <;> decide
            cases line <;> simp_all [Cpu.holds, Pc.undispatched]
          · right
            constructor
            · apply irqs_of_arrived environment _ present
              rintro ⟨pc, -, -⟩
              simp [pc, Pc.taken] at early
            · exact taken_of_unread (inputs n) early reads

theorem kept_states
    (safe : ∀ n line, Pulse inputs line n → ¬ (states mask inputs n).Exposed line)
    {n : Nat} {line : Line} (waiting : Waiting mask inputs line n) :
    (states mask inputs n).Kept line := by
  rcases guarded_states environment safe waiting with held | ⟨present, -⟩
  · exact Or.inr held
  · exact Or.inl present

/-- An exposed line is not to start, and stays exposed until the driver clears
the register. -/
theorem exposed_step {line : Line} {n : Nat} (exposed : (states mask inputs n).Exposed line)
    (kept : ¬ (states mask inputs n).Clears) :
    (states mask inputs (n + 1)).cpu.pc.taken = true ∧
      (states mask inputs (n + 1)).cpu.holds line = false := by
  rcases exposed with ⟨pc, raised, acked, absent⟩ | ⟨taken, unheld⟩
  · rw [states, Trace.run_succ, (bus_states environment n).read_step (inputs n) ⟨pc, raised, acked⟩]
    simp [Pc.taken, Cpu.holds, absent]
  · exact not_holds_step (inputs n) taken unheld kept

/-- A pulse of an exposed line is lost, where each read of the register is
followed by its clear. -/
theorem lost_of_exposed
    (clears : Trace.LeadsTo (fun n => (states mask inputs n).cpu.pc.taken = true)
      fun n => (states mask inputs n).Clears)
    {line : Line} {n : Nat} (pulse : Pulse inputs line n)
    (exposed : (states mask inputs n).Exposed line) :
    ∃ m, Waiting mask inputs line m ∧ ¬ (states mask inputs m).Kept line := by
  have happens : Trace.LeadsTo (fun m => (states mask inputs m).Exposed line ∧
      (Waiting mask inputs line m ∨ Pulse inputs line m))
      fun m => (states mask inputs m).Clears := by
    rintro m ⟨exposed, -⟩
    by_cases now : (states mask inputs m).Clears
    · exact ⟨m, le_rfl, now⟩
    · obtain ⟨k, after, later⟩ := clears (m + 1) (exposed_step environment exposed now).1
      exact ⟨k, by omega, later⟩
  obtain ⟨m, -, ⟨exposed, arrived⟩, clears⟩ := happens.until_event (by
    rintro m ⟨exposed, arrived⟩ kept
    exact ⟨Or.inr (exposed_step environment exposed kept),
      Or.inl (waiting_of_arrived arrived (unstarted_of_exposed exposed _))⟩)
    n ⟨exposed, Or.inr pulse⟩
  refine ⟨m + 1, waiting_of_arrived arrived (unstarted_of_exposed exposed _), ?_⟩
  have gone := (bus_states environment m).clear_step (inputs m) clears
  rintro (present | held)
  · simp [states, Trace.run_succ, gone] at present
  · obtain ⟨pc, raised, acked⟩ := clears
    simp [states, Trace.run_succ, System.step, Cpu.step, Cpu.transfer, State.wbo, pc, raised,
      acked, Cpu.holds, Pc.undispatched] at held

end Kept

end Runs

/-- No interrupt is lost as long as a line that has been read, or is being read,
without its bit, or whose handler has started, has no pulse until the driver
has cleared the register. -/
theorem pic_keeps (mask : BitVec g.lines) (inputs : Nat → Inputs g)
    (environment : Environment mask inputs)
    (safe : ∀ n line, Pulse inputs line n → ¬ (states mask inputs n).Exposed line) (n : Nat)
    (line : Line) (waiting : Waiting mask inputs line n) : (states mask inputs n).Kept line :=
  kept_states environment safe waiting

/-- Where each read of the register is followed by its clear, that is the only way
not to lose one. -/
theorem pic_keeps_iff (mask : BitVec g.lines) (inputs : Nat → Inputs g)
    (environment : Environment mask inputs)
    (clears : Trace.LeadsTo (fun n => (states mask inputs n).cpu.pc.taken = true)
      fun n => (states mask inputs n).Clears) :
    (∀ n line, Waiting mask inputs line n → (states mask inputs n).Kept line) ↔
      ∀ n line, Pulse inputs line n → ¬ (states mask inputs n).Exposed line := by
  constructor
  · intro kept n line pulse exposed
    obtain ⟨m, waiting, lost⟩ := lost_of_exposed environment clears pulse exposed
    exact lost (kept m line waiting)
  · exact fun safe n line waiting => kept_states environment safe waiting

/-! ### Two pulses -/

/-- The controller of the library, with two lines. -/
def twoLines : Generics := ⟨0x40000030, 2, by decide⟩

/-- A pulse of the timer, and one of the UART: with it, or while the timer's
handler runs. -/
def twoPulses (late : Bool) (n : Nat) : Inputs twoLines where
  irqi :=
    if n = 0 then if late then 0b01 else 0b11
    else if late && n == 10 then 0b10 else 0
  go := true
  other := ⟨0, 0, 0, false, false⟩

theorem twoPulses_environment (late : Bool) : Environment 0b11 (twoPulses late) where
  enabled line := by cases line <;> decide
  outside n raised := by simp [twoPulses] at raised

/-- Pulses that come together are both read. -/
theorem twoPulses_safe (n : Nat) (line : Line) (pulse : Pulse (twoPulses false) line n) :
    ¬ (states 0b11 (twoPulses false) n).Exposed line := by
  obtain rfl : n = 0 := by
    by_contra late
    simp [Pulse, twoPulses, late] at pulse
  rintro (⟨pc, -⟩ | ⟨taken, -⟩)
  · cases pc
  · cases taken

theorem twoPulses_keeps :
    Waiting 0b11 (twoPulses false) .uart 11 ∧ (states 0b11 (twoPulses false) 11).Kept .uart := by
  have waiting : Waiting 0b11 (twoPulses false) .uart 11 := by
    refine ⟨0, by decide, rfl, fun k _ early => ?_⟩
    revert early
    revert k
    unfold System.Starts
    decide +kernel
  refine ⟨waiting, pic_keeps 0b11 (twoPulses false) (twoPulses_environment false)
    twoPulses_safe 11 .uart waiting⟩

/-- A pulse of the UART in the handler of the timer is lost. -/
theorem pic_loses :
    ¬ ∀ (g : Generics) (mask : BitVec g.lines) (inputs : Nat → Inputs g),
      Environment mask inputs → ∀ n line, Waiting mask inputs line n →
        (states mask inputs n).Kept line := by
  intro claim
  have waiting : Waiting 0b11 (twoPulses true) .uart 15 := by
    refine ⟨10, by decide, rfl, fun k _ early => ?_⟩
    revert early
    revert k
    unfold System.Starts
    decide +kernel
  have kept := claim twoLines 0b11 (twoPulses true) (twoPulses_environment true) 15 .uart waiting
  revert kept
  unfold System.Kept
  decide +kernel

/-- After its last pulse the processor stays in its program. -/
theorem twoPulses_rest (late : Bool) (n : Nat) (after : 16 ≤ n) :
    states 0b11 (twoPulses late) n = states 0b11 (twoPulses late) 16 := by
  induction n, after using Nat.le_induction with
  | base => rfl
  | succ n after ih =>
      have quiet : twoPulses late n = ⟨0, true, ⟨0, 0, 0, false, false⟩⟩ := by
        simp [twoPulses, show n ≠ 0 by omega, show n ≠ 10 by omega]
      rw [states, Trace.run_succ, ← states, ih, quiet]
      clear ih quiet
      revert late
      decide +kernel

theorem twoPulses_clears (late : Bool) :
    Trace.LeadsTo (fun n => (states 0b11 (twoPulses late) n).cpu.pc.taken = true)
      fun n => (states 0b11 (twoPulses late) n).Clears := by
  intro n taken
  have early : n < 16 := by
    by_contra rest
    rw [twoPulses_rest late n (by omega)] at taken
    revert taken
    revert late
    decide +kernel
  refine ⟨if late then 14 else 15, ?_, ?_⟩
  · revert taken
    revert late
    revert n
    decide +kernel
  · unfold System.Clears
    clear taken
    revert late
    decide +kernel

/-- Of the two pulses one is lost if it is exposed, and none if they come together. -/
theorem pic_keeps_iff_twoPulses :
    (¬ ∀ n line, Waiting 0b11 (twoPulses true) line n →
        (states 0b11 (twoPulses true) n).Kept line) ∧
      ∀ n line, Waiting 0b11 (twoPulses false) line n →
        (states 0b11 (twoPulses false) n).Kept line := by
  constructor
  · rw [pic_keeps_iff 0b11 (twoPulses true) (twoPulses_environment true) (twoPulses_clears true)]
    intro safe
    have exposed : (states 0b11 (twoPulses true) 10).Exposed .uart := by
      right
      decide +kernel
    exact safe 10 .uart rfl exposed
  · exact (pic_keeps_iff 0b11 (twoPulses false) (twoPulses_environment false)
      (twoPulses_clears false)).mpr twoPulses_safe

end Pic

end Cocoapuffs
