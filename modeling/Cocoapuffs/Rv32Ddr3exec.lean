import Cocoapuffs.WbMuxShared
import Cocoapuffs.WbUart
import Cocoapuffs.Timer
import Cocoapuffs.PicPulses

/-!
# The bus of the board `rv32_ddr3exec`

The two buses of the processor behind a `wb_mux`, the devices on the shared bus, and
the `rdt_mux` that takes their responses back.  The board is the simulated one, whose
`ram` has the architecture `sim`; the processor, the FIFOs and the core of the UART
are outside.  One instant is one rising edge of `clk100`.
-/

namespace Cocoapuffs

namespace Rv32Ddr3exec

/-- The architecture `sim` of `ram`: a `bram` of `mem_size_words` words but for its
name, with 20 index bits. -/
def ramSim : Bram.Generics := ⟨0x00000000, 4 * 2 ^ 10, 22, by decide, by decide⟩

/-- The generic of the board that the bus depends on. -/
structure Generics where
  memsize : Nat
  nonempty : 4 ≤ memsize

/-! ### `cfg` -/

def Generics.bram (g : Generics) : Bram.Generics :=
  ⟨0x00000000, g.memsize, 18, g.nonempty, by decide⟩

def uart : WbUart.Generics := ⟨0x40000010⟩

def timer : Timer.Generics := ⟨0x40000020, 400000000, by decide⟩

theorem irqi_fits : 2 ≤ 32 := by decide

def pic : Pic.Generics := ⟨0x40000030, 2, irqi_fits⟩

def muxPorts : Nat := 2

instance : NeZero muxPorts := ⟨by decide⟩

/-! ### The board -/

/-- The instances that have an `mmreg_decoder`. -/
inductive Unit where
  | ram0
  | timer0
  | pic0
  | bram0
deriving DecidableEq

/-- `bram_sel`: the address is in the first 256KB. -/
def bramSel (adr : BitVec 32) : Bool := adr.extractLsb' 18 14 == 0

/-- The instances with the addresses for which the board hands them the bus. -/
def device (g : Generics) : Unit → WbFabric.Device
  | .ram0 => ⟨fun adr => adr.extractLsb' 30 2 == 0 && !bramSel adr, ramSim.decoder⟩
  | .timer0 => ⟨fun _ => true, timer.decoder⟩
  | .pic0 => ⟨fun _ => true, pic.decoder⟩
  | .bram0 => ⟨fun adr => adr.extractLsb' 30 2 == 0 && bramSel adr, g.bram.decoder⟩

/-- What the processor and the other side of the UART do in a cycle. -/
structure Inputs where
  reset : Bool
  ibusAdr : BitVec 32
  ibusCyc : Bool
  dbusHost : HostBus
  rdFifoOut : WbUart.FifoOut
  wrFifoOut : WbUart.FifoOut
  dataStreamInAck : Bool

/-- `cpu0_mux_host_ports`: the instruction bus reads whole words. -/
def Inputs.hostPorts (i : Inputs) (port : Fin muxPorts) : HostBus :=
  if port.val = 0 then ⟨i.ibusAdr, 0, 0b1111, false, i.ibusCyc⟩ else i.dbusHost

/-- The ports of `uart1`: `uart1_en` takes the place of `cyc`. -/
def Inputs.uart1 (i : Inputs) (host : HostBus) : WbUart.Inputs where
  reset := i.reset
  wb := { host with cyc := host.cyc && host.adr.extractLsb' 30 2 == 0b01 }
  rdFifoOut := i.rdFifoOut
  wrFifoOut := i.wrFifoOut
  dataStreamInAck := i.dataStreamInAck

structure State (g : Generics) where
  cpu0Mux : WbMux.Reg muxPorts
  ram0 : Bram.State ramSim
  uart1 : WbUart.Reg
  timer0 : Timer.State
  pic0 : Pic.State pic
  bram0 : Bram.State g.bram

variable {g : Generics}

/-- `cpu0_host_out`. -/
def State.cpu0HostOut (s : State g) (i : Inputs) : HostBus :=
  if i.reset then HostBus.new else WbMux.hostPort s.cpu0Mux i.hostPorts

/-- `uart1_per`. -/
def State.uart1Per (s : State g) (i : Inputs) : PerBus :=
  WbUart.wbOutputs uart (i.uart1 (s.cpu0HostOut i))

/-- The inputs of `wb_mux0`. -/
def State.responses (s : State g) (i : Inputs) : List PerBus :=
  [s.ram0.wbo, s.uart1Per i, s.timer0.wbo, s.pic0.wbo, s.bram0.wbo]

/-- `cpu0_per_in`. -/
def State.cpu0PerIn (s : State g) (i : Inputs) : PerBus := RdtMux.output i.reset (s.responses i)

/-- `pic0_irqi`. -/
def State.pic0Irqi (s : State g) (i : Inputs) : BitVec 2 :=
  BitVec.ofBool (s.uart1.irq (i.uart1 (s.cpu0HostOut i))) ++ BitVec.ofBool s.timer0.irq

/-- One rising edge. -/
def step (i : Inputs) (s : State g) : State g where
  cpu0Mux := WbMux.comb i.reset i.hostPorts (s.cpu0PerIn i) s.cpu0Mux
  ram0 := Bram.step i.reset ((device g .ram0).wbi (s.cpu0HostOut i)) s.ram0
  uart1 := s.uart1.comb uart (i.uart1 (s.cpu0HostOut i))
  timer0 := Timer.step timer ⟨i.reset, s.cpu0HostOut i⟩ s.timer0
  pic0 := Pic.step i.reset (s.cpu0HostOut i) (s.pic0Irqi i) s.pic0
  bram0 := Bram.step i.reset ((device g .bram0).wbi (s.cpu0HostOut i)) s.bram0

/-- The board after a reset, which leaves the memories as they are. -/
def State.reset (s : State g) : State g where
  cpu0Mux := WbMux.regZero
  ram0 := s.ram0.reset
  uart1 := WbUart.Reg.new
  timer0 := ⟨MmregDecoder.zeroReg, timer.zeroReg⟩
  pic0 := ⟨MmregDecoder.zeroReg, 0, 0⟩
  bram0 := s.bram0.reset

def State.decoder (s : State g) : Unit → MmregDecoder.Reg
  | .ram0 => s.ram0.decoder0
  | .timer0 => s.timer0.decoder0
  | .pic0 => s.pic0.decoder0
  | .bram0 => s.bram0.decoder0

/-- The response of an instance. -/
def State.wbo (s : State g) : Unit → PerBus
  | .ram0 => s.ram0.wbo
  | .timer0 => s.timer0.wbo
  | .pic0 => s.pic0.wbo
  | .bram0 => s.bram0.wbo

@[simp]
theorem State.wbo_ack (s : State g) (unit : Unit) : (s.wbo unit).ack = (s.decoder unit).ack := by
  cases unit <;> rfl

theorem State.mem_responses {s : State g} {i : Inputs} {per : PerBus} :
    per ∈ s.responses i ↔ per = s.uart1Per i ∨ ∃ unit, per = s.wbo unit := by
  constructor
  · intro mem
    simp only [responses, List.mem_cons, List.not_mem_nil, or_false] at mem
    rcases mem with rfl | rfl | rfl | rfl | rfl
    · exact .inr ⟨.ram0, rfl⟩
    · exact .inl rfl
    · exact .inr ⟨.timer0, rfl⟩
    · exact .inr ⟨.pic0, rfl⟩
    · exact .inr ⟨.bram0, rfl⟩
  · rintro (rfl | ⟨unit, rfl⟩)
    · simp [responses]
    · cases unit <;> simp [responses, wbo]

/-! ### The memory map -/

theorem extractLsb'_eq_zero {adr : BitVec 32} {low width : Nat} (top : low + width = 32) :
    adr.extractLsb' low width = 0 ↔ adr.toNat < 2 ^ low := by
  rw [← BitVec.toNat_inj, BitVec.extractLsb'_toNat, Nat.shiftRight_eq_div_pow]
  have small : adr.toNat / 2 ^ low < 2 ^ width := by
    rw [Nat.div_lt_iff_lt_mul (Nat.two_pow_pos _), ← Nat.pow_add, Nat.add_comm, top]
    exact adr.isLt
  rw [Nat.mod_eq_of_lt small, BitVec.ofNat_eq_ofNat, BitVec.toNat_ofNat, Nat.zero_mod,
    Nat.div_eq_zero_iff_lt (Nat.two_pow_pos _)]

theorem answers_ram0 {adr : BitVec 32} :
    (device g .ram0).Answers adr ↔ 2 ^ 18 ≤ adr.toNat ∧ adr.toNat < 2 ^ 22 := by
  have decodes : (device g .ram0).decoder.Decodes adr ↔ adr.toNat < 2 ^ 22 := by
    rw [MmregDecoder.Generics.decodes_iff]
    change adr.toNat / 2 ^ 22 * 2 ^ 22 = 0 ↔ _
    omega
  rw [WbFabric.Device.Answers, decodes]
  simp only [device, bramSel, Bool.and_eq_true, beq_iff_eq, Bool.not_eq_true',
    beq_eq_false_iff_ne, ne_eq, extractLsb'_eq_zero]
  omega

theorem answers_bram0 {adr : BitVec 32} :
    (device g .bram0).Answers adr ↔ adr.toNat < 2 ^ 18 := by
  have decodes : (device g .bram0).decoder.Decodes adr ↔ adr.toNat < 2 ^ 18 := by
    rw [MmregDecoder.Generics.decodes_iff]
    change adr.toNat / 2 ^ 18 * 2 ^ 18 = 0 ↔ _
    omega
  rw [WbFabric.Device.Answers, decodes]
  simp only [device, bramSel, Bool.and_eq_true, beq_iff_eq, extractLsb'_eq_zero]
  omega

theorem answers_timer0 {adr : BitVec 32} :
    (device g .timer0).Answers adr ↔ adr.toNat / 8 * 8 = 0x40000020 := by
  rw [WbFabric.Device.Answers, MmregDecoder.Generics.decodes_iff]
  simp [device, timer, Timer.Generics.decoder]

theorem answers_pic0 {adr : BitVec 32} :
    (device g .pic0).Answers adr ↔ adr.toNat / 8 * 8 = 0x40000030 := by
  rw [WbFabric.Device.Answers, MmregDecoder.Generics.decodes_iff]
  simp [device, pic, Pic.Generics.decoder]

/-- No address belongs to two instances. -/
theorem disjoint (i j : Unit) (adr : BitVec 32) (first : (device g i).Answers adr)
    (second : (device g j).Answers adr) : i = j := by
  cases i <;> cases j <;>
    simp only [answers_ram0, answers_bram0, answers_timer0, answers_pic0] at first second <;>
    first | rfl | omega

/-- None of them has the address of the UART. -/
theorem not_answers_uart (unit : Unit) : ¬ (device g unit).Answers uart.uartAddress := by
  cases unit <;>
    simp only [answers_ram0, answers_bram0, answers_timer0, answers_pic0, uart] <;> decide

/-- The request is for a register or a word that the board has. -/
def Mapped (g : Generics) (request : Request) : Prop :=
  (∃ unit, (device g unit).Answers request.adr) ∨
    request.adr = uart.uartAddress ∧ request.sel.getLsbD 0 = true

/-- The words of the two memories. -/
abbrev Cell (g : Generics) := Fin ramSim.memWords ⊕ Fin g.bram.memWords

/-- The word that an address is for. -/
def cell (g : Generics) (adr : BitVec 32) : Option (Cell g) :=
  if (device g .ram0).Answers adr then some (.inl (ramSim.wordOf adr))
  else if (device g .bram0).Answers adr then some (.inr (g.bram.wordOf adr))
  else none

/-- The two memories as bytes. -/
def State.bytes (s : State g) : Cell g → Fin 4 → BitVec 8 :=
  Sum.elim s.ram0.mem.bytes s.bram0.mem.bytes

/-! ### Runs -/

section Runs

variable (powerUp : State g) (inputs : Nat → Inputs)

abbrev states : Nat → State g := Trace.run step powerUp.reset inputs

/-- The multiplexer with what goes on around it. -/
def muxInputs (n : Nat) : WbMux.Inputs muxPorts :=
  ⟨(inputs n).reset, (inputs n).hostPorts, (states powerUp inputs n).cpu0PerIn (inputs n)⟩

/-- The response that a bus of the processor sees. -/
def perPorts (n : Nat) : Fin muxPorts → PerBus :=
  WbMux.perPorts (states powerUp inputs n).cpu0Mux
    ((states powerUp inputs n).cpu0PerIn (inputs n))

/-- A processor that holds a request until it sees the acknowledge, and drops `cyc` in
the next cycle. -/
structure Processor : Prop where
  noReset : ∀ n, (inputs n).reset = false
  held : ∀ n port, ((inputs n).hostPorts port).cyc = true →
    (perPorts powerUp inputs n port).ack = false →
    (inputs (n + 1)).hostPorts port = (inputs n).hostPorts port
  dropped : ∀ n port, (perPorts powerUp inputs n port).ack = true →
    ((inputs (n + 1)).hostPorts port).cyc = false

/-- The shared bus, and the responses on it. -/
def bus (n : Nat) : HostBus := WbMuxShared.shared (muxInputs powerUp inputs) n

def response (n : Nat) : PerBus := WbMuxShared.response (muxInputs powerUp inputs) n

/-- A request for the UART is acknowledged. -/
def uartAcked (write : Bool) (n : Nat) : Bool :=
  (response powerUp inputs n).ack && (bus powerUp inputs n).adr == uart.uartAddress &&
    (bus powerUp inputs n).we == write

/-- The byte that goes into the transmit FIFO. -/
def pushed (n : Nat) : Option (BitVec 8) :=
  if (states powerUp inputs n).uart1.wrFifoWrite then some (states powerUp inputs n).uart1.busDIn
  else none

/-- The byte of a store that is acknowledged while the transmit FIFO has room. -/
def stored (n : Nat) : Option (BitVec 8) :=
  if uartAcked powerUp inputs true n && !(inputs n).wrFifoOut.full then
    some ((bus powerUp inputs n).dat.setWidth 8)
  else none

/-- The byte that goes out of the receive FIFO. -/
def popped (n : Nat) : Option (BitVec 8) :=
  if WbUart.rdFifoReadEn uart
      ((inputs n).uart1 ((states powerUp inputs n).cpu0HostOut (inputs n))) then
    some (inputs n).rdFifoOut.readData
  else none

/-- The byte that a load is given while the receive FIFO has one. -/
def loaded (n : Nat) : Option (BitVec 8) :=
  if uartAcked powerUp inputs false n && !(inputs n).rdFifoOut.empty then
    some ((response powerUp inputs n).rdt.setWidth 8)
  else none

variable {powerUp inputs}

theorem cpu0Mux_states (n : Nat) :
    (states powerUp inputs n).cpu0Mux = WbMux.states (muxInputs powerUp inputs) n := by
  induction n with
  | zero => rfl
  | succ n ih =>
      change WbMux.comb _ _ _ (states powerUp inputs n).cpu0Mux = _
      rw [ih]
      rfl

theorem perPorts_eq (n : Nat) (port : Fin muxPorts) :
    perPorts powerUp inputs n port = WbMux.perPortsAt (muxInputs powerUp inputs) n port := by
  rw [perPorts, cpu0Mux_states]
  rfl

variable (processor : Processor powerUp inputs)
include processor

theorem Processor.hosts : WbMuxShared.Hosts (muxInputs powerUp inputs) where
  noReset := processor.noReset
  held n port raised unacked := processor.held n port raised (perPorts_eq n port ▸ unacked)
  dropped n port _ acks := processor.dropped n port (perPorts_eq n port ▸ acks)

theorem Processor.cpu0HostOut_eq (n : Nat) : (states powerUp inputs n).cpu0HostOut (inputs n) =
    bus powerUp inputs n := by
  rw [State.cpu0HostOut, processor.noReset, cpu0Mux_states]
  rfl

omit processor in
/-- What `uart1` acknowledges. -/
theorem State.uart1Per_ack {s : State g} {i : Inputs} (acks : (s.uart1Per i).ack = true) :
    (s.cpu0HostOut i).cyc = true ∧ (s.cpu0HostOut i).adr = uart.uartAddress ∧
      (s.cpu0HostOut i).sel.getLsbD 0 = true := by
  simp only [State.uart1Per, WbUart.wbOutputs, WbUart.busIs, Inputs.uart1, Bool.or_eq_true,
    Bool.and_eq_true, beq_iff_eq] at acks
  rcases acks with ⟨⟨⟨adr, cyc, -⟩, sel⟩, -⟩ | ⟨⟨⟨adr, cyc, -⟩, sel⟩, -⟩
  · exact ⟨cyc, adr, sel⟩
  · exact ⟨cyc, adr, sel⟩

theorem Processor.response_ack_iff (n : Nat) :
    (response powerUp inputs n).ack = true ↔
      ((states powerUp inputs n).uart1Per (inputs n)).ack = true ∨
        ∃ unit, ((states powerUp inputs n).decoder unit).ack = true := by
  change ((states powerUp inputs n).cpu0PerIn (inputs n)).ack = true ↔ _
  rw [State.cpu0PerIn, processor.noReset, RdtMux.output_ack_iff]
  simp only [State.mem_responses]
  constructor
  · rintro ⟨per, rfl | ⟨unit, rfl⟩, acks⟩
    · exact .inl acks
    · exact .inr ⟨unit, State.wbo_ack _ unit ▸ acks⟩
  · rintro (acks | ⟨unit, acks⟩)
    · exact ⟨_, .inl rfl, acks⟩
    · exact ⟨_, .inr ⟨unit, rfl⟩, (State.wbo_ack _ unit).trans acks⟩

theorem Processor.fabric : WbFabric.Fabric (device g)
    (bus powerUp inputs)
    (response powerUp inputs)
    (fun n => (states powerUp inputs n).decoder) where
  start unit := by cases unit <;> rfl
  runs n unit := by
    rw [← processor.cpu0HostOut_eq]
    have quiet := processor.noReset n
    cases unit <;>
      simp [states, Trace.run_succ, step, State.decoder, Bram.step, Timer.step, Pic.step, quiet,
        device, WbFabric.Device.wbi]
  disjoint := disjoint
  acks n unit acks := (processor.response_ack_iff n).mpr (.inr ⟨unit, acks⟩)
  foreign n acks quiet := by
    rcases (processor.response_ack_iff n).mp acks with uart | ⟨unit, now⟩
    · obtain ⟨cyc, adr, -⟩ := State.uart1Per_ack uart
      rw [processor.cpu0HostOut_eq] at cyc adr
      rw [adr]
      exact ⟨cyc, not_answers_uart⟩
    · rw [quiet unit] at now
      cases now
  held n := processor.hosts.shared_held

/-- Only one response has its acknowledge high. -/
theorem Processor.ack_unique {n : Nat} {first second : PerBus}
    (mem : first ∈ (states powerUp inputs n).responses (inputs n)) (acks : first.ack = true)
    (also : second ∈ (states powerUp inputs n).responses (inputs n)) (acks' : second.ack = true) :
    first = second := by
  have apart : ∀ unit, ((states powerUp inputs n).uart1Per (inputs n)).ack = true →
      ((states powerUp inputs n).wbo unit).ack ≠ true := by
    intro unit uartAcks unitAcks
    obtain ⟨-, adr, -⟩ := State.uart1Per_ack uartAcks
    rw [processor.cpu0HostOut_eq] at adr
    have answers := (processor.fabric.latched_of_ack (State.wbo_ack _ unit ▸ unitAcks)).answers
    rw [adr] at answers
    exact not_answers_uart unit answers
  rcases State.mem_responses.mp mem with rfl | ⟨unit, rfl⟩ <;>
    rcases State.mem_responses.mp also with rfl | ⟨another, rfl⟩
  · rfl
  · exact absurd acks' (apart another acks)
  · exact absurd acks (apart unit acks')
  · rw [State.wbo_ack] at acks acks'
    rw [processor.fabric.unique acks acks']

theorem Processor.response_eq {n : Nat} {per : PerBus}
    (mem : per ∈ (states powerUp inputs n).responses (inputs n)) (acks : per.ack = true) :
    response powerUp inputs n = per := by
  change (states powerUp inputs n).cpu0PerIn (inputs n) = per
  rw [State.cpu0PerIn, processor.noReset]
  exact RdtMux.output_eq mem acks fun other also acks' =>
    processor.ack_unique also acks' mem acks

/-- An instance that acknowledges gives the response. -/
theorem Processor.response_unit {n : Nat} {unit : Unit}
    (acks : ((states powerUp inputs n).decoder unit).ack = true) :
    response powerUp inputs n = (states powerUp inputs n).wbo unit :=
  processor.response_eq (State.mem_responses.mpr (.inr ⟨unit, rfl⟩))
    ((State.wbo_ack _ unit).trans acks)

theorem Processor.bytes_succ (n : Nat) : (states powerUp inputs (n + 1)).bytes =
    Sum.elim
      (if ((states powerUp inputs n).decoder .ram0).ack then
        (ramSim.access (bus powerUp inputs n).request).apply
          (states powerUp inputs n).ram0.mem.bytes
      else (states powerUp inputs n).ram0.mem.bytes)
      (if ((states powerUp inputs n).decoder .bram0).ack then
        (g.bram.access (bus powerUp inputs n).request).apply
          (states powerUp inputs n).bram0.mem.bytes
      else (states powerUp inputs n).bram0.mem.bytes) := by
  have ram := processor.fabric.bram_bytes (fun n => (states powerUp inputs n).ram0) (i := .ram0)
    rfl (fun _ => rfl) (fun n => by
      rw [← processor.cpu0HostOut_eq]
      simp only [states, Trace.run_succ, step, processor.noReset]) n
  have bram := processor.fabric.bram_bytes (fun n => (states powerUp inputs n).bram0) (i := .bram0)
    rfl (fun _ => rfl) (fun n => by
      rw [← processor.cpu0HostOut_eq]
      simp only [states, Trace.run_succ, step, processor.noReset]) n
  rw [State.bytes, ram, bram]

/-- The two memories are one memory of bytes. -/
theorem Processor.memory : WbFabric.ByteMemory (cell g)
    (bus powerUp inputs)
    (response powerUp inputs)
    (fun n => (states powerUp inputs n).bytes) where
  ack_cyc n acks := processor.fabric.cyc_of_ack acks
  read n index acks found lane := by
    unfold cell at found
    split at found
    · rename_i answers
      obtain rfl := Option.some.inj found
      have mine := processor.fabric.ack_of_answers acks answers
      have latched := processor.fabric.bramLatched
        (fun n => (states powerUp inputs n).ram0) (i := .ram0) rfl (fun _ => rfl) mine
      rw [processor.response_unit mine]
      exact congrArg (byteLane · lane) latched.rdt
    · split at found
      · rename_i answers
        obtain rfl := Option.some.inj found
        have mine := processor.fabric.ack_of_answers acks answers
        have latched := processor.fabric.bramLatched
          (fun n => (states powerUp inputs n).bram0) (i := .bram0) rfl (fun _ => rfl) mine
        rw [processor.response_unit mine]
        exact congrArg (byteLane · lane) latched.rdt
      · cases found
  next n := by
    rw [processor.bytes_succ]
    simp only [processor.fabric.ack_iff, WbFabric.access, cell, HostBus.request]
    cases acks : (response powerUp inputs n).ack with
    | false => simp [State.bytes]
    | true =>
        by_cases ram : (device g .ram0).Answers
            (bus powerUp inputs n).adr
        · have bram : ¬ (device g .bram0).Answers
              (bus powerUp inputs n).adr := fun both =>
            Unit.noConfusion (disjoint _ _ _ ram both)
          simp only [ram, bram, and_true, and_false, if_true, if_false, Option.map_some,
            Option.toList_some, LaneMemory.replay]
          funext index lane
          cases index <;>
            simp [State.bytes, LaneMemory.Access.apply, LaneMemory.Access.touches,
              Bram.Generics.access]
        · by_cases bram : (device g .bram0).Answers
              (bus powerUp inputs n).adr
          · simp only [ram, bram, and_true, and_false, if_true, if_false, Option.map_some,
              Option.toList_some, LaneMemory.replay]
            funext index lane
            cases index <;>
              simp [State.bytes, LaneMemory.Access.apply, LaneMemory.Access.touches,
                Bram.Generics.access]
          · simp [ram, bram, State.bytes, LaneMemory.replay]

/-! ### The UART -/

/-- The UART acknowledges the requests for its address. -/
theorem Processor.uart1Per_ack_iff (n : Nat) :
    ((states powerUp inputs n).uart1Per (inputs n)).ack = true ↔
      (response powerUp inputs n).ack = true ∧
        (bus powerUp inputs n).adr = uart.uartAddress := by
  constructor
  · intro acks
    obtain ⟨-, adr, -⟩ := State.uart1Per_ack acks
    exact ⟨(processor.response_ack_iff n).mpr (.inl acks), processor.cpu0HostOut_eq n ▸ adr⟩
  · rintro ⟨acks, adr⟩
    rcases (processor.response_ack_iff n).mp acks with mine | ⟨unit, other⟩
    · exact mine
    · have answers := (processor.fabric.latched_of_ack other).answers
      rw [adr] at answers
      exact absurd answers (not_answers_uart unit)

theorem Processor.busIs_iff (n : Nat) (write : Bool) :
    WbUart.busIs uart ((inputs n).uart1 ((states powerUp inputs n).cpu0HostOut (inputs n)))
        write = true ↔
      (response powerUp inputs n).ack = true ∧
        (bus powerUp inputs n).adr = uart.uartAddress ∧
        (bus powerUp inputs n).we = write := by
  rw [← and_assoc, ← processor.uart1Per_ack_iff, ← processor.cpu0HostOut_eq]
  simp only [State.uart1Per, WbUart.wbOutputs, WbUart.busIs, Inputs.uart1, Bool.or_eq_true,
    Bool.and_eq_true, beq_iff_eq]
  cases write <;> cases ((states powerUp inputs n).cpu0HostOut (inputs n)).we <;> simp

theorem Processor.busIs_eq (n : Nat) (write : Bool) :
    WbUart.busIs uart ((inputs n).uart1 ((states powerUp inputs n).cpu0HostOut (inputs n)))
        write = uartAcked powerUp inputs write n := by
  rw [Bool.eq_iff_iff, processor.busIs_iff]
  simp [uartAcked, and_assoc]

omit processor in
theorem pushed_of_comb (i : WbUart.Inputs) (r : WbUart.Reg) (quiet : i.reset = false) :
    (if (r.comb uart i).wrFifoWrite then some (r.comb uart i).busDIn else none) =
      if WbUart.busIs uart i true && !i.wrFifoOut.full then some (i.wb.dat.setWidth 8)
      else none := by
  rw [WbUart.Reg.comb, quiet, if_neg Bool.false_ne_true]
  cases WbUart.busIs uart i true <;> simp

theorem Processor.pushed_succ (n : Nat) :
    pushed powerUp inputs (n + 1) = stored powerUp inputs n := by
  have next := pushed_of_comb
    ((inputs n).uart1 ((states powerUp inputs n).cpu0HostOut (inputs n)))
    (states powerUp inputs n).uart1 (processor.noReset n)
  rw [processor.busIs_eq] at next
  exact next.trans (by rw [stored, ← processor.cpu0HostOut_eq]; rfl)

theorem Processor.popped_eq (n : Nat) : popped powerUp inputs n = loaded powerUp inputs n := by
  rw [popped, loaded, WbUart.rdFifoReadEn, processor.busIs_eq]
  change (if (uartAcked powerUp inputs false n && !(inputs n).rdFifoOut.empty) = true then
    some (inputs n).rdFifoOut.readData else none) = _
  split
  · rename_i both
    -- The response is that of the UART, whose low byte is at the head of the FIFO.
    have acked : uartAcked powerUp inputs false n = true := by
      rw [Bool.and_eq_true] at both
      exact both.1
    rw [← processor.busIs_eq, processor.busIs_iff] at acked
    have acks := (processor.uart1Per_ack_iff n).mpr ⟨acked.1, acked.2.1⟩
    have uartPer : response powerUp inputs n = (states powerUp inputs n).uart1Per (inputs n) :=
      processor.response_eq (State.mem_responses.mpr (.inl rfl)) acks
    rw [uartPer]
    simp only [State.uart1Per, WbUart.wbOutputs, Inputs.uart1]
    rw [BitVec.setWidth_append_eq_right]
  · rfl

theorem Processor.uart1Per_of_store {n : Nat} (raised : (bus powerUp inputs n).cyc = true)
    (adr : (bus powerUp inputs n).adr = uart.uartAddress)
    (sel : (bus powerUp inputs n).sel.getLsbD 0 = true) :
    ((states powerUp inputs n).uart1Per (inputs n)).ack = true := by
  rw [← processor.cpu0HostOut_eq] at raised adr sel
  simp only [State.uart1Per, WbUart.wbOutputs, WbUart.busIs, Inputs.uart1, raised, adr, sel]
  cases ((states powerUp inputs n).cpu0HostOut (inputs n)).we <;> rfl

/-! ### Waiting -/

/-- A request for something that the board has is acknowledged in the next cycle. -/
theorem Processor.answers
    (mapped : ∀ n, (bus powerUp inputs n).cyc = true → Mapped g (bus powerUp inputs n).request) :
    WbMuxShared.Answers (muxInputs powerUp inputs) 1
      fun n => if (response powerUp inputs n).ack then 0 else 1 where
  bound n := by split <;> omega
  falls n raised unacked := by
    change (bus powerUp inputs n).cyc = true at raised
    change (response powerUp inputs n).ack = false at unacked
    have soon : (response powerUp inputs (n + 1)).ack = true := by
      rcases mapped n raised with ⟨unit, answers⟩ | ⟨adr, sel⟩
      · rcases processor.fabric.answered raised answers with acks | ⟨-, acks⟩
        · have now := processor.fabric.acks n unit acks
          rw [unacked] at now
          cases now
        · exact processor.fabric.acks (n + 1) unit acks
      · have acks := processor.uart1Per_of_store raised adr sel
        have now := (processor.response_ack_iff n).mpr (.inl acks)
        rw [unacked] at now
        cases now
    simp [soon, unacked]

/-- A request for something that the board does not have is not acknowledged. -/
theorem Processor.silent {n : Nat} (unmapped : ¬ Mapped g (bus powerUp inputs n).request)
    (quiet : ∀ unit, ((states powerUp inputs n).decoder unit).ack = false) :
    (response powerUp inputs n).ack = false := by
  by_contra acked
  rcases (processor.response_ack_iff n).mp (by simpa using acked) with acks | ⟨unit, acks⟩
  · obtain ⟨-, adr, sel⟩ := State.uart1Per_ack acks
    rw [processor.cpu0HostOut_eq] at adr sel
    exact unmapped (.inr ⟨adr, sel⟩)
  · rw [quiet unit] at acks
    cases acks

end Runs

/-! ### The board -/

/-- What the board does for its processor. -/
structure Serves (powerUp : State g) (inputs : Nat → Inputs) : Prop where
  /-- The two buses see one memory of bytes, made of the two memories. -/
  memory : WbMuxShared.Linearizes (muxInputs powerUp inputs) (cell g)
    fun n => (states powerUp inputs n).bytes
  /-- A device is handed the stores to its registers, each once and in order. -/
  registers : ∀ unit n,
    Trace.history (fun n => WbFabric.strobe ((states powerUp inputs n).decoder unit)) n =
      (WbMuxShared.acked (muxInputs powerUp inputs) n).filterMap fun event =>
        (device g unit).registerWrite event.2.1
  /-- So is the transmit FIFO of the UART. -/
  sent : ∀ n, Trace.history (pushed powerUp inputs) (n + 1) =
    Trace.history (stored powerUp inputs) n
  /-- No byte leaves the receive FIFO that a load is not given. -/
  received : ∀ n, Trace.history (popped powerUp inputs) n =
    Trace.history (loaded powerUp inputs) n
  /-- If all requests are for what the board has, none waits for eight cycles. -/
  served : (∀ n, (bus powerUp inputs n).cyc = true → Mapped g (bus powerUp inputs n).request) →
    ∀ n port, ((inputs n).hostPorts port).cyc = true →
      ∃ m, n ≤ m ∧ m < n + 8 ∧ (perPorts powerUp inputs m port).ack = true

theorem board_serves (powerUp : State g) (inputs : Nat → Inputs)
    (processor : Processor powerUp inputs) : Serves powerUp inputs where
  memory := processor.hosts.linearizes processor.memory
  registers unit n := by
    have served : servedRequests (fun _ => true) (bus powerUp inputs) (response powerUp inputs) n =
        _ := processor.hosts.servedRequests_eq n
    rw [processor.fabric.strobes unit n, served, List.filterMap_map]
    rfl
  sent n := by
    induction n with
    | zero => rfl
    | succ n ih => rw [Trace.history_succ, ih, processor.pushed_succ, Trace.history_succ]
  received n := by
    rw [show popped powerUp inputs = loaded powerUp inputs from funext processor.popped_eq]
  served mapped n port raised := by
    obtain ⟨m, after, soon, acks⟩ := processor.hosts.served (processor.answers mapped) raised
    exact ⟨m, after, soon, perPorts_eq m port ▸ acks⟩

/-- A request for something that the board does not have stops both buses for ever. -/
theorem unmapped_stops (powerUp : State g) (inputs : Nat → Inputs)
    (processor : Processor powerUp inputs) (n : Nat) (raised : (bus powerUp inputs n).cyc = true)
    (unmapped : ¬ Mapped g (bus powerUp inputs n).request) (later : Nat) :
    bus powerUp inputs (n + later) = bus powerUp inputs n ∧
      ∀ port, (perPorts powerUp inputs (n + later) port).ack = false := by
  have stuck := processor.fabric.stuck raised (fun unit answers => unmapped (.inl ⟨unit, answers⟩))
    (fun m same quiet => processor.silent (n := m) (by rw [same]; exact unmapped) quiet) later
  refine ⟨stuck.1, fun port => ?_⟩
  rw [perPorts_eq]
  by_contra acks
  have answered := (WbMuxShared.owner_of_ack (by simpa using acks)).2.2
  change (response powerUp inputs (n + later)).ack = true at answered
  rw [stuck.2] at answered
  cases answered

/-! ### Two runs -/

def sixteenWords : Generics := ⟨64, by decide⟩

def powerUp : State sixteenWords where
  cpu0Mux := WbMux.regZero
  ram0 := ⟨MmregDecoder.zeroReg, fun _ => 0⟩
  uart1 := WbUart.Reg.new
  timer0 := ⟨MmregDecoder.zeroReg, timer.zeroReg⟩
  pic0 := ⟨MmregDecoder.zeroReg, 0, 0⟩
  bram0 := ⟨MmregDecoder.zeroReg, fun _ => 0x6f⟩

/-- The processor fetches the first word while it stores a character. -/
def fetchStore (n : Nat) : Inputs where
  reset := false
  ibusAdr := 0
  ibusCyc := decide (n ≤ 2)
  dbusHost := ⟨0x40000010, 0x41, 0b0001, true, decide (n ≤ 5)⟩
  rdFifoOut := ⟨0, false, true⟩
  wrFifoOut := ⟨0, false, true⟩
  dataStreamInAck := false

theorem fetchStore_processor : Processor powerUp fetchStore where
  noReset _ := rfl
  held n port raised unacked := by
    have early : n < 6 := by
      simp only [fetchStore, Inputs.hostPorts] at raised
      split at raised <;> simp at raised <;> omega
    revert port
    revert n
    decide +kernel
  dropped n port acks := by
    by_cases early : n < 5
    · revert port
      revert n
      decide +kernel
    · simp only [fetchStore, Inputs.hostPorts]
      split <;> simp <;> omega

theorem board_serves_fetchStore :
    WbMuxShared.acked (muxInputs powerUp fetchStore) 6 =
        [(0, ⟨0, 0, 0b1111, false⟩, 0x6f), (1, ⟨0x40000010, 0x41, 0b0001, true⟩, 0x500)] ∧
      Serves powerUp fetchStore :=
  ⟨by decide +kernel, board_serves powerUp fetchStore fetchStore_processor⟩

/-- A load from where the board has nothing. -/
def strayLoad (_ : Nat) : Inputs where
  reset := false
  ibusAdr := 0
  ibusCyc := false
  dbusHost := ⟨0x80000000, 0, 0b1111, false, true⟩
  rdFifoOut := ⟨0, false, true⟩
  wrFifoOut := ⟨0, false, true⟩
  dataStreamInAck := false

theorem strayLoad_bus (s : State sixteenWords) (n : Nat) :
    (s.cpu0HostOut (strayLoad n)).cyc = true →
      (s.cpu0HostOut (strayLoad n)).adr = 0x80000000 := by
  unfold State.cpu0HostOut WbMux.hostPort Inputs.hostPorts
  cases s.cpu0Mux.state with
  | idle =>
      intro raised
      cases raised
  | tx =>
      by_cases first : s.cpu0Mux.activePortIndex = 0
      · simp [strayLoad, first]
      · simp [strayLoad, first]

theorem strayLoad_unmapped : ¬ Mapped sixteenWords ⟨0x80000000, 0, 0b1111, false⟩ := by
  rintro (⟨unit, answers⟩ | ⟨adr, -⟩)
  · cases unit <;>
      simp only [answers_ram0, answers_bram0, answers_timer0, answers_pic0] at answers <;>
      revert answers <;> decide
  · revert adr
    decide

/-- All decoders stay at rest. -/
theorem strayLoad_rests (n : Nat) (unit : Unit) :
    (states powerUp strayLoad n).decoder unit = MmregDecoder.zeroReg := by
  induction n generalizing unit with
  | zero => cases unit <;> rfl
  | succ n ih =>
      have unraised : ¬ ((device sixteenWords unit).Answers
          ((states powerUp strayLoad n).cpu0HostOut (strayLoad n)).adr ∧
            ((states powerUp strayLoad n).cpu0HostOut (strayLoad n)).cyc = true) := by
        rintro ⟨answers, raised⟩
        rw [strayLoad_bus _ n raised] at answers
        exact strayLoad_unmapped (.inl ⟨unit, answers⟩)
      have next : (states powerUp strayLoad (n + 1)).decoder unit =
          MmregDecoder.comb (device sixteenWords unit).decoder false
            ((device sixteenWords unit).wbi
              ((states powerUp strayLoad n).cpu0HostOut (strayLoad n)))
            ((states powerUp strayLoad n).decoder unit) := by
        cases unit <;> rfl
      rw [next, ih, MmregDecoder.comb_of_unraised rfl (WbFabric.Device.unraised unraised)]

theorem strayLoad_processor : Processor powerUp strayLoad where
  noReset _ := rfl
  held _ _ _ _ := rfl
  dropped n port acks := by
    have acked : ((states powerUp strayLoad n).cpu0PerIn (strayLoad n)).ack = true := by
      unfold perPorts WbMux.perPorts at acks
      split at acks
      · split at acks
        · exact acks
        · cases acks
      · cases acks
    obtain ⟨per, mem, now⟩ := RdtMux.output_ack_iff.mp acked
    rcases State.mem_responses.mp mem with rfl | ⟨unit, rfl⟩
    · obtain ⟨cyc, adr, -⟩ := State.uart1Per_ack now
      rw [strayLoad_bus _ n cyc] at adr
      cases adr
    · rw [State.wbo_ack, strayLoad_rests] at now
      cases now

theorem unmapped_stops_strayLoad : (bus powerUp strayLoad 2).adr = 0x80000000 ∧
    ∀ later port, (perPorts powerUp strayLoad (2 + later) port).ack = false :=
  ⟨by decide +kernel, fun later =>
    (unmapped_stops powerUp strayLoad strayLoad_processor 2 (by decide +kernel)
      (by rw [show (bus powerUp strayLoad 2).request = ⟨0x80000000, 0, 0b1111, false⟩ by
            decide +kernel]
          exact strayLoad_unmapped) later).2⟩

end Rv32Ddr3exec

end Cocoapuffs
