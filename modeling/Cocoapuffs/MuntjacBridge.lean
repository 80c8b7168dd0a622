import Cocoapuffs.TlRun
import Cocoapuffs.WbCdcTransfer

/-!
# The converter in front of the clock domain crossing

The board's `muntjac_tl2wb` and `muntjac_wb_bridge`: `tl_c2wblite` drives
`wb_cdc`, and a word memory sits behind the crossing.  The crossing keeps its
acknowledge up for several host cycles and the converter does not remember
having taken it, so a wait that begins under the acknowledge of the access
before is over at once and nothing reaches the bus.  Where no wait begins so,
the messages are carried out one after the other.
-/

namespace Cocoapuffs

namespace TlConverter

/-- The converter is a polite host to a bus on which acknowledges move with its
own clock. -/
theorem Runs.polite {p : Profile} {core : Nat → Core} {inputs : Nat → Inputs}
    (runs : Runs p core inputs)
    (ackHeld : ∀ n, (inputs n).clk = false → (inputs (n + 1)).wbI.ack = (inputs n).wbI.ack) :
    WbCdc.PoliteHost (fun n => (core n).wbO) fun n => (inputs n).wbI.ack where
  raise n low high := by
    left
    cases tick : (inputs n).clk with
    | false => rw [runs.next_of_quiet tick, low] at high; cases high
    | true =>
        rw [runs.next_of_tick tick] at high
        exact (edge_cyc high).2
  hold n cyc silent _ := runs.wbO_held cyc (by simp [silent])
  drop n _ ack ackLow := by
    cases tick : (inputs n).clk with
    | false => rw [ackHeld n tick, ack] at ackLow; cases ackLow
    | true => exact runs.cyc_low_of_ack tick ack

end TlConverter

namespace MuntjacBridge

open TileLink TlConverter

structure State where
  tl2wb : TlC2wblite.State
  wbBridge : WbCdc.State
deriving DecidableEq

/-- The ports of the pair at one instant. -/
structure Inputs where
  clkHost : Bool
  clkPer : Bool
  rst : Bool
  tlI : HostTypeC
  perI : PerBus
deriving DecidableEq

def Inputs.tl2wb (i : Inputs) (s : State) : TlC2wblite.Inputs :=
  ⟨i.clkHost, i.rst, i.tlI, s.wbBridge.host.hostO⟩

def Inputs.wbBridge (i : Inputs) (s : State) : WbCdc.Inputs :=
  ⟨i.clkHost, i.clkPer, i.rst, s.tl2wb.core.wbO, i.perI⟩

def State.reset (s : State) : State := ⟨s.tl2wb.reset, s.wbBridge.reset⟩

/-- One instant of the pair. -/
def step (i : Inputs) (s : State) : State :=
  ⟨TlC2wblite.step (i.tl2wb s) s.tl2wb, WbCdc.step (i.wbBridge s) s.wbBridge⟩

/-- The states from a reset on. -/
def states (start : State) (inputs : Nat → Inputs) : Nat → State :=
  Trace.run step start.reset inputs

section Parts

variable (start : State) (inputs : Nat → Inputs)

/-- The converter's side of a trace. -/
def core (n : Nat) : Core := (states start inputs n).tl2wb.core

def coreInputs (n : Nat) : TlConverter.Inputs :=
  ((inputs n).tl2wb (states start inputs n)).core

/-- The crossing's side of a trace. -/
def bridgeInputs (n : Nat) : WbCdc.Inputs :=
  (inputs n).wbBridge (states start inputs n)

/-- The request beats taken before an instant. -/
def accepted : Nat → List AType :=
  TlConverter.accepted (core start inputs) (coreInputs start inputs)

/-- The response beats delivered before an instant. -/
def delivered : Nat → List DType :=
  TlConverter.delivered (core start inputs) (coreInputs start inputs)

/-- The cycles presented to the memory, and the writes among them. -/
def presented : Nat → List Request :=
  WbCdc.presented start.wbBridge (bridgeInputs start inputs)

def presentedWrites (n : Nat) : List Request :=
  (presented start inputs n).filter Request.we

variable {start} {inputs}

theorem states_wbBridge (n : Nat) :
    (states start inputs n).wbBridge =
      WbCdc.states start.wbBridge (bridgeInputs start inputs) n := by
  induction n with
  | zero => rfl
  | succ n ih =>
      rw [WbCdc.states, Trace.run_succ, ← WbCdc.states, ← ih]
      rfl

theorem runs (start : State) (noReset : ∀ n, (inputs n).rst = false) :
    Runs cProfile (core start inputs) (coreInputs start inputs) where
  start := ⟨start.tl2wb.core, rfl⟩
  next _ := TlC2wblite.step_core _ _
  noReset := noReset

/-- The environment of the pair: both clocks keep running, `d_ready` is high and a
word memory that answers every cycle sits behind the crossing. -/
structure Environment (start : State) (inputs : Nat → Inputs)
    (memory : Nat → WordMemory) : Prop where
  noReset : ∀ n, (inputs n).rst = false
  hostClock : Trace.Recurs fun n => (inputs n).clkHost = true
  perClock : Trace.Recurs fun n => (inputs n).clkPer = true
  dReady : ∀ n, (inputs n).tlI.dReady = true
  slave : MemorySlave (fun n => (inputs n).clkPer)
    (fun n => (states start inputs n).wbBridge.per.perO) (fun n => (inputs n).perI) memory
  serves : Serves (fun n => (inputs n).clkPer)
    (fun n => (states start inputs n).wbBridge.per.perO) fun n => (inputs n).perI

/-- What the pair is for: the messages are carried out one after the other. -/
structure CarriesOut (start : State) (inputs : Nat → Inputs)
    (memory : Nat → WordMemory) : Prop where
  /-- The response beats are those of the sequential memory, in order. -/
  responses : ∀ n (messages : List (Message cProfile)),
    accepted start inputs n <+: messages.flatMap Message.beats →
    delivered start inputs n <+: (sequential (memory 0) messages).responses
  /-- The writes presented are the sequential ones, each once and in order, -/
  writes : ∀ n (messages : List (Message cProfile)),
    accepted start inputs n <+: messages.flatMap Message.beats →
    presentedWrites start inputs n <+: (sequential (memory 0) messages).writes
  /-- all those of the beats taken before a response is raised, -/
  responded : ∀ n (messages : List (Message cProfile)),
    accepted start inputs n <+: messages.flatMap Message.beats →
    (core start inputs n).d.valid = true →
    presentedWrites start inputs n =
      ((accepted start inputs n).foldl (Burst.accept cProfile)
        (Burst.start (memory 0))).outcome.writes
  /-- and all of them in the end. -/
  completes : ∀ n (messages : List (Message cProfile)),
    accepted start inputs n = messages.flatMap Message.beats →
    ∃ m, n ≤ m ∧ accepted start inputs m = accepted start inputs n ∧
      delivered start inputs m = (sequential (memory 0) messages).responses ∧
      presentedWrites start inputs m = (sequential (memory 0) messages).writes

/-- No wait for the bus begins under an acknowledge. -/
def Unstale (start : State) (inputs : Nat → Inputs) (n : Nat) : Prop :=
  (inputs n).clkHost = true → (core start inputs n).Waiting →
    (core start inputs n).wbO.cyc = false →
    (states start inputs n).wbBridge.host.hostO.ack = false

section Bridge

variable {memory : Nat → WordMemory} (env : Environment start inputs memory)
include env

theorem hostO_of_quiet {n : Nat} (quiet : (inputs n).clkHost = false) :
    (states start inputs (n + 1)).wbBridge.host = (states start inputs n).wbBridge.host := by
  simp [states, Trace.run_succ, step, WbCdc.step, Inputs.wbBridge, quiet, env.noReset n]

theorem polite : WbCdc.PoliteHost (fun n => (bridgeInputs start inputs n).hostI)
    fun n =>
      (WbCdc.states start.wbBridge (bridgeInputs start inputs) n).host.hostO.ack := by
  simp only [← states_wbBridge]
  exact (runs start env.noReset).polite fun n quiet =>
    congrArg (fun host => host.hostO.ack) (hostO_of_quiet env quiet)

theorem slave : MemorySlave (fun n => (bridgeInputs start inputs n).clkPer)
    (fun n => (WbCdc.states start.wbBridge (bridgeInputs start inputs) n).per.perO)
    (fun n => (bridgeInputs start inputs n).perI) memory := by
  simp only [← states_wbBridge]
  exact env.slave

theorem requests_eq (n : Nat) :
    WbCdc.requests (bridgeInputs start inputs) n =
      served (core start inputs) (coreInputs start inputs) n ++
        if (core start inputs n).wbO.cyc then [(core start inputs n).wbO.request] else [] :=
  (runs start env.noReset).requests_eq n

/-- A read that the crossing acknowledges is one of the memory that the
requests before it have left. -/
theorem honestBus (unstale : ∀ n, Unstale start inputs n) :
    HonestBus (core start inputs) (coreInputs start inputs) (memory 0) where
  raised n tick waiting ack := by
    by_contra low
    have silent := unstale n tick waiting (by simpa using low)
    exact absurd (ack.symm.trans silent) (by decide)
  read n tick cyc ack read := by
    have ack' : (WbCdc.states start.wbBridge (bridgeInputs start inputs) n).host.hostO.ack =
        true := by
      rw [← states_wbBridge]
      exact ack
    obtain ⟨all, earlier, last⟩ := WbCdc.exchanges_of_ack env.noReset (polite env) ack'
    rw [requests_eq env, if_pos cyc, WbCdc.perServed, servedRequests_eq_map] at all
    rw [WbCdc.perAnswers_eq_map] at last
    obtain ⟨before, _, split, requests, single⟩ := List.map_eq_append_iff.mp all
    obtain ⟨exchange, rfl, request⟩ := List.map_eq_singleton_iff.mp single
    rw [split, List.map_append] at last
    have data := (List.append_inj' last rfl).2
    simp only [List.map_cons, List.map_nil, List.cons.injEq, and_true] at data
    have word := (slave env).exchange_read n split (by rw [request]; exact read)
    rw [request, data, requests, ← states_wbBridge] at word
    exact word

theorem presentedWrites_le (n : Nat) :
    presentedWrites start inputs n <+:
      (doneBefore (memory 0) (core start inputs) (coreInputs start inputs) n).writes ++
        if (core start inputs n).wbO.cyc && (core start inputs n).wbO.we
        then [(core start inputs n).wbO.request] else [] := by
  have presented := WbCdc.presented_requests env.noReset (polite env) n
  rw [requests_eq env] at presented
  have filtered := presented.filter Request.we
  rw [List.filter_append] at filtered
  have current : (if (core start inputs n).wbO.cyc then [(core start inputs n).wbO.request]
      else []).filter Request.we =
      if (core start inputs n).wbO.cyc && (core start inputs n).wbO.we
      then [(core start inputs n).wbO.request] else [] := by
    cases (core start inputs n).wbO.cyc <;>
      cases write : (core start inputs n).wbO.we <;>
      simp [HostBus.request, write]
  rw [current] at filtered
  exact filtered

theorem presentedWrites_of_low {n : Nat} (low : (core start inputs n).wbO.cyc = false) :
    presentedWrites start inputs n =
      (doneBefore (memory 0) (core start inputs) (coreInputs start inputs) n).writes := by
  have presented := WbCdc.presented_of_low env.noReset (polite env) (n := n) low
  rw [requests_eq env, low] at presented
  simp [presentedWrites, MuntjacBridge.presented, presented, doneBefore]

theorem serves : Serves (fun n => (coreInputs start inputs n).clk)
    (fun n => (core start inputs n).wbO) fun n => (coreInputs start inputs n).wbI := by
  have serves : Serves (fun n => (bridgeInputs start inputs n).clkPer)
      (fun n => (WbCdc.states start.wbBridge (bridgeInputs start inputs) n).per.perO)
      fun n => (bridgeInputs start inputs n).perI := by
    simp only [← states_wbBridge]
    exact env.serves
  have acked : Trace.LeadsTo
      (fun n => (WbCdc.states start.wbBridge (bridgeInputs start inputs) n).host.hostO.ack =
        true)
      (fun n => (WbCdc.states start.wbBridge (bridgeInputs start inputs) n).host.hostO.ack =
        true ∧ (inputs n).clkHost = true) := by
    refine Trace.LeadsTo.until_event (fun n _ => env.hostClock n) fun n ack quiet => ?_
    rw [← states_wbBridge, hostO_of_quiet env (by simpa using quiet), states_wbBridge]
    exact ack
  intro n cyc
  obtain ⟨m, le, ack⟩ := WbCdc.ack_of_raised env.noReset env.hostClock env.perClock serves
    (polite env) n cyc
  obtain ⟨k, le', ack, tick⟩ := acked m ack
  rw [← states_wbBridge] at ack
  exact ⟨k, le.trans le', tick, ack⟩

end Bridge

/-- Where no wait for the bus begins under an acknowledge, the pair carries out
its messages. -/
theorem muntjacBridge_carriesOut (start : State) (inputs : Nat → Inputs)
    (memory : Nat → WordMemory) (env : Environment start inputs memory)
    (unstale : ∀ n, Unstale start inputs n) : CarriesOut start inputs memory where
  responses n messages isPrefix :=
    (runs start env.noReset).delivered_sequential (honestBus env unstale) env.dReady isPrefix
  writes n messages isPrefix := by
    have tracks := (runs start env.noReset).tracks_messages (honestBus env unstale)
      env.dReady isPrefix
    obtain ⟨rest, whole⟩ := isPrefix
    obtain ⟨final, sequentially⟩ := Burst.foldl_messages (memory 0) messages
    rw [← whole, accepted, List.foldl_append] at sequentially
    calc presentedWrites start inputs n
        <+: _ := presentedWrites_le env n
      _ <+: _ := tracks.writes ((runs start env.noReset).signals n)
      _ <+: _ := Burst.foldl_writes cProfile _ rest
      _ = (sequential (memory 0) messages).writes := by rw [sequentially]
  responded n messages isPrefix valid := by
    have tracks := (runs start env.noReset).tracks_messages (honestBus env unstale)
      env.dReady isPrefix
    obtain ⟨low, written⟩ := (runs start env.noReset).responded env.dReady n valid
    rw [presentedWrites_of_low env low]
    exact tracks.writes_eq written
  completes n messages all := by
    obtain ⟨m, le, ready, same, answered, done⟩ := (runs start env.noReset).completes
      (honestBus env unstale) env.dReady env.hostClock (serves env) all
    have low : (core start inputs m).wbO.cyc = false := by
      have signals := (runs start env.noReset).signals m
      by_contra high
      rcases signals.ready ready with state | state <;>
        rcases signals.cyc (by simpa using high) with busy | busy <;>
        simp [state] at busy
    exact ⟨m, le, same, answered, by rw [presentedWrites_of_low env low, done]⟩

end Parts

/-! ### A store and a load, and a read of two words -/

/-- Registers as a simulator leaves them before reset. -/
def powerUp : State where
  tl2wb := ⟨⟨.idle, AType.new, 0, 0, 0, false, DType.new, HostBus.new⟩, BType.new,
    false, false⟩
  wbBridge := ⟨⟨.stHostIdle, 0, 0, 0, false, false, SyncChain.zero, PerBus.new⟩,
    ⟨.stPerIdle, SyncChain.zero, false, 0, HostBus.new⟩⟩

/-- Both clocks rise together, and every response is taken at once. -/
def together (a : AType) (perI : PerBus) : Inputs where
  clkHost := true
  clkPer := true
  rst := false
  tlI := { a := a, c := CType.new, e := EType.new, bReady := true, dReady := true }
  perI := perI

/-- What a memory of these words has come to when it is what answers a run. -/
def answering (inputs : Nat → Inputs) (start : WordMemory) : Nat → WordMemory :=
  memoryTrace (fun _ => true) (fun n => (states powerUp inputs n).wbBridge.per.perO)
    (fun n => (inputs n).perI) start

/-- A byte is stored at `0x41`, and its word is loaded when the acknowledge of the
store is over. -/
def storeLoad (n : Nat) : Inputs :=
  together
    (if n ≤ 20 then ⟨opPutFullData, 0, 0, 1, 0x41, 0b0010, 0xab00, false, decide (n ≤ 1)⟩
      else ⟨opGet, 0, 2, 1, 0x40, 0b1111, 0, false, decide (n = 21)⟩)
    ⟨if n ≤ 20 then 0 else 0xabfe, decide (n = 9 ∨ n = 31)⟩

theorem storeLoad_rest {n : Nat} (le : 50 ≤ n) :
    states powerUp storeLoad n = states powerUp storeLoad 50 := by
  refine Trace.run_at_rest rfl (fun n le => ?_) le
  have late : ¬ n ≤ 20 ∧ n ≠ 21 ∧ n ≠ 9 ∧ n ≠ 31 := by omega
  have quiet : storeLoad n = storeLoad 50 := by simp [storeLoad, late]
  rw [quiet]
  decide +kernel

theorem storeLoad_environment :
    Environment powerUp storeLoad (answering storeLoad fun _ => 0xfe) where
  noReset _ := rfl
  hostClock n := ⟨n, le_rfl, rfl⟩
  perClock n := ⟨n, le_rfl, rfl⟩
  dReady _ := rfl
  slave := by
    refine ⟨fun n _ ack => ?_, fun n _ ack => ?_, fun _ => rfl⟩
    all_goals
      obtain rfl | rfl : n = 9 ∨ n = 31 := by simpa [storeLoad, together] using ack
    all_goals decide +kernel
  serves := by
    apply Serves.of_rest 50
    · intro n late
      rw [storeLoad_rest late]
      decide +kernel
    · decide +kernel

theorem muntjacBridge_carriesOut_storeLoad :
    (presentedWrites powerUp storeLoad 50 = [⟨0x41, 0xab00, 0b0010, true⟩] ∧
        (delivered powerUp storeLoad 50).map DType.data = [0, 0xabfe]) ∧
      CarriesOut powerUp storeLoad (answering storeLoad fun _ => 0xfe) := by
  refine ⟨by decide +kernel, muntjacBridge_carriesOut powerUp storeLoad _
    storeLoad_environment ?_⟩
  rintro n - waiting low
  have early : n < 50 := by
    by_contra late
    rw [core, storeLoad_rest (by omega)] at waiting
    revert waiting
    decide +kernel
  revert waiting low
  revert n early
  decide +kernel

/-- A read of two words from `0x40` on. -/
def getMessage : Message cProfile where
  head := ⟨opGet, 0, 3, 1, 0x40, 0xf, 0, false, true⟩
  tail := []
  kind := Or.inl ⟨rfl, rfl⟩
  control := by simp

/-- The read is offered until it is taken; the memory answers once. -/
def twoWords (n : Nat) : Inputs :=
  together { getMessage.head with valid := decide (n ≤ 1) } ⟨0xcafe, decide (n = 9)⟩

/-- The words at `0x40` and `0x44` differ. -/
def differing (index : BitVec 30) : BitVec 32 :=
  if index = wordIndex 0x44 then 0xbeef else 0xcafe

theorem twoWords_rest {n : Nat} (le : 24 ≤ n) :
    states powerUp twoWords n = states powerUp twoWords 24 := by
  refine Trace.run_at_rest rfl (fun n le => ?_) le
  have late : ¬ n ≤ 1 ∧ n ≠ 9 := by omega
  have quiet : twoWords n = twoWords 24 := by simp [twoWords, late]
  rw [quiet]
  decide +kernel

theorem twoWords_environment :
    Environment powerUp twoWords (answering twoWords differing) where
  noReset _ := rfl
  hostClock n := ⟨n, le_rfl, rfl⟩
  perClock n := ⟨n, le_rfl, rfl⟩
  dReady _ := rfl
  slave := by
    refine ⟨fun n _ ack => ?_, fun n _ ack => ?_, fun _ => rfl⟩
    all_goals
      obtain rfl : n = 9 := by simpa [twoWords, together] using ack
    all_goals decide +kernel
  serves := by
    apply Serves.of_rest 24
    · intro n late
      rw [twoWords_rest late]
      decide +kernel
    · decide +kernel

/-- The second word of a longer read is the first one again: its wait begins
under the acknowledge of the first, and no cycle is raised for it. -/
theorem muntjacBridge_twoWords_stale :
    Environment powerUp twoWords (answering twoWords differing) ∧
      ¬ CarriesOut powerUp twoWords (answering twoWords differing) := by
  refine ⟨twoWords_environment, fun carriesOut => ?_⟩
  have responses := carriesOut.responses 24 [getMessage] (by decide +kernel)
  revert responses
  decide +kernel

end MuntjacBridge

end Cocoapuffs
