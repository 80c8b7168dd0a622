import Cocoapuffs.Axi

/-!
# The simple Wishbone to AXI converter

The entity `wb2axi_simple`.  An address channel is armed whenever the host holds
`cyc` and the channel is free, also after the address of the current request has
been sent.  So the converter issues one transaction per request only where there
is no request.
-/

namespace Cocoapuffs

namespace Wb2axiSimple

/-- `state_type`. -/
structure StateType where
  wbPer : PerBus
  axiHost : Axi.HostBus
  awSent : Bool
  wSent : Bool
  bSent : Bool
  arSent : Bool
  rSent : Bool
deriving DecidableEq

/-- `new_state_type`. -/
def StateType.new : StateType :=
  ⟨PerBus.new, Axi.HostBus.new, false, false, false, false, false⟩

/-- The first half of the process `comb`: the Wishbone write cycle. -/
def writeCycle (wbHost : HostBus) (axiPer : Axi.PerBus) (q : StateType) : StateType :=
  let v := q
  let v := { v with axiHost.w.valid := true }
  -- First load AXI AW and W values.
  let awConsumed := q.axiHost.aw.valid && axiPer.aw.ready
  let awOk := !q.axiHost.aw.valid || awConsumed
  let v :=
    if wbHost.cyc && awOk && wbHost.we then
      { v with
        axiHost.aw := { valid := true, addr := wbHost.adr, len := 0, id := 1, burst := 0 }
        axiHost.w := { data := wbHost.dat, strb := wbHost.sel, last := true, valid := true } }
    else v
  let v := if awConsumed then { v with awSent := true, axiHost.aw.valid := false } else v
  -- AXI W send.
  let v := { v with axiHost.w.valid := false }
  let wConsumed := q.axiHost.w.valid && axiPer.w.ready
  let v :=
    if q.awSent && !q.wSent then
      { v with axiHost.aw.valid := false, axiHost.w.valid := true }
    else v
  let v := if wConsumed then { v with wSent := true, axiHost.w.valid := false } else v
  -- Handle B bus transaction. Mark ready and wait.
  let v :=
    if q.awSent && q.wSent && !q.bSent then { v with axiHost.b.ready := true } else v
  let bConsumed := q.axiHost.b.ready && axiPer.b.valid
  let v := if bConsumed then { v with bSent := true, axiHost.b.ready := false } else v
  -- Mark end of the Wishbone cycle
  let v := if q.awSent && q.wSent && q.bSent then { v with wbPer.ack := true } else v
  -- If we acked in the last cycle, reset ack, and reset all valid and state bits.
  if q.wbPer.ack then
    { v with
      wbPer.ack := false
      axiHost.aw.valid := false
      axiHost.w.valid := false
      axiHost.b.ready := false
      awSent := false
      wSent := false
      bSent := false }
  else v

/-- The second half: the Wishbone read cycle. -/
def readCycle (wbHost : HostBus) (axiPer : Axi.PerBus) (q v : StateType) : StateType :=
  let arConsumed := q.axiHost.ar.valid && axiPer.ar.ready
  let arOk := !q.axiHost.ar.valid || arConsumed
  let v :=
    if wbHost.cyc && arOk && !wbHost.we then
      { v with
        axiHost.ar := { valid := true, addr := wbHost.adr, len := 0, id := 1, burst := 3 } }
    else v
  let v :=
    if arConsumed && !q.arSent then { v with arSent := true, axiHost.ar.valid := false } else v
  let v := if q.arSent then { v with axiHost.r.ready := true } else v
  let rOk := q.axiHost.r.ready && axiPer.r.valid
  let v :=
    if rOk then
      let v := { v with axiHost.r.ready := false, rSent := true, wbPer.rdt := axiPer.r.data }
      if q.arSent && v.rSent then { v with wbPer.ack := true } else v
    else v
  -- Invalidate ACK for the read transaction.
  if q.wbPer.ack then
    { v with
      wbPer.ack := false
      axiHost.ar.valid := false
      axiHost.r.ready := false
      arSent := false
      rSent := false }
  else v

/-- The process `comb`. -/
def comb (wbHost : HostBus) (axiPer : Axi.PerBus) (q : StateType) : StateType :=
  readCycle wbHost axiPer q (writeCycle wbHost axiPer q)

/-- The ports at one edge. -/
structure Inputs where
  reset : Bool
  wbHost : HostBus
  axiPer : Axi.PerBus

/-- The process `seq`. -/
def step (i : Inputs) (q : StateType) : StateType :=
  if i.reset then StateType.new else comb i.wbHost i.axiPer q

/-! ### What one edge does -/

section Edges

variable {wbHost : HostBus} {axiPer : Axi.PerBus} {q : StateType}

theorem readCycle_aw (v : StateType) :
    (readCycle wbHost axiPer q v).axiHost.aw = v.axiHost.aw := by
  simp only [readCycle, apply_ite StateType.axiHost, apply_ite Axi.HostBus.aw, ite_self]

theorem comb_of_ack (ack : q.wbPer.ack = true) :
    (comb wbHost axiPer q).axiHost.aw.valid = false ∧
      (comb wbHost axiPer q).axiHost.ar.valid = false := by
  constructor
  · rw [comb, readCycle_aw, writeCycle, if_pos ack]
  · rw [comb, readCycle, if_pos ack]

theorem comb_new (low : wbHost.cyc = false) : comb wbHost axiPer StateType.new = StateType.new := by
  simp [comb, writeCycle, readCycle, StateType.new, Axi.HostBus.new, PerBus.new, low]

/-- A write on its way, before its response. -/
structure Writing (q : StateType) (awValid awSent wValid wSent : Bool) : Prop where
  ack : q.wbPer.ack = false
  awValid : q.axiHost.aw.valid = awValid
  awSent : q.awSent = awSent
  wValid : q.axiHost.w.valid = wValid
  wSent : q.wSent = wSent
  bReady : q.axiHost.b.ready = false
  bSent : q.bSent = false
  arValid : q.axiHost.ar.valid = false
  arSent : q.arSent = false
  rReady : q.axiHost.r.ready = false

theorem writing_of_new (cyc : wbHost.cyc = true) (we : wbHost.we = true) :
    Writing (comb wbHost axiPer StateType.new) true false false false := by
  constructor <;>
    simp [comb, writeCycle, readCycle, StateType.new, Axi.HostBus.new, PerBus.new, cyc, we]

theorem Writing.awWaits (writing : Writing q true false false false)
    (cyc : wbHost.cyc = true) (we : wbHost.we = true) (unready : axiPer.aw.ready = false) :
    Writing (comb wbHost axiPer q) true false false false := by
  obtain ⟨ack, awValid, awSent, wValid, wSent, bReady, bSent, arValid, arSent, rReady⟩ := writing
  constructor <;> simp [comb, writeCycle, readCycle, *]

theorem Writing.awTaken (writing : Writing q true false false false)
    (cyc : wbHost.cyc = true) (we : wbHost.we = true) (ready : axiPer.aw.ready = true) :
    Writing (comb wbHost axiPer q) false true false false := by
  obtain ⟨ack, awValid, awSent, wValid, wSent, bReady, bSent, arValid, arSent, rReady⟩ := writing
  constructor <;> simp [comb, writeCycle, readCycle, *]

theorem Writing.wRaised (writing : Writing q false true false false)
    (cyc : wbHost.cyc = true) (we : wbHost.we = true) :
    Writing (comb wbHost axiPer q) false true true false := by
  obtain ⟨ack, awValid, awSent, wValid, wSent, bReady, bSent, arValid, arSent, rReady⟩ := writing
  constructor <;> simp [comb, writeCycle, readCycle, *]

theorem Writing.wWaits (writing : Writing q false true true false)
    (cyc : wbHost.cyc = true) (we : wbHost.we = true) (unready : axiPer.w.ready = false) :
    Writing (comb wbHost axiPer q) false true true false := by
  obtain ⟨ack, awValid, awSent, wValid, wSent, bReady, bSent, arValid, arSent, rReady⟩ := writing
  constructor <;> simp [comb, writeCycle, readCycle, *]

theorem Writing.wTaken (writing : Writing q false true true false)
    (cyc : wbHost.cyc = true) (we : wbHost.we = true) (ready : axiPer.w.ready = true) :
    Writing (comb wbHost axiPer q) false true false true := by
  obtain ⟨ack, awValid, awSent, wValid, wSent, bReady, bSent, arValid, arSent, rReady⟩ := writing
  constructor <;> simp [comb, writeCycle, readCycle, *]

theorem Writing.rearmed (writing : Writing q false true false true)
    (cyc : wbHost.cyc = true) (we : wbHost.we = true) :
    (comb wbHost axiPer q).axiHost.aw.valid = true := by
  obtain ⟨ack, awValid, awSent, wValid, wSent, bReady, bSent, arValid, arSent, rReady⟩ := writing
  rw [comb, readCycle_aw]
  simp [writeCycle, *]

/-- A read on its way, before its response. -/
structure Reading (q : StateType) (arValid arSent : Bool) : Prop where
  ack : q.wbPer.ack = false
  awSent : q.awSent = false
  awValid : q.axiHost.aw.valid = false
  wValid : q.axiHost.w.valid = false
  bReady : q.axiHost.b.ready = false
  arValid : q.axiHost.ar.valid = arValid
  arSent : q.arSent = arSent
  rReady : q.axiHost.r.ready = false

theorem reading_of_new (cyc : wbHost.cyc = true) (we : wbHost.we = false) :
    Reading (comb wbHost axiPer StateType.new) true false := by
  constructor <;>
    simp [comb, writeCycle, readCycle, StateType.new, Axi.HostBus.new, PerBus.new, cyc, we]

theorem Reading.arWaits (reading : Reading q true false)
    (cyc : wbHost.cyc = true) (we : wbHost.we = false) (unready : axiPer.ar.ready = false) :
    Reading (comb wbHost axiPer q) true false := by
  obtain ⟨ack, awSent, awValid, wValid, bReady, arValid, arSent, rReady⟩ := reading
  constructor <;> simp [comb, writeCycle, readCycle, *]

theorem Reading.arTaken (reading : Reading q true false)
    (cyc : wbHost.cyc = true) (we : wbHost.we = false) (ready : axiPer.ar.ready = true) :
    Reading (comb wbHost axiPer q) false true := by
  obtain ⟨ack, awSent, awValid, wValid, bReady, arValid, arSent, rReady⟩ := reading
  constructor <;> simp [comb, writeCycle, readCycle, *]

theorem Reading.rearmed (reading : Reading q false true)
    (cyc : wbHost.cyc = true) (we : wbHost.we = false) :
    (comb wbHost axiPer q).axiHost.ar.valid = true := by
  obtain ⟨ack, awSent, awValid, wValid, bReady, arValid, arSent, rReady⟩ := reading
  simp [comb, writeCycle, readCycle, *]

end Edges

/-! ### Requests and transactions along a trace -/

section Lists

variable (inputs : Nat → Inputs)

/-- The states after a reset. -/
abbrev states : Nat → StateType := Trace.run step StateType.new inputs

abbrev wbHost (n : Nat) : HostBus := (inputs n).wbHost
abbrev wbPer (n : Nat) : PerBus := (states inputs n).wbPer
abbrev axiHost (n : Nat) : Axi.HostBus := (states inputs n).axiHost
abbrev axiPer (n : Nat) : Axi.PerBus := (inputs n).axiPer

/-- The requests of the host. -/
def requests : Nat → List Request :=
  Trace.pulses (fun n => (wbHost inputs n).cyc) fun n => (wbHost inputs n).request

def writes (n : Nat) : List Request := (requests inputs n).filter fun request => request.we
def reads (n : Nat) : List Request := (requests inputs n).filter fun request => !request.we

/-- The acknowledged requests, each with its read data. -/
def acked : Nat → List (Request × BitVec 32) :=
  exchanges (fun _ => true) (wbHost inputs) (wbPer inputs)

/-- A host that holds its request until the acknowledge, and drops `cyc` in the
next cycle. -/
structure Host : Prop where
  noReset : ∀ n, (inputs n).reset = false
  held : ∀ n, (wbHost inputs n).cyc = true → (wbPer inputs n).ack = false →
    wbHost inputs (n + 1) = wbHost inputs n
  dropped : ∀ n, (wbHost inputs n).cyc = true → (wbPer inputs n).ack = true →
    (wbHost inputs (n + 1)).cyc = false

/-- What it means to issue one transaction per request. -/
structure OncePerRequest : Prop where
  aw : ∀ n, Axi.awBeats (axiHost inputs) (axiPer inputs) n <+: (writes inputs n).map Request.adr
  w : ∀ n, Axi.wBeats (axiHost inputs) (axiPer inputs) n <+:
    (writes inputs n).map fun request => (request.dat, request.sel)
  ar : ∀ n, Axi.arBeats (axiHost inputs) (axiPer inputs) n <+: (reads inputs n).map Request.adr
  /-- A valid channel stays as it is until it is ready. -/
  aw_stable : ∀ n, (axiHost inputs n).aw.valid = true → (axiPer inputs n).aw.ready = false →
    (axiHost inputs (n + 1)).aw = (axiHost inputs n).aw
  w_stable : ∀ n, (axiHost inputs n).w.valid = true → (axiPer inputs n).w.ready = false →
    (axiHost inputs (n + 1)).w = (axiHost inputs n).w
  ar_stable : ∀ n, (axiHost inputs n).ar.valid = true → (axiPer inputs n).ar.ready = false →
    (axiHost inputs (n + 1)).ar = (axiHost inputs n).ar
  /-- Every request is acknowledged once, -/
  ack_cyc : ∀ n, (wbPer inputs n).ack = true → (wbHost inputs n).cyc = true
  once : ∀ n, requests inputs n = (acked inputs n).map Prod.fst ++
    if (wbHost inputs n).cyc then [(wbHost inputs n).request] else []
  served : Trace.LeadsTo (fun n => (wbHost inputs n).cyc = true)
    fun n => (wbPer inputs n).ack = true
  /-- a write after its address, data and response, -/
  write_acked : ∀ n, (wbPer inputs n).ack = true → (wbHost inputs n).we = true →
    Axi.awBeats (axiHost inputs) (axiPer inputs) n = (writes inputs n).map Request.adr ∧
      Axi.wBeats (axiHost inputs) (axiPer inputs) n =
        (writes inputs n).map (fun request => (request.dat, request.sel)) ∧
      (Axi.bBeats (axiHost inputs) (axiPer inputs) n).length = (writes inputs n).length
  /-- and a read after its address, with the data of its own response. -/
  read_acked : ∀ n, (wbPer inputs n).ack = true → (wbHost inputs n).we = false →
    Axi.arBeats (axiHost inputs) (axiPer inputs) n = (reads inputs n).map Request.adr ∧
      Axi.rBeats (axiHost inputs) (axiPer inputs) n =
        ((acked inputs n).filter fun exchange => !exchange.1.we).map Prod.snd ++
          [(wbPer inputs n).rdt]

variable {inputs}

/-! ### Without requests -/

theorem states_new (noReset : ∀ n, (inputs n).reset = false) {n : Nat}
    (quiet : ∀ m, m < n → (wbHost inputs m).cyc = false) : states inputs n = StateType.new := by
  induction n with
  | zero => rfl
  | succ n ih =>
      have before := ih fun m lt => quiet m (by omega)
      rw [states, Trace.run_succ, ← states, before, step, noReset n]
      exact comb_new (quiet n (by omega))

/-- A converter that is never asked does nothing, -/
theorem oncePerRequest_of_quiet (noReset : ∀ n, (inputs n).reset = false)
    (quiet : ∀ n, (wbHost inputs n).cyc = false) : OncePerRequest inputs := by
  have resting : ∀ n, states inputs n = StateType.new := fun n =>
    states_new noReset fun m _ => quiet m
  have idleHost : ∀ n, axiHost inputs n = Axi.HostBus.new := fun n => by
    rw [axiHost, resting, StateType.new]
  have idlePer : ∀ n, wbPer inputs n = PerBus.new := fun n => by
    rw [wbPer, resting, StateType.new]
  have none : ∀ n, requests inputs n = [] := fun n => Trace.pulses_eq_nil fun m _ => quiet m
  have silent : ∀ {α : Type} {event : Nat → Option α}, (∀ m, event m = Option.none) →
      ∀ n, Trace.history event n = [] := fun nothing n =>
    Trace.history_at_rest (fun m _ => nothing m) (Nat.zero_le n)
  have aw : ∀ n, Axi.awBeats (axiHost inputs) (axiPer inputs) n = [] :=
    silent fun m => by simp [idleHost, Axi.HostBus.new]
  have w : ∀ n, Axi.wBeats (axiHost inputs) (axiPer inputs) n = [] :=
    silent fun m => by simp [idleHost, Axi.HostBus.new]
  have ar : ∀ n, Axi.arBeats (axiHost inputs) (axiPer inputs) n = [] :=
    silent fun m => by simp [idleHost, Axi.HostBus.new]
  have acks : ∀ n, acked inputs n = [] := silent fun m => by simp [quiet]
  constructor <;>
    simp [aw, w, ar, acks, none, quiet, writes, reads, idleHost, idlePer, Axi.HostBus.new,
      PerBus.new, Trace.LeadsTo]

/-! ### With a request -/

/-- The first request is pending. -/
structure First (inputs : Nat → Inputs) (n : Nat) : Prop where
  cyc : (wbHost inputs n).cyc = true
  one : (requests inputs n).length = 1

theorem First.next (host : Host inputs) {n : Nat} (first : First inputs n)
    (unacked : (wbPer inputs n).ack = false) :
    First inputs (n + 1) ∧ wbHost inputs (n + 1) = wbHost inputs n := by
  have same := host.held n first.cyc unacked
  refine ⟨⟨by rw [same, first.cyc], ?_⟩, same⟩
  rw [requests, Trace.pulses_succ_of_high first.cyc]
  exact first.one

/-- A channel that is valid again after its beat for the first request hands over
a second beat, or takes its validity back. -/
theorem no_second_beat (host : Host inputs) {α : Type} {valid ready : Nat → Bool}
    {beat : Nat → Option α} (handed : ∀ n, valid n = true → ready n = true → (beat n).isSome)
    (ended : ∀ n, (wbPer inputs n).ack = true → valid (n + 1) = false)
    (stable : ∀ n, valid n = true → ready n = false → valid (n + 1) = true)
    (bounded : ∀ n, (Trace.history beat n).length ≤ (requests inputs n).length)
    (taken : Trace.LeadsTo (fun n => valid n = true) fun n => valid n = true → ready n = true)
    {n : Nat} (first : First inputs n) (again : valid n = true)
    (begun : 1 ≤ (Trace.history beat n).length) : False := by
  have never : Trace.LeadsTo
      (fun n => First inputs n ∧ valid n = true ∧ 1 ≤ (Trace.history beat n).length)
      fun _ => False := by
    apply Trace.LeadsTo.of_event _ (fun n now => taken n now.2.1)
    · rintro n ⟨first, high, begun⟩ untaken
      have unready : ready n = false := by simpa [high] using untaken
      have still := stable n high unready
      have unacked : (wbPer inputs n).ack = false := by
        by_contra ack
        simp [ended n (by simpa using ack)] at still
      exact ⟨(first.next host unacked).1, still,
        begun.trans (Trace.history_prefix beat (Nat.le_succ n)).length_le⟩
    · rintro n ⟨first, high, begun⟩ handover
      obtain ⟨value, seen⟩ := Option.isSome_iff_exists.mp (handed n high (handover high))
      have more := bounded (n + 1)
      rw [Trace.history_succ_some seen, requests, Trace.pulses_succ_of_high first.cyc,
        ← requests, first.one, List.length_append, List.length_singleton] at more
      omega
  exact (never n ⟨first, again, begun⟩).elim fun _ absurd => absurd.2

section Once

variable (host : Host inputs) (slave : Axi.Slave (axiHost inputs) (axiPer inputs))
  (once : OncePerRequest inputs)
include host

theorem states_succ (n : Nat) :
    states inputs (n + 1) = comb (wbHost inputs n) (axiPer inputs n) (states inputs n) := by
  rw [states, Trace.run_succ, step, host.noReset n]
  rfl

include slave once

theorem no_second_aw {n : Nat} (first : First inputs n)
    (again : (axiHost inputs n).aw.valid = true)
    (begun : 1 ≤ (Axi.awBeats (axiHost inputs) (axiPer inputs) n).length) : False := by
  apply no_second_beat host _ _ _ _ slave.awReady first again begun
  · intro n valid ready
    simp [valid, ready]
  · intro n ack
    rw [axiHost, states_succ host n]
    exact (comb_of_ack ack).1
  · intro n valid unready
    rw [once.aw_stable n valid unready, valid]
  · intro n
    have issued := (once.aw n).length_le
    rw [List.length_map] at issued
    exact issued.trans (List.length_filter_le _ _)

theorem no_second_ar {n : Nat} (first : First inputs n)
    (again : (axiHost inputs n).ar.valid = true)
    (begun : 1 ≤ (Axi.arBeats (axiHost inputs) (axiPer inputs) n).length) : False := by
  apply no_second_beat host _ _ _ _ slave.arReady first again begun
  · intro n valid ready
    simp [valid, ready]
  · intro n ack
    rw [axiHost, states_succ host n]
    exact (comb_of_ack ack).2
  · intro n valid unready
    rw [once.ar_stable n valid unready, valid]
  · intro n
    have issued := (once.ar n).length_le
    rw [List.length_map] at issued
    exact issued.trans (List.length_filter_le _ _)

omit once

/-- The first request is a write on its way. -/
structure FirstWrite (inputs : Nat → Inputs) (awValid awSent wValid wSent : Bool) (n : Nat) :
    Prop where
  first : First inputs n
  we : (wbHost inputs n).we = true
  writing : Writing (states inputs n) awValid awSent wValid wSent
  begun : awSent = true → 1 ≤ (Axi.awBeats (axiHost inputs) (axiPer inputs) n).length

omit slave in
/-- What the edge does to the converter decides what becomes of the write. -/
theorem FirstWrite.next {awValid awSent wValid wSent awValid' awSent' wValid' wSent' : Bool}
    {n : Nat} (now : FirstWrite inputs awValid awSent wValid wSent n)
    (writing : Writing (comb (wbHost inputs n) (axiPer inputs n) (states inputs n))
      awValid' awSent' wValid' wSent')
    (begun : awSent' = true →
      1 ≤ (Axi.awBeats (axiHost inputs) (axiPer inputs) (n + 1)).length) :
    FirstWrite inputs awValid' awSent' wValid' wSent' (n + 1) := by
  obtain ⟨first, same⟩ := now.first.next host now.writing.ack
  exact ⟨first, by rw [same, now.we], by rw [states_succ host n]; exact writing, begun⟩

theorem awTaken_of_awValid :
    Trace.LeadsTo (FirstWrite inputs true false false false)
      (FirstWrite inputs false true false false) := by
  apply Trace.LeadsTo.of_event _ (fun n now => slave.awReady n now.writing.awValid)
  · intro n now untaken
    have unready : (axiPer inputs n).aw.ready = false := by
      simpa [axiHost, now.writing.awValid] using untaken
    exact now.next host (now.writing.awWaits now.first.cyc now.we unready) (by simp)
  · intro n now taken
    have valid : (axiHost inputs n).aw.valid = true := now.writing.awValid
    have ready := taken valid
    apply now.next host (now.writing.awTaken now.first.cyc now.we ready)
    intro _
    rw [Axi.awBeats, Trace.history_succ, List.length_append]
    simp [valid, ready]

theorem wTaken_of_awSent :
    Trace.LeadsTo (FirstWrite inputs false true false false)
      (FirstWrite inputs false true false true) := by
  have grown : ∀ n, (Axi.awBeats (axiHost inputs) (axiPer inputs) n).length ≤
      (Axi.awBeats (axiHost inputs) (axiPer inputs) (n + 1)).length := fun n =>
    (Trace.history_prefix _ (Nat.le_succ n)).length_le
  have raised : Trace.LeadsTo (FirstWrite inputs false true false false)
      (FirstWrite inputs false true true false) := fun n now =>
    ⟨n + 1, Nat.le_succ n, now.next host (now.writing.wRaised now.first.cyc now.we)
      fun sent => (now.begun sent).trans (grown n)⟩
  apply raised.trans
  apply Trace.LeadsTo.of_event _ (fun n now => slave.wReady n now.writing.wValid)
  · intro n now untaken
    have unready : (axiPer inputs n).w.ready = false := by
      simpa [axiHost, now.writing.wValid] using untaken
    exact now.next host (now.writing.wWaits now.first.cyc now.we unready)
      fun sent => (now.begun sent).trans (grown n)
  · intro n now taken
    have ready := taken now.writing.wValid
    exact now.next host (now.writing.wTaken now.first.cyc now.we ready)
      fun sent => (now.begun sent).trans (grown n)

include once in
/-- The first request is not a write, -/
theorem no_first_write {n : Nat} (start : FirstWrite inputs true false false false n) : False := by
  obtain ⟨m, _, sent⟩ :=
    (awTaken_of_awValid host slave).trans (wTaken_of_awSent host slave) n start
  apply no_second_aw host slave once (sent.first.next host sent.writing.ack).1
  · rw [axiHost, states_succ host m]
    exact sent.writing.rearmed sent.first.cyc sent.we
  · exact (sent.begun rfl).trans (Trace.history_prefix _ (Nat.le_succ m)).length_le

/-- The first request is a read on its way. -/
structure FirstRead (inputs : Nat → Inputs) (arValid arSent : Bool) (n : Nat) : Prop where
  first : First inputs n
  we : (wbHost inputs n).we = false
  reading : Reading (states inputs n) arValid arSent
  begun : arSent = true → 1 ≤ (Axi.arBeats (axiHost inputs) (axiPer inputs) n).length

omit slave in
theorem FirstRead.next {arValid arSent arValid' arSent' : Bool} {n : Nat}
    (now : FirstRead inputs arValid arSent n)
    (reading : Reading (comb (wbHost inputs n) (axiPer inputs n) (states inputs n))
      arValid' arSent')
    (begun : arSent' = true →
      1 ≤ (Axi.arBeats (axiHost inputs) (axiPer inputs) (n + 1)).length) :
    FirstRead inputs arValid' arSent' (n + 1) := by
  obtain ⟨first, same⟩ := now.first.next host now.reading.ack
  exact ⟨first, by rw [same, now.we], by rw [states_succ host n]; exact reading, begun⟩

theorem arTaken_of_arValid :
    Trace.LeadsTo (FirstRead inputs true false) (FirstRead inputs false true) := by
  apply Trace.LeadsTo.of_event _ (fun n now => slave.arReady n now.reading.arValid)
  · intro n now untaken
    have unready : (axiPer inputs n).ar.ready = false := by
      simpa [axiHost, now.reading.arValid] using untaken
    exact now.next host (now.reading.arWaits now.first.cyc now.we unready) (by simp)
  · intro n now taken
    have valid : (axiHost inputs n).ar.valid = true := now.reading.arValid
    have ready := taken valid
    apply now.next host (now.reading.arTaken now.first.cyc now.we ready)
    intro _
    rw [Axi.arBeats, Trace.history_succ, List.length_append]
    simp [valid, ready]

include once in
/-- nor is it a read. -/
theorem no_first_read {n : Nat} (start : FirstRead inputs true false n) : False := by
  obtain ⟨m, _, sent⟩ := arTaken_of_arValid host slave n start
  apply no_second_ar host slave once (sent.first.next host sent.reading.ack).1
  · rw [axiHost, states_succ host m]
    exact sent.reading.rearmed sent.first.cyc sent.we
  · exact (sent.begun rfl).trans (Trace.history_prefix _ (Nat.le_succ m)).length_le

include once in
theorem quiet_of_once (n : Nat) : (wbHost inputs n).cyc = false := by
  by_contra raised
  have some : ∃ n, (wbHost inputs n).cyc = true := ⟨n, by simpa using raised⟩
  classical
  have cyc := Nat.find_spec some
  have quiet : ∀ m, m < Nat.find some → (wbHost inputs m).cyc = false := fun m early => by
    simpa using Nat.find_min some early
  generalize Nat.find some = n at cyc quiet
  have fresh := states_new host.noReset quiet
  have first : First inputs n := by
    refine ⟨cyc, ?_⟩
    cases n with
    | zero => simp [requests, Trace.pulses, cyc]
    | succ n =>
        rw [requests, Trace.pulses_succ_of_rise (quiet n (by omega)) cyc,
          Trace.pulses_eq_nil fun m le => quiet m (by omega)]
        rfl
  have unacked : (wbPer inputs n).ack = false := by
    rw [wbPer, fresh]
    rfl
  obtain ⟨next, same⟩ := first.next host unacked
  have succ := states_succ host n
  rw [fresh] at succ
  cases we : (wbHost inputs n).we with
  | true =>
      exact no_first_write host slave once (n := n + 1)
        ⟨next, by rw [same, we], succ ▸ writing_of_new cyc we, by simp⟩
  | false =>
      exact no_first_read host slave once (n := n + 1)
        ⟨next, by rw [same, we], succ ▸ reading_of_new cyc we, by simp⟩

end Once

end Lists

/-- With a host and a slave that keep their rules, the converter issues one
transaction per request exactly if there is no request. -/
theorem wb2axiSimple_once_iff (inputs : Nat → Inputs) (host : Host inputs)
    (slave : Axi.Slave (axiHost inputs) (axiPer inputs)) :
    OncePerRequest inputs ↔ ∀ n, (wbHost inputs n).cyc = false :=
  ⟨fun once => quiet_of_once host slave once, oncePerRequest_of_quiet host.noReset⟩

/-! ### One store -/

/-- A store whose channels are ready at once and answered at once. -/
def oneStore (n : Nat) : Inputs where
  reset := false
  wbHost := ⟨0x10000000, 0x12345678, 0xf, true, decide (n ≤ 7)⟩
  axiPer := ⟨⟨true⟩, ⟨true⟩, ⟨decide (n = 5)⟩, ⟨true⟩, ⟨false, 0⟩⟩

theorem oneStore_rest {n : Nat} (le : 10 ≤ n) : states oneStore n = states oneStore 10 := by
  refine Trace.run_at_rest rfl (fun n le => ?_) le
  have quiet : oneStore n = oneStore 10 := by simp [oneStore]; omega
  rw [quiet]
  decide +kernel

theorem oneStore_host : Host oneStore where
  noReset _ := rfl
  held n cyc := by
    have early : n < 8 := by simp [wbHost, oneStore] at cyc; omega
    revert cyc
    revert n early
    decide +kernel
  dropped n cyc := by
    have early : n < 8 := by simp [wbHost, oneStore] at cyc; omega
    revert cyc
    revert n early
    decide +kernel

theorem oneStore_bBeats {n : Nat} (le : 10 ≤ n) :
    (Axi.bBeats (axiHost oneStore) (axiPer oneStore) n).length = 1 ∧
      (Axi.wBeats (axiHost oneStore) (axiPer oneStore) n).length = 1 := by
  have low : ∀ m, 10 ≤ m → (axiHost oneStore m).w.valid = false ∧
      (axiHost oneStore m).b.ready = false := by
    intro m late
    rw [axiHost, oneStore_rest late]
    decide +kernel
  constructor
  · rw [Axi.bBeats, Trace.history_at_rest (fun m late => by simp [(low m late).2]) le]
    decide +kernel
  · rw [Axi.wBeats, Trace.history_at_rest (fun m late => by simp [(low m late).1]) le]
    decide +kernel

theorem oneStore_slave : Axi.Slave (axiHost oneStore) (axiPer oneStore) where
  awReady n _ := ⟨n, le_rfl, fun _ => rfl⟩
  wReady n _ := ⟨n, le_rfl, fun _ => rfl⟩
  arReady n _ := ⟨n, le_rfl, fun _ => rfl⟩
  b_after n valid := by
    obtain rfl : n = 5 := by simpa [axiPer, oneStore] using valid
    decide +kernel
  b_held n valid unready := by
    obtain rfl : n = 5 := by simpa [axiPer, oneStore] using valid
    revert unready
    decide +kernel
  b_answers n pending := by
    have early : n < 10 := by
      by_contra late
      have rest := oneStore_bBeats (n := n) (by omega)
      have fewer := pending.2
      omega
    have soon : ∀ n < 10, (Axi.bBeats (axiHost oneStore) (axiPer oneStore) n).length <
        (Axi.wBeats (axiHost oneStore) (axiPer oneStore) n).length → n ≤ 5 := by
      decide +kernel
    exact ⟨5, soon n early pending.2, rfl⟩
  r_after n valid := by simp [axiPer, oneStore] at valid
  r_held n valid := by simp [axiPer, oneStore] at valid
  r_answers n pending := by
    have low : ∀ m, (axiHost oneStore m).ar.valid = false := by
      intro m
      by_cases early : m < 10
      · revert m
        decide +kernel
      · rw [axiHost, oneStore_rest (by omega)]
        decide +kernel
    have none : Axi.arBeats (axiHost oneStore) (axiPer oneStore) n = [] :=
      Trace.history_at_rest (fun m _ => by simp [low m]) (Nat.zero_le n)
    simp [none] at pending

theorem wb2axiSimple_once_iff_oneStore :
    OncePerRequest oneStore ↔ ∀ n, (wbHost oneStore n).cyc = false :=
  wb2axiSimple_once_iff oneStore oneStore_host oneStore_slave

/-- Three write addresses are handed over for one store. -/
theorem wb2axiSimple_oneStore_thrice :
    Axi.awBeats (axiHost oneStore) (axiPer oneStore) 10 = [0x10000000, 0x10000000, 0x10000000] ∧
      Host oneStore ∧ Axi.Slave (axiHost oneStore) (axiPer oneStore) ∧
      ¬ OncePerRequest oneStore := by
  refine ⟨by decide +kernel, oneStore_host, oneStore_slave, fun once => ?_⟩
  have issued := once.aw 10
  revert issued
  decide +kernel

end Wb2axiSimple

end Cocoapuffs
