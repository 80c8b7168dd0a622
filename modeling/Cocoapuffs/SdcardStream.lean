import Cocoapuffs.Program
import Cocoapuffs.SdcardDriver

/-!
# The driver in front of any card

`SDCard::Init` and `SDCard::ReadBlock` when nothing is known of the card but
that `Transfer` returns the next byte of some stream.
-/

namespace Cocoapuffs

namespace SDCard

open Program (Ensures)
open Sdcard (argByte)

/-- What the card sees of the driver. -/
inductive Event where
  | control (ctrl : Ctrl)
  | transfer (csN : Bool) (data : BitVec 8)
deriving DecidableEq

def Event.csN : Event → Bool
  | .control ctrl => ctrl.csN
  | .transfer csN _ => csN

/-- The control register, the number of bytes that the card has returned, the
memory at the buffer, and what has happened so far. -/
structure Line where
  ctrl : Ctrl
  taken : Nat
  buffer : Nat → BitVec 8
  events : List Event

/-- `Transfer` returns the next byte of the stream. -/
def line (stream : Nat → BitVec 8) : Port (StateM Line) where
  readCtrl := do
    return (← get).ctrl.read
  writeCtrl dat := modify fun s =>
    { s with ctrl := Ctrl.write dat, events := s.events ++ [.control (Ctrl.write dat)] }
  transfer data := do
    let s ← get
    set { s with taken := s.taken + 1, events := s.events ++ [Event.transfer s.ctrl.csN data] }
    return stream s.taken
  store i byte := modify fun s => { s with buffer := Function.update s.buffer i byte }

/-! ### Exchanges of bytes -/

/-- These bytes have been sent, and nothing else has happened. -/
structure Exchanged (sent : List (BitVec 8)) (s s' : Line) : Prop where
  ctrl : s'.ctrl = s.ctrl
  taken : s'.taken = s.taken + sent.length
  buffer : s'.buffer = s.buffer
  events : s'.events = s.events ++ sent.map (Event.transfer s.ctrl.csN)

theorem Exchanged.refl (s : Line) : Exchanged [] s s :=
  ⟨rfl, rfl, rfl, by simp⟩

theorem Exchanged.trans {sent more : List (BitVec 8)} {s s' s'' : Line}
    (first : Exchanged sent s s') (second : Exchanged more s' s'') :
    Exchanged (sent ++ more) s s'' where
  ctrl := second.ctrl.trans first.ctrl
  taken := by rw [second.taken, first.taken, List.length_append, Nat.add_assoc]
  buffer := second.buffer.trans first.buffer
  events := by
    rw [second.events, first.events, first.ctrl, List.map_append, List.append_assoc]

theorem Exchanged.onto {sent : List (BitVec 8)} {s s' : Line} (exchanged : Exchanged sent s s')
    (buffer : Nat → BitVec 8) :
    Exchanged sent { s with buffer := buffer } { s' with buffer := buffer } :=
  ⟨exchanged.ctrl, exchanged.taken, rfl, exchanged.events⟩

section Waiting

variable (stream : Nat → BitVec 8) (wanted : BitVec 8 → Prop)

/-- None of the bytes at these places of the stream is wanted. -/
def Absent (place count : Nat) : Prop :=
  ∀ i, i < count → ¬ wanted (stream (place + i))

/-- The first of the bytes at these places that is wanted is at `index`. -/
structure FirstAt (place count index : Nat) : Prop where
  bound : index < count
  waiting : Absent stream wanted place index
  found : wanted (stream (place + index))

/-- How many bytes a wait takes that is given up after `limit` bytes, and the
byte that ends it. -/
inductive Waits (place limit : Nat) : Nat → Option (BitVec 8) → Prop
  | found {index : Nat} (first : FirstAt stream wanted place limit index) :
      Waits place limit (index + 1) (some (stream (place + index)))
  | never (absent : Absent stream wanted place limit) : Waits place limit limit none

variable {stream wanted} {place count limit index : Nat} {answer : Option (BitVec 8)}

theorem Absent.none : Absent stream wanted place 0 :=
  fun _ small => absurd small (Nat.not_lt_zero _)

theorem Absent.cons (other : ¬ wanted (stream place))
    (absent : Absent stream wanted (place + 1) count) :
    Absent stream wanted place (count + 1) := by
  intro i small
  cases i with
  | zero => exact other
  | succ i =>
      rw [← Nat.succ_add_eq_add_succ]
      exact absent i (by omega)

theorem FirstAt.cons (other : ¬ wanted (stream place))
    (first : FirstAt stream wanted (place + 1) limit index) :
    FirstAt stream wanted place (limit + 1) (index + 1) where
  bound := Nat.succ_lt_succ first.bound
  waiting := first.waiting.cons other
  found := by
    rw [← Nat.succ_add_eq_add_succ]
    exact first.found

theorem FirstAt.unique {index' : Nat} (first : FirstAt stream wanted place limit index)
    (first' : FirstAt stream wanted place limit index') : index = index' := by
  rcases Nat.lt_trichotomy index index' with less | same | more
  · exact absurd first.found (first'.waiting index less)
  · exact same
  · exact absurd first'.found (first.waiting index' more)

theorem Waits.here (now : wanted (stream place)) :
    Waits stream wanted place (limit + 1) 1 (some (stream place)) :=
  .found ⟨Nat.succ_pos limit, Absent.none, now⟩

theorem Waits.cons (other : ¬ wanted (stream place))
    (waits : Waits stream wanted (place + 1) limit count answer) :
    Waits stream wanted place (limit + 1) (count + 1) answer := by
  cases waits with
  | @found index first =>
      rw [show place + 1 + index = place + (index + 1) by omega]
      exact .found (first.cons other)
  | never absent => exact .never (absent.cons other)

theorem Waits.le (waits : Waits stream wanted place limit count answer) : count ≤ limit := by
  cases waits with
  | found first => exact first.bound
  | never _ => exact Nat.le_refl count

/-- A wait ends with the first byte that is wanted. -/
theorem Waits.of_first (waits : Waits stream wanted place limit count answer)
    (first : FirstAt stream wanted place limit index) :
    count = index + 1 ∧ answer = some (stream (place + index)) := by
  cases waits with
  | found first' =>
      obtain rfl := first'.unique first
      exact ⟨rfl, rfl⟩
  | never absent => exact absurd first.found (absent index first.bound)

theorem Waits.first {byte : BitVec 8}
    (waits : Waits stream wanted place limit count (some byte)) :
    ∃ index, FirstAt stream wanted place limit index ∧ count = index + 1 ∧
      byte = stream (place + index) := by
  cases waits with
  | found first => exact ⟨_, first, rfl, rfl⟩

end Waiting

/-- The highest bit of a response is clear. -/
def IsResponse (byte : BitVec 8) : Prop :=
  byte &&& 0x80 = 0

def IsToken (byte : BitVec 8) : Prop :=
  byte = 0xFE

/-- What `SendCommand` returns for the response that it finds. -/
def returned : Option (BitVec 8) → Int
  | none => -1
  | some response => response.toNat

theorem returned_eq (answer : Option (BitVec 8)) (response : BitVec 8) :
    returned answer = response.toNat ↔ answer = some response := by
  cases answer with
  | none => simp [returned]
  | some other => rw [returned, Int.natCast_inj, BitVec.toNat_inj, Option.some.injEq]

/-- A command at this place of the stream: the bytes that are sent for it, and
the response. -/
def Asks (stream : Nat → BitVec 8) (place : Nat) (cmd : BitVec 8) (arg : BitVec 32)
    (crc : BitVec 8) (sent : List (BitVec 8)) (answer : Option (BitVec 8)) : Prop :=
  ∃ polls, Waits stream IsResponse (place + 7) 10 polls answer ∧
    sent = [0xFF, cmd, argByte arg 3, argByte arg 2, argByte arg 1, argByte arg 0, crc] ++
      List.replicate polls 0xFF

section Ensured

variable (stream : Nat → BitVec 8) (s : Line)

theorem transfer_ensures (data : BitVec 8) : Ensures ((line stream).transfer data) s
    fun byte s' => byte = stream s.taken ∧ Exchanged [data] s s' :=
  ⟨rfl, rfl, rfl, rfl, rfl⟩

theorem transfers_ensures (bytes : List (BitVec 8)) :
    Ensures (transfers (line stream) bytes) s fun _ s' => Exchanged bytes s s' := by
  induction bytes generalizing s with
  | nil => exact Exchanged.refl s
  | cons data rest ih =>
      refine (transfer_ensures stream s data).bind fun _ s₁ first => ?_
      exact (ih s₁).weaken fun _ s₂ more => first.2.trans more

theorem pollResponse_ensures (polls : Nat) : Ensures (pollResponse (line stream) polls) s
    fun result s' => ∃ count answer, Waits stream IsResponse s.taken polls count answer ∧
      result = returned answer ∧ Exchanged (List.replicate count 0xFF) s s' := by
  induction polls generalizing s with
  | zero => exact ⟨0, none, .never Absent.none, rfl, Exchanged.refl s⟩
  | succ more ih =>
      refine (transfer_ensures stream s 0xFF).bind fun byte s₁ ⟨read, first⟩ => ?_
      subst read
      split
      · rename_i response
        exact Ensures.pure ⟨1, _, Waits.here response, rfl, first⟩
      · rename_i busy
        refine (ih s₁).weaken fun result s₂ ⟨count, answer, waits, value, rest⟩ => ?_
        rw [first.taken] at waits
        exact ⟨count + 1, answer, waits.cons busy, value, first.trans rest⟩

theorem waitToken_ensures (retries : Nat) : Ensures (waitToken (line stream) retries) s
    fun left s' => ∃ count token, Waits stream IsToken s.taken retries count token ∧
      (left = 0 ↔ token = none) ∧ Exchanged (List.replicate count 0xFF) s s' := by
  induction retries generalizing s with
  | zero => exact ⟨0, none, .never Absent.none, ⟨fun _ => rfl, fun _ => rfl⟩, Exchanged.refl s⟩
  | succ retries ih =>
      refine (transfer_ensures stream s 0xFF).bind fun byte s₁ ⟨read, first⟩ => ?_
      subst read
      split
      · rename_i token
        exact Ensures.pure ⟨1, _, Waits.here token, by simp, first⟩
      · rename_i other
        refine (ih s₁).weaken fun left s₂ ⟨count, token, waits, spent, rest⟩ => ?_
        rw [first.taken] at waits
        exact ⟨count + 1, token, waits.cons other, spent, first.trans rest⟩

theorem sendCommand_ensures (cmd : BitVec 8) (arg : BitVec 32) (crc : BitVec 8) :
    Ensures (sendCommand (line stream) cmd arg crc) s fun result s' =>
      ∃ sent answer, Asks stream s.taken cmd arg crc sent answer ∧ result = returned answer ∧
        Exchanged sent s s' := by
  refine (transfers_ensures stream s _).bind fun _ s₁ frame => ?_
  have place : s₁.taken = s.taken + 7 := frame.taken
  refine (pollResponse_ensures stream s₁ 10).weaken fun result s₂ polled => ?_
  obtain ⟨polls, answer, waits, value, rest⟩ := polled
  rw [place] at waits
  exact ⟨_, answer, ⟨polls, waits, rfl⟩, value, frame.trans rest⟩

/-- The bytes of a block, in place of what was in the buffer. -/
def filled (place i more : Nat) (buffer : Nat → BitVec 8) (adr : Nat) : BitVec 8 :=
  if i ≤ adr ∧ adr < i + more then stream (place + (adr - i)) else buffer adr

theorem readBytes_ensures (i more : Nat) : Ensures (readBytes (line stream) i more) s
    fun _ s' => s'.buffer = filled stream s.taken i more s.buffer ∧
      Exchanged (List.replicate more 0xFF) s { s' with buffer := s.buffer } := by
  induction more generalizing s i with
  | zero =>
      refine ⟨?_, Exchanged.refl s⟩
      funext adr
      rw [filled, if_neg (by omega)]
      rfl
  | succ more ih =>
      refine (transfer_ensures stream s 0xFF).bind fun byte s₁ ⟨read, first⟩ => ?_
      subst read
      refine (Ensures.modify _ s₁).bind fun _ s₁' stored => ?_
      subst stored
      refine (ih _ (i + 1)).weaken fun _ s₂ rest => ?_
      constructor
      · rw [rest.1, first.taken, first.buffer]
        funext adr
        simp only [filled, Function.update_apply, List.length_singleton]
        rcases Nat.lt_trichotomy adr i with less | same | above
        · rw [if_neg (by omega), if_neg (by omega), if_neg (by omega)]
        · subst same
          rw [if_neg (by omega), if_pos rfl, if_pos (by omega), Nat.sub_self, Nat.add_zero]
        · by_cases inside : adr < i + (more + 1)
          · rw [if_pos (by omega), if_pos (by omega),
              show s.taken + 1 + (adr - (i + 1)) = s.taken + (adr - i) by omega]
          · rw [if_neg (by omega), if_neg (by omega), if_neg (by omega)]
      · exact (first.onto s.buffer).trans (rest.2.onto s.buffer)

end Ensured

/-! ### Whole calls -/

/-- Each of these writes of the control register has this divider. -/
def Keeps (divider : BitVec 16) (events : List Event) : Prop :=
  ∀ ctrl, .control ctrl ∈ events → ctrl.clkDiv = divider

/-- The card is deselected at the end, and a byte has been exchanged since. -/
def Released (events : List Event) : Prop :=
  ∃ before ctrl after, events = before ++ .control ctrl :: after ∧ ctrl.csN = true ∧
    (∃ data, .transfer true data ∈ after) ∧ ∀ event ∈ after, event.csN = true

/-- The card is selected, these bytes are sent to it, and it is deselected. -/
def session (ctrl : Ctrl) (sent : List (BitVec 8)) : List Event :=
  .control { ctrl with csN := false } :: sent.map (.transfer false) ++
    [.control { ctrl with csN := true }, .transfer true 0xFF]

theorem Released.append {before events : List Event} (released : Released events) :
    Released (before ++ events) := by
  obtain ⟨front, ctrl, after, rfl, rest⟩ := released
  exact ⟨before ++ front, ctrl, after, by simp, rest⟩

theorem Released.append_control {events : List Event} {ctrl : Ctrl} (released : Released events)
    (high : ctrl.csN = true) : Released (events ++ [.control ctrl]) := by
  obtain ⟨before, last, after, rfl, deselected, ⟨data, exchanged⟩, still⟩ := released
  refine ⟨before, last, after ++ [.control ctrl], by simp, deselected,
    ⟨data, List.mem_append_left _ exchanged⟩, ?_⟩
  intro event member
  rcases List.mem_append.mp member with early | final
  · exact still event early
  · rw [List.mem_singleton.mp final]
    exact high

theorem released_session (ctrl : Ctrl) (sent : List (BitVec 8)) : Released (session ctrl sent) := by
  refine ⟨_, { ctrl with csN := true }, [.transfer true 0xFF], rfl, rfl,
    ⟨0xFF, List.mem_singleton_self _⟩, ?_⟩
  intro event member
  rw [List.mem_singleton.mp member]
  rfl

theorem keeps_session (ctrl : Ctrl) (sent : List (BitVec 8)) :
    Keeps ctrl.clkDiv (session ctrl sent) := by
  intro other member
  simp only [session, List.mem_cons, List.mem_append, List.mem_map, Event.control.injEq,
    reduceCtorEq, and_false, exists_false, List.not_mem_nil, or_false] at member
  rcases member with rfl | rfl
  all_goals rfl

/-- In the middle of a call: what has happened since its start, and how many
bytes have been exchanged. -/
structure Within (call : List Event) (count : Nat) (reg : Ctrl) (memory : Nat → BitVec 8)
    (s s' : Line) : Prop where
  ctrl : s'.ctrl = reg
  buffer : s'.buffer = memory
  taken : s'.taken = s.taken + count
  events : s'.events = s.events ++ call

section Calls

variable {call : List Event} {count : Nat} {reg : Ctrl} {memory : Nat → BitVec 8} {s s' : Line}

theorem Within.start (s : Line) : Within [] 0 s.ctrl s.buffer s s :=
  ⟨rfl, rfl, rfl, by simp⟩

theorem Within.exchange {sent : List (BitVec 8)} {s'' : Line}
    (within : Within call count reg memory s s') (exchanged : Exchanged sent s' s'') :
    Within (call ++ sent.map (Event.transfer reg.csN)) (count + sent.length) reg memory s s'' where
  ctrl := exchanged.ctrl.trans within.ctrl
  buffer := exchanged.buffer.trans within.buffer
  taken := by rw [exchanged.taken, within.taken, Nat.add_assoc]
  events := by rw [exchanged.events, within.events, within.ctrl, List.append_assoc]

theorem Within.onto {buffer : Nat → BitVec 8}
    (within : Within call count reg memory s { s' with buffer := buffer }) :
    Within call count reg s'.buffer s s' :=
  ⟨within.ctrl, rfl, within.taken, within.events⟩

variable (stream : Nat → BitVec 8)

theorem writeCtrl_ensures (dat : BitVec 32) (within : Within call count reg memory s s') :
    Ensures ((line stream).writeCtrl dat) s' fun _ s'' =>
      Within (call ++ [.control (Ctrl.write dat)]) count (Ctrl.write dat) memory s s'' := by
  refine ⟨rfl, within.buffer, within.taken, ?_⟩
  change s'.events ++ [.control (Ctrl.write dat)] = _
  rw [within.events, List.append_assoc]

theorem readCtrl_ensures (within : Within call count reg memory s s') :
    Ensures (line stream).readCtrl s' fun dat s'' =>
      dat = reg.read ∧ Within call count reg memory s s'' :=
  ⟨congrArg Ctrl.read within.ctrl, within⟩

theorem select_ensures (within : Within call count reg memory s s') :
    Ensures (select (line stream)) s' fun _ s'' =>
      Within (call ++ [.control { reg with csN := false }]) count { reg with csN := false }
        memory s s'' := by
  refine (readCtrl_ensures stream within).bind fun dat s₁ ⟨read, still⟩ => ?_
  rw [← Ctrl.write_select reg, ← read]
  exact writeCtrl_ensures stream _ still

theorem deselect_ensures (within : Within call count reg memory s s') :
    Ensures (deselect (line stream)) s' fun _ s'' =>
      Within (call ++ [.control { reg with csN := true }, .transfer true 0xFF]) (count + 1)
        { reg with csN := true } memory s s'' := by
  have raised : Ensures (raise (line stream)) s' fun _ s₁ =>
      Within (call ++ [.control { reg with csN := true }]) count { reg with csN := true }
        memory s s₁ := by
    refine (readCtrl_ensures stream within).bind fun dat s₁ ⟨read, still⟩ => ?_
    rw [← Ctrl.write_raise reg, ← read]
    exact writeCtrl_ensures stream _ still
  refine raised.bind fun _ s₁ raised => ?_
  refine (transfer_ensures stream s₁ 0xFF).bind fun _ s₂ ⟨_, exchanged⟩ => ?_
  have ended := raised.exchange exchanged
  rw [List.append_assoc] at ended
  exact Ensures.pure ended

end Calls

/-- In the middle of a session that begins after these events. -/
abbrev InSession (front : List Event) (passed : Nat) (ctrl : Ctrl) (sent : List (BitVec 8))
    (memory : Nat → BitVec 8) (s s' : Line) : Prop :=
  Within (front ++ .control { ctrl with csN := false } :: sent.map (.transfer false))
    (passed + sent.length) { ctrl with csN := false } memory s s'

section Sessions

variable {front : List Event} {passed : Nat} {ctrl : Ctrl} {sent : List (BitVec 8)}
  {memory : Nat → BitVec 8} {s s' : Line}

theorem InSession.exchange {more : List (BitVec 8)} {s'' : Line}
    (within : InSession front passed ctrl sent memory s s') (exchanged : Exchanged more s' s'') :
    InSession front passed ctrl (sent ++ more) memory s s'' := by
  have further := Within.exchange within exchanged
  rw [List.append_assoc, List.cons_append, ← List.map_append, Nat.add_assoc,
    ← List.length_append] at further
  exact further

variable (stream : Nat → BitVec 8)

theorem select_session (within : Within front passed ctrl memory s s') :
    Ensures (select (line stream)) s' fun _ s'' =>
      InSession front passed ctrl [] memory s s'' :=
  select_ensures stream within

theorem deselect_session (within : InSession front passed ctrl sent memory s s') :
    Ensures (deselect (line stream)) s' fun _ s'' =>
      Within (front ++ session ctrl sent) (passed + sent.length + 1) { ctrl with csN := true }
        memory s s'' := by
  refine (deselect_ensures stream within).weaken fun _ s'' left => ?_
  rw [List.append_assoc] at left
  exact left

end Sessions

theorem Asks.length_le {stream : Nat → BitVec 8} {place : Nat} {cmd : BitVec 8} {arg : BitVec 32}
    {crc : BitVec 8} {sent : List (BitVec 8)} {answer : Option (BitVec 8)}
    (asks : Asks stream place cmd arg crc sent answer) : sent.length ≤ 17 := by
  obtain ⟨polls, waits, rfl⟩ := asks
  have few := waits.le
  simp only [List.length_append, List.length_cons, List.length_nil, List.length_replicate]
  omega

/-! ### Reading a block -/

/-- What `ReadBlock` comes to when the card returns the stream from `place` on:
its result, the bytes that it sends, and the buffer. -/
inductive Reads (stream : Nat → BitVec 8) (place : Nat) (blockAddr : BitVec 32)
    (buffer : Nat → BitVec 8) : Int → List (BitVec 8) → (Nat → BitVec 8) → Prop
  | refused {sent : List (BitVec 8)} {answer : Option (BitVec 8)}
      (asks : Asks stream place 0x51 blockAddr 0xFF sent answer) (other : answer ≠ some 0) :
      Reads stream place blockAddr buffer (-1) sent buffer
  | timeout {sent : List (BitVec 8)} {count : Nat}
      (asks : Asks stream place 0x51 blockAddr 0xFF sent (some 0))
      (waits : Waits stream IsToken (place + sent.length) 10000 count none) :
      Reads stream place blockAddr buffer (-2) (sent ++ List.replicate count 0xFF) buffer
  | block {sent : List (BitVec 8)} {count : Nat} {token : BitVec 8}
      (asks : Asks stream place 0x51 blockAddr 0xFF sent (some 0))
      (waits : Waits stream IsToken (place + sent.length) 10000 count (some token)) :
      Reads stream place blockAddr buffer 0
        (sent ++ List.replicate count 0xFF ++ List.replicate 512 0xFF ++ [0xFF, 0xFF])
        (filled stream (place + sent.length + count) 0 512 buffer)

/-- The first response is zero, and the token follows. -/
structure Ready (stream : Nat → BitVec 8) (place index wait : Nat) : Prop where
  answered : FirstAt stream IsResponse (place + 7) 10 index
  zero : stream (place + 7 + index) = 0
  token : FirstAt stream IsToken (place + 8 + index) 10000 wait

/-- What `ReadBlock` comes to. -/
structure ReadPath (stream : Nat → BitVec 8) (blockAddr : BitVec 32) (s : Line) (result : Int)
    (s' : Line) : Prop where
  taken : s'.taken ≤ s.taken + 10532
  csN : s'.ctrl.csN = true
  clkDiv : s'.ctrl.clkDiv = s.ctrl.clkDiv
  path : ∃ call, s'.events = s.events ++ call ∧ Released call ∧ Keeps s.ctrl.clkDiv call
  outcome :
    (∃ index wait, result = 0 ∧ Ready stream s.taken index wait ∧
      s'.buffer = filled stream (s.taken + 8 + index + wait + 1) 0 512 s.buffer) ∨
    result < 0 ∧ s'.buffer = s.buffer ∧ ¬ ∃ index wait, Ready stream s.taken index wait
  sent : ∃ sent, Reads stream s.taken blockAddr s.buffer result sent s'.buffer ∧
    s'.events = s.events ++ session s.ctrl sent

section Reading

variable {stream : Nat → BitVec 8} {place : Nat} {blockAddr : BitVec 32}
  {buffer memory : Nat → BitVec 8} {result : Int} {sent : List (BitVec 8)}

theorem Reads.length_le (reads : Reads stream place blockAddr buffer result sent memory) :
    sent.length ≤ 10531 := by
  cases reads with
  | refused asks _ =>
      have short := asks.length_le
      omega
  | timeout asks waits =>
      have short := asks.length_le
      have bound := waits.le
      simp only [List.length_append, List.length_replicate]
      omega
  | block asks waits =>
      have short := asks.length_le
      have bound := waits.le
      simp only [List.length_append, List.length_replicate, List.length_cons, List.length_nil]
      omega

theorem Ready.asks {index wait : Nat} {answer : Option (BitVec 8)}
    (ready : Ready stream place index wait)
    (asks : Asks stream place 0x51 blockAddr 0xFF sent answer) :
    answer = some 0 ∧ place + sent.length = place + 8 + index := by
  obtain ⟨polls, waits, rfl⟩ := asks
  obtain ⟨rfl, rfl⟩ := waits.of_first ready.answered
  refine ⟨congrArg some ready.zero, ?_⟩
  simp only [List.length_append, List.length_cons, List.length_nil, List.length_replicate]
  omega

/-- The call succeeds when the card is ready, and then the buffer has what
follows the token. -/
theorem Reads.outcome (reads : Reads stream place blockAddr buffer result sent memory) :
    (∃ index wait, result = 0 ∧ Ready stream place index wait ∧
      memory = filled stream (place + 8 + index + wait + 1) 0 512 buffer) ∨
    result < 0 ∧ memory = buffer ∧ ¬ ∃ index wait, Ready stream place index wait := by
  cases reads with
  | refused asks other =>
      refine .inr ⟨by decide, rfl, ?_⟩
      rintro ⟨index, wait, ready⟩
      exact other (ready.asks asks).1
  | timeout asks waits =>
      refine .inr ⟨by decide, rfl, ?_⟩
      rintro ⟨index, wait, ready⟩
      rw [(ready.asks asks).2] at waits
      cases (waits.of_first ready.token).2
  | block asks waits =>
      obtain ⟨polls, answered, rfl⟩ := asks
      obtain ⟨index, first, rfl, zero⟩ := answered.first
      have length : place + ([0xFF, 0x51, argByte blockAddr 3, argByte blockAddr 2,
          argByte blockAddr 1, argByte blockAddr 0, 0xFF] ++
            List.replicate (index + 1) (0xFF : BitVec 8)).length = place + 8 + index := by
        simp only [List.length_append, List.length_cons, List.length_nil, List.length_replicate]
        omega
      rw [length] at waits ⊢
      obtain ⟨wait, token, rfl, -⟩ := waits.first
      exact .inl ⟨index, wait, rfl, ⟨first, zero.symm, token⟩, rfl⟩

theorem Reads.of_ready {index wait : Nat}
    (reads : Reads stream place blockAddr buffer result sent memory)
    (ready : Ready stream place index wait) :
    result = 0 ∧
      sent = [0xFF, 0x51, argByte blockAddr 3, argByte blockAddr 2, argByte blockAddr 1,
        argByte blockAddr 0, 0xFF] ++ List.replicate (index + 1 + (wait + 1) + 512 + 2) 0xFF ∧
      memory = filled stream (place + 8 + index + wait + 1) 0 512 buffer := by
  cases reads with
  | refused asks other => exact absurd (ready.asks asks).1 other
  | timeout asks waits =>
      rw [(ready.asks asks).2] at waits
      cases (waits.of_first ready.token).2
  | block asks waits =>
      rw [(ready.asks asks).2] at waits ⊢
      obtain ⟨rfl, -⟩ := waits.of_first ready.token
      obtain ⟨polls, answered, rfl⟩ := asks
      obtain ⟨rfl, -⟩ := answered.of_first ready.answered
      have crc : [0xFF, 0xFF] = List.replicate 2 (0xFF : BitVec 8) := rfl
      refine ⟨rfl, ?_, rfl⟩
      simp only [crc, List.append_assoc, List.replicate_append_replicate, Nat.add_assoc]

theorem readPath_of_session {s s' : Line}
    (reads : Reads stream s.taken blockAddr s.buffer result sent memory)
    (left : Within ([] ++ session s.ctrl sent) (0 + sent.length + 1) { s.ctrl with csN := true }
      memory s s') : ReadPath stream blockAddr s result s' where
  taken := by
    have short := reads.length_le
    rw [left.taken]
    omega
  csN := by rw [left.ctrl]
  clkDiv := by rw [left.ctrl]
  path := ⟨_, left.events, released_session _ _, keeps_session _ _⟩
  outcome := by
    rw [left.buffer]
    exact reads.outcome
  sent := by
    rw [left.buffer]
    exact ⟨sent, reads, left.events⟩

variable (stream blockAddr)

theorem readBlock_path (s : Line) :
    Ensures (readBlock (line stream) true blockAddr) s (ReadPath stream blockAddr s) := by
  simp only [readBlock]
  refine (select_session stream (Within.start s)).bind fun _ s₁ selected => ?_
  refine (sendCommand_ensures stream s₁ _ _ _).bind
    fun response s₂ ⟨sent, answer, asks, value, exchanged⟩ => ?_
  have commanded := selected.exchange exchanged
  have zero := returned_eq answer 0
  rw [← value] at zero
  rw [show s₁.taken = s.taken from selected.taken] at asks
  split
  · rename_i refused
    refine (deselect_session stream commanded).bind fun _ s₃ left => ?_
    exact Ensures.pure (readPath_of_session (.refused asks (mt zero.mpr refused)) left)
  · rename_i accepted
    obtain rfl := zero.mp (not_not.mp accepted)
    refine (waitToken_ensures stream s₂ 10000).bind
      fun left s₃ ⟨count, token, waits, spent, exchanged'⟩ => ?_
    have waited := commanded.exchange exchanged'
    have place : s₂.taken = s.taken + sent.length := by
      rw [commanded.taken, Nat.zero_add]
      rfl
    rw [place] at waits
    split
    · rename_i exhausted
      obtain rfl := spent.mp exhausted
      refine (deselect_session stream waited).bind fun _ s₄ left => ?_
      exact Ensures.pure (readPath_of_session (.timeout asks waits) left)
    · rename_i some_left
      obtain ⟨byte, rfl⟩ := Option.ne_none_iff_exists'.mp (mt spent.mpr some_left)
      refine (readBytes_ensures stream s₃ 0 512).bind fun _ s₄ ⟨memory, block⟩ => ?_
      have read := Within.onto (waited.exchange block)
      have place' : s₃.taken = s.taken + sent.length + count := by
        rw [waited.taken]
        simp only [List.nil_append, List.length_append, List.length_replicate]
        omega
      rw [memory, place', waited.buffer] at read
      refine (transfers_ensures stream s₄ [0xFF, 0xFF]).bind fun _ s₅ crc => ?_
      have checked := InSession.exchange read crc
      refine (deselect_session stream checked).bind fun _ s₆ left => ?_
      exact Ensures.pure (readPath_of_session (.block asks waits) left)

end Reading

/-! ### Starting the card -/

/-- The control register after the first write of `Init`, and after its last. -/
def slowest : Ctrl := ⟨true, 100, by decide⟩

def fastest : Ctrl := ⟨true, 2, by decide⟩

/-- The events of `Init` before it selects the card. -/
def wakeUp : List Event :=
  .control slowest :: List.replicate 10 (.transfer true 0xFF)

/-- What the loop that sends ACMD41 comes to: the retries that are left, and the
bytes that it sends. -/
inductive Conditions (stream : Nat → BitVec 8) : Nat → Nat → Nat → List (BitVec 8) → Prop
  | exhausted {place : Nat} : Conditions stream place 0 0 []
  | started {place retries : Nat} {app cond : List (BitVec 8)} {answer : Option (BitVec 8)}
      (announced : Asks stream place 0x77 0 0xFF app answer)
      (asks : Asks stream (place + app.length) 0x69 0x40000000 0xFF cond (some 0)) :
      Conditions stream place (retries + 1) (retries + 1) (app ++ cond)
  | again {place retries left : Nat} {app cond rest : List (BitVec 8)}
      {answer answer' : Option (BitVec 8)} (announced : Asks stream place 0x77 0 0xFF app answer)
      (asks : Asks stream (place + app.length) 0x69 0x40000000 0xFF cond answer')
      (other : answer' ≠ some 0)
      (later : Conditions stream (place + (app ++ cond).length) retries left rest) :
      Conditions stream place (retries + 1) left (app ++ cond ++ rest)

/-- The four bytes that follow the response to CMD8. -/
def echo (answer : Option (BitVec 8)) : List (BitVec 8) :=
  if answer = some 1 then List.replicate 4 0xFF else []

/-- What `Init` comes to once the card has been selected, when the card returns
the stream from `place` on: its result, and the bytes that it sends. -/
inductive Starts (stream : Nat → BitVec 8) (place : Nat) : Int → List (BitVec 8) → Prop
  | refused {idle : List (BitVec 8)} {answer : Option (BitVec 8)}
      (asks : Asks stream place 0x40 0 0x95 idle answer) (other : answer ≠ some 1) :
      Starts stream place (-1) idle
  | ended {idle cond conds : List (BitVec 8)} {answer : Option (BitVec 8)} {left : Nat}
      (asks : Asks stream place 0x40 0 0x95 idle (some 1))
      (asks' : Asks stream (place + idle.length) 0x48 0x000001AA 0x87 cond answer)
      (conditions : Conditions stream (place + (idle ++ cond ++ echo answer).length) 10000 left
        conds) :
      Starts stream place (if left = 0 then -2 else 0) (idle ++ cond ++ echo answer ++ conds)

/-- What `Init` comes to.  Only when it succeeds does the divider that it begins
with change, by its last write. -/
structure InitPath (stream : Nat → BitVec 8) (s : Line) (result : Int) (s' : Line) : Prop where
  taken : s'.taken ≤ s.taken + 340049
  buffer : s'.buffer = s.buffer
  csN : s'.ctrl.csN = true
  path : ∃ call, s'.events = s.events ++ call ∧ Released call ∧
    (result < 0 ∧ s'.ctrl.clkDiv = 100 ∧ Keeps 100 call ∨
      result = 0 ∧ s'.ctrl.clkDiv = 2 ∧
        ∃ front, call = front ++ [.control s'.ctrl] ∧ Keeps 100 front)
  sent : ∃ sent, Starts stream (s.taken + 10) result sent ∧
    s'.events = s.events ++
      (wakeUp ++ session slowest sent ++ if result = 0 then [.control fastest] else [])

section Starting

variable {stream : Nat → BitVec 8} {place retries left : Nat} {sent : List (BitVec 8)}

theorem Conditions.length_le (conditions : Conditions stream place retries left sent) :
    sent.length ≤ 34 * retries := by
  induction conditions with
  | exhausted => exact Nat.le_refl _
  | started announced asks =>
      have first := announced.length_le
      have second := asks.length_le
      rw [List.length_append]
      omega
  | again announced asks _ _ ih =>
      have first := announced.length_le
      have second := asks.length_le
      rw [List.length_append, List.length_append]
      omega

theorem Starts.length_le {result : Int} (starts : Starts stream place result sent) :
    sent.length ≤ 340038 := by
  cases starts with
  | refused asks _ =>
      have short := asks.length_le
      omega
  | @ended _ _ _ answer _ asks asks' conditions =>
      have first := asks.length_le
      have second := asks'.length_le
      have rest := conditions.length_le
      have four : (echo answer).length ≤ 4 := by
        rw [echo]
        split <;> decide
      simp only [List.length_append]
      omega

theorem sendOpCond_ensures (retries : Nat) (s : Line) :
    Ensures (sendOpCond (line stream) retries) s fun left s' =>
      ∃ sent, Conditions stream s.taken retries left sent ∧ Exchanged sent s s' := by
  induction retries generalizing s with
  | zero => exact ⟨[], .exhausted, Exchanged.refl s⟩
  | succ retries ih =>
      refine (sendCommand_ensures stream s _ _ _).bind
        fun _ s₁ ⟨app, answer, announced, _, first⟩ => ?_
      refine (sendCommand_ensures stream s₁ _ _ _).bind
        fun response s₂ ⟨cond, answer', asks, value, second⟩ => ?_
      have both := first.trans second
      have zero := returned_eq answer' 0
      rw [← value] at zero
      rw [first.taken] at asks
      split
      · rename_i accepted
        obtain rfl := zero.mp accepted
        exact Ensures.pure ⟨_, .started announced asks, both⟩
      · rename_i other
        refine (ih s₂).weaken fun left s₃ ⟨rest, later, more⟩ => ?_
        rw [both.taken] at later
        exact ⟨_, .again announced asks (mt zero.mpr other) later, both.trans more⟩

theorem keeps_start (sent : List (BitVec 8)) : Keeps 100 (wakeUp ++ session slowest sent) := by
  intro ctrl member
  rcases List.mem_append.mp member with before | during
  · simp only [wakeUp, List.mem_cons, Event.control.injEq, List.mem_replicate, reduceCtorEq,
      and_false, or_false] at before
    rw [before]
    rfl
  · exact keeps_session slowest sent ctrl during

theorem initPath_of_failed {s s' : Line} {result : Int} (failed : result < 0)
    (starts : Starts stream (s.taken + 10) result sent)
    (left : Within (wakeUp ++ session slowest sent) (10 + sent.length + 1) slowest s.buffer s s') :
    InitPath stream s result s' where
  taken := by
    have short := starts.length_le
    rw [left.taken]
    omega
  buffer := left.buffer
  csN := by
    rw [left.ctrl]
    rfl
  path := by
    refine ⟨_, left.events, (released_session _ _).append, .inl ⟨failed, ?_, keeps_start sent⟩⟩
    rw [left.ctrl]
    rfl
  sent := by
    refine ⟨sent, starts, ?_⟩
    rw [if_neg (by omega), List.append_nil]
    exact left.events

theorem initPath_of_started {s s' : Line} (starts : Starts stream (s.taken + 10) 0 sent)
    (left : Within (wakeUp ++ session slowest sent ++ [.control fastest]) (10 + sent.length + 1)
      fastest s.buffer s s') : InitPath stream s 0 s' where
  taken := by
    have short := starts.length_le
    rw [left.taken]
    omega
  buffer := left.buffer
  csN := by
    rw [left.ctrl]
    rfl
  path := by
    refine ⟨_, left.events, (Released.append (released_session _ _)).append_control rfl,
      .inr ⟨rfl, ?_, _, ?_, keeps_start sent⟩⟩
    · rw [left.ctrl]
      rfl
    · rw [left.ctrl]
  sent := by
    refine ⟨sent, starts, ?_⟩
    rw [if_pos rfl]
    exact left.events

theorem startCard_path {s s' : Line} {idle cond : List (BitVec 8)} {answer : Option (BitVec 8)}
    (asks : Asks stream (s.taken + 10) 0x40 0 0x95 idle (some 1))
    (asks' : Asks stream (s.taken + 10 + idle.length) 0x48 0x000001AA 0x87 cond answer)
    (within : InSession wakeUp 10 slowest (idle ++ cond ++ echo answer) s.buffer s s') :
    Ensures (startCard (line stream)) s' (InitPath stream s) := by
  simp only [startCard]
  refine (sendOpCond_ensures 10000 s').bind fun left s₁ ⟨conds, conditions, exchanged⟩ => ?_
  rw [within.taken, ← Nat.add_assoc] at conditions
  have starts := Starts.ended asks asks' conditions
  have asked := within.exchange exchanged
  split
  · rename_i exhausted
    rw [if_pos exhausted] at starts
    refine (deselect_session stream asked).bind fun _ s₂ deselected => ?_
    exact Ensures.pure (initPath_of_failed (by decide) starts deselected)
  · rename_i some_left
    rw [if_neg some_left] at starts
    refine (deselect_session stream asked).bind fun _ s₂ deselected => ?_
    refine (writeCtrl_ensures stream _ deselected).bind fun _ s₃ ended => ?_
    have fast : Ctrl.write ((2#32 <<< 16) ||| 1#32) = fastest := by decide
    rw [fast] at ended
    exact Ensures.pure (initPath_of_started starts ended)

variable (stream)

theorem init_path (s : Line) : Ensures (init (line stream)) s (InitPath stream s) := by
  simp only [init]
  refine (writeCtrl_ensures stream _ (Within.start s)).bind fun _ s₀ wrote => ?_
  have slow : Ctrl.write ((100#32 <<< 16) ||| 1#32) = slowest := by decide
  rw [slow] at wrote
  refine (transfers_ensures stream s₀ _).bind fun _ s₁ dummy => ?_
  have awake : Within wakeUp 10 slowest s.buffer s s₁ := wrote.exchange dummy
  refine (select_session stream awake).bind fun _ s₂ selected => ?_
  refine (sendCommand_ensures stream s₂ _ _ _).bind
    fun result s₃ ⟨idle, answer, asks, value, reset⟩ => ?_
  have commanded := selected.exchange reset
  have one := returned_eq answer 1
  rw [← value] at one
  rw [show s₂.taken = s.taken + 10 from selected.taken] at asks
  split
  · rename_i refused
    refine (deselect_session stream commanded).bind fun _ s₄ left => ?_
    exact Ensures.pure (initPath_of_failed (by decide) (.refused asks (mt one.mpr refused)) left)
  · rename_i accepted
    obtain rfl := one.mp (not_not.mp accepted)
    refine (sendCommand_ensures stream s₃ _ _ _).bind
      fun result' s₄ ⟨cond, answer', asks', value', condition⟩ => ?_
    have conditioned := commanded.exchange condition
    have one' := returned_eq answer' 1
    rw [← value'] at one'
    rw [show s₃.taken = s.taken + 10 + idle.length by
      rw [commanded.taken, List.nil_append, Nat.add_assoc]] at asks'
    split
    · rename_i answered
      refine (transfers_ensures stream s₄ _).bind fun _ s₅ four => ?_
      refine startCard_path asks asks' ?_
      rw [echo, if_pos (one'.mp answered)]
      exact conditioned.exchange four
    · rename_i unanswered
      refine startCard_path asks asks' ?_
      rw [echo, if_neg (mt one'.mpr unanswered), List.append_nil]
      exact conditioned

end Starting

/-- Whatever the card returns, both calls come to an end with the card
deselected, and send and do what they say. -/
theorem driver_paths (stream : Nat → BitVec 8) (s : Line) (blockAddr : BitVec 32) :
    Ensures (init (line stream)) s (InitPath stream s) ∧
      (readBlock (line stream) false blockAddr).run s = (-1, s) ∧
      Ensures (readBlock (line stream) true blockAddr) s (ReadPath stream blockAddr s) :=
  ⟨init_path stream s, rfl, readBlock_path stream blockAddr s⟩

/-! ### Two cards -/

/-- It answers the second time it is asked, and then sends the token and a
block. -/
def answering (place : Nat) : BitVec 8 :=
  if place = 8 then 0x00
  else if place = 11 then 0xFE
  else if place < 12 then 0xFF
  else BitVec.ofNat 8 (place - 12)

/-- No card at all. -/
def silent (_ : Nat) : BitVec 8 := 0xFF

/-- A controller at rest. -/
def resting : Line := ⟨fastest, 0, fun _ => 0, []⟩

theorem ready_answering : Ready answering 0 1 2 where
  answered := by
    refine ⟨by decide, ?_, ?_⟩ <;> simp only [Absent, IsResponse] <;> decide
  zero := by decide
  token := by
    refine ⟨by decide, ?_, ?_⟩ <;> simp only [Absent, IsToken] <;> decide

theorem asks_silent {place : Nat} {cmd : BitVec 8} {arg : BitVec 32} {crc : BitVec 8}
    {sent : List (BitVec 8)} {answer : Option (BitVec 8)}
    (asks : Asks silent place cmd arg crc sent answer) :
    answer = none ∧
      sent = [0xFF, cmd, argByte arg 3, argByte arg 2, argByte arg 1, argByte arg 0, crc] ++
        List.replicate 10 0xFF := by
  obtain ⟨polls, waits, rfl⟩ := asks
  cases waits with
  | found first => exact absurd first.found (by simp [silent, IsResponse])
  | never _ => exact ⟨rfl, rfl⟩

/-- The fifth block is read from a card that answers; without a card both calls
give up after ten bytes. -/
theorem driver_paths_runs :
    (Ensures (readBlock (line answering) true 5) resting fun result s' =>
      result = 0 ∧ (∀ k, k < 512 → s'.buffer k = BitVec.ofNat 8 k) ∧
        s'.events = session fastest
          ([0xFF, 0x51, 0x00, 0x00, 0x00, 0x05, 0xFF] ++ List.replicate (2 + 3 + 512 + 2) 0xFF)) ∧
    (Ensures (readBlock (line silent) true 5) resting fun result s' =>
      result = -1 ∧ s'.buffer = resting.buffer ∧
        s'.events = session fastest
          ([0xFF, 0x51, 0x00, 0x00, 0x00, 0x05, 0xFF] ++ List.replicate 10 0xFF)) ∧
    Ensures (init (line silent)) resting fun result s' =>
      result = -1 ∧ s'.events = wakeUp ++ session slowest
        ([0xFF, 0x40, 0x00, 0x00, 0x00, 0x00, 0x95] ++ List.replicate 10 0xFF) := by
  refine ⟨(driver_paths answering resting 5).2.2.weaken fun result s' path => ?_,
    (driver_paths silent resting 5).2.2.weaken fun result s' path => ?_,
    (driver_paths silent resting 5).1.weaken fun result s' path => ?_⟩
  · obtain ⟨sent, reads, events⟩ := path.sent
    generalize s'.buffer = memory at reads ⊢
    obtain ⟨rfl, rfl, rfl⟩ := reads.of_ready ready_answering
    refine ⟨rfl, fun k small => ?_, events⟩
    have later : resting.taken + 8 + 1 + 2 + 1 + (k - 0) = 12 + k := by
      change 0 + 8 + 1 + 2 + 1 + (k - 0) = 12 + k
      omega
    rw [filled, if_pos (by omega), later, answering, if_neg (by omega), if_neg (by omega),
      if_neg (by omega), Nat.add_sub_cancel_left]
  · obtain ⟨sent, reads, events⟩ := path.sent
    generalize s'.buffer = memory at reads ⊢
    cases reads with
    | refused asks _ =>
        obtain ⟨-, rfl⟩ := asks_silent asks
        exact ⟨rfl, rfl, events⟩
    | timeout asks _ => cases (asks_silent asks).1
    | block asks _ => cases (asks_silent asks).1
  · obtain ⟨sent, starts, events⟩ := path.sent
    cases starts with
    | refused asks _ =>
        obtain ⟨-, rfl⟩ := asks_silent asks
        exact ⟨rfl, events⟩
    | ended asks _ _ => cases (asks_silent asks).1

end SDCard

end Cocoapuffs
