import Cocoapuffs.Trace
import Mathlib.Logic.Function.Basic

/-!
# The receive buffer of the UART

`Uart::InterruptHandler` fills a ring of characters that `Uart::Read` is to
drain.  An interrupt may come between any two statements of `Read` and runs to
its end before `Read` goes on.  `Read` copies from `end_` without moving it, so
all bytes it ever returns are copies of the first one; the ring is a queue in
just those runs in which no return of `Read` and no overrun shows this.
-/

namespace Cocoapuffs

namespace Uart

/-- The size of the ring. -/
def kBufferSize : Nat := 256

/-- `uart_is_empty`, with `EMPTY_BITMASK`. -/
def uartIsEmpty (c : BitVec 32) : Bool := c &&& 0x100 != 0

/-- The members of `Uart`; the pointers are offsets from `buffer_`. -/
structure State where
  buffer : Nat → BitVec 8
  begin_ : Nat
  end_ : Nat
  overrun_ : Bool

def uartCh (status : BitVec 32) : BitVec 8 := status.setWidth 8

/-- A pass of the loop in `InterruptHandler` that found a character. -/
def State.receive (u : State) (status : BitVec 32) : State :=
  let u := { u with
    buffer := Function.update u.buffer u.begin_ (uartCh status)
    begin_ := u.begin_ + 1 }
  let u := if u.begin_ = kBufferSize then { u with begin_ := 0 } else u
  if u.begin_ = u.end_ then { u with overrun_ := true } else u

/-- The variables of a call of `Read`; `buf` holds what was copied so far. -/
structure Call where
  len : Nat
  readCount : Nat
  buf : List (BitVec 8)
deriving DecidableEq

/-- Where the thread that calls `Read` stands: outside, at the loop condition,
at the copy, or at the wrap-around check. -/
inductive Reader where
  | idle
  | test (call : Call)
  | copy (call : Call)
  | wrap (call : Call)
deriving DecidableEq

/-- The buffer with the two contexts that use it.  `taken` are the bytes taken
from the hardware and `returned` those of the finished calls of `Read`. -/
structure System where
  uart : State
  handling : Bool
  reader : Reader
  taken : List (BitVec 8)
  returned : List (BitVec 8)

inductive Event where
  /-- `InterruptHandler` is called. -/
  | interrupt
  /-- It reads `status` from the register. -/
  | poll (status : BitVec 32)
  /-- `Read` is called. -/
  | call (len : Nat)
  /-- It does its next statement. -/
  | proceed
deriving DecidableEq

namespace System

/-- The call of `Read` that is about to return. -/
def returning (s : System) : Option Call :=
  match s.reader with
  | .test c =>
      if s.handling || (s.uart.begin_ != s.uart.end_ && c.readCount < c.len) then none else some c
  | _ => none

def poll (status : BitVec 32) (s : System) : System :=
  if s.handling then
    if uartIsEmpty status then { s with handling := false }
    else
      let u := s.uart.receive status
      { s with
        uart := u
        handling := u.begin_ != u.end_
        taken := s.taken ++ [uartCh status] }
  else s

def proceed (s : System) : System :=
  if s.handling then s
  else match s.reader with
    | .idle => s
    | .test c =>
        if s.uart.begin_ != s.uart.end_ && c.readCount < c.len then { s with reader := .copy c }
        else { s with reader := .idle, returned := s.returned ++ c.buf }
    | .copy c =>
        let c := { c with
          readCount := c.readCount + 1
          buf := c.buf ++ [s.uart.buffer s.uart.end_] }
        { s with reader := .wrap c }
    | .wrap c =>
        { s with
          reader := .test c
          uart.end_ := if s.uart.end_ = kBufferSize then 0 else s.uart.end_ }

def step (event : Event) (s : System) : System :=
  match event with
  | .interrupt => { s with handling := true }
  | .poll status => s.poll status
  | .call len =>
      if s.handling = false ∧ s.reader = .idle then { s with reader := .test ⟨len, 0, []⟩ } else s
  | .proceed => s.proceed

/-- A new `Uart`; what `buffer_` holds is not specified. -/
def new (buffer : Nat → BitVec 8) : System :=
  ⟨⟨buffer, 0, 0, false⟩, false, .idle, [], []⟩

end System

section Runs

variable (buffer : Nat → BitVec 8) (events : Nat → Event)

abbrev states : Nat → System := Trace.run System.step (System.new buffer) events

/-- What it means for the ring to be a queue, as long as there is no overrun. -/
structure Fifo : Prop where
  isPrefix : ∀ n, (states buffer events n).uart.overrun_ = false →
    (states buffer events n).returned <+: (states buffer events n).taken
  /-- `Read` returns all it is asked for, or else all there is. -/
  readCount : ∀ n c, events n = .proceed → (states buffer events n).uart.overrun_ = false →
    (states buffer events n).returning = some c →
    c.readCount = min c.len
      ((states buffer events n).taken.length - (states buffer events n).returned.length)
  inBounds : ∀ n, (states buffer events n).uart.overrun_ = false →
    (states buffer events n).uart.begin_ < kBufferSize ∧
      (states buffer events n).uart.end_ < kBufferSize
  overrun : ∀ n, (states buffer events n).uart.overrun_ = false →
    (states buffer events (n + 1)).uart.overrun_ = true →
    kBufferSize - 1 <
      (states buffer events (n + 1)).taken.length - (states buffer events (n + 1)).returned.length

/-- A step that does not show that `end_` stays where it is: the bytes due to a
`Read` that returns equal the first byte of all, and no byte has been read when
the ring is filled for the first time. -/
def System.Harmless (s : System) : Event → Prop
  | .poll status => s.handling = true → uartIsEmpty status = false →
      s.taken.length = kBufferSize - 1 → s.returned = []
  | .proceed => ∀ c, s.returning = some c → s.taken ≠ [] →
      (s.taken.drop s.returned.length).take c.len = List.replicate c.len (s.taken.headD 0)
  | _ => True

end Runs

/-- What the variables of a call of `Read` are, given the bytes taken. -/
structure Call.Copies (c : Call) (taken : List (BitVec 8)) : Prop where
  le : c.readCount ≤ c.len
  buf : c.buf = List.replicate c.readCount (taken.headD 0)
  nonempty : 0 < c.readCount → taken ≠ []

/-- The invariant: without an overrun, the ring holds the bytes taken from its
first place on, and `end_` has never moved. -/
structure System.Tracks (s : System) : Prop where
  begin_eq : s.uart.begin_ = s.taken.length
  begin_lt : s.taken.length < kBufferSize
  end_eq : s.uart.end_ = 0
  stored : ∀ i, i < s.taken.length → s.taken[i]? = some (s.uart.buffer i)
  test : ∀ c, s.reader = .test c → c.Copies s.taken
  copy : ∀ c, s.reader = .copy c → c.Copies s.taken ∧ s.taken ≠ [] ∧ c.readCount < c.len
  wrap : ∀ c, s.reader = .wrap c → c.Copies s.taken

theorem Call.Copies.append {c : Call} {taken : List (BitVec 8)} (copies : c.Copies taken)
    (byte : BitVec 8) : c.Copies (taken ++ [byte]) where
  le := copies.le
  buf := by
    cases taken with
    | nil =>
        have none : c.readCount = 0 := Nat.eq_zero_of_not_pos fun pos => copies.nonempty pos rfl
        rw [copies.buf, none]
        rfl
    | cons first rest => exact copies.buf
  nonempty _ := by simp

theorem Call.Copies.copy {c : Call} {taken : List (BitVec 8)} (copies : c.Copies taken)
    (nonempty : taken ≠ []) (more : c.readCount < c.len) {byte : BitVec 8}
    (first : taken[0]? = some byte) :
    Call.Copies { c with readCount := c.readCount + 1, buf := c.buf ++ [byte] } taken where
  le := more
  buf := by
    have head : taken.headD 0 = byte := by
      rw [List.headD_eq_head?_getD, List.head?_eq_getElem?, first]
      rfl
    dsimp only
    rw [List.replicate_succ', copies.buf, head]
  nonempty _ := nonempty

namespace System

variable {s : System}

theorem proceed_taken : s.proceed.taken = s.taken := by
  unfold System.proceed
  split
  · rfl
  · split
    · rfl
    · split <;> rfl
    · rfl
    · rfl

theorem proceed_overrun : s.proceed.uart.overrun_ = s.uart.overrun_ := by
  unfold System.proceed
  split
  · rfl
  · split
    · rfl
    · split <;> rfl
    · rfl
    · rfl

theorem tracks_new (buffer : Nat → BitVec 8) : (new buffer).Tracks where
  begin_eq := rfl
  begin_lt := Nat.zero_lt_succ _
  end_eq := rfl
  stored i lt := absurd lt (Nat.not_lt_zero i)
  test := nofun
  copy := nofun
  wrap := nofun

theorem Tracks.receive_room (tracks : s.Tracks) (status : BitVec 32)
    (room : s.taken.length + 1 < kBufferSize) :
    s.uart.receive status =
      { s.uart with
        buffer := Function.update s.uart.buffer s.taken.length (uartCh status)
        begin_ := s.taken.length + 1 } := by
  have inside : s.taken.length + 1 ≠ kBufferSize := by omega
  simp [State.receive, tracks.begin_eq, tracks.end_eq, inside]

theorem Tracks.receive_last (tracks : s.Tracks) (status : BitVec 32)
    (last : s.taken.length + 1 = kBufferSize) :
    (s.uart.receive status).begin_ = (s.uart.receive status).end_ ∧
      (s.uart.receive status).overrun_ = true := by
  simp [State.receive, tracks.begin_eq, tracks.end_eq, last]

theorem Tracks.poll (tracks : s.Tracks) (status : BitVec 32)
    (fine : (s.poll status).uart.overrun_ = false) : (s.poll status).Tracks := by
  unfold System.poll at fine ⊢
  by_cases handling : s.handling = true
  · cases empty : uartIsEmpty status with
    | true => simpa [handling, empty] using { tracks with }
    | false =>
        by_cases last : s.taken.length + 1 = kBufferSize
        · simp [handling, empty, (tracks.receive_last status last).2] at fine
        · have lt := tracks.begin_lt
          have room : s.taken.length + 1 < kBufferSize := by omega
          simp only [handling, if_true, Bool.false_eq_true, if_false,
            tracks.receive_room status room]
          exact
            { begin_eq := by simp
              begin_lt := by simpa using room
              end_eq := tracks.end_eq
              stored := by
                intro i inside
                rcases Nat.lt_succ_iff_lt_or_eq.mp (by simpa using inside) with old | rfl
                · have other : i ≠ s.taken.length := by omega
                  rw [List.getElem?_append_left old, tracks.stored i old]
                  dsimp only
                  rw [Function.update_of_ne other]
                · simp
              test := fun c reading => (tracks.test c reading).append _
              copy := fun c reading =>
                ⟨(tracks.copy c reading).1.append _, by simp, (tracks.copy c reading).2.2⟩
              wrap := fun c reading => (tracks.wrap c reading).append _ }
  · simpa [handling] using tracks

/-- Without an overrun, the ring is empty only before the first byte. -/
theorem Tracks.begin_eq_end (tracks : s.Tracks) :
    s.uart.begin_ = s.uart.end_ ↔ s.taken = [] := by
  rw [tracks.begin_eq, tracks.end_eq, List.length_eq_zero_iff]

theorem Tracks.proceed (tracks : s.Tracks) : s.proceed.Tracks := by
  unfold System.proceed
  split
  · exact tracks
  · cases reading : s.reader with
    | idle => exact tracks
    | test c =>
        dsimp only
        split
        · rename_i more
          simp only [Bool.and_eq_true, bne_iff_ne, ne_eq, tracks.begin_eq_end,
            decide_eq_true_eq] at more
          exact { tracks with
            test := nofun
            copy := by rintro c' ⟨⟩; exact ⟨tracks.test c reading, more.1, more.2⟩
            wrap := nofun }
        · exact { tracks with test := nofun, copy := nofun, wrap := nofun }
    | copy c =>
        obtain ⟨copies, nonempty, more⟩ := tracks.copy c reading
        have first : s.taken[0]? = some (s.uart.buffer s.uart.end_) := by
          rw [tracks.end_eq]
          exact tracks.stored 0 (List.length_pos_iff.mpr nonempty)
        exact { tracks with
          test := nofun
          copy := nofun
          wrap := by rintro c' ⟨⟩; exact copies.copy nonempty more first }
    | wrap c =>
        have stays : (if s.uart.end_ = kBufferSize then 0 else s.uart.end_) = 0 := by
          rw [tracks.end_eq]
          rfl
        exact
          { begin_eq := tracks.begin_eq
            begin_lt := tracks.begin_lt
            end_eq := stays
            stored := tracks.stored
            test := by rintro c' ⟨⟩; exact tracks.wrap c reading
            copy := nofun
            wrap := nofun }

theorem Tracks.step (tracks : s.Tracks) (event : Event)
    (fine : (step event s).uart.overrun_ = false) : (System.step event s).Tracks := by
  cases event with
  | interrupt => exact { tracks with }
  | poll status => exact tracks.poll status fine
  | call len =>
      unfold System.step
      dsimp only
      split
      · exact { tracks with
          test := by rintro c' ⟨⟩; exact ⟨Nat.zero_le _, rfl, fun pos => absurd pos (lt_irrefl 0)⟩
          copy := nofun
          wrap := nofun }
      · exact tracks
  | proceed => exact tracks.proceed

theorem fine_of_step {event : Event} (fine : (System.step event s).uart.overrun_ = false) :
    s.uart.overrun_ = false := by
  rw [Bool.eq_false_iff] at fine ⊢
  refine fun overrun => fine ?_
  have kept (status : BitVec 32) : (s.uart.receive status).overrun_ = true := by
    unfold State.receive
    dsimp only
    split <;> split <;> simp [overrun]
  cases event with
  | interrupt => exact overrun
  | poll status =>
      unfold System.step System.poll
      dsimp only
      split
      · split
        · exact overrun
        · exact kept status
      · exact overrun
  | call len =>
      unfold System.step
      dsimp only
      split <;> exact overrun
  | proceed => exact proceed_overrun.trans overrun

/-- What a call of `Read` that is about to return has copied. -/
theorem Tracks.returning (tracks : s.Tracks) {c : Call} (returning : s.returning = some c) :
    c.buf = List.replicate c.readCount (s.taken.headD 0) ∧
      (s.taken = [] ∧ c.readCount = 0 ∨ s.taken ≠ [] ∧ c.readCount = c.len) := by
  unfold System.returning at returning
  split at returning
  · rename_i c' reading
    split at returning
    · cases returning
    · rename_i stops
      obtain rfl : c' = c := by simpa using returning
      have copies := tracks.test c' reading
      refine ⟨copies.buf, ?_⟩
      by_cases none : s.taken = []
      · exact .inl ⟨none, Nat.eq_zero_of_not_pos fun pos => copies.nonempty pos none⟩
      · simp only [Bool.or_eq_true, Bool.and_eq_true, bne_iff_ne, ne_eq, tracks.begin_eq_end,
          decide_eq_true_eq, not_or, not_and, not_lt] at stops
        exact .inr ⟨none, le_antisymm copies.le (stops.2 none)⟩
  · cases returning

theorem proceed_of_returning {c : Call} (returning : s.returning = some c) :
    s.proceed = { s with reader := .idle, returned := s.returned ++ c.buf } := by
  unfold System.returning at returning
  split at returning
  · rename_i c' reading
    split at returning
    · cases returning
    · rename_i stops
      obtain rfl : c' = c := by simpa using returning
      simp only [Bool.or_eq_true, not_or] at stops
      simp [System.proceed, reading, stops.1, stops.2]
  · cases returning

theorem proceed_returned_of_none (staying : s.returning = none) :
    s.proceed.returned = s.returned := by
  unfold System.returning at staying
  unfold System.proceed
  split
  · rfl
  · rename_i running
    cases reading : s.reader with
    | test c =>
        simp only [reading, (Bool.not_eq_true _).mp running, Bool.false_or] at staying
        dsimp only
        split at staying
        · rename_i goesOn
          rw [if_pos goesOn]
        · cases staying
    | _ => rfl

theorem step_returned_of_ne {event : Event} (ne : event ≠ .proceed) :
    (step event s).returned = s.returned := by
  cases event with
  | interrupt => rfl
  | poll status =>
      unfold System.step System.poll
      dsimp only
      split
      · split <;> rfl
      · rfl
  | call len =>
      unfold System.step
      dsimp only
      split <;> rfl
  | proceed => exact absurd rfl ne

theorem taken_step (event : Event) : s.taken <+: (System.step event s).taken := by
  cases event with
  | interrupt => exact List.prefix_refl _
  | poll status =>
      unfold System.step System.poll
      dsimp only
      split
      · split
        · exact List.prefix_refl _
        · exact List.prefix_append _ _
      · exact List.prefix_refl _
  | call len =>
      unfold System.step
      dsimp only
      split <;> exact List.prefix_refl _
  | proceed => exact proceed_taken ▸ List.prefix_refl _

/-- The ring overruns when its last place is filled, whatever has been read. -/
theorem Tracks.overrun_iff (tracks : s.Tracks) (fine : s.uart.overrun_ = false) (event : Event) :
    (System.step event s).uart.overrun_ = true ↔
      ∃ status, event = .poll status ∧ s.handling = true ∧ uartIsEmpty status = false ∧
        s.taken.length + 1 = kBufferSize := by
  cases event with
  | poll status =>
      have same (status' : BitVec 32) : Event.poll status = .poll status' ↔ status = status' :=
        ⟨by rintro ⟨⟩; rfl, by rintro rfl; rfl⟩
      simp only [same, exists_eq_left']
      unfold System.step System.poll
      dsimp only
      have lt := tracks.begin_lt
      by_cases last : s.taken.length + 1 = kBufferSize
      · split
        · split
          · simp [*]
          · simp [*, (tracks.receive_last status last).2]
        · simp [*]
      · have room : s.taken.length + 1 < kBufferSize := by omega
        split
        · split
          · simp [*]
          · simp [*, tracks.receive_room status room]
        · simp [*]
  | interrupt => simp [System.step, fine]
  | call len =>
      unfold System.step
      dsimp only
      split <;> simp [fine]
  | proceed => simp [System.step, proceed_overrun, fine]

end System

section Runs

variable (buffer : Nat → BitVec 8) (events : Nat → Event)

theorem tracks (n : Nat) (fine : (states buffer events n).uart.overrun_ = false) :
    (states buffer events n).Tracks := by
  induction n with
  | zero => exact System.tracks_new buffer
  | succ n ih => exact (ih (System.fine_of_step fine)).step _ fine

theorem returned_succ (n : Nat) :
    (states buffer events (n + 1)).returned = (states buffer events n).returned ∨
      ∃ c, events n = .proceed ∧ (states buffer events n).returning = some c ∧
        (states buffer events (n + 1)).taken = (states buffer events n).taken ∧
        (states buffer events (n + 1)).returned = (states buffer events n).returned ++ c.buf := by
  by_cases isProceed : events n = .proceed
  · have next : states buffer events (n + 1) = (states buffer events n).proceed := by
      rw [states, Trace.run_succ, isProceed]
      rfl
    rw [next]
    cases returning : (states buffer events n).returning with
    | none => exact .inl (System.proceed_returned_of_none returning)
    | some c =>
        refine .inr ⟨c, isProceed, rfl, System.proceed_taken, ?_⟩
        rw [System.proceed_of_returning returning]
  · exact .inl (System.step_returned_of_ne isProceed)

theorem append_prefix_iff {returned taken copied : List (BitVec 8)} (before : returned <+: taken) :
    returned ++ copied <+: taken ↔ (taken.drop returned.length).take copied.length = copied := by
  obtain ⟨rest, rfl⟩ := before
  rw [List.prefix_append_right_inj, List.drop_left, List.prefix_iff_eq_take, eq_comm]

/-- The bytes returned come from the ring as long as no step shows that `end_`
stays where it is. -/
theorem returned_prefix
    (harmless : ∀ n, (states buffer events n).uart.overrun_ = false →
      (states buffer events n).Harmless (events n)) (n : Nat)
    (fine : (states buffer events n).uart.overrun_ = false) :
    (states buffer events n).returned <+: (states buffer events n).taken := by
  induction n with
  | zero => exact List.prefix_refl _
  | succ n ih =>
      have before := System.fine_of_step fine
      rcases returned_succ buffer events n with same | ⟨c, isProceed, returning, taken, returned⟩
      · rw [same]
        exact (ih before).trans (System.taken_step _)
      · obtain ⟨buf, ⟨-, none⟩ | ⟨some, all⟩⟩ := (tracks buffer events n before).returning returning
        · rw [returned, taken, buf, none, List.replicate_zero, List.append_nil]
          exact ih before
        · have due := harmless n before
          rw [isProceed] at due
          rw [returned, taken, append_prefix_iff (ih before), buf, all, List.length_replicate]
          exact due c returning some

/-- The receive buffer is a queue in exactly the runs all of whose steps, up to
an overrun, are harmless. -/
theorem uart_fifo_iff :
    Fifo buffer events ↔ ∀ n, (states buffer events n).uart.overrun_ = false →
      (states buffer events n).Harmless (events n) := by
  constructor
  · intro fifo n fine
    have tracked := tracks buffer events n fine
    cases event : events n with
    | interrupt => trivial
    | call len => trivial
    | poll status =>
        intro handling some last
        have full : (states buffer events n).taken.length + 1 = kBufferSize := by
          rw [last]
          rfl
        have next : states buffer events (n + 1) = (states buffer events n).poll status := by
          rw [states, Trace.run_succ, event]
          rfl
        have unread := fifo.overrun n fine
          ((tracked.overrun_iff fine _).mpr ⟨status, event, handling, some, full⟩)
        simp only [next, System.poll, handling, some, if_true, Bool.false_eq_true, if_false,
          List.length_append, List.length_singleton, full] at unread
        exact List.length_eq_zero_iff.mp (by omega)
    | proceed =>
        intro c returning some
        have next : states buffer events (n + 1) = (states buffer events n).proceed := by
          rw [states, Trace.run_succ, event]
          rfl
        have after := fifo.isPrefix (n + 1) (by rw [next, System.proceed_overrun, fine])
        obtain ⟨buf, ⟨none, -⟩ | ⟨-, all⟩⟩ := tracked.returning returning
        · exact absurd none some
        · rw [next, System.proceed_taken, System.proceed_of_returning returning,
            append_prefix_iff (fifo.isPrefix n fine), buf, all, List.length_replicate] at after
          exact after
  · intro harmless
    have isPrefix := returned_prefix buffer events harmless
    refine ⟨isPrefix, fun n c isProceed fine returning => ?_, fun n fine => ?_,
      fun n fine overrun => ?_⟩
    · obtain ⟨buf, ⟨none, zero⟩ | ⟨some, all⟩⟩ := (tracks buffer events n fine).returning returning
      · rw [zero, none]
        simp
      · have due := harmless n fine
        rw [isProceed] at due
        have lengths := congrArg List.length (due c returning some)
        simp only [List.length_take, List.length_drop, List.length_replicate] at lengths
        omega
    · have tracked := tracks buffer events n fine
      rw [tracked.begin_eq, tracked.end_eq]
      exact ⟨tracked.begin_lt, Nat.zero_lt_succ _⟩
    · obtain ⟨status, event, handling, some, last⟩ :=
        ((tracks buffer events n fine).overrun_iff fine _).mp overrun
      have due := harmless n fine
      rw [event] at due
      have none : (states buffer events n).returned = [] := by
        refine due handling some ?_
        rw [← last]
        rfl
      have next : states buffer events (n + 1) = (states buffer events n).poll status := by
        rw [states, Trace.run_succ, event]
        rfl
      simp [next, System.poll, handling, some, none, last, kBufferSize]

/-- Two characters arrive, and a call of `Read` asks for both. -/
def twoCharacters (n : Nat) : Event :=
  [.interrupt, .poll 0x61, .poll 0x62, .poll 0x100, .call 2].getD n .proceed

theorem uart_repeats_first_byte :
    (states (fun _ => 0) twoCharacters 12).returned = [0x61, 0x61] ∧
      ¬ ∀ buffer events, Fifo buffer events := by
  refine ⟨by decide, fun claim => ?_⟩
  have prefixes := (claim (fun _ => 0) twoCharacters).isPrefix 12 (by decide)
  revert prefixes
  decide

end Runs

end Uart

end Cocoapuffs
