import Cocoapuffs.Trace

/-!
# The polled UART

`UartBuf` reads a character with each look at the status, and keeps those that
come while it waits to transmit.  Equal places mean that nothing is kept, so a
ring that is filled once more looks empty.  Here one instant is one attempt of a
call: `Put` and `Get` attempt until they succeed.
-/

namespace Cocoapuffs

namespace UartBuf

/-- `uart_is_empty`, with `EMPTY_BITMASK`. -/
def uartIsEmpty (c : BitVec 32) : Bool := c &&& 0x100 != 0

/-- `uart_is_full`, with `FULL_BITMASK`. -/
def uartIsFull (c : BitVec 32) : Bool := c &&& 0x800 != 0

/-- The members of `UartBuf`. -/
structure State where
  buf : Nat → BitVec 8
  rd : Nat
  wr : Nat
  rdInside : rd < 256
  wrInside : wr < 256

/-- The character of a status word that is not empty. -/
def receivedOf (v : BitVec 32) : Option (BitVec 8) :=
  if uartIsEmpty v then none else some (v.setWidth 8)

/-- What `CanWrite` does with a character. -/
def State.save (r : BitVec 8) (u : State) : State :=
  { u with
    buf := Function.update u.buf u.wr r
    wr := (u.wr + 1) % 256
    wrInside := Nat.mod_lt _ (by decide) }

/-- `CanWrite`, when the register is read as `v`. -/
def State.canWrite (v : BitVec 32) (u : State) : Bool × State :=
  (!uartIsFull v, (receivedOf v).elim u u.save)

/-- `GetAsync`; `v` is only looked at if the ring is empty. -/
def State.getAsync (v : BitVec 32) (u : State) : Option (BitVec 8) × State :=
  if u.rd ≠ u.wr then
    (some (u.buf u.rd), { u with rd := (u.rd + 1) % 256, rdInside := Nat.mod_lt _ (by decide) })
  else (receivedOf v, u)

inductive Call where
  | put (c : BitVec 8)
  | canWrite
  | get
deriving DecidableEq

/-- The buffer, the call that is under way, the characters that the register has
delivered, those that `Get` has returned, and those that `Put` has written. -/
structure System where
  uart : State
  pending : Option Call
  received : List (BitVec 8)
  returned : List (BitVec 8)
  written : List (BitVec 8)

/-- The call that is made when none is under way, and the value of the register. -/
structure Input where
  call : Call
  status : BitVec 32

namespace System

/-- The call that the next attempt is for. -/
def current (input : Input) (s : System) : Call := s.pending.getD input.call

/-- One attempt. -/
def step (input : Input) (s : System) : System :=
  match s.current input with
  | .canWrite =>
      { s with
        uart := (s.uart.canWrite input.status).2
        pending := none
        received := s.received ++ (receivedOf input.status).toList }
  | .put c =>
      let (sent, uart) := s.uart.canWrite input.status
      { s with
        uart := uart
        pending := if sent then none else some (.put c)
        received := s.received ++ (receivedOf input.status).toList
        written := if sent then s.written ++ [c] else s.written }
  | .get =>
      let (got, uart) := s.uart.getAsync input.status
      { s with
        uart := uart
        pending := if got.isSome then none else some .get
        received :=
          if s.uart.rd ≠ s.uart.wr then s.received
          else s.received ++ (receivedOf input.status).toList
        returned := s.returned ++ got.toList }

/-- `UartBuf uart_buf{}`; what `buf_` holds is not specified. -/
def new (buf : Nat → BitVec 8) : System :=
  ⟨⟨buf, 0, 0, by decide, by decide⟩, none, [], [], []⟩

end System

/-- What the next attempts to get a character come to. -/
def gets : List (BitVec 32) → State → List (Option (BitVec 8))
  | [], _ => []
  | v :: rest, u => (u.getAsync v).1 :: gets rest (u.getAsync v).2

section Definitions

variable (buf : Nat → BitVec 8) (inputs : Nat → Input)

def states : Nat → System := Trace.run System.step (System.new buf) inputs

def System.unreturned (s : System) : Nat := s.received.length - s.returned.length

/-- The characters that are returned are received ones in the same order, and as
many as fit are kept: they are returned whatever the register says. -/
structure Preserved (s : System) : Prop where
  ordered : s.returned.Sublist s.received
  kept : ∃ bytes : List (BitVec 8), bytes.Sublist (s.received.drop s.returned.length) ∧
    ∀ status : List (BitVec 32), status.length = min s.unreturned 255 →
      gets status s.uart = bytes.map some

/-- A character is saved although 255 are kept. -/
def System.Overflows (input : Input) (s : System) : Prop :=
  s.current input ≠ .get ∧ (receivedOf input.status).isSome ∧ (s.uart.wr + 1) % 256 = s.uart.rd

end Definitions

/-! ### The ring as a queue -/

namespace State

/-- The characters in the ring, in the order in which they will be returned. -/
def stored (u : State) : List (BitVec 8) :=
  (List.range ((u.wr + 256 - u.rd) % 256)).map fun i => u.buf ((u.rd + i) % 256)

theorem stored_length (u : State) : u.stored.length = (u.wr + 256 - u.rd) % 256 := by
  simp [stored]

theorem stored_save {u : State} (room : (u.wr + 1) % 256 ≠ u.rd) (r : BitVec 8) :
    (u.save r).stored = u.stored ++ [r] := by
  obtain ⟨buf, rd, wr, rdInside, wrInside⟩ := u
  dsimp only at room
  have grows : ((wr + 1) % 256 + 256 - rd) % 256 = (wr + 256 - rd) % 256 + 1 := by omega
  have last : (rd + (wr + 256 - rd) % 256) % 256 = wr := by omega
  simp only [stored, save, grows, List.range_succ, List.map_append, List.map_singleton, last,
    Function.update_self]
  congr 1
  apply List.map_congr_left
  intro i member
  have small := List.mem_range.mp member
  exact Function.update_of_ne (by omega) _ _

theorem stored_eq_nil {u : State} (same : u.rd = u.wr) : u.stored = [] := by
  apply List.eq_nil_of_length_eq_zero
  rw [stored_length, same, Nat.add_sub_cancel_left, Nat.mod_self]

theorem getAsync_empty {u : State} (same : u.rd = u.wr) (v : BitVec 32) :
    u.getAsync v = (receivedOf v, u) := by
  rw [getAsync, if_neg (not_not.mpr same)]

/-- The oldest character is returned, whatever the register says. -/
theorem getAsync_stored {u : State} (other : u.rd ≠ u.wr) (v : BitVec 32) :
    ∃ byte, (u.getAsync v).1 = some byte ∧ u.stored = byte :: (u.getAsync v).2.stored := by
  obtain ⟨buf, rd, wr, rdInside, wrInside⟩ := u
  dsimp only at other
  have shrinks : (wr + 256 - rd) % 256 = (wr + 256 - (rd + 1) % 256) % 256 + 1 := by omega
  rw [getAsync, if_pos other]
  refine ⟨_, rfl, ?_⟩
  simp only [stored, shrinks, List.range_succ_eq_map, List.map_cons, List.map_map, Nat.add_zero,
    Nat.mod_eq_of_lt rdInside]
  congr 1
  apply List.map_congr_left
  intro i _
  change buf ((rd + (i + 1)) % 256) = _
  congr 1
  omega

theorem canWrite_stored {u : State} {v : BitVec 32}
    (room : ¬ ((receivedOf v).isSome ∧ (u.wr + 1) % 256 = u.rd)) :
    (u.canWrite v).2.stored = u.stored ++ (receivedOf v).toList := by
  cases seen : receivedOf v with
  | none => simp [canWrite, seen]
  | some r =>
      have fits : (u.wr + 1) % 256 ≠ u.rd := fun full => room ⟨by rw [seen]; rfl, full⟩
      simpa [canWrite, seen] using stored_save fits r

theorem gets_stored {status : List (BitVec 32)} {u : State}
    (enough : status.length ≤ u.stored.length) :
    gets status u = (u.stored.take status.length).map some := by
  induction status generalizing u with
  | nil => simp [gets]
  | cons v rest ih =>
      have other : u.rd ≠ u.wr := fun same => by simp [stored_eq_nil same] at enough
      obtain ⟨byte, got, queue⟩ := getAsync_stored other v
      rw [queue] at enough ⊢
      rw [gets, got, ih (Nat.le_of_succ_le_succ enough)]
      rfl

end State

/-! ### Runs -/

/-- What has been received is what has been returned and what is stored. -/
def Tracks (s : System) : Prop :=
  s.received = s.returned ++ s.uart.stored

theorem Tracks.unreturned {s : System} (tracks : Tracks s) :
    s.unreturned = s.uart.stored.length := by
  rw [System.unreturned, tracks, List.length_append, Nat.add_sub_cancel_left]

theorem Tracks.step {input : Input} {s : System} (tracks : Tracks s)
    (room : ¬ s.Overflows input) : Tracks (s.step input) := by
  have fits : s.current input ≠ .get → (s.uart.canWrite input.status).2.stored =
      s.uart.stored ++ (receivedOf input.status).toList := by
    intro call
    exact State.canWrite_stored fun full => room ⟨call, full⟩
  cases call : s.current input with
  | canWrite =>
      have stored := fits (by simp [call])
      simp only [Tracks, System.step, call, stored]
      rw [tracks, List.append_assoc]
  | put c =>
      have stored := fits (by simp [call])
      simp only [Tracks, System.step, call, stored]
      rw [tracks, List.append_assoc]
  | get =>
      by_cases same : s.uart.rd = s.uart.wr
      · have queue := State.stored_eq_nil same
        simp only [Tracks, System.step, call, State.getAsync_empty same, same, ne_eq,
          not_true_eq_false, if_false, queue, List.append_nil]
        rw [tracks, queue, List.append_nil]
      · obtain ⟨byte, got, queue⟩ := State.getAsync_stored same input.status
        simp only [Tracks, System.step, call, got, ne_eq, same, not_false_eq_true, if_true,
          Option.toList_some, List.append_assoc, List.singleton_append]
        rw [tracks, queue]

theorem Tracks.preserved {s : System} (tracks : Tracks s) : Preserved s where
  ordered := by
    rw [tracks]
    exact List.sublist_append_left _ _
  kept := by
    have small : s.uart.stored.length ≤ 255 := by
      rw [State.stored_length]
      omega
    refine ⟨s.uart.stored, ?_, fun status length => ?_⟩
    · rw [tracks, List.drop_left]
    · rw [tracks.unreturned, Nat.min_eq_left small] at length
      rw [State.gets_stored length.le, length, List.take_length]

theorem not_preserved_of_empty {s : System} (same : s.uart.rd = s.uart.wr)
    (some : 0 < s.unreturned) : ¬ Preserved s := by
  rintro ⟨-, bytes, -, kept⟩
  obtain ⟨more, many⟩ : ∃ more, min s.unreturned 255 = more + 1 :=
    ⟨min s.unreturned 255 - 1, by omega⟩
  have first := kept (0x100 :: List.replicate more 0x100) (by
    rw [many, List.length_cons, List.length_replicate])
  have nothing : receivedOf 0x100 = none := by decide
  rw [gets, State.getAsync_empty same, nothing] at first
  cases bytes with
  | nil => cases first
  | cons byte rest => cases first

/-- A ring that overflows looks empty, so that all 256 characters are lost. -/
theorem Tracks.overflow {input : Input} {s : System} (tracks : Tracks s)
    (overflows : s.Overflows input) : ¬ Preserved (s.step input) := by
  obtain ⟨call, seen, full⟩ := overflows
  obtain ⟨r, seen⟩ := Option.isSome_iff_exists.mp seen
  have inside := s.uart.wrInside
  have length : s.uart.stored.length = 255 := by
    rw [State.stored_length]
    omega
  have next : (s.step input).received = s.received ++ [r] ∧
      (s.step input).returned = s.returned ∧
      (s.step input).uart.rd = (s.step input).uart.wr := by
    cases now : s.current input with
    | get => exact absurd now call
    | canWrite => simp [System.step, now, State.canWrite, seen, State.save, full]
    | put c => simp [System.step, now, State.canWrite, seen, State.save, full]
  refine not_preserved_of_empty next.2.2 ?_
  have before := tracks.unreturned
  rw [System.unreturned] at before
  rw [System.unreturned, next.1, next.2.1, List.length_append, List.length_singleton]
  omega

section Runs

variable (buf : Nat → BitVec 8) (inputs : Nat → Input)

/-- The stream is preserved in just those runs in which the ring never
overflows. -/
theorem preserved_iff : (∀ n, Preserved (states buf inputs n)) ↔
    ∀ n, ¬ (states buf inputs n).Overflows (inputs n) := by
  have tracks_until : ∀ n, (∀ m, m < n → ¬ (states buf inputs m).Overflows (inputs m)) →
      Tracks (states buf inputs n) := by
    intro n before
    induction n with
    | zero =>
        change [] = [] ++ (System.new buf).uart.stored
        rw [State.stored_eq_nil rfl, List.append_nil]
    | succ n ih =>
        exact (ih fun m less => before m (by omega)).step (before n (Nat.lt_succ_self n))
  constructor
  · intro preserved n
    induction n using Nat.strong_induction_on with
    | _ n before =>
        intro overflows
        exact (tracks_until n before).overflow overflows (preserved (n + 1))
  · intro room n
    exact (tracks_until n fun m _ => room m).preserved

end Runs

/-- Characters that come in while nothing is read. -/
def flooding (n : Nat) : Input := ⟨.canWrite, BitVec.ofNat 32 (n % 256)⟩

theorem flooding_states (n : Nat) : (states (fun _ => 0) flooding n).pending = none ∧
    (states (fun _ => 0) flooding n).received.length = n ∧
    (states (fun _ => 0) flooding n).returned = [] ∧
    (states (fun _ => 0) flooding n).uart.rd = 0 ∧
    (states (fun _ => 0) flooding n).uart.wr = n % 256 := by
  induction n with
  | zero => exact ⟨rfl, rfl, rfl, rfl, rfl⟩
  | succ n ih =>
      obtain ⟨pending, received, returned, rd, wr⟩ := ih
      have next : states (fun _ => 0) flooding (n + 1) =
        (states (fun _ => 0) flooding n).step (flooding n) := rfl
      have call : (states (fun _ => 0) flooding n).current (flooding n) = .canWrite := by
        rw [System.current, pending]
        rfl
      have seen : ∃ r, receivedOf (flooding n).status = some r := by
        have characters : ∀ c, c < 256 → uartIsEmpty (BitVec.ofNat 32 c) = false := by
          decide +kernel
        exact ⟨_, if_neg (by simp [flooding, characters _ (Nat.mod_lt n (Nat.zero_lt_succ 255))])⟩
      obtain ⟨r, seen⟩ := seen
      rw [next, System.step, call]
      simp only [State.canWrite, seen, Option.elim_some, State.save, Option.toList_some,
        List.length_append, List.length_singleton, received, returned, rd, wr, true_and]
      omega

theorem flooding_loses : (states (fun _ => 0) flooding 256).received.length = 256 ∧
    (states (fun _ => 0) flooding 256).returned = [] ∧
    ¬ ∀ n, Preserved (states (fun _ => 0) flooding n) := by
  obtain ⟨-, received, returned, rd, wr⟩ := flooding_states 256
  refine ⟨received, returned, fun preserved => ?_⟩
  refine not_preserved_of_empty (rd.trans wr.symm) ?_ (preserved 256)
  rw [System.unreturned, received, returned]
  exact Nat.zero_lt_succ 255

end UartBuf

end Cocoapuffs
