import Cocoapuffs.Program
import Cocoapuffs.UartRing

/-!
# Lines from the UART

`uart_getline` in front of the polled UART: characters come out of the ring
first, and then from the register.
-/

namespace Cocoapuffs

namespace UartGetline

open Program (Settles)
open UartBuf (receivedOf)

/-- `uart_buf`, how often its register has been read, and the memory with the
addresses that have been written to. -/
structure Machine where
  uart : UartBuf.State
  reads : Nat
  memory : Nat → BitVec 8
  writes : List Nat

/-- `'\n'`. -/
def newline : BitVec 8 := 0x0A

section Definitions

variable (status : Nat → BitVec 32)

/-- The register is read if the ring is empty. -/
def Machine.polled (m : Machine) : Machine :=
  { m with
    uart := (m.uart.getAsync (status m.reads)).2
    reads := if m.uart.rd ≠ m.uart.wr then m.reads else m.reads + 1 }

/-- `UartBuf::GetAsync`. -/
def getAsync : StateT Machine Option (Option (BitVec 8)) := do
  let m ← get
  set (m.polled status)
  return (m.uart.getAsync (status m.reads)).1

/-- `UartBuf::Get`. -/
def uartGet : Nat → StateT Machine Option (BitVec 8)
  | 0 => failure
  | fuel + 1 => do
      match ← getAsync status with
      | some c => return c
      | none => uartGet fuel

/-- `uart_getchar`. -/
def uartGetchar (fuel : Nat) : StateT Machine Option (BitVec 8) := uartGet status fuel

/-- `*buf = c`. -/
def store (buf : Nat) (c : BitVec 8) : StateT Machine Option Unit :=
  modify fun m =>
    { m with memory := Function.update m.memory buf c, writes := m.writes ++ [buf] }

/-- The loop of `uart_getline`; it returns `buf` and `read_chars`. -/
def getlineLoop (fuel : Nat) : Nat → Nat → StateT Machine Option (Nat × Nat)
  | buf, 0 => return (buf, 0)
  | buf, left + 1 => do
      let c ← uartGetchar status fuel
      store buf c
      if c = newline then return (buf + 1, left) else getlineLoop fuel (buf + 1) left

/-- `uart_getline`. -/
def uartGetline (buf readChars fuel : Nat) : StateT Machine Option Bool := do
  if readChars = 0 then return false
  let (buf, left) ← getlineLoop status fuel buf readChars
  if left = 0 then
    store (buf - 1) 0
    return false
  store buf 0
  return true

/-- The characters of the ring, and those that the next `n` reads of the register
hand over. -/
def upcoming (m : Machine) (n : Nat) : List (BitVec 8) :=
  m.uart.stored ++ Trace.history (fun i => receivedOf (status (m.reads + i))) n

/-- The stream of the characters that are to come. -/
def Delivers (m : Machine) (chars : Nat → BitVec 8) : Prop :=
  ∀ count, ∃ n, (List.range count).map chars <+: upcoming status m n

/-- What a call with room for `size` characters from `buf` on comes to. -/
structure Line (buf size : Nat) (chars : Nat → BitVec 8) (m : Machine) (returned : Bool)
    (m' : Machine) : Prop where
  returns : returned = true ↔ ∃ k, k < size - 1 ∧ chars k = newline
  line : returned = true → ∃ k, k < size - 1 ∧ chars k = newline ∧
    (∀ i, i < k → chars i ≠ newline) ∧ (∀ i, i ≤ k → m'.memory (buf + i) = chars i) ∧
    m'.memory (buf + k + 1) = 0 ∧ Delivers status m' fun i => chars (k + 1 + i)
  full : returned = false → (∀ i, i < size - 1 → m'.memory (buf + i) = chars i) ∧
    m'.memory (buf + (size - 1)) = 0 ∧ Delivers status m' fun i => chars (size + i)
  inside : ∃ writes, m'.writes = m.writes ++ writes ∧
    ∀ adr ∈ writes, buf ≤ adr ∧ adr < buf + size
  kept : ∀ adr, ¬ (buf ≤ adr ∧ adr < buf + size) → m'.memory adr = m.memory adr

end Definitions

variable {status : Nat → BitVec 32} {m : Machine} {chars : Nat → BitVec 8}

/-! ### The stream -/

theorem Delivers.getElem? (delivers : Delivers status m chars) (i : Nat) :
    ∃ n, ∀ later, n ≤ later → (upcoming status m later)[i]? = some (chars i) := by
  obtain ⟨n, front⟩ := delivers (i + 1)
  refine ⟨n, fun later le => ?_⟩
  have more : upcoming status m n <+: upcoming status m later :=
    (List.prefix_append_right_inj _).mpr (Trace.history_prefix _ le)
  have inside : i < ((List.range (i + 1)).map chars).length := by simp
  rw [List.prefix_iff_getElem?.mp (front.trans more) i inside]
  simp

/-- The characters that are to come are those of one stream only. -/
theorem Delivers.unique {chars' : Nat → BitVec 8} (delivers : Delivers status m chars)
    (delivers' : Delivers status m chars') : chars = chars' := by
  funext i
  obtain ⟨n, first⟩ := delivers.getElem? i
  obtain ⟨n', second⟩ := delivers'.getElem? i
  have same := (first (max n n') (by omega)).symm.trans (second (max n n') (by omega))
  exact Option.some.inj same

/-- Any stream is that of a register that always has a character. -/
theorem delivers_stream (chars : Nat → BitVec 8) (empty : m.uart.rd = m.uart.wr)
    (unread : m.reads = 0) : Delivers (fun i => (chars i).setWidth 32) m chars := by
  have seen : ∀ c : BitVec 8, receivedOf (c.setWidth 32) = some c := by decide
  intro count
  refine ⟨count, ?_⟩
  rw [upcoming, UartBuf.State.stored_eq_nil empty, List.nil_append, unread]
  simp only [seen, Nat.zero_add, Trace.history_some]
  exact List.prefix_refl _

/-! ### One character -/

theorem getAsync_run (status : Nat → BitVec 32) (m : Machine) : (getAsync status).run m =
    some ((m.uart.getAsync (status m.reads)).1, m.polled status) :=
  rfl

/-- A poll takes the next character from the ring, or whatever the register
gives. -/
theorem upcoming_polled (status : Nat → BitVec 32) (m : Machine) :
    (∃ c, (m.uart.getAsync (status m.reads)).1 = some c ∧
      ∀ n, upcoming status m n = c :: upcoming status (m.polled status) n) ∨
    upcoming status m 0 = [] ∧ ∀ n, upcoming status m (n + 1) =
      (m.uart.getAsync (status m.reads)).1.toList ++ upcoming status (m.polled status) n := by
  by_cases same : m.uart.rd = m.uart.wr
  · have empty := UartBuf.State.stored_eq_nil same
    have polled : m.polled status = { m with reads := m.reads + 1 } := by
      rw [Machine.polled, UartBuf.State.getAsync_empty same, if_neg (not_not.mpr same)]
    refine .inr ⟨by rw [upcoming, empty]; rfl, fun n => ?_⟩
    rw [polled, UartBuf.State.getAsync_empty same, upcoming, upcoming, empty, List.nil_append,
      List.nil_append, Trace.history_succ_front]
    simp only [Nat.add_zero, Nat.add_assoc, Nat.add_comm 1]
  · obtain ⟨c, got, queue⟩ := UartBuf.State.getAsync_stored same (status m.reads)
    refine .inl ⟨c, got, fun n => ?_⟩
    rw [upcoming, upcoming, queue, Machine.polled, if_pos same]
    rfl

theorem Delivers.tail (delivers : Delivers status m chars) {m₁ : Machine} {c : BitVec 8}
    (moves : ∀ n, ∃ n', upcoming status m n = [] ∨
      upcoming status m n = c :: upcoming status m₁ n') :
    c = chars 0 ∧ Delivers status m₁ fun i => chars (i + 1) := by
  have first : ∀ count, ∃ n', chars 0 = c ∧
      (List.range count).map (fun i => chars (i + 1)) <+: upcoming status m₁ n' := by
    intro count
    obtain ⟨n, front⟩ := delivers (count + 1)
    rw [List.range_succ_eq_map, List.map_cons, List.map_map] at front
    obtain ⟨n', nothing | next⟩ := moves n
    · rw [nothing] at front
      simp at front
    · rw [next, List.cons_prefix_cons] at front
      exact ⟨n', front⟩
  obtain ⟨-, same, -⟩ := first 0
  exact ⟨same.symm, fun count => (first count).imp fun _ both => both.2⟩

theorem uartGet_of_some {fuel : Nat} {c : BitVec 8} (enough : 0 < fuel)
    (got : (m.uart.getAsync (status m.reads)).1 = some c) :
    (uartGet status fuel).run m = some (c, m.polled status) := by
  obtain ⟨more, rfl⟩ : ∃ more, fuel = more + 1 := ⟨fuel - 1, by omega⟩
  rw [uartGet, StateT.run_bind, getAsync_run, got]
  rfl

/-- The next character is returned after as many polls as it takes. -/
theorem uartGet_returns (delivers : Delivers status m chars) {n : Nat}
    (arrives : [chars 0] <+: upcoming status m n) :
    ∃ m', (m'.memory = m.memory ∧ m'.writes = m.writes ∧
        Delivers status m' fun i => chars (i + 1)) ∧
      ∀ fuel, n + 1 ≤ fuel → (uartGet status fuel).run m = some (chars 0, m') := by
  induction n generalizing m with
  | zero =>
      rcases upcoming_polled status m with ⟨c, got, ring⟩ | ⟨empty, -⟩
      · obtain ⟨rfl, rest⟩ := delivers.tail fun n => ⟨n, .inr (ring n)⟩
        refine ⟨m.polled status, ⟨rfl, rfl, rest⟩, fun fuel enough => ?_⟩
        exact uartGet_of_some enough got
      · rw [empty] at arrives
        simp at arrives
  | succ n ih =>
      rcases upcoming_polled status m with ⟨c, got, ring⟩ | ⟨empty, register⟩
      · obtain ⟨rfl, rest⟩ := delivers.tail fun n => ⟨n, .inr (ring n)⟩
        refine ⟨m.polled status, ⟨rfl, rfl, rest⟩, fun fuel enough => ?_⟩
        exact uartGet_of_some (by omega) got
      · cases got : (m.uart.getAsync (status m.reads)).1 with
        | some c =>
            rw [got] at register
            have moves : ∀ n, ∃ n', upcoming status m n = [] ∨
                upcoming status m n = c :: upcoming status (m.polled status) n' := by
              intro n
              cases n with
              | zero => exact ⟨0, .inl empty⟩
              | succ n => exact ⟨n, .inr (register n)⟩
            obtain ⟨rfl, rest⟩ := delivers.tail moves
            refine ⟨m.polled status, ⟨rfl, rfl, rest⟩, fun fuel enough => ?_⟩
            exact uartGet_of_some (by omega) got
        | none =>
            rw [got] at register
            have same : Delivers status (m.polled status) chars := by
              intro count
              obtain ⟨k, front⟩ := delivers count
              cases k with
              | zero =>
                  rw [empty] at front
                  exact ⟨0, front.trans List.nil_prefix⟩
              | succ k =>
                  rw [register] at front
                  exact ⟨k, front⟩
            rw [register] at arrives
            obtain ⟨m', post, runs⟩ := ih same arrives
            refine ⟨m', post, fun fuel enough => ?_⟩
            obtain ⟨more, rfl⟩ : ∃ more, fuel = more + 1 := ⟨fuel - 1, by omega⟩
            rw [uartGet, StateT.run_bind, getAsync_run, got]
            exact runs more (by omega)

theorem uartGetchar_settles (delivers : Delivers status m chars) :
    Settles (uartGetchar status) m (chars 0) fun m' => m'.memory = m.memory ∧
      m'.writes = m.writes ∧ Delivers status m' fun i => chars (i + 1) := by
  obtain ⟨n, arrives⟩ := delivers 1
  obtain ⟨m', post, runs⟩ := uartGet_returns delivers arrives
  exact ⟨m', post, n + 1, runs⟩

theorem store_settles (m : Machine) (buf : Nat) (c : BitVec 8) :
    Settles (fun _ => store buf c) m () fun m' =>
      m' = { m with memory := Function.update m.memory buf c, writes := m.writes ++ [buf] } :=
  Settles.modify rfl

/-! ### One line -/

/-- How many characters the loop takes. -/
def consumed (chars : Nat → BitVec 8) : Nat → Nat
  | 0 => 0
  | left + 1 => if chars 0 = newline then 1 else consumed (fun i => chars (i + 1)) left + 1

theorem consumed_cases (chars : Nat → BitVec 8) (size : Nat) :
    (∃ k, k < size ∧ chars k = newline ∧ (∀ i, i < k → chars i ≠ newline) ∧
      consumed chars size = k + 1) ∨
    (∀ i, i < size → chars i ≠ newline) ∧ consumed chars size = size := by
  induction size generalizing chars with
  | zero => exact .inr ⟨fun i less => absurd less (Nat.not_lt_zero i), rfl⟩
  | succ size ih =>
      rw [consumed]
      by_cases ends : chars 0 = newline
      · rw [if_pos ends]
        exact .inl ⟨0, Nat.zero_lt_succ size, ends, fun i less => absurd less (Nat.not_lt_zero i),
          rfl⟩
      · rw [if_neg ends]
        rcases ih fun i => chars (i + 1) with ⟨k, inside, found, before, count⟩ | ⟨none, count⟩
        · refine .inl ⟨k + 1, by omega, found, fun i less => ?_, by rw [count]⟩
          cases i with
          | zero => exact ends
          | succ i => exact before i (by omega)
        · refine .inr ⟨fun i less => ?_, by rw [count]⟩
          cases i with
          | zero => exact ends
          | succ i => exact none i (by omega)

/-- The newline of a line that fits is followed by room for the terminating NUL. -/
theorem consumed_room (chars : Nat → BitVec 8) {size : Nat} (positive : 1 ≤ size) :
    (∃ k, k < size - 1 ∧ chars k = newline ∧ (∀ i, i < k → chars i ≠ newline) ∧
      consumed chars size = k + 1) ∨
    (∀ i, i < size - 1 → chars i ≠ newline) ∧ consumed chars size = size := by
  rcases consumed_cases chars size with ⟨k, inside, found, before, count⟩ | ⟨none, count⟩
  · by_cases fits : k < size - 1
    · exact .inl ⟨k, fits, found, before, count⟩
    · exact .inr ⟨fun i less => before i (by omega), by omega⟩
  · exact .inr ⟨fun i less => none i (by omega), count⟩

/-- The next `count` characters have been taken and stored from `buf` on. -/
structure Stored (status : Nat → BitVec 32) (buf count : Nat) (chars : Nat → BitVec 8)
    (m m' : Machine) : Prop where
  memory : ∀ adr, m'.memory adr =
    if buf ≤ adr ∧ adr < buf + count then chars (adr - buf) else m.memory adr
  writes : m'.writes = m.writes ++ (List.range count).map fun i => buf + i
  rest : Delivers status m' fun i => chars (count + i)

/-- A character, and those that come after it. -/
theorem Stored.cons {buf count : Nat} {c : BitVec 8} {m₁ m₂ m' : Machine}
    (memory : m₁.memory = m.memory) (writes : m₁.writes = m.writes) (first : c = chars 0)
    (kept : m₂ = { m₁ with
      memory := Function.update m₁.memory buf c, writes := m₁.writes ++ [buf] })
    (stored : Stored status (buf + 1) count (fun i => chars (i + 1)) m₂ m') :
    Stored status buf (count + 1) chars m m' where
  memory adr := by
    subst first kept
    rw [stored.memory]
    dsimp only
    rw [memory]
    rcases Nat.lt_trichotomy adr buf with below | rfl | above
    · rw [if_neg (by omega), if_neg (by omega), Function.update_of_ne (by omega)]
    · rw [if_neg (by omega), if_pos (by omega), Function.update_self, Nat.sub_self]
    · by_cases inside : adr < buf + (count + 1)
      · rw [if_pos (by omega), if_pos (by omega), show adr - (buf + 1) + 1 = adr - buf by omega]
      · rw [if_neg (by omega), if_neg (by omega), Function.update_of_ne (by omega)]
  writes := by
    subst kept
    rw [stored.writes, List.range_succ_eq_map, List.map_cons, List.map_map]
    dsimp only
    rw [writes, List.append_assoc, List.singleton_append]
    simp only [Function.comp_def, Nat.succ_eq_add_one, Nat.add_zero, Nat.add_assoc, Nat.add_comm 1]
  rest := by
    have rest := stored.rest
    simp only [Nat.add_right_comm count] at rest ⊢
    exact rest

theorem getlineLoop_settles (delivers : Delivers status m chars) (buf left : Nat) :
    Settles (fun fuel => getlineLoop status fuel buf left) m
      (buf + consumed chars left, left - consumed chars left)
      (Stored status buf (consumed chars left) chars m) := by
  induction left generalizing m chars buf with
  | zero =>
      refine Settles.pure ⟨fun adr => ?_, by simp [consumed], by simpa [consumed] using delivers⟩
      rw [consumed, if_neg (by omega)]
  | succ left ih =>
      simp only [getlineLoop]
      refine (uartGetchar_settles delivers).bind fun m₁ ⟨memory, writes, rest⟩ => ?_
      refine (store_settles m₁ buf (chars 0)).bind fun m₂ kept => ?_
      have rest' : Delivers status m₂ fun i => chars (i + 1) := by
        subst kept
        exact rest
      by_cases ends : chars 0 = newline
      · simp only [if_pos ends, consumed]
        refine Settles.pure (Stored.cons memory writes rfl kept ⟨fun adr => ?_, by simp, ?_⟩)
        · rw [if_neg (by omega)]
        · simpa using rest'
      · simp only [if_neg ends, consumed]
        have later := ih rest' (buf + 1)
        rw [show buf + 1 + consumed (fun i => chars (i + 1)) left =
          buf + (consumed (fun i => chars (i + 1)) left + 1) by omega] at later
        rw [Nat.add_sub_add_right]
        exact later.weaken fun m' stored => Stored.cons memory writes rfl kept stored

/-- A terminating NUL in the place after `count` characters of a line. -/
theorem Stored.terminate {buf count place : Nat} {m₁ m₂ : Machine}
    (stored : Stored status buf count chars m m₁)
    (ends : m₂ = { m₁ with
      memory := Function.update m₁.memory (buf + place) 0, writes := m₁.writes ++ [buf + place] }) :
    (∀ i, i < count → i ≠ place → m₂.memory (buf + i) = chars i) ∧
      m₂.memory (buf + place) = 0 ∧ (Delivers status m₂ fun i => chars (count + i)) ∧
      ∀ size, count ≤ size → place < size →
        (∃ writes, m₂.writes = m.writes ++ writes ∧
          ∀ adr ∈ writes, buf ≤ adr ∧ adr < buf + size) ∧
        ∀ adr, ¬ (buf ≤ adr ∧ adr < buf + size) → m₂.memory adr = m.memory adr := by
  subst ends
  refine ⟨fun i small other => ?_, Function.update_self _ _ _, stored.rest,
    fun size few room => ⟨⟨_, by rw [stored.writes, List.append_assoc], fun adr member => ?_⟩,
      fun adr outside => ?_⟩⟩
  · dsimp only
    rw [Function.update_of_ne (by omega), stored.memory, if_pos (by omega), Nat.add_sub_cancel_left]
  · rw [List.mem_append, List.mem_map, List.mem_singleton] at member
    rcases member with ⟨i, small, rfl⟩ | rfl
    · have := List.mem_range.mp small
      omega
    · omega
  · dsimp only
    rw [Function.update_of_ne (by omega), stored.memory, if_neg (by omega)]

/-- A call returns with the line, if it fits with its newline and the terminating
NUL, and else with as much of it as there is room for. -/
theorem uartGetline_line (delivers : Delivers status m chars) (buf : Nat) {size : Nat}
    (positive : 1 ≤ size) : ∃ returned,
      Settles (uartGetline status buf size) m returned (Line status buf size chars m returned) := by
  have loop := getlineLoop_settles delivers buf size
  have program : uartGetline status buf size = fun fuel => do
      let (buf, left) ← getlineLoop status fuel buf size
      if left = 0 then
        store (buf - 1) 0
        return false
      store buf 0
      return true := by
    funext fuel
    rw [uartGetline, if_neg (by omega)]
  rw [program]
  rcases consumed_room chars positive with ⟨k, fits, found, before, count⟩ | ⟨none, count⟩
  · rw [count] at loop
    refine ⟨true, loop.bind fun m₁ stored => ?_⟩
    simp only [show size - (k + 1) ≠ 0 by omega, if_false]
    refine (store_settles m₁ (buf + (k + 1)) 0).bind fun m₂ ends => ?_
    obtain ⟨line, terminated, rest, frame⟩ := stored.terminate ends
    obtain ⟨inside, kept⟩ := frame size (by omega) (by omega)
    refine Settles.pure ⟨⟨fun _ => ⟨k, fits, found⟩, fun _ => rfl⟩, fun _ => ?_,
      fun other => Bool.noConfusion other, inside, kept⟩
    exact ⟨k, fits, found, before, fun i le => line i (by omega) (by omega), terminated, rest⟩
  · rw [count] at loop
    refine ⟨false, loop.bind fun m₁ stored => ?_⟩
    simp only [Nat.sub_self, if_true, Nat.add_sub_assoc positive]
    refine (store_settles m₁ (buf + (size - 1)) 0).bind fun m₂ ends => ?_
    obtain ⟨line, terminated, rest, frame⟩ := stored.terminate ends
    obtain ⟨inside, kept⟩ := frame size le_rfl (by omega)
    refine Settles.pure ⟨⟨fun other => Bool.noConfusion other, ?_⟩,
      fun other => Bool.noConfusion other, fun _ => ?_, inside, kept⟩
    · rintro ⟨k, fits, found⟩
      exact absurd found (none k fits)
    · exact ⟨fun i less => line i (by omega) (by omega), terminated, rest⟩

/-- Nothing has been received or stored. -/
def Machine.fresh : Machine :=
  ⟨⟨fun _ => 0, 0, 0, Nat.zero_lt_succ 255, Nat.zero_lt_succ 255⟩, 0, fun _ => 0, []⟩

/-- Lines of one `A` each. -/
def letters (i : Nat) : BitVec 8 := if i % 2 = 0 then 0x41 else newline

theorem letters_line : ∃ returned,
    Settles (uartGetline (fun i => (letters i).setWidth 32) 0x1000 256) Machine.fresh returned
      (Line (fun i => (letters i).setWidth 32) 0x1000 256 letters Machine.fresh returned) :=
  uartGetline_line (delivers_stream letters rfl rfl) 0x1000 (Nat.succ_pos 255)

end UartGetline

end Cocoapuffs
