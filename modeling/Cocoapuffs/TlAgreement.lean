import Cocoapuffs.TlUh2wblite

/-!
# The two converters agree

On request beats that acquire no permissions, the copies `tl_uh2wblite` and
`tl_c2wblite` of the state machine do the same.  The registers `saved_a` and
`saved_wb_dat`, which neither a declaration nor a reset gives a value, may
differ as long as they are not read.
-/

namespace Cocoapuffs

namespace TlConverter

open TileLink

def isAcquire (opcode : BitVec 3) : Bool := opcode == opAcquireBlock || opcode == opAcquirePerm

/-- The profiles differ on the two opcodes that acquire permissions only. -/
theorem profiles_agree (opcode : BitVec 3) (plain : isAcquire opcode = false) :
    cProfile.isRead opcode = uhProfile.isRead opcode ∧
      cProfile.isPerm opcode = uhProfile.isPerm opcode ∧
      cProfile.respOpcode opcode = uhProfile.respOpcode opcode ∧
      cProfile.respData opcode = uhProfile.respData opcode := by
  revert opcode
  decide

/-- The states of the two machines, where `s` is that of `tl_uh2wblite`. -/
structure Agree (s t : Core) : Prop where
  state_eq : t.state = s.state
  beatCount_eq : t.beatCount = s.beatCount
  getAddress_eq : t.getAddress = s.getAddress
  aReady_eq : t.aReady = s.aReady
  d_eq : t.d = s.d
  wbO_eq : t.wbO = s.wbO
  /-- The request in progress, -/
  savedA_eq : s.state ≠ .idle → t.savedA = s.savedA
  plain : s.state ≠ .idle → isAcquire s.savedA.opcode = false
  /-- and the word read for it. -/
  savedWbDat_eq : s.state = .alu ∨ s.state = .tlResp ∨
    s.state = .wbWrWait ∧ isAtomic s.savedA.opcode = true → t.savedWbDat = s.savedWbDat

namespace Agree

variable {s t : Core}

theorem reset (address : t.getAddress = s.getAddress) : Agree s.reset t.reset where
  state_eq := rfl
  beatCount_eq := rfl
  getAddress_eq := address
  aReady_eq := rfl
  d_eq := rfl
  wbO_eq := rfl
  savedA_eq busy := absurd rfl busy
  plain busy := absurd rfl busy
  savedWbDat_eq := by rintro (h | h | ⟨h, -⟩) <;> cases h

theorem exists_eq (agree : Agree s t) :
    ∃ a w, t = { s with savedA := a, savedWbDat := w } := by
  obtain ⟨state, a, w, beatCount, getAddress, aReady, d, wbO⟩ := t
  obtain rfl := agree.state_eq
  obtain rfl := agree.beatCount_eq
  obtain rfl := agree.getAddress_eq
  obtain rfl := agree.aReady_eq
  obtain rfl := agree.d_eq
  obtain rfl := agree.wbO_eq
  exact ⟨a, w, rfl⟩

variable {i : Inputs}

theorem taken {s : Core} {a : AType} {w : BitVec 32} (plain : isAcquire s.savedA.opcode = false)
    (same : a = s.savedA)
    (unread : s.state = .aWait ∨ s.state = .wbRdWait ∨
      s.state = .wbWrWait ∧ isAtomic s.savedA.opcode = false) :
    Agree s { s with savedA := a, savedWbDat := w } where
  state_eq := rfl
  beatCount_eq := rfl
  getAddress_eq := rfl
  aReady_eq := rfl
  d_eq := rfl
  wbO_eq := rfl
  savedA_eq _ := same
  plain _ := plain
  savedWbDat_eq := by
    rcases unread with h | h | ⟨h, h'⟩ <;> simp [h]
    simp [h']

theorem refl (plain : s.state ≠ .idle → isAcquire s.savedA.opcode = false) : Agree s s :=
  ⟨rfl, rfl, rfl, rfl, rfl, rfl, fun _ => rfl, plain, fun _ => rfl⟩

theorem idle {s : Core} {a : AType} {w : BitVec 32} (between : s.state = .idle) :
    Agree s { s with savedA := a, savedWbDat := w } := by
  refine ⟨rfl, rfl, rfl, rfl, rfl, rfl, fun busy => absurd between busy,
    fun busy => absurd between busy, ?_⟩
  simp [between]

theorem edge_idle (agree : Agree s t) (phase : s.state = .idle)
    (legal : i.a.valid = true → isAcquire i.a.opcode = false) :
    Agree (s.edge uhProfile i) (t.edge cProfile i) := by
  obtain ⟨a, w, rfl⟩ := agree.exists_eq
  simp only [Core.edge, phase]
  unfold Core.idleEdge
  dsimp only
  split
  · rename_i accepted
    have plain := legal (Bool.and_elim_left accepted)
    obtain ⟨isRead, isPerm, -, -⟩ := profiles_agree _ plain
    rw [isRead, isPerm]
    split
    · exact taken plain rfl (.inr (.inl rfl))
    · split
      · rename_i perm
        cases perm
      · split
        · exact taken plain rfl (.inr (.inl rfl))
        · rename_i other
          exact taken plain rfl (.inr (.inr ⟨rfl, (Bool.not_eq_true _).mp other⟩))
  · exact idle rfl

theorem edge_aWait (agree : Agree s t) (phase : s.state = .aWait)
    (legal : i.a.valid = true → isAcquire i.a.opcode = false) :
    Agree (s.edge uhProfile i) (t.edge cProfile i) := by
  have busy : s.state ≠ .idle := by simp [phase]
  have same := agree.savedA_eq busy
  have plain := agree.plain busy
  obtain ⟨a, w, rfl⟩ := agree.exists_eq
  simp only [Core.edge, phase]
  unfold Core.aWaitEdge
  dsimp only
  split
  · rename_i accepted
    have plain := legal (Bool.and_elim_left accepted)
    split
    · exact taken plain rfl (.inr (.inl rfl))
    · rename_i other
      exact taken plain rfl (.inr (.inr ⟨rfl, (Bool.not_eq_true _).mp other⟩))
  · exact taken plain same (.inl rfl)

theorem edge_wbRdWait (agree : Agree s t) (phase : s.state = .wbRdWait) :
    Agree (s.edge uhProfile i) (t.edge cProfile i) := by
  have busy : s.state ≠ .idle := by simp [phase]
  have same := agree.savedA_eq busy
  have plain := agree.plain busy
  obtain ⟨isRead, -⟩ := profiles_agree _ plain
  obtain ⟨a, w, rfl⟩ := agree.exists_eq
  obtain rfl : a = s.savedA := same
  simp only [Core.edge, phase]
  unfold Core.wbRdWaitEdge
  dsimp only
  rw [isRead]
  split
  · exact refl fun _ => plain
  · exact taken plain rfl (.inr (.inl rfl))

theorem edge_alu (agree : Agree s t) (phase : s.state = .alu) :
    Agree (s.edge uhProfile i) (t.edge cProfile i) := by
  have plain := agree.plain (by simp [phase])
  have same := agree.savedA_eq (by simp [phase])
  have sameDat := agree.savedWbDat_eq (.inl phase)
  obtain ⟨a, w, rfl⟩ := agree.exists_eq
  obtain rfl : a = s.savedA := same
  obtain rfl : w = s.savedWbDat := sameDat
  simp only [Core.edge, phase]
  exact refl fun _ => plain

theorem edge_wbWrWait (agree : Agree s t) (phase : s.state = .wbWrWait) :
    Agree (s.edge uhProfile i) (t.edge cProfile i) := by
  have plain := agree.plain (by simp [phase])
  have same := agree.savedA_eq (by simp [phase])
  have sameDat : isAtomic s.savedA.opcode = true → t.savedWbDat = s.savedWbDat :=
    fun atomic => agree.savedWbDat_eq (.inr (.inr ⟨phase, atomic⟩))
  obtain ⟨a, w, rfl⟩ := agree.exists_eq
  obtain rfl : a = s.savedA := same
  simp only [Core.edge, phase]
  unfold Core.wbWrWaitEdge
  dsimp only
  by_cases atomic : isAtomic s.savedA.opcode = true
  · obtain rfl : w = s.savedWbDat := sameDat atomic
    simp only [atomic, if_true]
    split
    · split
      · split <;> exact refl fun _ => plain
      · exact refl fun _ => plain
    · exact refl fun _ => plain
  · simp only [atomic, if_false, Bool.false_eq_true]
    split
    · split
      · split <;> exact refl fun _ => plain
      · exact refl fun _ => plain
    · exact taken plain rfl (.inr (.inr ⟨rfl, (Bool.not_eq_true _).mp atomic⟩))

theorem edge_tlResp (agree : Agree s t) (phase : s.state = .tlResp) :
    Agree (s.edge uhProfile i) (t.edge cProfile i) := by
  have plain := agree.plain (by simp [phase])
  have same := agree.savedA_eq (by simp [phase])
  have sameDat := agree.savedWbDat_eq (.inr (.inl phase))
  obtain ⟨isRead, -, respOpcode, respData⟩ := profiles_agree _ plain
  obtain ⟨a, w, rfl⟩ := agree.exists_eq
  obtain rfl : a = s.savedA := same
  obtain rfl : w = s.savedWbDat := sameDat
  have unchanged (v : Core) : (s.tlRespEdge uhProfile i v).savedA = v.savedA := by
    unfold Core.tlRespEdge
    dsimp only
    split
    · split
      · rfl
      · split
        · split <;> rfl
        · rfl
    · rfl
  have agrees (v : Core) : s.tlRespEdge cProfile i v = s.tlRespEdge uhProfile i v := by
    unfold Core.tlRespEdge
    rw [isRead, respOpcode, respData]
  simp only [Core.edge, phase]
  change Agree (s.tlRespEdge uhProfile i _) (s.tlRespEdge cProfile i _)
  rw [agrees]
  refine refl fun _ => ?_
  rw [unchanged]
  exact plain

theorem step (agree : Agree s t) (legal : i.a.valid = true → isAcquire i.a.opcode = false) :
    Agree (s.step uhProfile i) (t.step cProfile i) := by
  unfold Core.step
  split
  · split
    · exact reset agree.getAddress_eq
    · cases phase : s.state with
      | idle => exact agree.edge_idle phase legal
      | aWait => exact agree.edge_aWait phase legal
      | wbRdWait => exact agree.edge_wbRdWait phase
      | alu => exact agree.edge_alu phase
      | wbWrWait => exact agree.edge_wbWrWait phase
      | tlResp => exact agree.edge_tlResp phase
  · exact agree

end Agree

end TlConverter

namespace TlC2wblite

open TileLink TlConverter

/-- Started from a reset and driven alike, the converters drive the same
responses and the same bus, whatever the cached master drives on its other
channels.  `get_address`, declared as zero in both, is not reset. -/
theorem tlC2wblite_eq_tlUh2wblite (uhStart : TlUh2wblite.State) (start : State)
    (uhInputs : Nat → TlUh2wblite.Inputs) (inputs : Nat → Inputs)
    (address : uhStart.getAddress = start.core.getAddress)
    (same : ∀ n, (uhInputs n).core = (inputs n).core)
    (noAcquire : ∀ n, (inputs n).tlI.a.valid = true →
      (inputs n).tlI.a.opcode ≠ opAcquireBlock ∧ (inputs n).tlI.a.opcode ≠ opAcquirePerm) (n : Nat) :
    (states start inputs n).core.aReady = (TlUh2wblite.states uhStart uhInputs n).aReady ∧
      (states start inputs n).core.d = (TlUh2wblite.states uhStart uhInputs n).d ∧
      (states start inputs n).core.wbO = (TlUh2wblite.states uhStart uhInputs n).wbO := by
  have agree : Agree (TlUh2wblite.states uhStart uhInputs n) (states start inputs n).core := by
    induction n with
    | zero => exact Agree.reset address.symm
    | succ n ih =>
        have next : (states start inputs (n + 1)).core =
            (states start inputs n).core.step cProfile (inputs n).core := step_core _ _
        have uhNext : TlUh2wblite.states uhStart uhInputs (n + 1) =
            (TlUh2wblite.states uhStart uhInputs n).step uhProfile (inputs n).core := by
          rw [← same n]
          rfl
        rw [next, uhNext]
        refine ih.step fun valid => ?_
        obtain ⟨block, perm⟩ := noAcquire n valid
        simpa [isAcquire] using ⟨block, perm⟩
  exact ⟨agree.aReady_eq, agree.d_eq, agree.wbO_eq⟩

/-- The same master with the other channels in use. -/
def cachedWriteRead (n : Nat) : Inputs where
  clk := true
  rst := false
  tlI := ⟨(TlUh2wblite.writeRead n).tlI.a, ⟨0, 1, 2, 3, 0x80, 0xbeef, false, true⟩, ⟨1, true⟩,
    true, true⟩
  wbI := (TlUh2wblite.writeRead n).wbI

theorem tlC2wblite_eq_tlUh2wblite_writeRead :
    (states ⟨TlUh2wblite.powerUp, BType.new, false, false⟩ cachedWriteRead 11).core.d =
        (TlUh2wblite.states TlUh2wblite.powerUp TlUh2wblite.writeRead 11).d ∧
      (TlUh2wblite.states TlUh2wblite.powerUp TlUh2wblite.writeRead 11).d.data = 0xcafe := by
  refine ⟨(tlC2wblite_eq_tlUh2wblite TlUh2wblite.powerUp
    ⟨TlUh2wblite.powerUp, BType.new, false, false⟩ TlUh2wblite.writeRead cachedWriteRead rfl
    (fun _ => rfl) (fun n _ => ?_) 11).2.1, by decide⟩
  by_cases early : n ≤ 1 <;> simp [cachedWriteRead, TlUh2wblite.writeRead, early]

end TlC2wblite

end Cocoapuffs
