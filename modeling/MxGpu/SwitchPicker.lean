import MxGpu.FairShare
import MxGpu.LiquidBypass

/- The picker of a world switch that is not in hybrid liquid mode. It passes over every function
whose slice comes out as zero, and each pass settles a part of what that function owes. -/
namespace MxGpu.Switch

open WorldSwitch

/-- The platforms by their `get_asic_time_slice`. -/
inductive AsicTimeSlice
  | absent
  | generic
  | navi32
  deriving DecidableEq, Repr

/-- What the default slices depend on, besides the state of the physical function. -/
structure SliceSource where
  asic : AsicTimeSlice
  numVfPerGfxSched : Nat
  disableSelfSwitch : Bool
  lmActive : Bool
  deriving DecidableEq, Repr

namespace SliceSource

def getAsicTimeSliceGfx (c : SliceSource) (pfActive : Bool) : BitVec 32 :=
  if 1 < c.numVfPerGfxSched ∨ pfActive then 6000
  else if c.numVfPerGfxSched = 1 then
    if c.disableSelfSwitch then 0xffffffff else 500000
  else 500000

/-- `navi32_sched_get_asic_time_slice_gfx`. -/
def navi32GetAsicTimeSliceGfx (c : SliceSource) (pfActive : Bool) : BitVec 32 :=
  if 1 < c.numVfPerGfxSched ∨ pfActive then
    if c.numVfPerGfxSched ≤ 2 then 6000
    else if c.numVfPerGfxSched ≤ 3 then 5500
    else if c.numVfPerGfxSched ≤ 4 then 4000
    else if c.numVfPerGfxSched ≤ 6 then 2500
    else 2750
  else if c.numVfPerGfxSched = 1 then
    if c.disableSelfSwitch then 0xffffffff else 500000
  else 500000

/-- `navi32_sched_get_asic_time_slice` on the graphics block. -/
def navi32GetAsicTimeSlice (c : SliceSource) (pfActive : Bool) (idxVf : Nat) : BitVec 32 :=
  if idxVf = pfIdx ∧ c.lmActive then 15000 else c.navi32GetAsicTimeSliceGfx pfActive

def getGfxTimeSlice (c : SliceSource) (pfActive : Bool) (idxVf : Nat) : BitVec 32 :=
  match c.asic with
  | .absent => 6000
  | .generic => c.getAsicTimeSliceGfx pfActive
  | .navi32 => c.navi32GetAsicTimeSlice pfActive idxVf

def defaultGfxTimeSlice (c : SliceSource) (pfActive : Bool) (idxVf : Nat) : BitVec 32 :=
  if c.numVfPerGfxSched = 1 then 0xffffffff else c.getGfxTimeSlice pfActive idxVf

theorem getGfxTimeSlice_ne_zero (c : SliceSource) (pfActive : Bool) (idxVf : Nat) :
    c.getGfxTimeSlice pfActive idxVf ≠ 0 := by
  unfold getGfxTimeSlice
  split
  · decide
  · unfold getAsicTimeSliceGfx
    repeat' split
    all_goals decide
  · unfold navi32GetAsicTimeSlice navi32GetAsicTimeSliceGfx
    repeat' split
    all_goals decide

theorem defaultGfxTimeSlice_ne_zero (c : SliceSource) (pfActive : Bool) (idxVf : Nat) :
    c.defaultGfxTimeSlice pfActive idxVf ≠ 0 := by
  unfold defaultGfxTimeSlice
  split
  · decide
  · exact c.getGfxTimeSlice_ne_zero pfActive idxVf

end SliceSource

namespace WorldSwitch

/-- The list as the picker reads it: a physical function that is not active is moved out of the
way, since it is going to be removed. -/
def turned (ws : WorldSwitch) : WorldSwitch :=
  if ws.activeVfList.head? = some pfIdx ∧ ¬ws.pfActive then ws.moveTail pfIdx else ws

def passed (ws : WorldSwitch) (idxVf : Nat) : WorldSwitch :=
  (ws.turned.calculateTimeSlice idxVf).2.moveTail idxVf

/-- `amdgv_schedule_vfs_default`: the function to run and its time slice. The loop back to
`re_schedule` uses up fuel; an empty list, which no caller passes, gives `none`. -/
def scheduleVfsDefault : Nat → WorldSwitch → Option (WorldSwitch × Nat × Time)
  | 0, _ => none
  | fuel + 1, ws =>
    match ws.turned.activeVfList with
    | [] => none
    | idxVf :: _ =>
      let r := ws.turned.calculateTimeSlice idxVf
      if r.1 = 0 then scheduleVfsDefault fuel (ws.passed idxVf)
      else if r.2.fairnessMode ∧ (r.2.arrayVf idxVf).dummyVf then
        some (r.2.moveTail idxVf, pfIdx, r.1)
      else some (r.2, idxVf, r.1)

def owing (ws : WorldSwitch) (c : SliceSource) (debts : Nat → Time) : WorldSwitch :=
  { ws with
    gfxTimeSlice := fun i => (c.getGfxTimeSlice ws.pfActive i).setWidth 64
    arrayVf := fun i => { ws.arrayVf i with beyondTimeCycle := debts i } }

def Ends (ws : WorldSwitch) : Prop :=
  ∃ fuel next idxVf ts, ws.scheduleVfsDefault fuel = some (next, idxVf, ts) ∧ 0 < ts

/-- The picker ends on every platform and whatever the functions owe. -/
def AlwaysEnds (ws : WorldSwitch) : Prop :=
  ∀ (c : SliceSource) (debts : Nat → Time), (ws.owing c debts).Ends

/-- The picker looks at the function: it is in the list, and it is not a physical function that
others are put before. -/
def Runnable (ws : WorldSwitch) (idxVf : Nat) : Prop :=
  idxVf ∈ ws.activeVfList ∧
    (idxVf = pfIdx → ws.pfActive = true ∨ ws.activeVfList = [pfIdx])

def Pays (ws : WorldSwitch) (idxVf : Nat) : Prop :=
  if ws.fairnessMode then
    (ws.arrayVf (ws.target idxVf)).timeSlice = defaultGfxTimeSlice1Vf ∨
      (ws.arrayVf idxVf).timeSlice ≠ 0
  else (ws.arrayVf (ws.target idxVf)).timeSlice ≠ 0

/-- What the picker relies on: a list without repetitions, slices of 32 bits, and default slices
that are not zero. -/
structure Ready (ws : WorldSwitch) : Prop where
  nodup : ws.activeVfList.Nodup
  words : ∀ i ∈ ws.activeVfList, (ws.arrayVf i).timeSlice.toNat < 2 ^ 32
  granted : ∀ i, ws.gfxTimeSlice i ≠ 0

def debt (ws : WorldSwitch) (idxVf : Nat) : Nat := ws.credit (ws.target idxVf)

def place (ws : WorldSwitch) (idxVf : Nat) : Nat := (ahead idxVf ws.activeVfList).length

/-- Two world switches that differ in the order of the list and in what is owed. -/
structure Alike (ws ws' : WorldSwitch) : Prop where
  list : ws'.activeVfList.Perm ws.activeVfList
  mode : ws'.fairnessMode = ws.fairnessMode
  pf : ws'.pfActive = ws.pfActive
  grants : ws'.gfxTimeSlice = ws.gfxTimeSlice
  slices : ∀ i, (ws'.arrayVf i).timeSlice = (ws.arrayVf i).timeSlice
  dummies : ∀ i, (ws'.arrayVf i).dummyVf = (ws.arrayVf i).dummyVf

section alike

variable {ws ws' ws'' : WorldSwitch} {i : Nat}

theorem Alike.trans (h : Alike ws ws') (h' : Alike ws' ws'') : Alike ws ws'' where
  list := h'.list.trans h.list
  mode := h'.mode.trans h.mode
  pf := h'.pf.trans h.pf
  grants := h'.grants.trans h.grants
  slices := fun i => (h'.slices i).trans (h.slices i)
  dummies := fun i => (h'.dummies i).trans (h.dummies i)

theorem Alike.target (h : Alike ws ws') (i : Nat) : ws'.target i = ws.target i := by
  unfold WorldSwitch.target
  rw [h.dummies i]

theorem Alike.ready (h : Alike ws ws') (hready : Ready ws) : Ready ws' where
  nodup := h.list.nodup_iff.mpr hready.nodup
  words := by
    intro i hi
    rw [h.slices i]
    exact hready.words i (h.list.mem_iff.mp hi)
  granted := by
    intro i
    rw [h.grants]
    exact hready.granted i

theorem Alike.runnable (h : Alike ws ws') (hrun : Runnable ws i) : Runnable ws' i := by
  refine ⟨h.list.mem_iff.mpr hrun.1, ?_⟩
  intro hi
  rw [h.pf]
  rcases hrun.2 hi with hactive | hlist
  · exact .inl hactive
  · apply Or.inr
    have hperm := h.list
    rw [hlist] at hperm
    exact List.perm_singleton.mp hperm

theorem Alike.pays (h : Alike ws ws') : Pays ws' i ↔ Pays ws i := by
  unfold Pays
  rw [h.mode, h.target i, h.slices, h.slices]

theorem moveTail_alike (h : i ∈ ws.activeVfList) : Alike ws (ws.moveTail i) where
  list := (List.perm_append_comm).trans (List.perm_cons_erase h).symm
  mode := rfl
  pf := rfl
  grants := rfl
  slices := fun _ => rfl
  dummies := fun _ => rfl

theorem turned_alike (ws : WorldSwitch) : Alike ws ws.turned := by
  unfold turned
  split
  · rename_i h
    exact moveTail_alike (List.mem_of_mem_head? h.1)
  · exact ⟨List.Perm.refl _, rfl, rfl, rfl, fun _ => rfl, fun _ => rfl⟩

theorem turned_arrayVf (ws : WorldSwitch) : ws.turned.arrayVf = ws.arrayVf := by
  unfold turned
  split <;> rfl

theorem sliceEntry_timeSlice (ws : WorldSwitch) (j : Nat) :
    (ws.sliceEntry j).timeSlice = (ws.arrayVf (ws.target j)).timeSlice := by
  unfold sliceEntry
  dsimp only
  split
  · split
    · rfl
    · split <;> exact fairSlice_timeSlice ..
  · rfl

theorem sliceEntry_dummyVf (ws : WorldSwitch) (j : Nat) :
    (ws.sliceEntry j).dummyVf = (ws.arrayVf (ws.target j)).dummyVf := by
  unfold sliceEntry
  dsimp only
  split
  · split
    · rfl
    · split <;> exact fairSlice_dummyVf ..
  · rfl

theorem calculateTimeSlice_alike (ws : WorldSwitch) (j : Nat) :
    Alike ws (ws.calculateTimeSlice j).2 where
  list := List.Perm.refl _
  mode := rfl
  pf := rfl
  grants := rfl
  slices := by
    intro i
    unfold calculateTimeSlice
    by_cases hi : i = ws.target j
    · rw [hi, setEntry_self, sliceEntry_timeSlice]
    · rw [setEntry_of_ne ws _ hi]
  dummies := by
    intro i
    unfold calculateTimeSlice
    by_cases hi : i = ws.target j
    · rw [hi, setEntry_self, sliceEntry_dummyVf]
    · rw [setEntry_of_ne ws _ hi]

theorem passed_alike {j : Nat} (h : j ∈ ws.activeVfList) : Alike ws (ws.passed j) := by
  have hturned := turned_alike ws
  have hcalc := calculateTimeSlice_alike ws.turned j
  have hmem : j ∈ (ws.turned.calculateTimeSlice j).2.activeVfList :=
    hturned.list.mem_iff.mpr h
  exact (hturned.trans hcalc).trans (moveTail_alike hmem)

end alike

section slices

variable {ws : WorldSwitch} {i j : Nat}

theorem toNat_le_of_toInt_sub {s b : BitVec 64} (hs : s.toNat < 2 ^ 32)
    (h : (s - b).toInt ≤ 0) : s.toNat ≤ b.toNat := by
  apply Nat.le_of_not_lt
  intro hlt
  have hsub : (s - b).toNat = s.toNat - b.toNat := BitVec.toNat_sub_of_le (Nat.le_of_lt hlt)
  rw [BitVec.toInt_eq_toNat_cond, hsub] at h
  split at h <;> omega

theorem half_ne_zero {s b : BitVec 64} (hpos : 0 < (s - b).toInt)
    (h : (s - b).toInt ≤ (s / 2).toInt) : s / 2 ≠ 0 := by
  intro hzero
  rw [hzero] at h
  have : (0 : BitVec 64).toInt = 0 := rfl
  omega

theorem fairSlice_zero {e : Entry} {s : Time} (hs : s.toNat < 2 ^ 32)
    (h : (fairSlice e s).lastTimeSlice = 0) :
    s.toNat ≤ e.beyondTimeCycle.toNat ∧
      (fairSlice e s).beyondTimeCycle = e.beyondTimeCycle - e.timeSlice := by
  unfold fairSlice at h ⊢
  dsimp only at h ⊢
  split
  · rename_i hskip
    exact ⟨toNat_le_of_toInt_sub hs hskip, rfl⟩
  · rename_i hpos
    rw [if_neg hpos] at h
    split at h
    · rename_i hhalf
      exact absurd h (half_ne_zero (Int.not_le.mp hpos) hhalf)
    · exfalso
      apply hpos
      dsimp only at h
      rw [h]
      decide

theorem sliceEntry_zero (hready : Ready ws) (hj : j ∈ ws.activeVfList)
    (hzero : (ws.sliceEntry j).lastTimeSlice = 0) :
    (ws.sliceEntry j).beyondTimeCycle.toNat ≤ ws.debt j ∧
      (ws.Pays j → (ws.sliceEntry j).beyondTimeCycle.toNat < ws.debt j) := by
  unfold debt credit
  have hslice := hready.words j hj
  unfold sliceEntry at hzero ⊢
  dsimp only at hzero ⊢
  split
  · rename_i hmode
    rw [if_pos hmode] at hzero
    split
    · rename_i hmagic
      rw [if_pos hmagic] at hzero
      exact absurd hzero (hready.granted _)
    · rename_i hmagic
      rw [if_neg hmagic] at hzero
      have hpays : ws.Pays j → 0 < (ws.arrayVf j).timeSlice.toNat := by
        intro hpays
        unfold Pays at hpays
        rw [if_pos hmode] at hpays
        apply Nat.pos_of_ne_zero
        intro hnone
        exact hpays.resolve_left hmagic (BitVec.eq_of_toNat_eq hnone)
      split
      · rename_i hdummy
        rw [if_pos hdummy] at hzero
        obtain ⟨hle, -⟩ := fairSlice_zero hslice hzero
        dsimp only
        refine ⟨Nat.zero_le _, ?_⟩
        intro h
        show 0 < _
        have := hpays h
        omega
      · rename_i hdummy
        rw [if_neg hdummy] at hzero
        have htarget : ws.target j = j := if_neg hdummy
        rw [htarget] at hzero ⊢
        obtain ⟨hle, hbeyond⟩ := fairSlice_zero hslice hzero
        rw [hbeyond, BitVec.toNat_sub_of_le hle]
        refine ⟨Nat.sub_le _ _, ?_⟩
        intro h
        have := hpays h
        omega
  · rename_i hmode
    rw [if_neg hmode] at hzero
    refine ⟨Nat.le_refl _, ?_⟩
    intro hpays
    unfold Pays at hpays
    rw [if_neg hmode] at hpays
    exact absurd hzero hpays

theorem sliceEntry_unpaid (hfree : ws.credit (ws.target j) = 0) (h : ¬ws.Pays j) :
    (ws.sliceEntry j).lastTimeSlice = 0 ∧ (ws.sliceEntry j).beyondTimeCycle = 0 := by
  have hb : (ws.arrayVf (ws.target j)).beyondTimeCycle = 0 := BitVec.eq_of_toNat_eq hfree
  unfold Pays at h
  unfold sliceEntry
  dsimp only
  split
  · rename_i hmode
    rw [if_pos hmode] at h
    have hmagic : (ws.arrayVf (ws.target j)).timeSlice ≠ defaultGfxTimeSlice1Vf :=
      fun hmagic => h (.inl hmagic)
    have hslice : (ws.arrayVf j).timeSlice = 0 := by
      apply Decidable.byContradiction
      intro hslice
      exact h (.inr hslice)
    rw [if_neg hmagic, hslice]
    have hfair : fairSlice (ws.arrayVf (ws.target j)) 0 =
        { ws.arrayVf (ws.target j) with
          lastTimeSlice := 0
          beyondTimeCycle := 0 - (ws.arrayVf (ws.target j)).timeSlice } := by
      unfold fairSlice
      dsimp only
      rw [hb, if_pos (by decide)]
    rw [hfair]
    split
    · exact ⟨rfl, rfl⟩
    · rename_i hdummy
      have htarget : ws.target j = j := if_neg hdummy
      rw [htarget, hslice]
      exact ⟨rfl, rfl⟩
  · rename_i hmode
    rw [if_neg hmode] at h
    exact ⟨Decidable.not_not.mp h, hb⟩

end slices

section rotation

variable {ws : WorldSwitch} {i j : Nat}

theorem turned_debt (ws : WorldSwitch) (i : Nat) : ws.turned.debt i = ws.debt i := by
  unfold debt credit
  rw [(turned_alike ws).target i, turned_arrayVf]

theorem debt_passed (hready : Ready ws) (hj : j ∈ ws.activeVfList)
    (hzero : (ws.turned.calculateTimeSlice j).1 = 0) (i : Nat) :
    (ws.passed j).debt i ≤ ws.debt i ∧ (ws.Pays j → (ws.passed j).debt j < ws.debt j) := by
  have hturned := turned_alike ws
  obtain ⟨hle, hlt⟩ := sliceEntry_zero (hturned.ready hready) (hturned.list.mem_iff.mpr hj) hzero
  rw [turned_debt, hturned.pays] at hlt
  rw [turned_debt] at hle
  have hown : (ws.passed j).credit (ws.target j) =
      (ws.turned.sliceEntry j).beyondTimeCycle.toNat := by
    unfold passed credit calculateTimeSlice
    rw [moveTail_arrayVf, ← hturned.target j, setEntry_self]
  refine ⟨?_, ?_⟩
  · unfold debt
    rw [(passed_alike hj).target i]
    by_cases hi : ws.target i = ws.target j
    · rw [hi, hown]
      exact hle
    · apply Nat.le_of_eq
      unfold passed credit calculateTimeSlice
      rw [moveTail_arrayVf, setEntry_of_ne _ _ (by rwa [hturned.target j]), turned_arrayVf]
  · intro hpays
    unfold debt
    rw [(passed_alike hj).target j, hown]
    exact hlt hpays

theorem place_moveTail (hi : i ∈ ws.activeVfList) (h : j ≠ i) :
    (ws.moveTail j).place i ≤ ws.place i ∧
      (ws.activeVfList.head? = some j → (ws.moveTail j).place i < ws.place i) := by
  unfold place moveTail
  dsimp only
  have hstays : i ∈ ws.activeVfList.erase j := (List.mem_erase_of_ne (Ne.symm h)).mpr hi
  rw [ahead_append hstays, ahead_erase h]
  refine ⟨List.length_erase_le, ?_⟩
  intro hhead
  obtain ⟨rest, hlist⟩ : ∃ rest, ws.activeVfList = j :: rest := by
    cases hl : ws.activeVfList with
    | nil =>
      rw [hl] at hi
      exact absurd hi List.not_mem_nil
    | cons k rest =>
      rw [hl] at hhead
      cases hhead
      exact ⟨rest, rfl⟩
  rw [hlist, ahead_cons_of_ne h, List.erase_cons_head, List.length_cons]
  exact Nat.lt_succ_self _

theorem moveTail_single (h : ws.activeVfList = [j]) : (ws.moveTail j).activeVfList = [j] := by
  unfold moveTail
  rw [h]
  simp

theorem place_turned (hrun : Runnable ws i) : ws.turned.place i ≤ ws.place i := by
  unfold turned
  split
  · rename_i hpf
    by_cases hi : pfIdx = i
    · rcases hrun.2 hi.symm with hactive | hlist
      · exact absurd hactive hpf.2
      · apply Nat.le_of_eq
        unfold place
        rw [moveTail_single hlist, hlist]
    · exact (place_moveTail hrun.1 hi).1
  · exact Nat.le_refl _

theorem runnable_front {rest : List Nat} (hready : Ready ws)
    (hfront : ws.turned.activeVfList = j :: rest) : Runnable ws j := by
  have hmem : j ∈ ws.activeVfList :=
    (turned_alike ws).list.mem_iff.mp (by rw [hfront]; exact List.mem_cons_self)
  refine ⟨hmem, ?_⟩
  intro hj
  subst hj
  by_cases hactive : ws.pfActive = true
  · exact .inl hactive
  · apply Or.inr
    by_cases hhead : ws.activeVfList.head? = some pfIdx
    · have hturned : ws.turned = ws.moveTail pfIdx := if_pos ⟨hhead, hactive⟩
      cases hlist : ws.activeVfList with
      | nil =>
        rw [hlist] at hmem
        exact absurd hmem List.not_mem_nil
      | cons k tail =>
        rw [hlist] at hhead
        obtain rfl : k = pfIdx := Option.some.inj hhead
        -- the physical function is back at the front only if it is alone
        rw [hturned, moveTail, hlist, List.erase_cons_head] at hfront
        cases tail with
        | nil => rfl
        | cons l more =>
          have hnodup := hready.nodup
          rw [hlist] at hnodup
          have hl : l = pfIdx := (List.cons.inj hfront).1
          rw [hl] at hnodup
          exact absurd List.mem_cons_self (List.nodup_cons.mp hnodup).1
    · have hturned : ws.turned = ws := if_neg (fun h => hhead h.1)
      rw [hturned] at hfront
      rw [hfront] at hhead
      exact absurd rfl hhead

end rotation

theorem scheduleVfsDefault_succ {ws : WorldSwitch} {j : Nat} {rest : List Nat} (fuel : Nat)
    (hfront : ws.turned.activeVfList = j :: rest)
    (hzero : (ws.turned.calculateTimeSlice j).1 = 0) :
    ws.scheduleVfsDefault (fuel + 1) = (ws.passed j).scheduleVfsDefault fuel := by
  rw [scheduleVfsDefault, hfront]
  dsimp only
  rw [if_pos hzero]

theorem ends_of_slice {ws : WorldSwitch} {j : Nat} {rest : List Nat}
    (hfront : ws.turned.activeVfList = j :: rest)
    (hslice : (ws.turned.calculateTimeSlice j).1 ≠ 0) : ws.Ends := by
  have hpos : 0 < (ws.turned.calculateTimeSlice j).1 :=
    Nat.pos_of_ne_zero (fun h => hslice (BitVec.eq_of_toNat_eq h))
  have hround : ∃ next idxVf, ws.scheduleVfsDefault 1 =
      some (next, idxVf, (ws.turned.calculateTimeSlice j).1) := by
    rw [scheduleVfsDefault, hfront]
    dsimp only
    rw [if_neg hslice]
    split
    · exact ⟨_, _, rfl⟩
    · exact ⟨_, _, rfl⟩
  obtain ⟨next, idxVf, hsome⟩ := hround
  exact ⟨1, next, idxVf, _, hsome, hpos⟩

theorem ends_of_passed {ws : WorldSwitch} {j : Nat} {rest : List Nat}
    (hfront : ws.turned.activeVfList = j :: rest)
    (hzero : (ws.turned.calculateTimeSlice j).1 = 0) (h : (ws.passed j).Ends) : ws.Ends := by
  obtain ⟨fuel, next, idxVf, ts, hsome, hpos⟩ := h
  refine ⟨fuel + 1, next, idxVf, ts, ?_, hpos⟩
  rw [scheduleVfsDefault_succ fuel hfront hzero]
  exact hsome

/-- The picker ends if it looks at a function that has a slice. By induction on what that function
owes and, within that, on how many are ahead of it. -/
theorem ends_of_pays {i : Nat} (d p : Nat) : ∀ ws : WorldSwitch, Ready ws → Runnable ws i →
    Pays ws i → ws.debt i ≤ d → ws.place i ≤ p → ws.Ends := by
  induction d using Nat.strongRecOn generalizing p with
  | _ d ihDebt =>
    induction p using Nat.strongRecOn with
    | _ p ihPlace =>
      intro ws hready hrun hpays hd hp
      have hturned := turned_alike ws
      have hmemTurned := (hturned.runnable hrun).1
      cases hfront : ws.turned.activeVfList with
      | nil =>
        rw [hfront] at hmemTurned
        exact absurd hmemTurned List.not_mem_nil
      | cons j rest =>
        by_cases hzero : (ws.turned.calculateTimeSlice j).1 = 0
        · apply ends_of_passed hfront hzero
          have hj := (runnable_front hready hfront).1
          have hpassed := passed_alike hj
          obtain ⟨hle, hlt⟩ := debt_passed hready hj hzero i
          by_cases hij : j = i
          · subst hij
            have hless := hlt hpays
            exact ihDebt ((ws.passed j).debt j) (by omega) ((ws.passed j).place j) _
              (hpassed.ready hready) (hpassed.runnable hrun) (hpassed.pays.mpr hpays)
              (Nat.le_refl _) (Nat.le_refl _)
          · have hahead : (ws.passed j).place i < ws.turned.place i := by
              have hhead : (ws.turned.calculateTimeSlice j).2.activeVfList.head? = some j := by
                show ws.turned.activeVfList.head? = some j
                rw [hfront]
                rfl
              have hmem : i ∈ (ws.turned.calculateTimeSlice j).2.activeVfList := hmemTurned
              exact (place_moveTail hmem hij).2 hhead
            have hkept := place_turned hrun
            exact ihPlace ((ws.passed j).place i) (by omega) _ (hpassed.ready hready)
              (hpassed.runnable hrun) (hpassed.pays.mpr hpays) (by omega) (Nat.le_refl _)
        · exact ends_of_slice hfront hzero

theorem not_ends_of_unpaid (fuel : Nat) : ∀ ws : WorldSwitch, Ready ws →
    (∀ i, Runnable ws i → ¬Pays ws i) → (∀ i, ws.credit i = 0) →
    ws.scheduleVfsDefault fuel = none := by
  induction fuel with
  | zero => exact fun _ _ _ _ => rfl
  | succ fuel ih =>
    intro ws hready hunpaid hfree
    have hturned := turned_alike ws
    cases hfront : ws.turned.activeVfList with
    | nil =>
      rw [scheduleVfsDefault, hfront]
    | cons j rest =>
      have hrun := runnable_front hready hfront
      have hunpaidJ : ¬Pays ws.turned j := fun h => hunpaid j hrun (hturned.pays.mp h)
      have hfreeTurned : ∀ i, ws.turned.credit i = 0 := by
        intro i
        unfold credit
        rw [turned_arrayVf]
        exact hfree i
      obtain ⟨hzero, hbeyond⟩ := sliceEntry_unpaid (hfreeTurned _) hunpaidJ
      rw [scheduleVfsDefault_succ fuel hfront hzero]
      have hpassed := passed_alike hrun.1
      have hback : Alike (ws.passed j) ws := ⟨hpassed.list.symm, hpassed.mode.symm,
        hpassed.pf.symm, hpassed.grants.symm, fun i => (hpassed.slices i).symm,
        fun i => (hpassed.dummies i).symm⟩
      apply ih _ (hpassed.ready hready)
      · intro i hrunI hpaysI
        exact hunpaid i (hback.runnable hrunI) (hback.pays.mpr hpaysI)
      · intro i
        unfold passed credit calculateTimeSlice
        rw [moveTail_arrayVf]
        by_cases hi : i = ws.turned.target j
        · rw [hi, setEntry_self, hbeyond]
          rfl
        · rw [setEntry_of_ne _ _ hi]
          exact hfreeTurned i

end WorldSwitch

end MxGpu.Switch
