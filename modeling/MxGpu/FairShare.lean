import MxGpu.SwitchTypes
import MxGpu.Transition

namespace MxGpu.Switch

open Transition (Run)
open WorldSwitch

/-- What happens to a world switch in fairness mode. In a round the slice of a function is computed
and, where it is not zero, the function may be loaded at one time and switched out at another; a
dummy stands in for the physical function. Between rounds the punishment may be switched off, and
other functions may change. -/
inductive Happening
  | round (idxVf : Nat) (loadedAt : Option (Time × Option Time))
  | toggleSkipNextPunish (idxVf : Nat) (skip : Bool)
  | setBpMode (bpMode : Bool)
  | updateTimeSlice (idxVf : Nat) (timeSlice : BitVec 32)
  | setDummy (idxVf : Nat) (dummy : Bool)
  deriving DecidableEq, Repr

namespace WorldSwitch

def runAt (ws : WorldSwitch) (idxVf : Nat) : Option (Time × Option Time) → WorldSwitch
  | none => ws
  | some (start, none) => ws.startRecordVfTime idxVf start
  | some (start, some stop) => (ws.startRecordVfTime idxVf start).stopRecordVfTime idxVf stop

/-- One happening. `amdgv_schedule_vfs_default` does not load a function whose slice is zero. -/
def happen (ws : WorldSwitch) : Happening → WorldSwitch
  | .round idxVf loadedAt =>
    let r := ws.calculateTimeSlice idxVf
    if r.1 = 0 then r.2 else r.2.runAt (ws.target idxVf) loadedAt
  | .toggleSkipNextPunish idxVf skip =>
    ws.setEntry idxVf { ws.arrayVf idxVf with skipNextPunish := skip }
  | .setBpMode bpMode => { ws with bpMode := bpMode }
  | .updateTimeSlice idxVf timeSlice =>
    ws.setEntry idxVf { ws.arrayVf idxVf with timeSlice := timeSlice.setWidth 64 }
  | .setDummy idxVf dummy => ws.setEntry idxVf { ws.arrayVf idxVf with dummyVf := dummy }

/-- The overrun that `amdgv_sched_stop_record_vf_time` charges. -/
def overrun (ws : WorldSwitch) (idxVf : Nat) (currTs : Time) : Nat :=
  let entry := ws.arrayVf idxVf
  let duration := currTs - (entry.startTs + entry.lastTimeSlice)
  if entry.startTs ≠ 0 ∧ 0 < duration.toInt ∧ ¬(entry.skipNextPunish || ws.bpMode) then
    duration.toNat
  else 0

def runOverrun (ws : WorldSwitch) (idxVf : Nat) : Option (Time × Option Time) → Nat
  | some (start, some stop) => (ws.startRecordVfTime idxVf start).overrun idxVf stop
  | _ => 0

end WorldSwitch

structure Tally where
  ws : WorldSwitch
  slices : List Time
  charged : Nat

/-- The overrun a happening charges to `v`. -/
def WorldSwitch.charge (ws : WorldSwitch) (v : Nat) : Happening → Nat
  | .round idxVf loadedAt =>
    let r := ws.calculateTimeSlice idxVf
    if r.1 = 0 ∨ ws.target idxVf ≠ v then 0 else r.2.runOverrun v loadedAt
  | _ => 0

/-- One happening, with its mark in the tally of `v`. -/
def Tally.next (v : Nat) (t : Tally) (h : Happening) : Tally where
  ws := t.ws.happen h
  slices :=
    match h with
    | .round idxVf _ =>
      if idxVf = v then t.slices ++ [(t.ws.calculateTimeSlice idxVf).1] else t.slices
    | _ => t.slices
  charged := t.charged + t.ws.charge v h

/-- The time slice of `v` stays as it is, and `v` stays in the fairness group. -/
def Fixed (v : Nat) (_ : WorldSwitch) : Happening → Prop
  | .updateTimeSlice idxVf _ => idxVf ≠ v
  | .setDummy idxVf _ => idxVf ≠ v
  | _ => True

/-- A member of the fairness group with a fixed slice and no credit used yet. -/
def Begins (v : Nat) (S : BitVec 32) (ws : WorldSwitch) : Prop :=
  ws.fairnessMode = true ∧ (ws.arrayVf v).dummyVf = false ∧
    (ws.arrayVf v).timeSlice = S.setWidth 64 ∧ (ws.arrayVf v).beyondTimeCycle = 0

def Happens (before : WorldSwitch) (h : Happening) (after : WorldSwitch) : Prop :=
  after = before.happen h

def Tallies (v : Nat) (before : Tally) (h : Happening) (after : Tally) : Prop :=
  after = before.next v h

structure Exact (e : Entry) : Prop where
  left : (e.timeSlice - e.beyondTimeCycle).toInt =
    (e.timeSlice.toNat : Int) - (e.beyondTimeCycle.toNat : Int)
  skipped : (e.timeSlice - e.beyondTimeCycle).toInt ≤ 0 →
    ((e.beyondTimeCycle - e.timeSlice).toNat : Int) =
      (e.beyondTimeCycle.toNat : Int) - (e.timeSlice.toNat : Int)
  punished : 0 < (e.timeSlice - e.beyondTimeCycle).toInt →
    (e.timeSlice - e.beyondTimeCycle).toInt ≤ (e.timeSlice / 2).toInt →
    ((e.timeSlice / 2 - (e.timeSlice - e.beyondTimeCycle)).toNat : Int) =
      ((e.timeSlice / 2).toNat : Int) - (e.timeSlice - e.beyondTimeCycle).toInt

/-- The credit of a member of the fairness group: what one overrun can add to half a slice. -/
def Fair (v : Nat) (S : BitVec 32) (ws : WorldSwitch) : Prop :=
  ws.fairnessMode = true ∧ (ws.arrayVf v).dummyVf = false ∧
    (ws.arrayVf v).timeSlice = S.setWidth 64 ∧
    (ws.arrayVf v).beyondTimeCycle.toNat < 2 ^ 63 + S.toNat / 2

section words

variable {s b : BitVec 64}

theorem toInt_sub_eq (hs : s.toNat < 2 ^ 32) (hb : b.toNat < 2 ^ 63 + s.toNat / 2) :
    (s - b).toInt = (s.toNat : Int) - (b.toNat : Int) := by
  rw [BitVec.toInt_eq_toNat_cond, BitVec.toNat_sub]
  split <;> omega

theorem toNat_half (s : BitVec 64) : (s / 2).toNat = s.toNat / 2 := BitVec.toNat_udiv

theorem toInt_half (hs : s.toNat < 2 ^ 32) : (s / 2).toInt = ((s.toNat / 2 : Nat) : Int) := by
  rw [BitVec.toInt_eq_toNat_cond, toNat_half]
  split <;> omega

theorem toNat_sub_of_pos (hs : s.toNat < 2 ^ 32) (hb : b.toNat < 2 ^ 63 + s.toNat / 2)
    (hpos : 0 < (s - b).toInt) : b.toNat < s.toNat ∧ (s - b).toNat = s.toNat - b.toNat := by
  rw [toInt_sub_eq hs hb] at hpos
  have hlt : b.toNat < s.toNat := by omega
  exact ⟨hlt, BitVec.toNat_sub_of_le (Nat.le_of_lt hlt)⟩

end words

section rounds

variable {ws : WorldSwitch} {v i : Nat} {S : BitVec 32}

theorem Fair.toNat_timeSlice (h : Fair v S ws) : (ws.arrayVf v).timeSlice.toNat = S.toNat := by
  rw [h.2.2.1, BitVec.toNat_setWidth]
  have := S.isLt
  omega

theorem Fair.timeSlice_lt (h : Fair v S ws) : (ws.arrayVf v).timeSlice.toNat < 2 ^ 32 := by
  rw [h.toNat_timeSlice]
  exact S.isLt

theorem Fair.credit_lt (h : Fair v S ws) : (ws.arrayVf v).beyondTimeCycle.toNat <
    2 ^ 63 + (ws.arrayVf v).timeSlice.toNat / 2 := by
  rw [h.toNat_timeSlice]
  exact h.2.2.2

theorem Fair.exact (h : Fair v S ws) : Exact (ws.arrayVf v) := by
  have hslice := h.timeSlice_lt
  have hcredit := h.credit_lt
  have hleft := toInt_sub_eq hslice hcredit
  constructor
  · exact hleft
  · intro hskip
    rw [hleft] at hskip
    rw [BitVec.toNat_sub_of_le (show (ws.arrayVf v).timeSlice.toNat ≤
      (ws.arrayVf v).beyondTimeCycle.toNat by omega)]
    omega
  · intro hpos hpunish
    obtain ⟨hlt, hnat⟩ := toNat_sub_of_pos hslice hcredit hpos
    rw [hleft, toInt_half hslice] at hpunish
    have hle : ((ws.arrayVf v).timeSlice - (ws.arrayVf v).beyondTimeCycle).toNat ≤
        ((ws.arrayVf v).timeSlice / 2).toNat := by
      rw [hnat, toNat_half]
      omega
    rw [BitVec.toNat_sub_of_le hle, hleft, hnat, toNat_half]
    omega

theorem runAt_of_ne (h : v ≠ i) (loadedAt : Option (Time × Option Time)) :
    (ws.runAt i loadedAt).arrayVf v = ws.arrayVf v := by
  rcases loadedAt with _ | ⟨start, _ | stop⟩
  · rfl
  · exact setEntry_of_ne ws _ h
  · show ((ws.startRecordVfTime i start).stopRecordVfTime i stop).arrayVf v = _
    unfold stopRecordVfTime
    dsimp only
    split
    · rw [setEntry_of_ne _ _ h]
      exact setEntry_of_ne ws _ h
    · exact setEntry_of_ne ws _ h

theorem runAt_fairnessMode (ws : WorldSwitch) (i : Nat)
    (loadedAt : Option (Time × Option Time)) :
    (ws.runAt i loadedAt).fairnessMode = ws.fairnessMode := by
  rcases loadedAt with _ | ⟨start, _ | stop⟩
  · rfl
  · rfl
  · show ((ws.startRecordVfTime i start).stopRecordVfTime i stop).fairnessMode = _
    unfold stopRecordVfTime
    dsimp only
    split <;> rfl

/-- The grant of a slice: what is granted and what was owed are a slice and what is owed now, and
where something is granted no more than half a slice is owed. -/
theorem Fair.grant (h : Fair v S ws) :
    (fairSlice (ws.arrayVf v) (ws.arrayVf v).timeSlice).lastTimeSlice.toNat +
        (ws.arrayVf v).beyondTimeCycle.toNat =
      S.toNat + (fairSlice (ws.arrayVf v) (ws.arrayVf v).timeSlice).beyondTimeCycle.toNat ∧
    ((fairSlice (ws.arrayVf v) (ws.arrayVf v).timeSlice).lastTimeSlice = 0 ∨
      S.toNat / 2 ≤ (fairSlice (ws.arrayVf v) (ws.arrayVf v).timeSlice).lastTimeSlice.toNat ∧
        (fairSlice (ws.arrayVf v) (ws.arrayVf v).timeSlice).beyondTimeCycle.toNat ≤
          S.toNat / 2) := by
  have hslice := h.timeSlice_lt
  have hcredit := h.credit_lt
  have hnat := h.toNat_timeSlice
  have hleft := toInt_sub_eq hslice hcredit
  unfold fairSlice
  dsimp only
  split
  · rename_i hskip
    rw [hleft] at hskip
    have hle : (ws.arrayVf v).timeSlice.toNat ≤ (ws.arrayVf v).beyondTimeCycle.toNat := by omega
    refine ⟨?_, .inl rfl⟩
    dsimp only
    rw [BitVec.toNat_sub_of_le hle]
    show 0 + _ = _
    omega
  · rename_i hpos
    obtain ⟨hlt, hdiff⟩ := toNat_sub_of_pos hslice hcredit (Int.not_le.mp hpos)
    rw [hleft, toInt_half hslice]
    split
    · rename_i hpunish
      have hle : ((ws.arrayVf v).timeSlice - (ws.arrayVf v).beyondTimeCycle).toNat ≤
          ((ws.arrayVf v).timeSlice / 2).toNat := by
        rw [hdiff, toNat_half]
        omega
      dsimp only
      rw [BitVec.toNat_sub_of_le hle, hdiff, toNat_half, hnat]
      omega
    · rename_i hfull
      refine ⟨?_, .inr ⟨?_, Nat.zero_le _⟩⟩
      · dsimp only
        rw [hdiff]
        show _ = _ + 0
        omega
      · dsimp only
        rw [hdiff]
        omega

theorem fairSlice_timeSlice (e : Entry) (timeSlice : Time) :
    (fairSlice e timeSlice).timeSlice = e.timeSlice := by
  unfold fairSlice
  dsimp only
  split
  · rfl
  · split <;> rfl

theorem fairSlice_dummyVf (e : Entry) (timeSlice : Time) :
    (fairSlice e timeSlice).dummyVf = e.dummyVf := by
  unfold fairSlice
  dsimp only
  split
  · rfl
  · split <;> rfl

theorem Fair.target (h : Fair v S ws) : ws.target v = v := by
  rw [WorldSwitch.target, h.2.1, if_neg (by decide)]

theorem Fair.sliceEntry (h : Fair v S ws) (hS : S ≠ 0xffffffff) :
    ws.sliceEntry v = fairSlice (ws.arrayVf v) (ws.arrayVf v).timeSlice := by
  have hmagic : (ws.arrayVf v).timeSlice ≠ defaultGfxTimeSlice1Vf := by
    intro heq
    apply hS
    apply BitVec.eq_of_toNat_eq
    rw [← h.toNat_timeSlice, heq]
    rfl
  unfold WorldSwitch.sliceEntry
  dsimp only
  rw [h.target, if_pos h.1, if_neg hmagic, h.2.1, if_neg (by decide)]

theorem Fair.granted (h : Fair v S ws) (hS : S ≠ 0xffffffff) :
    Fair v S (ws.calculateTimeSlice v).2 := by
  obtain ⟨hsum, hgrant⟩ := h.grant
  have hcredit := h.2.2.2
  unfold calculateTimeSlice
  rw [h.target, h.sliceEntry hS]
  refine ⟨h.1, ?_, ?_, ?_⟩
  · rw [setEntry_self, fairSlice_dummyVf]
    exact h.2.1
  · rw [setEntry_self, fairSlice_timeSlice]
    exact h.2.2.1
  · rw [setEntry_self]
    rcases hgrant with hzero | ⟨_, hhalf⟩
    · rw [hzero] at hsum
      have hnone : (0 : Time).toNat = 0 := rfl
      omega
    · omega

theorem overrun_lt (ws : WorldSwitch) (i : Nat) (now : Time) : ws.overrun i now < 2 ^ 63 := by
  unfold overrun
  dsimp only
  split
  · rename_i hover
    have hpos := hover.2.1
    rw [BitVec.toInt_eq_toNat_cond] at hpos
    split at hpos <;> omega
  · decide

theorem stopRecordVfTime_spec (ws : WorldSwitch) (now : Time)
    (hsmall : (ws.arrayVf v).beyondTimeCycle.toNat < 2 ^ 63) :
    ((ws.stopRecordVfTime v now).arrayVf v).beyondTimeCycle.toNat =
        (ws.arrayVf v).beyondTimeCycle.toNat + ws.overrun v now ∧
      ((ws.stopRecordVfTime v now).arrayVf v).dummyVf = (ws.arrayVf v).dummyVf ∧
      ((ws.stopRecordVfTime v now).arrayVf v).timeSlice = (ws.arrayVf v).timeSlice := by
  have hlt := overrun_lt ws v now
  unfold overrun at hlt ⊢
  unfold stopRecordVfTime
  dsimp only at hlt ⊢
  split
  · rename_i hstarted
    rw [setEntry_self]
    dsimp only
    split
    · rename_i hlong
      split
      · rename_i hfree
        rw [if_neg (fun hcharged => hcharged.2.2 hfree)]
        exact ⟨rfl, rfl, rfl⟩
      · rename_i hcharged
        rw [if_pos ⟨hstarted, hlong, hcharged⟩] at hlt ⊢
        refine ⟨?_, rfl, rfl⟩
        rw [BitVec.toNat_add]
        omega
    · rename_i hshort
      rw [if_neg (fun hcharged => hshort hcharged.2.1)]
      exact ⟨rfl, rfl, rfl⟩
  · rename_i hidle
    rw [if_neg (fun hcharged => hidle hcharged.1)]
    exact ⟨rfl, rfl, rfl⟩

def WorldSwitch.credit (ws : WorldSwitch) (v : Nat) : Nat := (ws.arrayVf v).beyondTimeCycle.toNat

def Balanced (v : Nat) (S : BitVec 32) (ws : WorldSwitch) (t : Tally) : Prop :=
  Fair v S t.ws ∧
    (t.slices.map BitVec.toNat).sum + t.charged + ws.credit v =
      t.slices.length * S.toNat + t.ws.credit v ∧
    ∀ g ∈ t.slices, g = 0 ∨ S.toNat / 2 ≤ g.toNat

theorem Fair.of_entry {ws' : WorldSwitch} (h : Fair v S ws)
    (hmode : ws'.fairnessMode = ws.fairnessMode) (hentry : ws'.arrayVf v = ws.arrayVf v) :
    Fair v S ws' := by
  unfold Fair
  rw [hmode, hentry]
  exact h

theorem Fair.runAt (h : Fair v S ws) (hhalf : ws.credit v ≤ S.toNat / 2)
    (loadedAt : Option (Time × Option Time)) :
    Fair v S (ws.runAt v loadedAt) ∧
      (ws.runAt v loadedAt).credit v = ws.credit v + ws.runOverrun v loadedAt := by
  obtain ⟨hmode, hdummy, hslice, hcredit⟩ := h
  rcases loadedAt with _ | ⟨start, _ | stop⟩
  · exact ⟨⟨hmode, hdummy, hslice, hcredit⟩, rfl⟩
  · refine ⟨⟨hmode, ?_, ?_, ?_⟩, ?_⟩
    · simpa [WorldSwitch.runAt, startRecordVfTime] using hdummy
    · simpa [WorldSwitch.runAt, startRecordVfTime] using hslice
    · simpa [WorldSwitch.runAt, startRecordVfTime] using hcredit
    · simp [WorldSwitch.runAt, startRecordVfTime, credit, runOverrun]
  · have hstarted : (ws.startRecordVfTime v start).arrayVf v =
        { ws.arrayVf v with startTs := start } := setEntry_self ..
    have hlt := overrun_lt (ws.startRecordVfTime v start) v stop
    unfold credit at hhalf ⊢
    obtain ⟨hb, hd, hs⟩ := stopRecordVfTime_spec (v := v) (ws.startRecordVfTime v start) stop
      (by rw [hstarted]; dsimp only; omega)
    rw [hstarted] at hb hd hs
    dsimp only at hb hd hs
    refine ⟨⟨?_, hd.trans hdummy, hs.trans hslice, ?_⟩, hb⟩
    · rw [runAt_fairnessMode]
      exact hmode
    · show (((ws.startRecordVfTime v start).stopRecordVfTime v stop).arrayVf
        v).beyondTimeCycle.toNat < _
      rw [hb]
      omega

theorem round_of_ne (hi : i ≠ v) (hv : v ≠ pfIdx) (loadedAt : Option (Time × Option Time)) :
    (ws.happen (.round i loadedAt)).arrayVf v = ws.arrayVf v ∧
      (ws.happen (.round i loadedAt)).fairnessMode = ws.fairnessMode ∧
      ws.charge v (.round i loadedAt) = 0 := by
  have htarget : v ≠ ws.target i := by
    unfold WorldSwitch.target
    split
    · exact hv
    · exact Ne.symm hi
  refine ⟨?_, ?_, ?_⟩
  · unfold happen
    dsimp only
    split
    · exact setEntry_of_ne ws _ htarget
    · rw [runAt_of_ne htarget]
      exact setEntry_of_ne ws _ htarget
  · unfold happen
    dsimp only
    split
    · rfl
    · rw [runAt_fairnessMode]
      rfl
  · exact if_pos (.inr (Ne.symm htarget))

theorem Fair.round (h : Fair v S ws) (hS : S ≠ 0xffffffff)
    (loadedAt : Option (Time × Option Time)) :
    Fair v S (ws.happen (.round v loadedAt)) ∧
      (ws.calculateTimeSlice v).1.toNat + ws.charge v (.round v loadedAt) + ws.credit v =
        S.toNat + (ws.happen (.round v loadedAt)).credit v ∧
      ((ws.calculateTimeSlice v).1 = 0 ∨ S.toNat / 2 ≤ (ws.calculateTimeSlice v).1.toNat) := by
  have hgranted := h.granted hS
  obtain ⟨hsum, hgrant⟩ := h.grant
  have hslice : (ws.calculateTimeSlice v).1 =
      (fairSlice (ws.arrayVf v) (ws.arrayVf v).timeSlice).lastTimeSlice := by
    rw [calculateTimeSlice, h.sliceEntry hS]
  have hcredit : (ws.calculateTimeSlice v).2.credit v =
      (fairSlice (ws.arrayVf v) (ws.arrayVf v).timeSlice).beyondTimeCycle.toNat := by
    rw [credit, calculateTimeSlice, h.sliceEntry hS, h.target, setEntry_self]
  rw [← hslice, ← hcredit] at hsum
  rw [← hslice, ← hcredit] at hgrant
  by_cases hzero : (ws.calculateTimeSlice v).1 = 0
  · have hhappen : ws.happen (.round v loadedAt) = (ws.calculateTimeSlice v).2 := if_pos hzero
    have hcharge : ws.charge v (.round v loadedAt) = 0 := if_pos (.inl hzero)
    rw [hhappen, hcharge]
    exact ⟨hgranted, hsum, .inl hzero⟩
  · obtain ⟨hleast, hhalf⟩ := hgrant.resolve_left hzero
    have hhappen : ws.happen (.round v loadedAt) =
        (ws.calculateTimeSlice v).2.runAt v loadedAt := by
      show (if _ then _ else _) = _
      rw [if_neg hzero, h.target]
    obtain ⟨hfair, hcharged⟩ := hgranted.runAt hhalf loadedAt
    rw [hhappen]
    refine ⟨hfair, ?_, .inr hleast⟩
    have hcharge : ws.charge v (.round v loadedAt) =
        (ws.calculateTimeSlice v).2.runOverrun v loadedAt := by
      show (if _ then _ else _) = _
      rw [if_neg (fun hnone => hnone.elim hzero (fun hother => hother h.target))]
    rw [hcharge, hcharged]
    unfold credit at hsum ⊢
    omega

theorem Fair.other {e : Happening} (h : Fair v S ws) (hv : v ≠ pfIdx) (hfixed : Fixed v ws e)
    (hother : ∀ loadedAt, e ≠ .round v loadedAt) :
    Fair v S (ws.happen e) ∧ (ws.happen e).credit v = ws.credit v ∧ ws.charge v e = 0 := by
  have hsame : ∀ ws' : WorldSwitch, ws'.arrayVf v = ws.arrayVf v →
      ws'.fairnessMode = ws.fairnessMode → Fair v S ws' ∧ ws'.credit v = ws.credit v := by
    intro ws' hentry hmode
    exact ⟨h.of_entry hmode hentry, by rw [credit, hentry, credit]⟩
  cases e with
  | round i loadedAt =>
    have hi : i ≠ v := fun heq => hother loadedAt (by rw [heq])
    have hround : (ws.happen (.round i loadedAt)).arrayVf v = ws.arrayVf v ∧
        (ws.happen (.round i loadedAt)).fairnessMode = ws.fairnessMode ∧
        ws.charge v (.round i loadedAt) = 0 := round_of_ne hi hv loadedAt
    obtain ⟨hentry, hmode, hcharge⟩ := hround
    exact ⟨(hsame _ hentry hmode).1, (hsame _ hentry hmode).2, hcharge⟩
  | toggleSkipNextPunish i skip =>
    by_cases hi : v = i
    · subst hi
      have hentry : (ws.happen (.toggleSkipNextPunish v skip)).arrayVf v =
          { ws.arrayVf v with skipNextPunish := skip } := setEntry_self ..
      refine ⟨⟨h.1, ?_, ?_, ?_⟩, ?_, rfl⟩
      · rw [hentry]
        exact h.2.1
      · rw [hentry]
        exact h.2.2.1
      · rw [hentry]
        exact h.2.2.2
      · rw [credit, hentry, credit]
    · have hentry : (ws.happen (.toggleSkipNextPunish i skip)).arrayVf v = ws.arrayVf v :=
        setEntry_of_ne ws _ hi
      exact ⟨(hsame _ hentry rfl).1, (hsame _ hentry rfl).2, rfl⟩
  | setBpMode bpMode => exact ⟨h, rfl, rfl⟩
  | updateTimeSlice i slice =>
    have hentry : (ws.happen (.updateTimeSlice i slice)).arrayVf v = ws.arrayVf v :=
      setEntry_of_ne ws _ (Ne.symm hfixed)
    exact ⟨(hsame _ hentry rfl).1, (hsame _ hentry rfl).2, rfl⟩
  | setDummy i dummy =>
    have hentry : (ws.happen (.setDummy i dummy)).arrayVf v = ws.arrayVf v :=
      setEntry_of_ne ws _ (Ne.symm hfixed)
    exact ⟨(hsame _ hentry rfl).1, (hsame _ hentry rfl).2, rfl⟩

theorem Fair.happen {e : Happening} (h : Fair v S ws) (hS : S ≠ 0xffffffff) (hv : v ≠ pfIdx)
    (hfixed : Fixed v ws e) : Fair v S (ws.happen e) := by
  by_cases hround : ∃ loadedAt, e = .round v loadedAt
  · obtain ⟨loadedAt, rfl⟩ := hround
    exact (h.round hS loadedAt).1
  · exact (h.other hv hfixed (fun loadedAt heq => hround ⟨loadedAt, heq⟩)).1

theorem Balanced.next {start : WorldSwitch} {t : Tally} {e : Happening}
    (h : Balanced v S start t) (hS : S ≠ 0xffffffff) (hv : v ≠ pfIdx)
    (hfixed : Fixed v t.ws e) : Balanced v S start (t.next v e) := by
  obtain ⟨hfair, hsum, hslices⟩ := h
  by_cases hround : ∃ loadedAt, e = .round v loadedAt
  · obtain ⟨loadedAt, rfl⟩ := hround
    obtain ⟨hfair', hbalance, hgrant⟩ := hfair.round hS loadedAt
    have hgrows : (t.next v (.round v loadedAt)).slices =
        t.slices ++ [(t.ws.calculateTimeSlice v).1] := if_pos rfl
    refine ⟨hfair', ?_, ?_⟩
    · rw [hgrows, List.map_append, List.sum_append, List.length_append, List.map_singleton,
        List.sum_singleton, List.length_singleton, Nat.add_mul, Nat.one_mul]
      show _ + (t.charged + t.ws.charge v (.round v loadedAt)) + _ =
        _ + (t.ws.happen (.round v loadedAt)).credit v
      omega
    · rw [hgrows]
      intro g hg
      rcases List.mem_append.mp hg with hearlier | hlast
      · exact hslices g hearlier
      · rw [List.mem_singleton.mp hlast]
        exact hgrant
  · have hother : ∀ loadedAt, e ≠ .round v loadedAt :=
      fun loadedAt heq => hround ⟨loadedAt, heq⟩
    obtain ⟨hfair', hcredit, hcharge⟩ := hfair.other hv hfixed hother
    have hsame : (t.next v e).slices = t.slices := by
      cases e with
      | round i loadedAt => exact if_neg (fun heq => hother loadedAt (by rw [heq]))
      | _ => rfl
    refine ⟨hfair', ?_, ?_⟩
    · rw [hsame]
      show _ + (t.charged + t.ws.charge v e) + _ = _ + (t.ws.happen e).credit v
      rw [hcharge, hcredit]
      exact hsum
    · rw [hsame]
      exact hslices

/-- Fair share conservation: over any rounds from any reached state the slices granted to a
function are its time slice for each round, less the overruns charged, plus what it owes more at
the end; no computation of a slice wraps, and no slice is less than half a time slice but zero. -/
theorem fair_share (hS : S ≠ 0xffffffff) (hv : v ≠ pfIdx)
    (hreached : Run (Begins v S) Happens (Fixed v) ws) {t : Tally}
    (hrun : Run (fun t => t = ⟨ws, [], 0⟩) (Tallies v) (fun t => Fixed v t.ws) t) :
    ((t.slices.map BitVec.toNat).sum : Int) =
        t.slices.length * S.toNat - t.charged + (t.ws.credit v - ws.credit v) ∧
      Exact (t.ws.arrayVf v) ∧ ∀ g ∈ t.slices, g = 0 ∨ S.toNat / 2 ≤ g.toNat := by
  have hfair : Fair v S ws := by
    apply hreached.invariant (Fair v S)
    · intro ws hbegins
      obtain ⟨hmode, hdummy, hslice, hcredit⟩ := hbegins
      refine ⟨hmode, hdummy, hslice, ?_⟩
      rw [hcredit]
      exact Nat.lt_of_lt_of_le (by decide) (Nat.le_add_right _ _)
    · rintro before e _ hfair hfixed rfl
      exact hfair.happen hS hv hfixed
  have hbalanced : Balanced v S ws t := by
    apply hrun.invariant (Balanced v S ws)
    · rintro _ rfl
      exact ⟨hfair, by simp, by simp⟩
    · rintro before e _ hbalanced hfixed rfl
      exact hbalanced.next hS hv hfixed
  obtain ⟨hfair', hsum, hslices⟩ := hbalanced
  refine ⟨?_, hfair'.exact, hslices⟩
  omega

theorem run_tally {start : Tally → Prop} {t : Tally} {hs : List Happening}
    (hrun : Run start (Tallies v) (fun t => Fixed v t.ws) t)
    (hfixed : ∀ e ∈ hs, ∀ ws, Fixed v ws e) :
    Run start (Tallies v) (fun t => Fixed v t.ws) (hs.foldl (Tally.next v) t) := by
  induction hs generalizing t with
  | nil => exact hrun
  | cons e rest ih =>
    apply ih (hrun.next e (hfixed e (List.mem_cons_self ..) t.ws) rfl)
    exact fun later h => hfixed later (List.mem_cons_of_mem _ h)

def twoFair : WorldSwitch where
  fairnessMode := true
  vfBusyStatus := 0
  vfTimeout := 0
  vfInited := 3
  currIdxVf := 0
  loaded := false
  activeVfList := [0, 1]
  arrayVf := fun _ => ⟨10000, 0, false, 0, 0, 0, false, 0⟩
  pfActive := true
  usePf := true
  bpMode := false
  gfxTimeSlice := fun _ => 10000

/-- The first function overruns its slice by eighteen milliseconds, and is skipped and then cut to
half a slice for it. -/
def overrunRounds : List Happening :=
  [.round 0 (some (1000, some 29000)), .round 1 (some (29000, some 39000)), .round 0 none,
    .round 0 (some (40000, some 45000)), .round 0 (some (50000, none))]

def overrunTally : Tally := overrunRounds.foldl (Tally.next 0) ⟨twoFair, [], 0⟩

theorem fair_share_overrun :
    overrunTally.slices = [10000, 0, 5000, 7000] ∧ overrunTally.charged = 18000 ∧
    ((overrunTally.slices.map BitVec.toNat).sum : Int) =
      overrunTally.slices.length * (10000#32).toNat - overrunTally.charged +
        (overrunTally.ws.credit 0 - twoFair.credit 0) := by
  have hrun : Run (fun t => t = ⟨twoFair, [], 0⟩) (Tallies 0) (fun t => Fixed 0 t.ws)
      overrunTally := run_tally (.start rfl) (by simp [overrunRounds, Fixed])
  have hbegins : Begins 0 10000 twoFair := ⟨rfl, rfl, rfl, rfl⟩
  have hshare := (fair_share (by decide) (by decide) (.start hbegins) hrun).1
  exact ⟨by decide +kernel, by decide +kernel, hshare⟩

end rounds

end MxGpu.Switch
