import MxGpu.WsMachine
import Mathlib.Data.List.Nodup

/- The table of next states, and what one round of a bulk request does to each scheduler. -/
namespace MxGpu.Ws

open Function

section Table

variable {fns : Functions} {targetVf : Nat} {targetState : GpuState} {m : Machine}

/-- The commands that the tables of both paths have after a state. -/
inductive Follows : GpuState → Nat → GpuState → Nat → Prop where
  | save (vf : Nat) : Follows .idleGpu vf .saveGpuState vf
  | run {state : GpuState} (vf : Nat) (hstate : state = .loadGpuState ∨ state = .initGpu) :
      Follows state vf .runGpu vf
  | idle {state : GpuState} (vf : Nat) (hstate : state = .runGpu ∨ state = .disableAutoHwSched) :
      Follows state vf .idleGpu vf
  | leave {state cmd : GpuState} (vf target : Nat)
      (hstate : state = .saveGpuState ∨ state = .shutdownGpu)
      (hcmd : cmd = .loadGpuState ∨ cmd = .initGpu ∨ cmd = .shutdownGpu) :
      Follows state vf cmd target

theorem leaveShutdown_cases (targetVf : Nat) (targetState : GpuState) (m : Machine) :
    leaveShutdown targetVf targetState m = .loadGpuState ∨
      leaveShutdown targetVf targetState m = .initGpu ∨
      leaveShutdown targetVf targetState m = .shutdownGpu := by
  unfold leaveShutdown
  split
  · exact .inr (.inr rfl)
  · split
    · exact .inl rfl
    · exact .inr (.inl rfl)

theorem getNextState_follows {step : GpuState × Nat}
    (h : getNextState fns targetVf targetState m = some step) :
    Follows m.curGpuState m.curVfId step.1 step.2 := by
  unfold getNextState at h
  split at h <;> rename_i hstate
  · cases h
    rw [hstate]
    exact .save _
  · split at h
    · cases h
      exact .leave _ _ (.inl hstate) (.inr (.inr rfl))
    · split at h
      · cases h
        exact .leave _ _ (.inl hstate) (.inr (.inr rfl))
      · cases h
        exact .leave _ _ (.inl hstate) (leaveShutdown_cases targetVf targetState m)
  · cases h
    exact .leave _ _ (.inr hstate) (leaveShutdown_cases targetVf targetState m)
  · cases h
    exact .run _ (.inl hstate)
  · cases h
    exact .run _ (.inr hstate)
  · cases h
    exact .idle _ (.inl hstate)
  · cases h

end Table

section Plan

variable {fns : Functions} {targetVf : Nat} {targetState : GpuState} {machine : Nat → Machine}

def roundCost (targetVf : Nat) (targetState : GpuState) (m : Machine) : Nat :=
  if m.At targetVf targetState then 0 else 1

def Machine.Moves (fns : Functions) (targetVf : Nat) (targetState : GpuState) (m : Machine) :
    Prop :=
  ¬ m.At targetVf targetState ∧ (getNextState fns targetVf targetState m).isSome = true

instance (m : Machine) : Decidable (m.Moves fns targetVf targetState) :=
  inferInstanceAs (Decidable (_ ∧ _))

/-- The budget one round takes from a list of schedulers. -/
def maskCost (targetVf : Nat) (targetState : GpuState) (machine : Nat → Machine)
    (mask : List Nat) : Nat :=
  (mask.map fun i => roundCost targetVf targetState (machine i)).sum

theorem maskCost_cons (i : Nat) (mask : List Nat) :
    maskCost targetVf targetState machine (i :: mask) =
      roundCost targetVf targetState (machine i) + maskCost targetVf targetState machine mask := rfl

theorem planRound_inTime (mask : List Nat) (loopOkay : Nat) :
    (planRound fns targetVf targetState machine mask loopOkay).inTime = true ↔
      maskCost targetVf targetState machine mask ≤ loopOkay := by
  induction mask generalizing loopOkay with
  | nil => simp [planRound, maskCost]
  | cons i rest ih =>
    rw [maskCost_cons]
    unfold planRound roundCost
    split
    next hat =>
      rw [ih, Nat.zero_add]
    next hat =>
      split
      · simp
      · simp
      · show (planRound fns targetVf targetState machine rest _).inTime = true ↔ _
        rw [ih]
        omega
      · show (planRound fns targetVf targetState machine rest _).inTime = true ↔ _
        rw [ih]
        omega

theorem planRound_loopOkay {mask : List Nat} {loopOkay : Nat}
    (h : (planRound fns targetVf targetState machine mask loopOkay).inTime = true) :
    (planRound fns targetVf targetState machine mask loopOkay).loopOkay +
      maskCost targetVf targetState machine mask = loopOkay := by
  induction mask generalizing loopOkay with
  | nil => rfl
  | cons i rest ih =>
    rw [maskCost_cons]
    unfold planRound at h ⊢
    unfold roundCost
    split at h
    next hat =>
      rw [if_pos hat, if_pos hat, Nat.zero_add]
      exact ih h
    next hat =>
      rw [if_neg hat, if_neg hat]
      split at h
      · cases h
      · cases h
      next =>
        have hrest := ih h
        show (planRound fns targetVf targetState machine rest _).loopOkay + _ = _
        omega
      next =>
        have hrest := ih h
        show (planRound fns targetVf targetState machine rest _).loopOkay + _ = _
        omega

theorem planRound_mask {mask : List Nat} {loopOkay : Nat}
    (h : (planRound fns targetVf targetState machine mask loopOkay).inTime = true) :
    (planRound fns targetVf targetState machine mask loopOkay).mask =
      mask.filter fun i => (machine i).Moves fns targetVf targetState := by
  induction mask generalizing loopOkay with
  | nil => rfl
  | cons i rest ih =>
    unfold planRound at h ⊢
    unfold Machine.Moves at ih ⊢
    rw [List.filter_cons]
    split at h
    next hat =>
      rw [if_pos hat, ih h]
      simp [hat]
    next hat =>
      rw [if_neg hat]
      split at h
      · cases h
      · cases h
      next hnone =>
        show (planRound fns targetVf targetState machine rest _).mask = _
        rw [ih h]
        simp [hnone]
      next hsome =>
        show i :: (planRound fns targetVf targetState machine rest _).mask = _
        rw [ih h]
        simp [hat, hsome]

theorem planRound_next {mask : List Nat} {loopOkay i : Nat}
    (h : (planRound fns targetVf targetState machine mask loopOkay).inTime = true)
    (hnodup : mask.Nodup)
    (hi : i ∈ (planRound fns targetVf targetState machine mask loopOkay).mask) :
    getNextState fns targetVf targetState (machine i) =
      some ((planRound fns targetVf targetState machine mask loopOkay).next i) := by
  have hmask := planRound_mask h
  rw [hmask] at hi
  obtain ⟨hmem, hmoves⟩ := List.mem_filter.mp hi
  have hsome : (getNextState fns targetVf targetState (machine i)).isSome = true := by
    have := of_decide_eq_true hmoves
    exact this.2
  clear hi hmask
  induction mask generalizing loopOkay with
  | nil => cases hmem
  | cons j rest ih =>
    have hrest : ∀ left, (planRound fns targetVf targetState machine rest left).inTime = true →
        i ∈ rest → getNextState fns targetVf targetState (machine i) =
          some ((planRound fns targetVf targetState machine rest left).next i) := by
      intro left hleft hmem
      exact ih hleft hnodup.of_cons hmem
    unfold planRound at h ⊢
    split at h
    next hat =>
      rw [if_pos hat]
      apply hrest _ h
      rcases List.mem_cons.mp hmem with heq | hmem
      · subst heq
        exact absurd hat (of_decide_eq_true hmoves).1
      · exact hmem
    next hat =>
      rw [if_neg hat]
      split at h
      · cases h
      · cases h
      next hnone =>
        apply hrest _ h
        rcases List.mem_cons.mp hmem with heq | hmem
        · subst heq
          rw [hnone] at hsome
          cases hsome
        · exact hmem
      next hstep =>
        show _ = some (update
          (planRound fns targetVf targetState machine rest _).next j _ i)
        by_cases heq : i = j
        · subst heq
          rw [update_self]
          exact hstep
        · rw [update_of_ne heq]
          apply hrest _ h
          exact (List.mem_cons.mp hmem).resolve_left heq

end Plan

section Wait

variable {cfg : Nat → Config} {round : Round} {next : Nat → GpuState × Nat}

def Machine.waited (round : Round) (i : Nat) (step : GpuState × Nat) (m : Machine) : Machine :=
  if round.completes i then m.completed step
  else if round.late i then m.exec step.1 step.2
  else m

theorem waitLoop_machine {left : Nat} {waiting : List Nat} {machine : Nat → Machine}
    (hleft : waiting.length < left) (hnodup : waiting.Nodup) (j : Nat) :
    (waitLoop round next left waiting machine).1 j =
      if j ∈ waiting then (machine j).waited round j (next j) else machine j := by
  induction left generalizing waiting machine with
  | zero => omega
  | succ left ih =>
    unfold waitLoop
    split
    next i hfirst =>
      obtain ⟨hmem, hcompletes⟩ := round.first_mem hfirst
      have hpositive := List.length_pos_of_mem hmem
      have herase : (waiting.erase i).length < left := by
        rw [List.length_erase_of_mem hmem]
        omega
      rw [ih herase (hnodup.erase i)]
      by_cases hj : j = i
      · subst hj
        have hgone : j ∉ waiting.erase j := fun h => (hnodup.mem_erase_iff.mp h).1 rfl
        rw [if_neg hgone, if_pos hmem, update_self]
        unfold Machine.waited
        rw [if_pos hcompletes]
      · rw [update_of_ne hj]
        have hsame : j ∈ waiting.erase i ↔ j ∈ waiting := List.mem_erase_of_ne hj
        by_cases hw : j ∈ waiting
        · rw [if_pos (hsame.mpr hw), if_pos hw]
        · rw [if_neg (fun h => hw (hsame.mp h)), if_neg hw]
    next hfirst =>
      have hnone := round.first_none hfirst
      show (if j ∈ waiting ∧ round.late j = true then _ else _) = _
      by_cases hw : j ∈ waiting
      · unfold Machine.waited
        simp [hw, hnone j hw]
      · simp [hw]

theorem waitLoop_waiting {left : Nat} {waiting : List Nat} {machine : Nat → Machine}
    (hleft : waiting.length < left) (hnodup : waiting.Nodup) (j : Nat) :
    j ∈ (waitLoop round next left waiting machine).2 ↔
      j ∈ waiting ∧ round.completes j = false := by
  induction left generalizing waiting machine with
  | zero => omega
  | succ left ih =>
    unfold waitLoop
    split
    next i hfirst =>
      obtain ⟨hmem, hcompletes⟩ := round.first_mem hfirst
      have hpositive := List.length_pos_of_mem hmem
      have herase : (waiting.erase i).length < left := by
        rw [List.length_erase_of_mem hmem]
        omega
      rw [ih herase (hnodup.erase i), hnodup.mem_erase_iff]
      constructor
      · intro h
        exact ⟨h.1.2, h.2⟩
      · intro h
        refine ⟨⟨?_, h.1⟩, h.2⟩
        intro heq
        rw [heq, hcompletes] at h
        cases h.2
    next hfirst =>
      constructor
      · intro h
        exact ⟨h, round.first_none hfirst j h⟩
      · intro h
        exact h.1

/-- One scheduler's part in a round: its command is sent and waited for. -/
def Machine.rounded (cfg : Config) (round : Round) (i : Nat) (step : GpuState × Nat)
    (m : Machine) : Machine :=
  (gpuiovNoWait cfg step.1 step.2 m).waited round i step

theorem bulkRound_machine {p : Plan} (machine : Nat → Machine) (hnodup : p.mask.Nodup) (j : Nat) :
    (bulkRound cfg round p machine).1 j =
      if j ∈ p.mask then (machine j).rounded (cfg j) round j (p.next j) else machine j := by
  unfold bulkRound
  rw [waitLoop_machine (by omega) hnodup]
  unfold sendAll Machine.rounded
  split <;> rfl

theorem bulkRound_waiting {p : Plan} (machine : Nat → Machine) (hnodup : p.mask.Nodup) :
    (p.mask.filter fun i => i ∉ (bulkRound cfg round p machine).2) =
      p.mask.filter fun i => round.completes i := by
  apply List.filter_congr
  intro i hi
  have hwaiting := (@waitLoop_waiting round p.next _ _ (sendAll cfg p.next p.mask machine))
    (Nat.lt_succ_self p.mask.length) hnodup i
  show decide (i ∉ (waitLoop round p.next (p.mask.length + 1) p.mask
    (sendAll cfg p.next p.mask machine)).2) = round.completes i
  simp only [hwaiting, hi, true_and]
  cases round.completes i <;> rfl

end Wait

theorem schedIds_nodup (mask : BitVec 32) : (schedIds mask).Nodup :=
  List.nodup_range.filter _

end MxGpu.Ws
