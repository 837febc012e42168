import MxGpu.WsRounds
import Mathlib.Algebra.BigOperators.Group.List.Basic

/- The bulk path against the manual path run on each scheduler alone. -/
namespace MxGpu.Ws

open Function

section Walk

variable (cfg : Config) (fns : Functions) (targetVf : Nat) (targetState : GpuState)

def Machine.taken (step : GpuState × Nat) (m : Machine) : Machine :=
  (gpuiovNoWait cfg step.1 step.2 m).completed step

/-- At most so many commands of the table, one after the other. -/
def walk : Nat → Machine → Machine
  | 0, m => m
  | turns + 1, m =>
    if m.At targetVf targetState then m
    else
      match getNextState fns targetVf targetState m with
      | none => m
      | some step => walk turns (m.taken cfg step)

/-- What so many rounds take of the budget for one scheduler. -/
def walkCost : Nat → Machine → Nat
  | 0, _ => 0
  | turns + 1, m =>
    if m.At targetVf targetState then 0
    else
      match getNextState fns targetVf targetState m with
      | none => 1
      | some step => 1 + walkCost turns (m.taken cfg step)

def Machine.Stopped (m : Machine) : Prop :=
  m.At targetVf targetState ∨ getNextState fns targetVf targetState m = none

instance (m : Machine) : Decidable (m.Stopped fns targetVf targetState) :=
  inferInstanceAs (Decidable (_ ∨ _))

variable {cfg fns targetVf targetState} {m : Machine} {step : GpuState × Nat}

theorem Machine.Moves.getNextState (h : m.Moves fns targetVf targetState) :
    ∃ step, Ws.getNextState fns targetVf targetState m = some step :=
  Option.isSome_iff_exists.mp h.2

theorem Machine.stopped_iff : m.Stopped fns targetVf targetState ↔
    ¬ m.Moves fns targetVf targetState := by
  unfold Stopped Moves
  by_cases hat : m.At targetVf targetState
  · simp [hat]
  · cases hnext : Ws.getNextState fns targetVf targetState m <;> simp [hat]

theorem walk_stopped (h : m.Stopped fns targetVf targetState) (turns : Nat) :
    walk cfg fns targetVf targetState turns m = m := by
  cases turns with
  | zero => rfl
  | succ turns =>
    unfold walk
    split
    · rfl
    next hat =>
      rw [h.resolve_left hat]

theorem walk_step (hat : ¬ m.At targetVf targetState)
    (hnext : getNextState fns targetVf targetState m = some step) (turns : Nat) :
    walk cfg fns targetVf targetState (turns + 1) m =
      walk cfg fns targetVf targetState turns (m.taken cfg step) := by
  rw [walk, if_neg hat, hnext]

theorem walkCost_at (hat : m.At targetVf targetState) (turns : Nat) :
    walkCost cfg fns targetVf targetState turns m = 0 := by
  cases turns with
  | zero => rfl
  | succ turns => rw [walkCost, if_pos hat]

theorem walkCost_step (hat : ¬ m.At targetVf targetState)
    (hnext : getNextState fns targetVf targetState m = some step) (turns : Nat) :
    walkCost cfg fns targetVf targetState (turns + 1) m =
      1 + walkCost cfg fns targetVf targetState turns (m.taken cfg step) := by
  rw [walkCost, if_neg hat, hnext]

theorem walk_walk (turns more : Nat) (m : Machine) :
    walk cfg fns targetVf targetState (turns + more) m =
      walk cfg fns targetVf targetState more (walk cfg fns targetVf targetState turns m) := by
  induction turns generalizing m with
  | zero => rw [Nat.zero_add, walk]
  | succ turns ih =>
    by_cases hstopped : m.Stopped fns targetVf targetState
    · rw [walk_stopped hstopped, walk_stopped hstopped, walk_stopped hstopped]
    · have hmoves : m.Moves fns targetVf targetState := by
        by_contra hmoves
        exact hstopped (Machine.stopped_iff.mpr hmoves)
      obtain ⟨step, hnext⟩ := hmoves.getNextState
      rw [show turns + 1 + more = (turns + more) + 1 by omega]
      rw [walk_step hmoves.1 hnext, walk_step hmoves.1 hnext]
      exact ih _

theorem walk_eq_of_le {turns more : Nat} (hle : turns ≤ more)
    (h : (walk cfg fns targetVf targetState turns m).Stopped fns targetVf targetState) :
    walk cfg fns targetVf targetState more m = walk cfg fns targetVf targetState turns m := by
  rw [show more = turns + (more - turns) by omega, walk_walk]
  exact walk_stopped h (more - turns)

theorem walk_eq_of_stopped {turns more : Nat}
    (h : (walk cfg fns targetVf targetState turns m).Stopped fns targetVf targetState)
    (h' : (walk cfg fns targetVf targetState more m).Stopped fns targetVf targetState) :
    walk cfg fns targetVf targetState more m = walk cfg fns targetVf targetState turns m := by
  rcases Nat.le_total turns more with hle | hle
  · exact walk_eq_of_le hle h
  · exact (walk_eq_of_le hle h').symm

theorem walkCost_le (turns : Nat) (m : Machine) :
    walkCost cfg fns targetVf targetState turns m ≤ turns := by
  induction turns generalizing m with
  | zero => exact Nat.le_refl 0
  | succ turns ih =>
    unfold walkCost
    split
    · omega
    · split
      · omega
      next step _ =>
        have hrest := ih (m.taken cfg step)
        omega

theorem walkCost_mono {turns more : Nat} (hle : turns ≤ more) (m : Machine) :
    walkCost cfg fns targetVf targetState turns m ≤
      walkCost cfg fns targetVf targetState more m := by
  induction turns generalizing m more with
  | zero => exact Nat.zero_le _
  | succ turns ih =>
    obtain ⟨more, rfl⟩ : ∃ rest, more = rest + 1 := ⟨more - 1, by omega⟩
    unfold walkCost
    split
    · exact Nat.le_refl 0
    · split
      · exact Nat.le_refl 1
      next step _ =>
        have hrest := ih (show turns ≤ more by omega) (m.taken cfg step)
        omega

theorem walkCost_one (m : Machine) :
    walkCost cfg fns targetVf targetState 1 m = roundCost targetVf targetState m := by
  unfold walkCost roundCost
  split
  · rfl
  · split <;> rfl

end Walk

section Manual

variable {cfg : Config} {fns : Functions} {targetVf : Nat} {targetState : GpuState} {m : Machine}

/-- Two machines that agree on all that a request is about. A legacy function-level reset skips
the SHUTDOWN command, and only the bulk path writes the function's state then. -/
structure Machine.Agrees (cfg : Config) (m m' : Machine) : Prop where
  state : m.curGpuState = m'.curGpuState
  vf : m.curVfId = m'.curVfId
  sent : m.sent = m'.sent
  vfState : cfg.useLegacyFlrSequence = false → m.curVfState = m'.curVfState

theorem Machine.Agrees.refl (m : Machine) : m.Agrees cfg m := ⟨rfl, rfl, rfl, fun _ => rfl⟩

theorem getNextState_shutdown {step : GpuState × Nat}
    (h : getNextState fns targetVf targetState m = some step) (hstep : step.1 = .shutdownGpu) :
    targetState = .shutdownGpu ∧ step.2 = targetVf := by
  have hleave : leaveShutdown targetVf targetState m = .shutdownGpu →
      targetState = .shutdownGpu := by
    intro hcmd
    unfold leaveShutdown at hcmd
    split at hcmd
    next hshutdown => exact hshutdown.1
    · split at hcmd <;> cases hcmd
  unfold getNextState at h
  split at h
  · cases h
    cases hstep
  · split at h
    next hshutdown =>
      cases h
      exact hshutdown
    · split at h
      next hshutdown =>
        cases h
        exact ⟨hshutdown.1, rfl⟩
      · cases h
        exact ⟨hleave hstep, rfl⟩
  · cases h
    exact ⟨hleave hstep, rfl⟩
  all_goals
    cases h
    try cases hstep

theorem getNextState_vf {step : GpuState × Nat}
    (h : getNextState fns targetVf targetState m = some step) (htarget : targetVf < maxVfSlot)
    (hcur : m.curVfId < maxVfSlot) : step.2 < maxVfSlot := by
  unfold getNextState at h
  split at h
  · cases h
    exact hcur
  · split at h
    · cases h
      exact hcur
    · split at h <;> cases h <;> exact htarget
  · cases h
    exact htarget
  all_goals
    cases h
    try exact hcur

theorem gpuiovVf_done {cmd : GpuState} {vf : Nat} (hvf : vf < maxVfSlot) (checked : Bool)
    (m : Machine) :
    gpuiovVf cmd vf checked .done m =
      (((m.setCmd cmd vf).exec cmd vf).setVfState cmd vf, true) := by
  have hslot : ¬ maxVfSlot ≤ vf := by omega
  simp [gpuiovVf, Machine.command, hslot]

theorem manualCommand_eq {state cmd : GpuState} {vf target : Nat}
    (h : Follows state vf cmd target) (hcmd : cmd ≠ .shutdownGpu) (outcome : Outcome)
    (m : Machine) :
    ∃ checked, (manualCommand cfg cmd target outcome m).1 =
      gpuiovVf cmd target checked outcome m := by
  cases h with
  | save => exact ⟨false, rfl⟩
  | run => exact ⟨false, rfl⟩
  | idle => exact ⟨true, rfl⟩
  | leave _ _ _ hleave =>
    rcases hleave with h | h | h <;> subst h
    · exact ⟨true, rfl⟩
    · exact ⟨false, rfl⟩
    · exact absurd rfl hcmd

theorem manualCommand_taken {step : GpuState × Nat}
    (h : getNextState fns targetVf targetState m = some step) (hvf : step.2 < maxVfSlot)
    (hstep : step.1 ≠ .shutdownGpu) :
    (manualCommand cfg step.1 step.2 .done m).1.2 = true ∧
      (manualCommand cfg step.1 step.2 .done m).1.1.moved step.1 step.2 = m.taken cfg step := by
  obtain ⟨checked, heq⟩ := (@manualCommand_eq cfg) (getNextState_follows h) hstep .done m
  rw [heq, gpuiovVf_done hvf]
  have hsent : gpuiovNoWait cfg step.1 step.2 m = m.setCmd step.1 step.2 := by
    unfold gpuiovNoWait
    rw [if_neg (fun h => hstep h.1)]
  unfold Machine.taken
  rw [hsent]
  exact ⟨rfl, rfl⟩

theorem manualCommand_shutdown {vf : Nat} (hvf : vf < maxVfSlot) (m : Machine) :
    (manualCommand cfg .shutdownGpu vf .done m).1.2 = true ∧
      (m.taken cfg (.shutdownGpu, vf)).Agrees cfg
        ((manualCommand cfg .shutdownGpu vf .done m).1.1.moved .shutdownGpu vf) := by
  show (gpuiovShutdownVf cfg vf .done m).2 = true ∧ Machine.Agrees cfg
    ((gpuiovNoWait cfg .shutdownGpu vf m).completed (.shutdownGpu, vf))
    ((gpuiovShutdownVf cfg vf .done m).1.moved .shutdownGpu vf)
  unfold gpuiovShutdownVf gpuiovNoWait
  cases hlegacy : cfg.useLegacyFlrSequence <;> cases hcmd : cfg.shutdownCmd
  · exact ⟨rfl, rfl, rfl, rfl, fun _ => rfl⟩
  · have hdone := (@gpuiovVf_done .shutdownGpu) hvf false m
    simp only [Bool.false_eq_true, if_false, if_true, hdone, not_true_eq_false, or_false, and_false]
    exact ⟨trivial, rfl, rfl, rfl, fun _ => rfl⟩
  · refine ⟨rfl, rfl, rfl, rfl, ?_⟩
    intro h
    rw [hlegacy] at h
    cases h
  · refine ⟨rfl, rfl, rfl, rfl, ?_⟩
    intro h
    rw [hlegacy] at h
    cases h

theorem manualLoop_at (hat : m.At targetVf targetState) (answers : Nat → Outcome)
    (loopOkay : Nat) :
    manualLoop cfg fns targetVf targetState answers loopOkay m = (m, .ok) := by
  cases loopOkay <;> rw [manualLoop, if_pos hat]

theorem manualLoop_step {step : GpuState × Nat} {answers : Nat → Outcome} {loopOkay : Nat}
    (hat : ¬ m.At targetVf targetState)
    (hnext : getNextState fns targetVf targetState m = some step)
    (hdone : (manualCommand cfg step.1 step.2 (answers loopOkay) m).1.2 = true) :
    manualLoop cfg fns targetVf targetState answers (loopOkay + 1) m =
      manualLoop cfg fns targetVf targetState answers loopOkay
        ((manualCommand cfg step.1 step.2 (answers loopOkay) m).1.1.moved step.1 step.2) := by
  rw [manualLoop, if_neg hat, hnext]
  exact if_pos hdone

theorem manualLoop_walk (loopOkay : Nat) (htarget : targetVf < maxVfSlot)
    (hcur : m.curVfId < maxVfSlot) :
    (walk cfg fns targetVf targetState loopOkay m).Agrees cfg
      (manualLoop cfg fns targetVf targetState (fun _ => .done) loopOkay m).1 := by
  induction loopOkay generalizing m with
  | zero =>
    unfold manualLoop
    split <;> exact .refl m
  | succ loopOkay ih =>
    by_cases hat : m.At targetVf targetState
    · rw [manualLoop_at hat, walk_stopped (.inl hat)]
      exact .refl m
    · cases hnext : getNextState fns targetVf targetState m with
      | none =>
        rw [walk_stopped (.inr hnext), manualLoop, if_neg hat, hnext]
        exact .refl m
      | some step =>
        have hvf := getNextState_vf hnext htarget hcur
        rw [walk_step hat hnext]
        by_cases hstep : step.1 = .shutdownGpu
        · obtain ⟨hstate, htargetVf⟩ := getNextState_shutdown hnext hstep
          obtain ⟨cmd, vf⟩ := step
          subst hstep
          obtain ⟨hdone, hagrees⟩ := (@manualCommand_shutdown cfg) hvf m
          rw [manualLoop_step hat hnext hdone]
          have hleft : ((manualCommand cfg .shutdownGpu vf .done m).1.1.moved .shutdownGpu vf).At
              targetVf targetState := ⟨hstate.symm, htargetVf⟩
          have htaken : (m.taken cfg (.shutdownGpu, vf)).At targetVf targetState :=
            ⟨hstate.symm, htargetVf⟩
          rw [manualLoop_at hleft, walk_stopped (.inl htaken)]
          exact hagrees
        · obtain ⟨hdone, htaken⟩ := (@manualCommand_taken cfg) hnext hvf hstep
          rw [manualLoop_step hat hnext hdone, htaken]
          exact ih hvf

theorem walk_sent (turns : Nat) (m : Machine) :
    m.sent.length ≤ (walk cfg fns targetVf targetState turns m).sent.length := by
  induction turns generalizing m with
  | zero => exact Nat.le_refl _
  | succ turns ih =>
    unfold walk
    split
    · exact Nat.le_refl _
    · split
      · exact Nat.le_refl _
      next step _ =>
        apply Nat.le_trans _ (ih _)
        show m.sent.length ≤ (gpuiovNoWait cfg step.1 step.2 m).sent.length
        unfold gpuiovNoWait
        split
        · exact Nat.le_refl _
        · simp [Machine.setCmd]

theorem walk_further {turns : Nat} (hmoves : m.Moves fns targetVf targetState) (hturns : 0 < turns) :
    (walk cfg fns targetVf targetState turns m).At targetVf targetState ∨
      m.sent.length < (walk cfg fns targetVf targetState turns m).sent.length := by
  obtain ⟨turns, rfl⟩ : ∃ rest, turns = rest + 1 := ⟨turns - 1, by omega⟩
  obtain ⟨step, hnext⟩ := hmoves.getNextState
  rw [walk_step hmoves.1 hnext]
  by_cases hstep : step.1 = .shutdownGpu
  · left
    obtain ⟨hstate, htarget⟩ := getNextState_shutdown hnext hstep
    have htaken : (m.taken cfg step).At targetVf targetState := by
      refine ⟨?_, htarget⟩
      show step.1 = targetState
      rw [hstep, hstate]
    rw [walk_stopped (.inl htaken)]
    exact htaken
  · right
    have hlater := (@walk_sent cfg fns targetVf targetState) turns (m.taken cfg step)
    have hsent : (m.taken cfg step).sent.length = m.sent.length + 1 := by
      show (gpuiovNoWait cfg step.1 step.2 m).sent.length = _
      unfold gpuiovNoWait
      rw [if_neg (fun h => hstep h.1)]
      simp [Machine.setCmd]
    omega

end Manual

section Rounds

variable {cfg : Nat → Config} {fns : Functions} {targetVf : Nat} {targetState : GpuState}
  {rounds : Nat → Round} {machine : Nat → Machine} {mask : List Nat}

def Machine.advanced (cfg : Config) (fns : Functions) (targetVf : Nat) (targetState : GpuState)
    (m : Machine) : Machine :=
  match getNextState fns targetVf targetState m with
  | none => m
  | some step => m.taken cfg step

theorem walk_advanced {cfg : Config} {m : Machine} (h : m.Moves fns targetVf targetState)
    (turns : Nat) :
    walk cfg fns targetVf targetState (turns + 1) m =
      walk cfg fns targetVf targetState turns (m.advanced cfg fns targetVf targetState) := by
  obtain ⟨step, hnext⟩ := h.getNextState
  unfold Machine.advanced
  rw [hnext]
  exact walk_step h.1 hnext turns

/-- What so many rounds take of the budget for a list of schedulers. -/
def bulkCost (cfg : Nat → Config) (fns : Functions) (targetVf : Nat) (targetState : GpuState)
    (turns : Nat) (machine : Nat → Machine) (mask : List Nat) : Nat :=
  (mask.map fun i => walkCost (cfg i) fns targetVf targetState turns (machine i)).sum

theorem bulkCost_cons (turns i : Nat) :
    bulkCost cfg fns targetVf targetState turns machine (i :: mask) =
      walkCost (cfg i) fns targetVf targetState turns (machine i) +
        bulkCost cfg fns targetVf targetState turns machine mask := rfl

theorem bulkCost_one :
    bulkCost cfg fns targetVf targetState 1 machine mask =
      maskCost targetVf targetState machine mask := by
  unfold bulkCost maskCost
  congr 1
  apply List.map_congr_left
  intro i _
  exact walkCost_one (machine i)

theorem bulkCost_zero : bulkCost cfg fns targetVf targetState 0 machine mask = 0 := by
  induction mask with
  | nil => rfl
  | cons i rest ih => rw [bulkCost_cons, ih, walkCost]

theorem bulkCost_mono {turns more : Nat} (hle : turns ≤ more) :
    bulkCost cfg fns targetVf targetState turns machine mask ≤
      bulkCost cfg fns targetVf targetState more machine mask := by
  induction mask with
  | nil => exact Nat.le_refl _
  | cons i rest ih =>
    rw [bulkCost_cons, bulkCost_cons]
    have hfirst := (@walkCost_mono (cfg i) fns targetVf targetState) hle (machine i)
    omega

theorem bulkCost_le (turns : Nat) :
    bulkCost cfg fns targetVf targetState turns machine mask ≤ turns * mask.length := by
  induction mask with
  | nil => exact Nat.zero_le _
  | cons i rest ih =>
    rw [bulkCost_cons, List.length_cons, Nat.mul_add, Nat.mul_one]
    have hfirst := (@walkCost_le (cfg i) fns targetVf targetState) turns (machine i)
    omega

theorem bulkCost_filter_le (turns : Nat) (keep : Nat → Bool) :
    bulkCost cfg fns targetVf targetState turns machine (mask.filter keep) ≤
      bulkCost cfg fns targetVf targetState turns machine mask := by
  induction mask with
  | nil => exact Nat.le_refl _
  | cons i rest ih =>
    rw [List.filter_cons, bulkCost_cons]
    split
    · rw [bulkCost_cons]
      omega
    · omega

theorem bulkCost_congr {turns : Nat} {machine' : Nat → Machine}
    (h : ∀ i ∈ mask, machine i = machine' i) :
    bulkCost cfg fns targetVf targetState turns machine mask =
      bulkCost cfg fns targetVf targetState turns machine' mask := by
  unfold bulkCost
  congr 1
  apply List.map_congr_left
  intro i hi
  rw [h i hi]

theorem bulkCost_succ (turns : Nat) :
    bulkCost cfg fns targetVf targetState (turns + 1) machine mask =
      maskCost targetVf targetState machine mask +
        bulkCost cfg fns targetVf targetState turns
          (fun i => (machine i).advanced (cfg i) fns targetVf targetState)
          (mask.filter fun i => (machine i).Moves fns targetVf targetState) := by
  induction mask with
  | nil => rfl
  | cons i rest ih =>
    rw [bulkCost_cons, maskCost_cons, ih, List.filter_cons]
    unfold roundCost
    by_cases hat : (machine i).At targetVf targetState
    · rw [walkCost_at hat, if_pos hat, if_neg (by simp [Machine.Moves, hat])]
      omega
    · cases hnext : getNextState fns targetVf targetState (machine i) with
      | none =>
        rw [walkCost, if_neg hat, hnext, if_neg hat, if_neg (by simp [Machine.Moves, hnext])]
        show 1 + _ = _
        omega
      | some step =>
        rw [walkCost_step hat hnext, if_neg hat, if_pos (by simp [Machine.Moves, hat, hnext])]
        rw [bulkCost_cons]
        have hadvanced : (machine i).advanced (cfg i) fns targetVf targetState =
            (machine i).taken (cfg i) step := by
          unfold Machine.advanced
          rw [hnext]
        rw [hadvanced]
        omega

/-- What one round can do. It stops short of the budget and changes nothing; or every scheduler
whose command completes goes one further, the others that had a command leave the mask, and the
schedulers without a command stay as they are. -/
theorem bulkLoop_cases (cfg : Nat → Config) (rounds : Nat → Round) (turn loopOkay : Nat)
    (bad : List Nat) (hnodup : mask.Nodup) :
    (loopOkay < maskCost targetVf targetState machine mask ∧
      (bulkLoop cfg fns targetVf targetState rounds (turn + 1) loopOkay mask bad machine).1 =
        machine) ∨
    ∃ left after bad',
      left + maskCost targetVf targetState machine mask = loopOkay ∧
      (∀ i ∈ mask.filter (fun i => (machine i).Moves fns targetVf targetState),
        (rounds turn).completes i = true →
          after i = (machine i).advanced (cfg i) fns targetVf targetState) ∧
      (∀ i ∉ mask.filter (fun i => (machine i).Moves fns targetVf targetState),
        after i = machine i) ∧
      (bulkLoop cfg fns targetVf targetState rounds (turn + 1) loopOkay mask bad machine).1 =
        if (mask.filter fun i => (machine i).Moves fns targetVf targetState).filter
            (rounds turn).completes = [] then after
        else (bulkLoop cfg fns targetVf targetState rounds turn left
          ((mask.filter fun i => (machine i).Moves fns targetVf targetState).filter
            (rounds turn).completes) bad' after).1 := by
  by_cases hintime :
      (planRound fns targetVf targetState machine mask loopOkay).inTime = true
  · right
    have hmask := planRound_mask hintime
    have hkept : (planRound fns targetVf targetState machine mask loopOkay).mask.Nodup := by
      rw [hmask]
      exact hnodup.filter _
    have hround := (@bulkRound_machine cfg (rounds turn)) machine hkept
    have hwaiting := (@bulkRound_waiting cfg (rounds turn)) machine hkept
    refine ⟨_, (bulkRound cfg (rounds turn)
      (planRound fns targetVf targetState machine mask loopOkay) machine).1,
      bad ++ (planRound fns targetVf targetState machine mask loopOkay).bad ++
        (bulkRound cfg (rounds turn)
          (planRound fns targetVf targetState machine mask loopOkay) machine).2,
      planRound_loopOkay hintime, ?_, ?_, ?_⟩
    · intro i hi hcompletes
      rw [← hmask] at hi
      rw [hround, if_pos hi]
      unfold Machine.advanced Machine.rounded Machine.waited
      rw [planRound_next hintime hnodup hi, if_pos hcompletes]
      rfl
    · intro i hi
      rw [← hmask] at hi
      rw [hround, if_neg hi]
    · rw [bulkLoop]
      dsimp only
      rw [if_pos hintime, hwaiting, hmask]
      split <;> rfl
  · left
    refine ⟨?_, ?_⟩
    · rw [planRound_inTime] at hintime
      omega
    · rw [bulkLoop]
      dsimp only
      rw [if_neg hintime]

theorem bulkLoop_outside (rounds : Nat → Round) (turn loopOkay : Nat) (bad : List Nat)
    (hnodup : mask.Nodup) {i : Nat} (hi : i ∉ mask) :
    (bulkLoop cfg fns targetVf targetState rounds turn loopOkay mask bad machine).1 i =
      machine i := by
  induction turn generalizing loopOkay mask bad machine with
  | zero => rfl
  | succ turn ih =>
    have hout : i ∉ mask.filter fun i => (machine i).Moves fns targetVf targetState :=
      fun h => hi (List.mem_of_mem_filter h)
    rcases bulkLoop_cases cfg rounds turn loopOkay bad hnodup with
      ⟨_, hsame⟩ | ⟨left, after, bad', _, _, hafter, hresult⟩
    · rw [hsame]
    · rw [hresult]
      split
      · exact hafter i hout
      · rw [ih left bad' ((hnodup.filter _).filter _) (fun h => hout (List.mem_of_mem_filter h))]
        exact hafter i hout

theorem maskCost_pos {i : Nat} (hi : i ∈ mask) (hat : ¬ (machine i).At targetVf targetState) :
    0 < maskCost targetVf targetState machine mask := by
  induction mask with
  | nil => cases hi
  | cons j rest ih =>
    rw [maskCost_cons]
    rcases List.mem_cons.mp hi with heq | hi
    · subst heq
      unfold roundCost
      rw [if_neg hat]
      omega
    · have hrest := ih hi
      omega

theorem stopped_of_not_mem {i : Nat} (hi : i ∈ mask)
    (hout : i ∉ mask.filter fun i => (machine i).Moves fns targetVf targetState) :
    (machine i).Stopped fns targetVf targetState := by
  rw [Machine.stopped_iff]
  intro hmoves
  exact hout (List.mem_filter.mpr ⟨hi, decide_eq_true hmoves⟩)

theorem bulkLoop_walk (hall : ∀ t i, (rounds t).completes i = true) {turn loopOkay : Nat}
    (bad : List Nat) (hturn : loopOkay < turn) (hnodup : mask.Nodup) :
    ∃ turns,
      (∀ i ∈ mask,
        (bulkLoop cfg fns targetVf targetState rounds turn loopOkay mask bad machine).1 i =
          walk (cfg i) fns targetVf targetState turns (machine i)) ∧
      bulkCost cfg fns targetVf targetState turns machine mask ≤ loopOkay ∧
      (loopOkay < bulkCost cfg fns targetVf targetState (turns + 1) machine mask ∨
        ∀ i ∈ mask, (walk (cfg i) fns targetVf targetState turns (machine i)).Stopped fns targetVf
          targetState) := by
  induction turn generalizing loopOkay mask bad machine with
  | zero => omega
  | succ turn ih =>
    rcases bulkLoop_cases cfg rounds turn loopOkay bad hnodup with
      ⟨hshort, hsame⟩ | ⟨left, after, bad', hleft, hmoved, hrest, hresult⟩
    · refine ⟨0, ?_, ?_, ?_⟩
      · intro i _
        rw [hsame]
        rfl
      · rw [bulkCost_zero]
        exact Nat.zero_le _
      · rw [Nat.zero_add, bulkCost_one]
        exact .inl hshort
    · have hfilter : ∀ l : List Nat, l.filter (rounds turn).completes = l := by
        intro l
        exact List.filter_eq_self.mpr (fun i _ => hall turn i)
      rw [hfilter] at hresult
      by_cases hempty : (mask.filter fun i => (machine i).Moves fns targetVf targetState) = []
      · have hstopped : ∀ i ∈ mask, (machine i).Stopped fns targetVf targetState := by
          intro i hi
          apply stopped_of_not_mem hi
          rw [hempty]
          exact List.not_mem_nil
        refine ⟨1, ?_, ?_, .inr ?_⟩
        · intro i hi
          rw [hresult, if_pos hempty, walk_stopped (hstopped i hi)]
          apply hrest
          rw [hempty]
          exact List.not_mem_nil
        · rw [bulkCost_one]
          omega
        · intro i hi
          rw [walk_stopped (hstopped i hi)]
          exact hstopped i hi
      · rw [if_neg hempty] at hresult
        have hpositive : 0 < maskCost targetVf targetState machine mask := by
          obtain ⟨i, hi⟩ := List.exists_mem_of_ne_nil _ hempty
          obtain ⟨hmem, hmoves⟩ := List.mem_filter.mp hi
          exact maskCost_pos hmem (of_decide_eq_true hmoves).1
        have hafter : ∀ i ∈ mask.filter (fun i => (machine i).Moves fns targetVf targetState),
            after i = (machine i).advanced (cfg i) fns targetVf targetState := by
          intro i hi
          exact hmoved i hi (hall turn i)
        obtain ⟨turns, hwalk, hcost, hend⟩ :=
          ih bad' (show left < _ by omega)
            (hnodup.filter fun i => (machine i).Moves fns targetVf targetState)
        have hcosts : ∀ turns, bulkCost cfg fns targetVf targetState (turns + 1) machine mask =
            maskCost targetVf targetState machine mask +
              bulkCost cfg fns targetVf targetState turns after
                (mask.filter fun i => (machine i).Moves fns targetVf targetState) := by
          intro turns
          rw [bulkCost_succ, bulkCost_congr hafter]
        refine ⟨turns + 1, ?_, ?_, ?_⟩
        · intro i hi
          rw [hresult]
          by_cases hmem : i ∈ mask.filter fun i => (machine i).Moves fns targetVf targetState
          · have hmoves := of_decide_eq_true (List.mem_filter.mp hmem).2
            rw [hwalk i hmem, hafter i hmem, walk_advanced hmoves]
          · rw [bulkLoop_outside rounds turn left bad' (hnodup.filter _) hmem, hrest i hmem,
              walk_stopped (stopped_of_not_mem hi hmem)]
        · rw [hcosts]
          omega
        · rw [hcosts]
          rcases hend with hend | hend
          · left
            omega
          · right
            intro i hi
            by_cases hmem : i ∈ mask.filter fun i => (machine i).Moves fns targetVf targetState
            · have hmoves := of_decide_eq_true (List.mem_filter.mp hmem).2
              rw [walk_advanced hmoves, ← hafter i hmem]
              exact hend i hmem
            · rw [walk_stopped (stopped_of_not_mem hi hmem)]
              exact stopped_of_not_mem hi hmem

/-- A scheduler whose own commands complete goes on whatever becomes of the others: as many
commands as the budget would last for all of them together. -/
theorem bulkLoop_progress {turn loopOkay turns i : Nat} (bad : List Nat)
    (hcompletes : ∀ t, (rounds t).completes i = true) (hturn : loopOkay < turn)
    (hnodup : mask.Nodup) (hi : i ∈ mask)
    (hcost : bulkCost cfg fns targetVf targetState turns machine mask ≤ loopOkay) :
    ∃ done,
      (bulkLoop cfg fns targetVf targetState rounds turn loopOkay mask bad machine).1 i =
        walk (cfg i) fns targetVf targetState done (machine i) ∧
      (turns ≤ done ∨
        (walk (cfg i) fns targetVf targetState done (machine i)).Stopped fns targetVf
          targetState) := by
  induction turn generalizing loopOkay mask bad machine turns with
  | zero => omega
  | succ turn ih =>
    rcases bulkLoop_cases cfg rounds turn loopOkay bad hnodup with
      ⟨hshort, hsame⟩ | ⟨left, after, bad', hleft, hmoved, hrest, hresult⟩
    · refine ⟨0, by rw [hsame]; rfl, .inl ?_⟩
      by_contra hturns
      have hmono := (@bulkCost_mono cfg fns targetVf targetState machine mask)
        (show 1 ≤ turns by omega)
      rw [bulkCost_one] at hmono
      omega
    · by_cases hmem : i ∈ mask.filter fun i => (machine i).Moves fns targetVf targetState
      · have hkept : i ∈ (mask.filter fun i => (machine i).Moves fns targetVf targetState).filter
            (rounds turn).completes := List.mem_filter.mpr ⟨hmem, hcompletes turn⟩
        have hmoves := of_decide_eq_true (List.mem_filter.mp hmem).2
        rw [if_neg (List.ne_nil_of_mem hkept)] at hresult
        have hpositive := maskCost_pos (List.mem_of_mem_filter hmem) hmoves.1
        have hafter : bulkCost cfg fns targetVf targetState (turns - 1) after
            ((mask.filter fun i => (machine i).Moves fns targetVf targetState).filter
              (rounds turn).completes) ≤ left := by
          cases turns with
          | zero =>
            rw [bulkCost_zero]
            exact Nat.zero_le _
          | succ turns =>
            rw [bulkCost_succ] at hcost
            rw [(@bulkCost_congr _ _ _ _ _ _ _
              (fun i => (machine i).advanced (cfg i) fns targetVf targetState))]
            · have hfilter := (@bulkCost_filter_le cfg fns targetVf targetState
                (fun i => (machine i).advanced (cfg i) fns targetVf targetState)
                (mask.filter fun i => (machine i).Moves fns targetVf targetState))
                turns (rounds turn).completes
              rw [Nat.add_sub_cancel]
              omega
            · intro j hj
              exact hmoved j (List.mem_of_mem_filter hj) (List.mem_filter.mp hj).2
        obtain ⟨done, hwalk, hend⟩ := ih bad' (by omega) ((hnodup.filter _).filter _) hkept hafter
        rw [hmoved i hmem (hcompletes turn)] at hwalk hend
        refine ⟨done + 1, ?_, ?_⟩
        · rw [hresult, hwalk, walk_advanced hmoves]
        · rw [walk_advanced hmoves]
          rcases hend with hend | hend
          · left
            omega
          · right
            exact hend
      · have hstopped := stopped_of_not_mem hi hmem
        refine ⟨0, ?_, .inr hstopped⟩
        rw [hresult]
        split
        · exact hrest i hmem
        · rw [bulkLoop_outside rounds turn left bad' ((hnodup.filter _).filter _)
            (fun h => hmem (List.mem_of_mem_filter h))]
          exact hrest i hmem

end Rounds

section Locks

variable {mask : List Nat} {wsLock : Nat → Bool}

theorem tryLocks_free (hnodup : mask.Nodup) (hfree : ∀ i ∈ mask, wsLock i = false) :
    tryLocks mask wsLock = (fun i => if i ∈ mask then true else wsLock i, true) := by
  induction mask generalizing wsLock with
  | nil => simp [tryLocks]
  | cons j rest ih =>
    obtain ⟨hj, hrest⟩ := List.nodup_cons.mp hnodup
    have hnext : ∀ i ∈ rest, update wsLock j true i = false := by
      intro i hi
      rw [update_of_ne (ne_of_mem_of_not_mem hi hj)]
      exact hfree i (List.mem_cons_of_mem j hi)
    rw [tryLocks, hfree j List.mem_cons_self, ih hrest hnext]
    simp only [Bool.false_eq_true, if_false, Prod.mk.injEq, and_true]
    funext i
    by_cases hi : i = j
    · subst hi
      simp
    · rw [update_of_ne hi]
      simp [hi]

theorem tryLocks_held {i : Nat} (hi : i ∈ mask) (hheld : wsLock i = true) :
    (tryLocks mask wsLock).2 = false := by
  induction mask generalizing wsLock with
  | nil => cases hi
  | cons j rest ih =>
    unfold tryLocks
    split
    · rfl
    next hj =>
      have hne : i ≠ j := by
        intro heq
        rw [← heq] at hj
        exact hj hheld
      apply ih ((List.mem_cons.mp hi).resolve_left hne)
      rw [update_of_ne hne]
      exact hheld

theorem tryLocks_keeps {i : Nat} (hheld : wsLock i = true) : (tryLocks mask wsLock).1 i = true := by
  induction mask generalizing wsLock with
  | nil => exact hheld
  | cons j rest ih =>
    unfold tryLocks
    split
    · exact hheld
    · apply ih
      by_cases hne : i = j
      · rw [hne, update_self]
      · rw [update_of_ne hne]
        exact hheld

/-- No lock of the mask is held, or the first one that is tried is. -/
def LocksInOrder (mask : List Nat) (wsLock : Nat → Bool) : Prop :=
  (∀ i ∈ mask, wsLock i = false) ∨ ∃ first rest, mask = first :: rest ∧ wsLock first = true

end Locks

section Agreement

variable (cfg : Nat → Config) (fns : Functions) (targetVf : Nat) (targetState : GpuState)
  (hwSchedMask : BitVec 32) (a : Adapter)

/-- The bulk path does what the manual path does on each scheduler of the mask alone. -/
structure BulkAgrees : Prop where
  /-- when no command fails -/
  same : (∀ i ∈ schedIds hwSchedMask, a.wsLock i = false) →
    ∀ rounds : Nat → Round, (∀ t i, (rounds t).completes i = true) →
      ∀ i ∈ schedIds hwSchedMask,
        ((bulkGotoStateManual cfg fns targetVf targetState hwSchedMask rounds a).1.machine i).Agrees
          (cfg i)
          (gotoStateManual (cfg i) fns targetVf targetState (fun _ => .done) (a.machine i)).1
  outside : ∀ rounds : Nat → Round, ∀ i ∉ schedIds hwSchedMask,
    (bulkGotoStateManual cfg fns targetVf targetState hwSchedMask rounds a).1.machine i =
      a.machine i
  /-- commands of other schedulers may fail -/
  others : (∀ i ∈ schedIds hwSchedMask, a.wsLock i = false) →
    ∀ rounds : Nat → Round, ∀ i ∈ schedIds hwSchedMask, (∀ t, (rounds t).completes i = true) →
      (gotoStateManual (cfg i) fns targetVf targetState (fun _ => .done) (a.machine i)).1.At
        targetVf targetState →
      ((bulkGotoStateManual cfg fns targetVf targetState hwSchedMask rounds a).1.machine i).At
        targetVf targetState
  locks : ∀ rounds : Nat → Round,
    (bulkGotoStateManual cfg fns targetVf targetState hwSchedMask rounds a).1.wsLock = a.wsLock

/-- Every scheduler of the mask comes to the target, or cannot start, within the commands one
manual request has; or the shared budget ends with exactly as many rounds. -/
def Balanced : Prop :=
  (∀ i ∈ schedIds hwSchedMask,
    (walk (cfg i) fns targetVf targetState 20 (a.machine i)).Stopped fns targetVf targetState) ∨
  20 * a.numCtrlBlocks < bulkCost cfg fns targetVf targetState 21 a.machine (schedIds hwSchedMask)

variable {cfg fns targetVf targetState hwSchedMask a}

def Round.prompt : Round where
  completes := fun _ => true
  first := List.head?
  late := fun _ => false
  first_mem := by
    intro waiting i h
    exact ⟨List.mem_of_mem_head? h, rfl⟩
  first_none := by
    intro waiting h i hi
    rw [List.head?_eq_none_iff.mp h] at hi
    cases hi

theorem bulkGotoStateManual_free (rounds : Nat → Round)
    (hfree : ∀ i ∈ schedIds hwSchedMask, a.wsLock i = false) :
    (bulkGotoStateManual cfg fns targetVf targetState hwSchedMask rounds a).1.machine =
        (bulkLoop cfg fns targetVf targetState rounds (20 * a.numCtrlBlocks + 1)
          (20 * a.numCtrlBlocks) (schedIds hwSchedMask) [] a.machine).1 ∧
      (bulkGotoStateManual cfg fns targetVf targetState hwSchedMask rounds a).1.wsLock =
        a.wsLock := by
  unfold bulkGotoStateManual
  dsimp only
  rw [tryLocks_free (schedIds_nodup hwSchedMask) hfree]
  refine ⟨rfl, ?_⟩
  show (fun i => if i ∈ schedIds hwSchedMask then false else
    if i ∈ schedIds hwSchedMask then true else a.wsLock i) = a.wsLock
  funext i
  split
  next hi => exact (hfree i hi).symm
  next hi => rfl

theorem bulkGotoStateManual_held (rounds : Nat → Round) {i : Nat}
    (hi : i ∈ schedIds hwSchedMask) (hheld : a.wsLock i = true) :
    bulkGotoStateManual cfg fns targetVf targetState hwSchedMask rounds a =
      ({ a with wsLock := (tryLocks (schedIds hwSchedMask) a.wsLock).1 }, .reentrantError) := by
  unfold bulkGotoStateManual
  dsimp only
  rw [tryLocks_held hi hheld]
  rfl

theorem twenty_rounds_fit (hblocks : ∀ i ∈ schedIds hwSchedMask, i < a.numCtrlBlocks) :
    bulkCost cfg fns targetVf targetState 20 a.machine (schedIds hwSchedMask) ≤
      20 * a.numCtrlBlocks := by
  have hsub : schedIds hwSchedMask ⊆ List.range a.numCtrlBlocks :=
    fun i hi => List.mem_range.mpr (hblocks i hi)
  have hlength := (List.subperm_of_subset (schedIds_nodup hwSchedMask) hsub).length_le
  rw [List.length_range] at hlength
  have hcost := (@bulkCost_le cfg fns targetVf targetState a.machine (schedIds hwSchedMask)) 20
  omega

theorem rounds_cases {turns : Nat}
    (hblocks : ∀ i ∈ schedIds hwSchedMask, i < a.numCtrlBlocks)
    (hcost : bulkCost cfg fns targetVf targetState turns a.machine (schedIds hwSchedMask) ≤
      20 * a.numCtrlBlocks)
    (hend : 20 * a.numCtrlBlocks <
        bulkCost cfg fns targetVf targetState (turns + 1) a.machine (schedIds hwSchedMask) ∨
      ∀ i ∈ schedIds hwSchedMask,
        (walk (cfg i) fns targetVf targetState turns (a.machine i)).Stopped fns targetVf
          targetState) :
    (turns ≤ 20 ∧ ∀ i ∈ schedIds hwSchedMask,
        (walk (cfg i) fns targetVf targetState turns (a.machine i)).Stopped fns targetVf
          targetState) ∨
      turns = 20 ∨
      20 < turns ∧ ¬ 20 * a.numCtrlBlocks <
        bulkCost cfg fns targetVf targetState 21 a.machine (schedIds hwSchedMask) := by
  rcases Nat.lt_trichotomy turns 20 with hlt | heq | hgt
  · rcases hend with hend | hend
    · have hmono := (@bulkCost_mono cfg fns targetVf targetState a.machine (schedIds hwSchedMask))
        (show turns + 1 ≤ 20 by omega)
      have hfit := (@twenty_rounds_fit cfg fns targetVf targetState) hblocks
      omega
    · exact .inl ⟨by omega, hend⟩
  · exact .inr (.inl heq)
  · have hmono := (@bulkCost_mono cfg fns targetVf targetState a.machine (schedIds hwSchedMask))
      (show 21 ≤ turns by omega)
    exact .inr (.inr ⟨hgt, by omega⟩)

theorem Balanced.same (hbalanced : Balanced cfg fns targetVf targetState hwSchedMask a)
    (hblocks : ∀ i ∈ schedIds hwSchedMask, i < a.numCtrlBlocks) (htarget : targetVf < maxVfSlot)
    (hcur : ∀ i ∈ schedIds hwSchedMask, (a.machine i).curVfId < maxVfSlot)
    (hfree : ∀ i ∈ schedIds hwSchedMask, a.wsLock i = false) (rounds : Nat → Round)
    (hall : ∀ t i, (rounds t).completes i = true) {i : Nat} (hi : i ∈ schedIds hwSchedMask) :
    ((bulkGotoStateManual cfg fns targetVf targetState hwSchedMask rounds a).1.machine i).Agrees
      (cfg i) (gotoStateManual (cfg i) fns targetVf targetState (fun _ => .done) (a.machine i)).1 := by
  obtain ⟨turns, hwalk, hcost, hend⟩ :=
    (@bulkLoop_walk cfg fns targetVf targetState _ a.machine) hall []
    (Nat.lt_succ_self (20 * a.numCtrlBlocks)) (schedIds_nodup hwSchedMask)
  have hmanual := (@manualLoop_walk (cfg i) fns _ targetState) 20
    htarget (hcur i hi)
  have htwenty : walk (cfg i) fns targetVf targetState turns (a.machine i) =
      walk (cfg i) fns targetVf targetState 20 (a.machine i) := by
    rcases rounds_cases hblocks hcost hend with ⟨hle, hstopped⟩ | heq | ⟨hgt, hcheap⟩
    · exact (walk_eq_of_le hle (hstopped i hi)).symm
    · rw [heq]
    · exact walk_eq_of_le (by omega) (hbalanced.resolve_right hcheap i hi)
  rw [(bulkGotoStateManual_free rounds hfree).1, hwalk i hi, htwenty]
  exact hmanual

theorem others_arrive (hblocks : ∀ i ∈ schedIds hwSchedMask, i < a.numCtrlBlocks)
    (htarget : targetVf < maxVfSlot)
    (hcur : ∀ i ∈ schedIds hwSchedMask, (a.machine i).curVfId < maxVfSlot)
    (hfree : ∀ i ∈ schedIds hwSchedMask, a.wsLock i = false) (rounds : Nat → Round) {i : Nat}
    (hi : i ∈ schedIds hwSchedMask) (hcompletes : ∀ t, (rounds t).completes i = true)
    (harrives :
      (gotoStateManual (cfg i) fns targetVf targetState (fun _ => .done) (a.machine i)).1.At
        targetVf targetState) :
    ((bulkGotoStateManual cfg fns targetVf targetState hwSchedMask rounds a).1.machine i).At
      targetVf targetState := by
  have hmanual := (@manualLoop_walk (cfg i) fns _ targetState) 20
    htarget (hcur i hi)
  have hat : (walk (cfg i) fns targetVf targetState 20 (a.machine i)).At targetVf targetState :=
    ⟨hmanual.state.trans harrives.1, hmanual.vf.trans harrives.2⟩
  obtain ⟨done, hwalk, hend⟩ := (@bulkLoop_progress cfg) [] hcompletes
    (Nat.lt_succ_self (20 * a.numCtrlBlocks)) (schedIds_nodup hwSchedMask) hi
    ((@twenty_rounds_fit cfg fns targetVf targetState) hblocks)
  rw [(bulkGotoStateManual_free rounds hfree).1, hwalk]
  rcases hend with hend | hend
  · rw [walk_eq_of_le hend (.inl hat)]
    exact hat
  · rw [walk_eq_of_stopped (.inl hat) hend]
    exact hat

theorem balanced_of_same (hagrees : BulkAgrees cfg fns targetVf targetState hwSchedMask a)
    (hblocks : ∀ i ∈ schedIds hwSchedMask, i < a.numCtrlBlocks) (htarget : targetVf < maxVfSlot)
    (hcur : ∀ i ∈ schedIds hwSchedMask, (a.machine i).curVfId < maxVfSlot)
    (hfree : ∀ i ∈ schedIds hwSchedMask, a.wsLock i = false) :
    Balanced cfg fns targetVf targetState hwSchedMask a := by
  by_contra hunbalanced
  obtain ⟨hgoing, hcheap⟩ := not_or.mp hunbalanced
  push Not at hgoing
  obtain ⟨i, hi, hgoing⟩ := hgoing
  have hall : ∀ (t : Nat) (i : Nat), ((fun _ => Round.prompt) t : Round).completes i = true :=
    fun _ _ => rfl
  obtain ⟨turns, hwalk, hcost, hend⟩ :=
    (@bulkLoop_walk cfg fns targetVf targetState _ a.machine) hall []
    (Nat.lt_succ_self (20 * a.numCtrlBlocks)) (schedIds_nodup hwSchedMask)
  have hmanual := (@manualLoop_walk (cfg i) fns _ targetState) 20
    htarget (hcur i hi)
  have hsame := hagrees.same hfree _ hall i hi
  rw [(bulkGotoStateManual_free _ hfree).1, hwalk i hi] at hsame
  have hmore : 20 < turns := by
    rcases rounds_cases hblocks hcost hend with ⟨hle, hstopped⟩ | heq | ⟨hgt, _⟩
    · rw [walk_eq_of_le hle (hstopped i hi)] at hgoing
      exact absurd (hstopped i hi) hgoing
    · have hcheap' : ¬ 20 * a.numCtrlBlocks <
          bulkCost cfg fns targetVf targetState (turns + 1) a.machine (schedIds hwSchedMask) := by
        rw [heq]
        exact hcheap
      have hstopped := hend.resolve_left hcheap' i hi
      rw [heq] at hstopped
      exact absurd hstopped hgoing
    · exact hgt
  have hmoves : (walk (cfg i) fns targetVf targetState 20 (a.machine i)).Moves fns targetVf
      targetState := by
    by_contra hmoves
    exact hgoing (Machine.stopped_iff.mpr hmoves)
  have hfurther := (@walk_further (cfg i)) hmoves (show 0 < turns - 20 by omega)
  rw [← walk_walk, show 20 + (turns - 20) = turns by omega] at hfurther
  rcases hfurther with hat | hsent
  · apply hmoves.1
    exact ⟨(hmanual.state.trans hsame.state.symm).trans hat.1,
      (hmanual.vf.trans hsame.vf.symm).trans hat.2⟩
  · rw [hsame.sent.trans hmanual.sent.symm] at hsent
    exact Nat.lt_irrefl _ hsent

theorem locksInOrder_of_locks (hagrees : BulkAgrees cfg fns targetVf targetState hwSchedMask a) :
    LocksInOrder (schedIds hwSchedMask) a.wsLock := by
  by_contra hdisorder
  obtain ⟨hheld, hfirst⟩ := not_or.mp hdisorder
  push Not at hheld hfirst
  obtain ⟨i, hi, hheld⟩ := hheld
  have hlocks := hagrees.locks (fun _ => .prompt)
  rw [bulkGotoStateManual_held _ hi (by simpa using hheld)] at hlocks
  cases hids : schedIds hwSchedMask with
  | nil =>
    rw [hids] at hi
    cases hi
  | cons first rest =>
    have hfree : a.wsLock first = false := by simpa using hfirst first rest hids
    have htaken : (tryLocks (schedIds hwSchedMask) a.wsLock).1 first = true := by
      rw [hids, tryLocks, hfree]
      apply tryLocks_keeps
      rw [update_self]
    rw [show (tryLocks (schedIds hwSchedMask) a.wsLock).1 = a.wsLock from hlocks, hfree] at htaken
    cases htaken

/-- The bulk path agrees with the manual path exactly when no lock is held behind a free one of
the mask, and the budget it shares among the schedulers ends where theirs would. -/
theorem bulk_agrees_iff (hblocks : ∀ i ∈ schedIds hwSchedMask, i < a.numCtrlBlocks)
    (htarget : targetVf < maxVfSlot)
    (hcur : ∀ i ∈ schedIds hwSchedMask, (a.machine i).curVfId < maxVfSlot) :
    BulkAgrees cfg fns targetVf targetState hwSchedMask a ↔
      LocksInOrder (schedIds hwSchedMask) a.wsLock ∧
        ((∀ i ∈ schedIds hwSchedMask, a.wsLock i = false) →
          Balanced cfg fns targetVf targetState hwSchedMask a) := by
  constructor
  · intro hagrees
    exact ⟨locksInOrder_of_locks hagrees, balanced_of_same hagrees hblocks htarget hcur⟩
  · rintro ⟨horder, hbalanced⟩
    refine ⟨?_, ?_, ?_, ?_⟩
    · intro hfree rounds hall i hi
      exact (hbalanced hfree).same hblocks htarget hcur hfree rounds hall hi
    · intro rounds i hi
      unfold bulkGotoStateManual
      dsimp only
      split
      · exact bulkLoop_outside rounds _ _ [] (schedIds_nodup hwSchedMask) hi
      · rfl
    · intro hfree rounds i hi hcompletes harrives
      exact others_arrive hblocks htarget hcur hfree rounds hi hcompletes harrives
    · intro rounds
      rcases horder with hfree | ⟨first, rest, hids, hheld⟩
      · exact (bulkGotoStateManual_free rounds hfree).2
      · have hmem : first ∈ schedIds hwSchedMask := by
          rw [hids]
          exact List.mem_cons_self
        rw [bulkGotoStateManual_held rounds hmem hheld]
        show (tryLocks (schedIds hwSchedMask) a.wsLock).1 = a.wsLock
        rw [hids, tryLocks, hheld]
        rfl

def gfxConfig : Config := ⟨false, true, false, false, 1, false, true, false⟩

def allActive : Functions := ⟨fun _ => false, fun _ => true, fun _ => false, true⟩

def fourSchedulers (wsLock : Nat → Bool) : Adapter :=
  ⟨fun _ => ⟨.shutdownGpu, 0, fun _ => .shutdownGpu, .reset, []⟩, wsLock, 4⟩

theorem bulk_agrees_fresh :
    BulkAgrees (fun _ => gfxConfig) allActive 1 .runGpu 0b0111 (fourSchedulers fun _ => false) := by
  have hin : ∀ i ∈ schedIds 0b0111, i < 4 := by decide
  refine (bulk_agrees_iff hin (by decide) ?_).mpr ⟨.inl (fun _ _ => rfl), fun _ => .inl ?_⟩
  · intro i _
    exact Nat.zero_lt_succ _
  · intro i _
    show (walk gfxConfig allActive 1 .runGpu 20
      ⟨.shutdownGpu, 0, fun _ => .shutdownGpu, .reset, []⟩).Stopped allActive 1 .runGpu
    decide +kernel

/-- The lock of scheduler 1 is held: scheduler 0 is locked and never unlocked. -/
theorem lock_left_behind :
    ¬ BulkAgrees (fun _ => gfxConfig) allActive 1 .runGpu 0b0011 (fourSchedulers fun i => i == 1) := by
  intro hagrees
  have hlock := congrFun (hagrees.locks fun _ => .prompt) 0
  revert hlock
  decide +kernel

end Agreement

end MxGpu.Ws
