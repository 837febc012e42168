import MxGpu.WsRounds

/- One function at a time on a hardware scheduler. -/
namespace MxGpu.Ws

def GpuState.Enters (cmd : GpuState) : Prop :=
  cmd = .loadGpuState ∨ cmd = .initGpu ∨ cmd = .runGpu

instance (cmd : GpuState) : Decidable cmd.Enters := inferInstanceAs (Decidable (_ ∨ _ ∨ _))

/-- A function is brought in only when no other one is there. -/
def Sent.Isolated (s : Sent) : Prop := s.cmd.Enters → s.hw.Only s.vf

section Fits

/-- What a scheduler's recorded state says of the hardware behind it. -/
def Fits (cfg : Config) (state : GpuState) (vf : Nat) (hw : Hardware) : Prop :=
  match state with
  | .idleGpu => hw.Only vf ∧ hw.phase vf ≠ .running
  | .saveGpuState | .shutdownGpu => hw.Quiet
  | .loadGpuState | .initGpu | .runGpu | .disableAutoHwSched => hw.Only vf
  | .enableAutoHwSwitch => cfg.selfSwitchOff = false ∧ (hw.auto = false → hw.Only pfIdx)
  | .other _ => True

theorem Hardware.Quiet.only {hw : Hardware} (h : hw.Quiet) (vf : Nat) : hw.Only vf :=
  ⟨h.1, fun g _ => h.2 g⟩

theorem Hardware.Only.quiet {hw : Hardware} {vf : Nat} (h : hw.Only vf)
    (hoff : hw.phase vf = .off) : hw.Quiet := by
  refine ⟨h.1, ?_⟩
  intro g
  by_cases hg : g = vf
  · rw [hg]
    exact hoff
  · exact h.2 g hg

theorem Hardware.Only.exec {hw : Hardware} {vf : Nat} {cmd : GpuState} (h : hw.Only vf)
    (hcmd : cmd ≠ .enableAutoHwSwitch) : (hw.exec cmd vf).Only vf := by
  have hupdate : ∀ phase, ({ hw with phase := Function.update hw.phase vf phase }).Only vf := by
    intro phase
    refine ⟨h.1, ?_⟩
    intro g hg
    show Function.update hw.phase vf phase g = .off
    rw [Function.update_of_ne hg]
    exact h.2 g hg
  unfold Hardware.exec
  split
  · exact hupdate _
  · split
    · exact hupdate _
    · exact h
  · split
    · exact hupdate _
    · exact h
  · exact absurd rfl hcmd
  · exact h

theorem Hardware.idle_not_running (hw : Hardware) (vf : Nat) :
    (hw.exec .idleGpu vf).phase vf ≠ .running := by
  show (if hw.phase vf = .running then
    { hw with phase := Function.update hw.phase vf .idled } else hw).phase vf ≠ .running
  split
  · simp
  · assumption

theorem Hardware.save_off {hw : Hardware} {vf : Nat} (h : hw.phase vf ≠ .running) :
    (hw.exec .saveGpuState vf).phase vf = .off := by
  show (if hw.phase vf = .idled then
    { hw with phase := Function.update hw.phase vf .off } else hw).phase vf = .off
  split
  · simp
  · cases hphase : hw.phase vf
    · rfl
    · exact absurd hphase h
    · contradiction

theorem Hardware.exec_leave {hw : Hardware} {cmd : GpuState} {vf : Nat}
    (hcmd : cmd = .loadGpuState ∨ cmd = .initGpu ∨ cmd = .shutdownGpu) : hw.exec cmd vf = hw := by
  rcases hcmd with h | h | h <;> rw [h] <;> rfl

variable {cfg : Config} {state cmd : GpuState} {vf target : Nat} {hw : Hardware}

theorem Follows.isolated (h : Follows state vf cmd target) (hfits : Fits cfg state vf hw) :
    (Sent.mk cmd target hw).Isolated := by
  intro henters
  show hw.Only target
  cases h with
  | save => rcases henters with h | h | h <;> cases h
  | run _ hstate => rcases hstate with h | h <;> subst h <;> exact hfits
  | idle => rcases henters with h | h | h <;> cases h
  | leave _ _ hstate =>
    have hquiet : hw.Quiet := by rcases hstate with h | h <;> subst h <;> exact hfits
    exact hquiet.only target

theorem Follows.late (h : Follows state vf cmd target) (hfits : Fits cfg state vf hw) :
    Fits cfg state vf (hw.exec cmd target) := by
  cases h with
  | save =>
    refine ⟨hfits.1.exec (by simp), ?_⟩
    rw [Hardware.save_off hfits.2]
    simp
  | run _ hstate =>
    rcases hstate with h | h <;> subst h <;> exact Hardware.Only.exec hfits (by simp)
  | idle _ hstate =>
    rcases hstate with h | h <;> subst h <;> exact Hardware.Only.exec hfits (by simp)
  | leave _ _ hstate hcmd =>
    rw [Hardware.exec_leave hcmd]
    exact hfits

theorem Follows.taken (h : Follows state vf cmd target) (hfits : Fits cfg state vf hw) :
    Fits cfg cmd target (hw.exec cmd target) := by
  cases h with
  | save => exact (hfits.1.exec (by simp)).quiet (Hardware.save_off hfits.2)
  | run _ hstate =>
    rcases hstate with h | h <;> subst h <;>
      exact (@Hardware.Only.exec _ _ .runGpu) hfits (by simp)
  | idle _ hstate =>
    have honly : hw.Only vf := by rcases hstate with h | h <;> subst h <;> exact hfits
    exact ⟨honly.exec (by simp), hw.idle_not_running vf⟩
  | leave _ _ hstate hcmd =>
    have hquiet : hw.Quiet := by rcases hstate with h | h <;> subst h <;> exact hfits
    rw [Hardware.exec_leave hcmd]
    rcases hcmd with h | h | h <;> subst h
    · exact hquiet.only target
    · exact hquiet.only target
    · exact hquiet

end Fits

/-- The record fits the hardware, and all that was sent was isolated. -/
structure Machine.Good (cfg : Config) (m : Machine) : Prop where
  fits : Fits cfg m.curGpuState m.curVfId m.hw
  isolated : ∀ s ∈ m.sent, s.Isolated

section Commands

variable {cfg : Config} {m : Machine} {cmd : GpuState} {vf : Nat}

theorem Machine.Good.setCmd (h : m.Good cfg) (hsent : (Sent.mk cmd vf m.hw).Isolated) :
    (m.setCmd cmd vf).Good cfg := by
  refine ⟨h.fits, ?_⟩
  intro s hs
  rcases List.mem_append.mp hs with hs | hs
  · exact h.isolated s hs
  · rw [List.mem_singleton.mp hs]
    exact hsent

theorem Machine.Good.setVfState (h : m.Good cfg) : (m.setVfState cmd vf).Good cfg :=
  ⟨h.fits, h.isolated⟩

theorem Machine.Good.command (h : m.Good cfg) (hnext : Follows m.curGpuState m.curVfId cmd vf)
    (outcome : Outcome) : (m.command cmd vf outcome).Good cfg := by
  have hsent := h.setCmd (hnext.isolated h.fits)
  unfold Machine.command
  split
  · exact hsent
  · exact ⟨hnext.late h.fits, hsent.isolated⟩

theorem Machine.Good.moved (h : m.Good cfg) (hnext : Follows m.curGpuState m.curVfId cmd vf)
    {outcome : Outcome} (hdone : outcome = .done) :
    ((m.command cmd vf outcome).moved cmd vf).Good cfg := by
  have hsent := h.setCmd (hnext.isolated h.fits)
  subst hdone
  exact ⟨hnext.taken h.fits, hsent.isolated⟩

/-- What a command function leaves: a good record, also once the new state is written to it. -/
def Leaves (cfg : Config) (cmd : GpuState) (vf : Nat) (r : Machine × Bool) : Prop :=
  r.1.Good cfg ∧ (r.2 = true → (r.1.moved cmd vf).Good cfg)

theorem gpuiovVf_leaves (h : m.Good cfg) (hnext : Follows m.curGpuState m.curVfId cmd vf)
    (checked : Bool) (outcome : Outcome) :
    Leaves cfg cmd vf (gpuiovVf cmd vf checked outcome m) := by
  unfold gpuiovVf
  split
  next hdone =>
    refine ⟨(h.command hnext outcome).setVfState, ?_⟩
    intro _
    exact (h.moved hnext hdone.1).setVfState
  next => exact ⟨h.command hnext outcome, nofun⟩

theorem gpuiovShutdownVf_leaves (h : m.Good cfg)
    (hnext : Follows m.curGpuState m.curVfId .shutdownGpu vf) (outcome : Outcome) :
    Leaves cfg .shutdownGpu vf (gpuiovShutdownVf cfg vf outcome m) := by
  have hmoved : (m.moved .shutdownGpu vf).Good cfg := ⟨hnext.taken h.fits, h.isolated⟩
  unfold gpuiovShutdownVf
  split
  · exact ⟨h, fun _ => hmoved⟩
  · split
    · exact gpuiovVf_leaves h hnext false outcome
    · exact ⟨h.setVfState, fun _ => hmoved.setVfState⟩

end Commands

section Manual

variable {cfg : Config} {fns : Functions} {targetVf : Nat} {targetState : GpuState} {m : Machine}

theorem manualCommand_leaves {cmd : GpuState} {vf : Nat} (h : m.Good cfg)
    (hnext : Follows m.curGpuState m.curVfId cmd vf) (outcome : Outcome) :
    Leaves cfg cmd vf (manualCommand cfg cmd vf outcome m).1 := by
  unfold manualCommand
  split
  · exact gpuiovVf_leaves h hnext true outcome
  · exact gpuiovVf_leaves h hnext false outcome
  · exact gpuiovVf_leaves h hnext false outcome
  · exact gpuiovVf_leaves h hnext false outcome
  · exact gpuiovVf_leaves h hnext true outcome
  · exact gpuiovShutdownVf_leaves h hnext outcome
  · exact ⟨h, nofun⟩

theorem manualLoop_good (answers : Nat → Outcome) (loopOkay : Nat) (h : m.Good cfg) :
    (manualLoop cfg fns targetVf targetState answers loopOkay m).1.Good cfg := by
  induction loopOkay generalizing m with
  | zero =>
    unfold manualLoop
    split <;> exact h
  | succ loopOkay ih =>
    unfold manualLoop
    split
    · exact h
    · split
      · exact h
      next nextState nextVf hnext =>
        have hleaves := manualCommand_leaves h (getNextState_follows hnext) (answers loopOkay)
        split
        next hdone => exact ih (hleaves.2 hdone)
        next => exact hleaves.1

end Manual

section Auto

variable {cfg : Config} {fns : Functions} {targetVf : Nat} {targetState : GpuState}
  {ans : Answer} {m : Machine}

def Turn.Good (cfg : Config) : Turn → Prop
  | .next m _ _ => m.Good cfg
  | .exit m _ => m.Good cfg

/-- What the automatic path relies on in one turn. A command that starts or stops automatic
switching and is given up has no effect afterwards; a scheduler that passes for automatic without
the command has only the physical function running; and the context assumed or recorded when
automatic switching is over is the true one. -/
def TurnOk (cfg : Config) (targetState : GpuState) (ans : Answer) (m : Machine) : Prop :=
  (m.curGpuState = .saveGpuState ∨ m.curGpuState = .shutdownGpu →
      targetState = .enableAutoHwSwitch → cfg.selfSwitchOff = false → ans.activeVfs = true →
      ans.outcome ≠ .late) ∧
    (m.curGpuState = .runGpu → targetState = .enableAutoHwSwitch → cfg.gfx = false →
      (ans.activeVfs = true → ans.outcome ≠ .late) ∧
        (ans.activeVfs = false → m.curVfId = pfIdx)) ∧
    (m.curGpuState = .enableAutoHwSwitch → ans.activeVfs = true →
      ans.outcome ≠ .late ∧ (ans.outcome = .done → ans.stop ≠ .late)) ∧
    (m.curGpuState = .disableAutoHwSched →
      (contextOf cfg ans = .saved → m.hw.phase m.curVfId = .off) ∧
        (contextOf cfg ans = .clear → m.hw.phase m.curVfId ≠ .running))

set_option synthInstance.maxSize 1000 in
instance (cfg : Config) (targetState : GpuState) (ans : Answer) (m : Machine) :
    Decidable (TurnOk cfg targetState ans m) :=
  inferInstanceAs (Decidable (_ ∧ _ ∧ _ ∧ _))

theorem recordTurn_good {cmd : GpuState} {r : Machine × Bool} {ret : Ret}
    (h : Leaves cfg cmd m.curVfId r) (hvf : r.1.curVfId = m.curVfId) :
    (recordTurn targetVf targetState cmd ret r).Good cfg := by
  unfold recordTurn
  split
  next hdone =>
    have hgood := h.2 hdone
    refine ⟨?_, hgood.isolated⟩
    show Fits cfg cmd r.1.curVfId r.1.hw
    rw [hvf]
    exact hgood.fits
  next => exact h.1

theorem gpuiovVf_curVfId (cmd : GpuState) (vf : Nat) (checked : Bool) (outcome : Outcome)
    (m : Machine) : (gpuiovVf cmd vf checked outcome m).1.curVfId = m.curVfId := by
  unfold gpuiovVf Machine.command
  split <;> split <;> rfl

theorem gpuiovShutdownVf_curVfId (vf : Nat) (outcome : Outcome) (m : Machine) :
    (gpuiovShutdownVf cfg vf outcome m).1.curVfId = m.curVfId := by
  unfold gpuiovShutdownVf
  split
  · rfl
  · split
    · exact gpuiovVf_curVfId _ vf false outcome m
    · rfl

theorem loadGpu_good (h : m.Good cfg)
    (hstate : m.curGpuState = .saveGpuState ∨ m.curGpuState = .shutdownGpu) :
    (loadGpu targetVf targetState ans m).Good cfg := by
  have hleaves := gpuiovVf_leaves h (.leave m.curVfId targetVf hstate (.inl rfl)) true ans.outcome
  unfold loadGpu
  split
  next hdone => exact hleaves.2 hdone
  next => exact hleaves.1

theorem autoLeaveShutdown_good (h : m.Good cfg)
    (hstate : m.curGpuState = .saveGpuState ∨ m.curGpuState = .shutdownGpu) :
    (autoLeaveShutdown fns targetVf targetState ans m).Good cfg := by
  have hinit := gpuiovVf_leaves h (.leave m.curVfId targetVf hstate (.inr (.inl rfl))) false
    ans.outcome
  unfold autoLeaveShutdown
  split
  · exact h
  · split
    · exact loadGpu_good h hstate
    · split
      next hdone => exact hinit.2 hdone
      next => exact hinit.1

theorem Machine.Good.enable (h : m.Good cfg) (vf : Nat) :
    (m.setCmd .enableAutoHwSwitch vf).Good cfg := by
  apply h.setCmd
  intro henters
  rcases henters with h | h | h <;> cases h

theorem doEnableAutoSched_good (h : m.Good cfg) (hswitch : cfg.selfSwitchOff = false)
    (hlate : ans.activeVfs = true → ans.outcome ≠ .late)
    (honly : ans.activeVfs = false → m.hw.auto = false → m.hw.Only pfIdx) :
    (doEnableAutoSched fns targetVf targetState ans m).Good cfg := by
  have hsent := (h.enable unknownVf).isolated
  unfold doEnableAutoSched
  split
  next hactive =>
    specialize hlate hactive
    split
    next hdone =>
      rw [hdone]
      refine ⟨⟨hswitch, ?_⟩, hsent⟩
      intro hauto
      cases hauto
    next hdone =>
      have hfailed : ans.outcome = .failed := by
        cases houtcome : ans.outcome <;> simp_all
      rw [hfailed]
      exact h.enable unknownVf
  next hactive => exact ⟨⟨hswitch, honly (by simpa using hactive)⟩, h.isolated⟩

theorem autoEnter_good (h : m.Good cfg)
    (hstate : m.curGpuState = .saveGpuState ∨ m.curGpuState = .shutdownGpu)
    (hlate : cfg.selfSwitchOff = false → ans.activeVfs = true → ans.outcome ≠ .late) :
    (autoEnter cfg fns targetVf targetState ans m).Good cfg := by
  have hquiet : m.hw.Quiet := by
    have hfits := h.fits
    rcases hstate with hstate | hstate <;> rw [hstate] at hfits <;> exact hfits
  unfold autoEnter
  split
  · exact loadGpu_good h hstate
  next hswitch =>
    have hoff : cfg.selfSwitchOff = false := by simpa using hswitch
    exact doEnableAutoSched_good h hoff (hlate hoff) (fun _ _ => hquiet.only pfIdx)

theorem takenOver_good (h : m.Good cfg) (hstate : m.curGpuState = .saveGpuState) :
    (m.takenOver fns targetVf).Good cfg ∧
      (m.takenOver fns targetVf).curGpuState = .saveGpuState := by
  unfold Machine.takenOver
  split
  · refine ⟨⟨?_, h.isolated⟩, hstate⟩
    have hfits := h.fits
    rw [hstate] at hfits
    show Fits cfg m.curGpuState targetVf m.hw
    rw [hstate]
    exact hfits
  · exact ⟨h, hstate⟩

theorem autoSave_good (h : m.Good cfg) (hstate : m.curGpuState = .saveGpuState)
    (hlate : targetState = .enableAutoHwSwitch → cfg.selfSwitchOff = false →
      ans.activeVfs = true → ans.outcome ≠ .late) :
    (autoSave cfg fns targetVf targetState ans m).Good cfg := by
  unfold autoSave
  split
  · apply recordTurn_good
    · exact gpuiovShutdownVf_leaves h (.leave _ _ (.inl hstate) (.inr (.inr rfl))) ans.outcome
    · exact gpuiovShutdownVf_curVfId _ _ m
  · split
    next htarget => exact autoEnter_good h (.inl hstate) (hlate htarget)
    next => exact autoLeaveShutdown_good h (.inl hstate)

theorem autoRunning_good (h : m.Good cfg) (hstate : m.curGpuState = .runGpu)
    (hok : TurnOk cfg targetState ans m) :
    (autoRunning cfg fns targetVf targetState ans m).Good cfg := by
  have honly : m.hw.Only m.curVfId := by
    have hfits := h.fits
    rw [hstate] at hfits
    exact hfits
  unfold autoRunning
  split
  next henter =>
    have hgfx : cfg.gfx = false := by simpa using henter.2
    obtain ⟨hlate, hpf⟩ := hok.2.1 hstate henter.1 hgfx
    apply doEnableAutoSched_good h _ hlate
    · intro hactive _
      rw [← hpf hactive]
      exact honly
    · unfold Config.selfSwitchOff
      rw [hgfx]
      rfl
  next =>
    apply recordTurn_good
    · exact gpuiovVf_leaves h (.idle _ (.inl hstate)) true ans.outcome
    · exact gpuiovVf_curVfId _ _ _ _ m

theorem Hardware.stopped_only (vf : Nat) (left : Phase) : (Hardware.stopped vf left).Only vf := by
  refine ⟨rfl, ?_⟩
  intro g hg
  show Function.update (fun _ => Phase.off) vf left g = .off
  rw [Function.update_of_ne hg]

theorem Hardware.emptied_only {hw : Hardware} {vf : Nat} (h : hw.auto = false → hw.Only vf) :
    hw.emptied.Only vf := by
  unfold Hardware.emptied
  split
  · exact ⟨rfl, fun _ _ => rfl⟩
  next hauto => exact h (by simpa using hauto)

theorem disableFailed_good {outcome : Outcome} (h : m.Good cfg)
    (hstate : m.curGpuState = .enableAutoHwSwitch) (hlate : outcome ≠ .late) :
    (disableFailed ans outcome m).Good cfg := by
  have hfits := h.fits
  rw [hstate] at hfits
  refine ⟨?_, h.isolated⟩
  show Fits cfg m.curGpuState ans.activeVfIdx
    (if outcome = .late then .stopped ans.activeVfIdx ans.left else m.hw)
  rw [if_neg hlate, hstate]
  exact hfits

theorem autoEnabledTurn_good (h : m.Good cfg) (hstate : m.curGpuState = .enableAutoHwSwitch)
    (hok : TurnOk cfg targetState ans m) :
    (autoEnabledTurn cfg targetVf targetState ans m).Good cfg := by
  have hfits := h.fits
  rw [hstate] at hfits
  have hsent : (m.setCmd .disableAutoHwSched unknownVf).Good cfg := by
    apply h.setCmd
    intro henters
    rcases henters with h | h | h <;> cases h
  unfold autoEnabledTurn
  split
  next hactive =>
    obtain ⟨houtcome, hstop⟩ := hok.2.2.1 hstate hactive
    split
    next hoff => simp [hfits.1] at hoff
    next =>
      unfold autoDisable
      split
      · exact disableFailed_good hsent hstate houtcome
      next hdone =>
        split
        · exact disableFailed_good hsent hstate (hstop (by simpa using hdone))
        · exact ⟨Hardware.stopped_only _ _, hsent.isolated⟩
  next => exact ⟨Hardware.emptied_only hfits.2, h.isolated⟩

theorem autoDisabledTurn_good (h : m.Good cfg) (hstate : m.curGpuState = .disableAutoHwSched)
    (hok : TurnOk cfg targetState ans m) :
    (autoDisabledTurn cfg fns targetVf targetState ans m).Good cfg := by
  have hfits := h.fits
  rw [hstate] at hfits
  obtain ⟨hsaved, hclear⟩ := hok.2.2.2 hstate
  have hidle := gpuiovVf_leaves h (.idle _ (.inr hstate)) true ans.outcome
  unfold autoDisabledTurn
  split
  next hcontext => exact ⟨Hardware.Only.quiet hfits (hsaved hcontext), h.isolated⟩
  next hcontext => exact ⟨⟨hfits, hclear hcontext⟩, h.isolated⟩
  next =>
    split
    next hdone =>
      have hgood := hidle.2 hdone
      refine ⟨?_, hgood.isolated⟩
      show Fits cfg .idleGpu (gpuiovVf .idleGpu m.curVfId true ans.outcome m).1.curVfId _
      rw [gpuiovVf_curVfId]
      exact hgood.fits
    next => exact hidle.1

theorem autoTurn_good (h : m.Good cfg) (hok : TurnOk cfg targetState ans m) :
    (autoTurn cfg fns targetVf targetState ans m).Good cfg := by
  unfold autoTurn
  split <;> rename_i hstate
  · apply recordTurn_good
    · apply gpuiovVf_leaves h
      rw [hstate]
      exact .save _
    · exact gpuiovVf_curVfId _ _ _ _ m
  · obtain ⟨hgood, hsame⟩ := (@takenOver_good _ fns targetVf) h hstate
    exact autoSave_good hgood hsame (hok.1 (.inl hstate))
  · unfold autoShutdown
    split
    next htarget => exact autoEnter_good h (.inr hstate) (hok.1 (.inr hstate) htarget)
    next => exact autoLeaveShutdown_good h (.inr hstate)
  · apply recordTurn_good
    · exact gpuiovVf_leaves h (.run _ (.inl hstate)) false ans.outcome
    · exact gpuiovVf_curVfId _ _ _ _ m
  · apply recordTurn_good
    · exact gpuiovVf_leaves h (.run _ (.inr hstate)) false ans.outcome
    · exact gpuiovVf_curVfId _ _ _ _ m
  · exact autoRunning_good h hstate hok
  · exact autoEnabledTurn_good h hstate hok
  · exact autoDisabledTurn_good h hstate hok
  · exact h

def Turn.Then (P : Machine → Nat → GpuState → Prop) : Turn → Prop
  | .next m targetVf targetState => P m targetVf targetState
  | .exit _ _ => True

/-- Every turn of one request meets what the automatic path relies on. -/
def AutoLoopOk (cfg : Config) (fns : Functions) (answers : Nat → Answer) :
    Nat → Machine → Nat → GpuState → Prop
  | 0, _, _, _ => True
  | loopOkay + 1, m, targetVf, targetState =>
    m.At targetVf targetState ∨
      TurnOk cfg targetState (answers loopOkay) m ∧
        (autoTurn cfg fns targetVf targetState (answers loopOkay) m).Then
          (AutoLoopOk cfg fns answers loopOkay)

instance (P : Machine → Nat → GpuState → Prop) [∀ m vf state, Decidable (P m vf state)] :
    (turn : Turn) → Decidable (turn.Then P)
  | .next m vf state => inferInstanceAs (Decidable (P m vf state))
  | .exit _ _ => isTrue trivial

instance decidableAutoLoopOk (cfg : Config) (fns : Functions) (answers : Nat → Answer) :
    (loopOkay : Nat) → (m : Machine) → (targetVf : Nat) → (targetState : GpuState) →
      Decidable (AutoLoopOk cfg fns answers loopOkay m targetVf targetState)
  | 0, _, _, _ => isTrue trivial
  | loopOkay + 1, m, targetVf, targetState =>
    have := decidableAutoLoopOk cfg fns answers loopOkay
    inferInstanceAs (Decidable (m.At targetVf targetState ∨
      TurnOk cfg targetState (answers loopOkay) m ∧
        (autoTurn cfg fns targetVf targetState (answers loopOkay) m).Then
          (AutoLoopOk cfg fns answers loopOkay)))

theorem autoLoop_good {answers : Nat → Answer} {loopOkay : Nat} (h : m.Good cfg)
    (hok : AutoLoopOk cfg fns answers loopOkay m targetVf targetState) :
    (autoLoop cfg fns answers loopOkay m targetVf targetState).1.Good cfg := by
  induction loopOkay generalizing m targetVf targetState with
  | zero =>
    unfold autoLoop
    split <;> exact h
  | succ loopOkay ih =>
    unfold autoLoop
    unfold AutoLoopOk at hok
    split
    · exact h
    next hat =>
      obtain ⟨hturn, hrest⟩ := hok.resolve_left hat
      have hgood := (@autoTurn_good _ fns targetVf) h hturn
      split
      next hnext =>
        rw [hnext] at hgood hrest
        exact ih hgood hrest
      next hexit =>
        rw [hexit] at hgood
        exact hgood

/-- A request that goes the automatic way meets the condition in each of its turns. -/
def GotoOk (cfg : Config) (fns : Functions) (targetVf : Nat) (targetState : GpuState)
    (answers : Nat → Answer) (m : Machine) : Prop :=
  cfg.auto = true →
    AutoLoopOk cfg fns answers 20 m (autoTarget targetVf (answers 20) m) targetState

instance (cfg : Config) (fns : Functions) (targetVf : Nat) (targetState : GpuState)
    (answers : Nat → Answer) (m : Machine) :
    Decidable (GotoOk cfg fns targetVf targetState answers m) :=
  inferInstanceAs (Decidable (_ → _))

theorem gotoState_good {answers : Nat → Answer} (locked : Bool) (h : m.Good cfg)
    (hok : GotoOk cfg fns targetVf targetState answers m) :
    (gotoState cfg fns targetVf targetState answers locked m).1.Good cfg := by
  unfold gotoState
  split
  · exact h
  · split
    next hauto => exact autoLoop_good h (hok hauto)
    next => exact manualLoop_good _ 20 h

theorem idleFirst_good (idle : Outcome) (h : m.Good cfg) : (idleFirst cfg idle m).1.Good cfg := by
  unfold idleFirst
  split
  next hrun =>
    have hidle := gpuiovVf_leaves h (.idle _ (.inl hrun.1)) true idle
    split
    next hdone =>
      have hgood := hidle.2 hdone
      refine ⟨?_, hgood.isolated⟩
      show Fits cfg .idleGpu (gpuiovVf .idleGpu m.curVfId true idle m).1.curVfId _
      rw [gpuiovVf_curVfId]
      exact hgood.fits
    next => exact hidle.1
  next => exact h

end Auto

section Bulk

variable {cfg : Nat → Config} {fns : Functions} {targetVf : Nat} {targetState : GpuState}
  {machine : Nat → Machine}

theorem rounded_good {cfg : Config} {step : GpuState × Nat} {m : Machine} (round : Round) (i : Nat)
    (h : m.Good cfg) (hnext : Follows m.curGpuState m.curVfId step.1 step.2) :
    (m.rounded cfg round i step).Good cfg := by
  have hsent : (gpuiovNoWait cfg step.1 step.2 m).Good cfg := by
    unfold gpuiovNoWait
    split
    · exact h
    · exact h.setCmd (hnext.isolated h.fits)
  have hhw : (gpuiovNoWait cfg step.1 step.2 m).hw = m.hw := by
    unfold gpuiovNoWait
    split <;> rfl
  have hstate : Fits cfg (gpuiovNoWait cfg step.1 step.2 m).curGpuState
      (gpuiovNoWait cfg step.1 step.2 m).curVfId (m.hw.exec step.1 step.2) := by
    unfold gpuiovNoWait
    split <;> exact hnext.late h.fits
  unfold Machine.rounded Machine.waited
  split
  · refine ⟨?_, hsent.isolated⟩
    show Fits cfg step.1 step.2 ((gpuiovNoWait cfg step.1 step.2 m).hw.exec step.1 step.2)
    rw [hhw]
    exact hnext.taken h.fits
  · split
    · refine ⟨?_, hsent.isolated⟩
      show Fits cfg _ _ ((gpuiovNoWait cfg step.1 step.2 m).hw.exec step.1 step.2)
      rw [hhw]
      exact hstate
    · exact hsent

theorem bulkLoop_good (rounds : Nat → Round) (turn loopOkay : Nat) {mask : List Nat}
    (bad : List Nat) (hnodup : mask.Nodup) (h : ∀ i, (machine i).Good (cfg i)) (i : Nat) :
    ((bulkLoop cfg fns targetVf targetState rounds turn loopOkay mask bad machine).1 i).Good
      (cfg i) := by
  induction turn generalizing loopOkay mask bad machine with
  | zero => exact h i
  | succ turn ih =>
    unfold bulkLoop
    dsimp only
    split
    next hintime =>
      have hmask := planRound_mask hintime
      have hkept : (planRound fns targetVf targetState machine mask loopOkay).mask.Nodup := by
        rw [hmask]
        exact hnodup.filter _
      have hgood : ∀ j, ((bulkRound cfg (rounds turn)
          (planRound fns targetVf targetState machine mask loopOkay) machine).1 j).Good (cfg j) := by
        intro j
        rw [bulkRound_machine machine hkept]
        split
        next hj =>
          exact rounded_good (rounds turn) j (h j)
            (getNextState_follows (planRound_next hintime hnodup hj))
        next => exact h j
      split
      · exact hgood i
      · exact ih _ _ (hkept.filter _) hgood
    next => exact h i

end Bulk

section Runs

/-- The requests to the world-switch machine, with what they meet, and the resets between them. -/
inductive Event where
  | goto (i : Nat) (fns : Functions) (targetVf : Nat) (targetState : GpuState)
      (answers : Nat → Answer)
  | stateRun (i : Nat) (fns : Functions) (skipRun : Bool) (idxVf : Nat) (idle : Outcome)
      (answers : Nat → Answer)
  | bulk (fns : Functions) (targetVf : Nat) (hwSchedMask : BitVec 32) (targetState : GpuState)
      (rounds : Nat → Round)
  | wholeGpuReset
  | flr (i : Nat) (fns : Functions)

/-- `amdgv_hw_sched_init` -/
def Machine.started : Machine := ⟨.shutdownGpu, 0, fun _ => .shutdownGpu, .reset, []⟩

def Adapter.started (numCtrlBlocks : Nat) : Adapter :=
  ⟨fun _ => .started, fun _ => false, numCtrlBlocks⟩

def Machine.wholeGpuReset (m : Machine) : Machine :=
  { m with curGpuState := .shutdownGpu, curVfState := fun _ => .shutdownGpu, hw := .reset }

/-- After an FLR the scheduler is in a state similar to SAVE. -/
def Machine.flr (fns : Functions) (m : Machine) : Machine :=
  { m with
    curGpuState := .saveGpuState
    curVfState := fun i => if fns.active i then .saveGpuState else m.curVfState i
    hw := .reset }

def Adapter.update (i : Nat) (m : Machine) (a : Adapter) : Adapter :=
  { a with machine := Function.update a.machine i m }

def Adapter.step (cfg : Nat → Config) (a : Adapter) : Event → Adapter
  | .goto i fns targetVf targetState answers =>
    a.update i
      (gotoState (cfg i) fns targetVf targetState answers (a.wsLock i) (a.machine i)).1
  | .stateRun i fns skipRun idxVf idle answers =>
    a.update i
      (hwSchedStateRun (cfg i) fns skipRun idxVf idle answers (a.wsLock i) (a.machine i)).1
  | .bulk fns targetVf hwSchedMask targetState rounds =>
    (bulkGotoStateManual cfg fns targetVf targetState hwSchedMask rounds a).1
  | .wholeGpuReset => { a with machine := fun i => (a.machine i).wholeGpuReset }
  | .flr i fns => a.update i ((a.machine i).flr fns)

/-- The condition on one request, in the state it is made in. -/
def EventOk (cfg : Nat → Config) (a : Adapter) : Event → Prop
  | .goto i fns targetVf targetState answers =>
    GotoOk (cfg i) fns targetVf targetState answers (a.machine i)
  | .stateRun i fns skipRun idxVf idle answers =>
    GotoOk (cfg i) fns idxVf (if skipRun then .loadGpuState else .runGpu) answers
      (idleFirst (cfg i) idle (a.machine i)).1
  | _ => True

def Adapter.run (cfg : Nat → Config) : Adapter → List Event → Adapter
  | a, [] => a
  | a, event :: rest => (a.step cfg event).run cfg rest

def RunOk (cfg : Nat → Config) : Adapter → List Event → Prop
  | _, [] => True
  | a, event :: rest => EventOk cfg a event ∧ RunOk cfg (a.step cfg event) rest

instance (cfg : Nat → Config) (a : Adapter) : (event : Event) → Decidable (EventOk cfg a event)
  | .goto i fns targetVf targetState answers =>
    inferInstanceAs (Decidable (GotoOk (cfg i) fns targetVf targetState answers (a.machine i)))
  | .stateRun i fns skipRun idxVf idle answers =>
    inferInstanceAs (Decidable (GotoOk (cfg i) fns idxVf
      (if skipRun then .loadGpuState else .runGpu) answers
      (idleFirst (cfg i) idle (a.machine i)).1))
  | .bulk .. | .wholeGpuReset | .flr .. => isTrue trivial

instance decidableRunOk (cfg : Nat → Config) :
    (a : Adapter) → (events : List Event) → Decidable (RunOk cfg a events)
  | _, [] => isTrue trivial
  | a, event :: rest =>
    have := decidableRunOk cfg (a.step cfg event) rest
    inferInstanceAs (Decidable (EventOk cfg a event ∧ RunOk cfg (a.step cfg event) rest))

/-- All commands that were sent to the schedulers of the adapter were isolated. -/
def Adapter.Isolated (a : Adapter) : Prop := ∀ i, ∀ s ∈ (a.machine i).sent, s.Isolated

variable {cfg : Nat → Config} {a : Adapter}

theorem Adapter.update_good {i : Nat} {m : Machine} (h : ∀ j, (a.machine j).Good (cfg j))
    (hm : m.Good (cfg i)) (j : Nat) : ((a.update i m).machine j).Good (cfg j) := by
  show (Function.update a.machine i m j).Good (cfg j)
  by_cases hj : j = i
  · subst hj
    rw [Function.update_self]
    exact hm
  · rw [Function.update_of_ne hj]
    exact h j

theorem step_good {event : Event} (h : ∀ i, (a.machine i).Good (cfg i))
    (hok : EventOk cfg a event) (i : Nat) : ((a.step cfg event).machine i).Good (cfg i) := by
  cases event with
  | goto j => exact Adapter.update_good h (gotoState_good (a.wsLock j) (h j) hok) i
  | stateRun j fns skipRun idxVf idle answers =>
    apply Adapter.update_good h
    have hfirst := idleFirst_good idle (h j)
    unfold hwSchedStateRun
    split
    · exact gotoState_good (a.wsLock j) hfirst hok
    · exact hfirst
  | bulk fns targetVf hwSchedMask targetState rounds =>
    show ((bulkGotoStateManual cfg fns targetVf targetState hwSchedMask rounds a).1.machine i).Good _
    unfold bulkGotoStateManual
    dsimp only
    split
    · exact bulkLoop_good rounds _ _ [] (schedIds_nodup hwSchedMask) h i
    · exact h i
  | wholeGpuReset => exact ⟨⟨rfl, fun _ => rfl⟩, (h i).isolated⟩
  | flr j fns =>
    apply Adapter.update_good h
    exact ⟨⟨rfl, fun _ => rfl⟩, (h j).isolated⟩

theorem run_good {events : List Event} (h : ∀ i, (a.machine i).Good (cfg i))
    (hok : RunOk cfg a events) (i : Nat) : ((a.run cfg events).machine i).Good (cfg i) := by
  induction events generalizing a with
  | nil => exact h i
  | cons event rest ih => exact ih (step_good h hok.1) hok.2

/-- No function is brought onto a scheduler while another one is there, in any run in which the
automatic path finds what it relies on. The manual and the bulk path need nothing. -/
theorem world_switch_isolated (cfg : Nat → Config) (numCtrlBlocks : Nat) (events : List Event)
    (hok : RunOk cfg (.started numCtrlBlocks) events) :
    ((Adapter.started numCtrlBlocks).run cfg events).Isolated := by
  have hstarted : ∀ i, ((Adapter.started numCtrlBlocks).machine i).Good (cfg i) := by
    intro i
    refine ⟨⟨rfl, fun _ => rfl⟩, ?_⟩
    intro s hs
    cases hs
  intro i
  exact (run_good hstarted hok i).isolated

def mmConfig : Config := ⟨true, false, true, false, 1, false, true, false⟩

def twoActive : Functions := ⟨fun _ => false, fun vf => vf < 3, fun vf => vf < 3, true⟩

def prompt (activeVfs : Bool) (activeVfIdx : Nat) : Answer :=
  ⟨.done, .done, activeVfs, activeVfIdx, .idled, .other⟩

def switchedEvents : List Event :=
  [.goto 0 twoActive 1 .runGpu (fun _ => prompt true 1),
    .goto 0 twoActive 1 .enableAutoHwSwitch (fun _ => prompt true 1),
    .goto 0 twoActive unknownVf .saveGpuState (fun _ => prompt true 2),
    .goto 0 twoActive 1 .runGpu (fun _ => prompt true 1)]

theorem world_switch_isolated_switched :
    ((Adapter.started 4).run (fun _ => mmConfig) switchedEvents).Isolated := by
  apply world_switch_isolated
  decide +kernel

/-- Function 1 runs when automatic switching is asked for and no function is on the list: no
command is sent, function 1 goes on, and function 2 is brought in. -/
def forgottenEvents : List Event :=
  [.goto 0 twoActive 1 .runGpu (fun _ => prompt false 1),
    .goto 0 twoActive 1 .enableAutoHwSwitch (fun _ => prompt false 1),
    .goto 0 twoActive 2 .runGpu (fun _ => prompt false 1)]

theorem forgotten_not_isolated :
    ¬ ((Adapter.started 4).run (fun _ => mmConfig) forgottenEvents).Isolated := by
  intro h
  obtain ⟨s, hs, henters, hvf, hphase⟩ :
      ∃ s ∈ (((Adapter.started 4).run (fun _ => mmConfig) forgottenEvents).machine 0).sent,
        s.cmd.Enters ∧ 1 ≠ s.vf ∧ s.hw.phase 1 = .running := by
    decide +kernel
  have hoff := (h 0 s hs henters).2 1 hvf
  rw [hphase] at hoff
  cases hoff

end Runs

end MxGpu.Ws
