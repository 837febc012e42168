import MxGpu.AtomFrames
import MxGpu.Tokens

/-!
Whole runs of the interpreter: every access is inside of the frames, every text fits its buffer,
work spaces and the debug depth are given back, and a failure reaches the outermost caller, exactly
as long as no work space is refused and no text that is printed is too long.
-/

namespace MxGpu.Atom

open Checked

/-- A failure is on its way to the caller, or has reached it. -/
def Machine.Reports (m : Machine) : Prop :=
  match m.control, m.frames with
  | .ret status, _ => status ≠ 0
  | .done status, _ => status ≠ 0
  | .after op, f :: _ => op ≠ atomOpEot ∧ f.abort = true
  | .stopped _, _ => True
  | _, _ => False

/-- What is asked of the interpreter wherever it stands, when it was called at a debug depth. -/
structure Sound (depth : Int) (m : Machine) : Prop where
  /-- No access was outside of a frame, and no text was longer than its buffer. -/
  inside : ∀ stop, m.control = .stopped stop → stop = .endless
  /-- A table runs only with the work space it declares. -/
  work : ∀ f ∈ m.frames, f.table.wsSize ≠ 0 → f.ws.isSome = true
  /-- The work spaces of the tables that are running are all that is allocated. -/
  freed : m.live = m.frames.filterMap fun f => f.ws.map Work.id
  depth : m.debugDepth = depth + m.frames.length
  reported : m.failed = true → m.Reports
  returned : ∀ status, m.control = .done status → m.frames = []

section Runs

variable (env : Env)

/-- The condition on one step: a work space that a table declares is allocated; the bytes of a
PROCESSDS or of an unconditional jump fit the buffer when they are traced; and a table that is given
up has at most ten parameters to print. -/
def Meets (m : Machine) : Prop :=
  match m.control, m.frames with
  | .call index _ _, _ =>
    tableBase env m.context index ≠ 0 →
      env.u8 (tableBase env m.context index + 4) ≠ 0 → env.alloc m.allocs = true
  | .after op, f :: _ =>
    op ≠ atomOpEot →
      (m.traced env f = true → op = 67 ∨ op = 122 → FitsBuf (traceText env f)) ∧
        (m.aborts env f = true → min f.table.psShift f.table.psSize ≤ 10)
  | _, _ => True

variable {env} {depth : Int} {m : Machine} {f : Frame} {rest : List Frame}

structure Stacked (depth : Int) (size : Nat) (frames : List Frame) (live : List Nat)
    (debugDepth : Int) : Prop where
  ok : ∀ f ∈ frames, FrameOk size f
  freed : live = frames.filterMap fun f => f.ws.map Work.id
  depth : debugDepth = depth + frames.length

def Machine.Placed (m : Machine) : Prop :=
  match m.control with
  | .call _ ps psSize => (psSize = 0 ∨ ps + psSize ≤ m.params.length) ∧ m.failed = false
  | .fetch => (∃ f rest, m.frames = f :: rest ∧ f.ptr = f.pptr) ∧ m.failed = false
  | .after op => ∃ f rest, m.frames = f :: rest ∧
      (tracesBytes op = true → op ≠ 67 → op ≠ 122 → f.ptr ≤ f.pptr + 14) ∧
        (m.failed = true → op ≠ atomOpEot ∧ f.abort = true)
  | .ret status => m.failed = true → status ≠ 0
  | .done status => m.frames = [] ∧ (m.failed = true → status ≠ 0)
  | .stopped stop => stop = .endless

structure Keeps (depth : Int) (m : Machine) : Prop where
  stack : Stacked depth m.params.length m.frames m.live m.debugDepth
  placed : m.Placed

theorem FrameOk.work_isSome {size : Nat} (ok : FrameOk size f) (declared : f.table.wsSize ≠ 0) :
    f.ws.isSome = true := by
  have fits := ok.work
  cases space : f.ws with
  | some work => rfl
  | none =>
    rw [space] at fits
    exact absurd fits.symm declared

theorem Keeps.sound (keeps : Keeps depth m) : Sound depth m := by
  have placed := keeps.placed
  unfold Machine.Placed at placed
  constructor
  · intro stop stopped
    rw [stopped] at placed
    exact placed
  · exact fun f member => (keeps.stack.ok f member).work_isSome
  · exact keeps.stack.freed
  · exact keeps.stack.depth
  · intro failed
    unfold Machine.Reports
    cases control : m.control with
    | call index ps psSize =>
      rw [control] at placed
      exact absurd (failed.symm.trans placed.2) (by decide)
    | fetch =>
      rw [control] at placed
      exact absurd (failed.symm.trans placed.2) (by decide)
    | after op =>
      rw [control] at placed
      obtain ⟨f, rest, stack, -, reports⟩ := placed
      rw [stack]
      exact reports failed
    | ret status =>
      rw [control] at placed
      exact placed failed
    | done status =>
      rw [control] at placed
      exact placed.2 failed
    | stopped stop => trivial
  · intro status done
    rw [done] at placed
    exact placed.1

section Stacks

variable {size : Nat} {live : List Nat} {debugDepth : Int}

theorem Stacked.top (stacked : Stacked depth size (f :: rest) live debugDepth) {g : Frame}
    (ok : FrameOk size g) (same : g.ws.map Work.id = f.ws.map Work.id) :
    Stacked depth size (g :: rest) live debugDepth := by
  constructor
  · intro h member
    rcases List.mem_cons.mp member with rfl | member
    · exact ok
    · exact stacked.ok h (List.mem_cons_of_mem f member)
  · have freed := stacked.freed
    rw [List.filterMap_cons, ← same] at freed
    rw [List.filterMap_cons]
    exact freed
  · exact stacked.depth

theorem Stacked.pop (stacked : Stacked depth size (f :: rest) live debugDepth) :
    Stacked depth size rest
      (match f.ws with
        | some work => live.erase work.id
        | none => live) (debugDepth - 1) := by
  have freed := stacked.freed
  constructor
  · exact fun g member => stacked.ok g (List.mem_cons_of_mem f member)
  · rw [List.filterMap_cons] at freed
    cases space : f.ws with
    | none =>
      rw [space] at freed
      exact freed
    | some work =>
      rw [space] at freed
      dsimp only
      rw [freed]
      exact List.erase_cons_head ..
  · have deep := stacked.depth
    rw [List.length_cons] at deep
    push_cast at deep
    omega

theorem Stacked.push {frames : List Frame} (stacked : Stacked depth size frames live debugDepth)
    (ok : FrameOk size f) :
    Stacked depth size (f :: frames)
      (match f.ws with
        | some work => work.id :: live
        | none => live) (debugDepth + 1) := by
  constructor
  · intro g member
    rcases List.mem_cons.mp member with rfl | member
    · exact ok
    · exact stacked.ok g member
  · rw [List.filterMap_cons, stacked.freed]
    cases f.ws <;> rfl
  · rw [stacked.depth, List.length_cons]
    push_cast
    omega

end Stacks

theorem printByte_length {byte : Nat} (small : byte < 256) : (printByte byte).length ≤ 5 := by
  have digits : (Nat.toDigits 16 byte).length ≤ 2 :=
    (Nat.length_toDigits_le_iff (by decide) (by decide)).mpr small
  simp only [printByte, List.length_append, List.length_cons, List.length_nil]
  omega

theorem fits_trace (short : f.ptr ≤ f.pptr + 14) : FitsBuf (traceText env f) := by
  have text := Tokens.length_flatMap_le (k := 5) (f := fun ptr => printByte (env.u8 ptr))
    (List.range' (f.pptr + 1) (f.ptr - (f.pptr + 1)))
    (fun ptr _ => printByte_length (env.bios ptr).isLt)
  rw [List.length_range'] at text
  show (traceText env f).length < 128
  unfold traceText
  omega

theorem abortText_length (params : List Word) (f : Frame) :
    (abortText params f).length = min f.table.psShift f.table.psSize * 12 := by
  unfold abortText
  rw [Tokens.length_flatMap_eq (k := 12) _ (fun i => rfl), List.length_range]

theorem fits_abort (params : List Word) (f : Frame) :
    FitsBuf (abortText params f) ↔ min f.table.psShift f.table.psSize ≤ 10 := by
  show (abortText params f).length < 128 ↔ _
  rw [abortText_length]
  omega

theorem short_ops : ∀ op < 127, tracesBytes op = true → op ≠ 67 → op ≠ 122 →
    (opcodeTable op).elim true Opcode.short = true := by
  decide

theorem opcodeTable_lt {op : Nat} {opcode : Opcode} (found : opcodeTable op = some opcode) :
    op < 127 := by
  unfold opcodeTable at found
  split at found
  · cases found
  · obtain ⟨below, -⟩ := List.getElem?_eq_some_iff.mp found
    have count : opcodes.length = 126 := rfl
    omega

/-! One step. -/

theorem leave_keeps {status : Int}
    (stacked : Stacked depth m.params.length (f :: rest) m.live m.debugDepth)
    (failed : m.failed = true → status ≠ 0) : Keeps depth (m.leave f rest status) := by
  refine ⟨stacked.pop, ?_⟩
  intro failing
  have failing : (m.failed || status != 0) = true := failing
  cases earlier : m.failed with
  | true => exact failed earlier
  | false =>
    rw [earlier, Bool.false_or] at failing
    exact bne_iff_ne.mp failing

theorem enter_keeps (keeps : Keeps depth m) {index ps psSize : Nat}
    (control : m.control = .call index ps psSize) (meets : Meets env m) :
    Keeps depth (m.enter env index ps psSize) := by
  have placed := keeps.placed
  unfold Machine.Placed at placed
  unfold Meets at meets
  rw [control] at placed meets
  obtain ⟨inside, unfailed⟩ := placed
  unfold Machine.enter
  dsimp only
  split
  · exact ⟨keeps.stack, fun _ => by decide⟩
  · next exists_ =>
    have given := meets exists_
    refine ⟨keeps.stack.push ⟨inside, ?_⟩, ⟨_, _, rfl, rfl⟩, unfailed⟩
    by_cases declared : env.u8 (tableBase env m.context index + 4) = 0
    · simp [declared]
    · simp [declared, given declared]

theorem calltable_keeps (stacked : Stacked depth m.params.length (f :: rest) m.live m.debugDepth)
    (unfailed : m.failed = false) : Keeps depth (m.atomOpCalltable env f rest) := by
  have ok := stacked.ok f List.mem_cons_self
  have top := stacked.top (g := { f with ptr := f.ptr + 2 }) ⟨ok.params, ok.work⟩ rfl
  unfold Machine.atomOpCalltable
  dsimp only
  split
  · refine ⟨top, ?_, unfailed⟩
    have space := ok.params
    show _ ∨ _ ≤ m.params.length
    split
    · omega
    · exact Or.inl rfl
  · refine ⟨top, _, _, rfl, ?_, fun failed => absurd (failed.symm.trans unfailed) (by decide)⟩
    intro traces
    exact absurd traces (by decide)

theorem fetch_keeps (stack : m.frames = f :: rest)
    (stacked : Stacked depth m.params.length (f :: rest) m.live m.debugDepth) (place : f.ptr = f.pptr)
    (unfailed : m.failed = false) : Keeps depth (m.fetchOp env f rest) := by
  have ok := stacked.ok f List.mem_cons_self
  unfold Machine.fetchOp
  dsimp only
  split
  · exact leave_keeps (stacked.top ⟨ok.params, ok.work⟩ rfl) fun _ => by decide
  · exact calltable_keeps stacked unfailed
  · next opcode _ found =>
    have stays := @stays_func env f m.params.length opcode (f.ptr + 1)
      ⟨m.context, m.params, f, m.reads, m.stamps, m.card⟩ ⟨rfl, rfl, rfl, ok, rfl⟩
    split
    · next stop stopped =>
      rw [stopped] at stays
      rw [← stack] at stacked
      exact ⟨stacked, stays⟩
    · next ptr e ran =>
      rw [ran] at stays
      obtain ⟨framed, short⟩ := stays
      have size := framed.size
      refine ⟨?_, _, _, rfl, ?_, fun failed => absurd (failed.symm.trans unfailed) (by decide)⟩
      · show Stacked depth e.params.length ({ e.frame with ptr } :: rest) m.live m.debugDepth
        rw [size]
        exact stacked.top ⟨framed.ok.params, framed.ok.work⟩ framed.id
      · intro traces notJump notData
        have isShort := short_ops _ (opcodeTable_lt found) traces notJump notData
        rw [found] at isShort
        have near := short isShort
        show ptr ≤ e.frame.pptr + 14
        rw [framed.pptr, ← place]
        omega

theorem afterOp_keeps {op : Nat} (stacked : Stacked depth m.params.length (f :: rest) m.live
      m.debugDepth)
    (short : tracesBytes op = true → op ≠ 67 → op ≠ 122 → f.ptr ≤ f.pptr + 14)
    (reports : m.failed = true → op ≠ atomOpEot ∧ f.abort = true)
    (meets : op ≠ atomOpEot →
      (m.traced env f = true → op = 67 ∨ op = 122 → FitsBuf (traceText env f)) ∧
        (m.aborts env f = true → min f.table.psShift f.table.psSize ≤ 10)) :
    Keeps depth (m.afterOp env f rest op) := by
  have ok := stacked.ok f List.mem_cons_self
  unfold Machine.afterOp
  split
  · next eot => exact leave_keeps stacked fun failed => absurd eot (reports failed).1
  · next other =>
    obtain ⟨trace, abort⟩ := meets other
    have fits : ¬(m.traced env f = true ∧ tracesBytes op = true ∧
        ¬FitsBuf (traceText env f)) := by
      rintro ⟨traced, traces, long⟩
      by_cases special : op = 67 ∨ op = 122
      · exact long (trace traced special)
      · rw [not_or] at special
        exact long (fits_trace (short traces special.1 special.2))
    dsimp only
    rw [if_neg fits]
    by_cases aborts : m.aborts env f = true
    · rw [if_pos aborts, if_pos ((fits_abort _ _).mpr (abort aborts))]
      exact leave_keeps (m := { m with stamps := m.stamps + 1 })
        (stacked.top ⟨ok.params, ok.work⟩ rfl) fun _ => by decide
    · rw [if_neg aborts]
      refine ⟨stacked.top ⟨ok.params, ok.work⟩ rfl, ⟨_, _, rfl, rfl⟩, ?_⟩
      show m.failed = false
      cases failed : m.failed with
      | false => rfl
      | true =>
        unfold Machine.aborts at aborts
        rw [(reports failed).2] at aborts
        exact absurd rfl aborts

theorem step_keeps (keeps : Keeps depth m) (meets : Meets env m) : Keeps depth (m.step env) := by
  have placed := keeps.placed
  have stacked := keeps.stack
  unfold Machine.Placed at placed
  unfold Machine.step
  cases control : m.control with
  | call index ps psSize => exact enter_keeps keeps control meets
  | fetch =>
    rw [control] at placed
    obtain ⟨⟨f, rest, stack, place⟩, unfailed⟩ := placed
    rw [stack] at stacked ⊢
    exact fetch_keeps stack stacked place unfailed
  | after op =>
    rw [control] at placed
    obtain ⟨f, rest, stack, short, reports⟩ := placed
    unfold Meets at meets
    rw [control, stack] at meets
    rw [stack] at stacked ⊢
    exact afterOp_keeps stacked short reports meets
  | ret status =>
    rw [control] at placed
    cases stack : m.frames with
    | nil =>
      rw [stack] at stacked
      exact ⟨stacked, rfl, placed⟩
    | cons f rest =>
      rw [stack] at stacked
      have ok := stacked.ok f List.mem_cons_self
      refine ⟨stacked.top ⟨ok.params, ok.work⟩ rfl, _, _, rfl, ?_, ?_⟩
      · intro traces
        exact absurd traces (by decide)
      · intro failed
        refine ⟨by decide, ?_⟩
        show (f.abort || status != 0) = true
        rw [bne_iff_ne.mpr (placed failed), Bool.or_true]
  | done status =>
    dsimp only
    exact keeps
  | stopped stop =>
    dsimp only
    exact keeps

theorem enter_breaks {index ps psSize : Nat} (base : tableBase env m.context index ≠ 0)
    (declared : env.u8 (tableBase env m.context index + 4) ≠ 0)
    (refused : env.alloc m.allocs ≠ true) : ¬Sound depth (m.enter env index ps psSize) := by
  intro sound
  have work := sound.work
  unfold Machine.enter at work
  simp only [if_neg base, refused, and_false, if_false, Bool.false_eq_true] at work
  exact absurd (work _ List.mem_cons_self declared) (by simp)

theorem afterOp_breaks {op : Nat} (other : op ≠ atomOpEot)
    (fails : ¬((m.traced env f = true → op = 67 ∨ op = 122 → FitsBuf (traceText env f)) ∧
      (m.aborts env f = true → min f.table.psShift f.table.psSize ≤ 10))) :
    m.afterOp env f rest op =
      { m with control := .stopped .overrun, stamps := m.stamps + 1 } := by
  have special : op = 67 ∨ op = 122 → tracesBytes op = true := by
    rintro (rfl | rfl)
    · decide
    · decide
  unfold Machine.afterOp
  rw [if_neg other]
  dsimp only
  by_cases long : m.traced env f = true ∧ tracesBytes op = true ∧ ¬FitsBuf (traceText env f)
  · rw [if_pos long]
  · have late : ¬(m.aborts env f = true → min f.table.psShift f.table.psSize ≤ 10) := by
      intro few
      apply fails
      refine ⟨fun traced isSpecial => ?_, few⟩
      apply Classical.byContradiction
      intro tooLong
      exact long ⟨traced, special isSpecial, tooLong⟩
    rw [Classical.not_imp] at late
    rw [if_neg long, if_pos late.1, if_neg fun fits => late.2 ((fits_abort _ _).mp fits)]

theorem step_breaks (keeps : Keeps depth m) (fails : ¬Meets env m) :
    ¬Sound depth (m.step env) := by
  have placed := keeps.placed
  unfold Machine.Placed at placed
  unfold Meets at fails
  unfold Machine.step
  cases control : m.control with
  | call index ps psSize =>
    rw [control] at fails
    simp only [Classical.not_imp] at fails
    exact enter_breaks fails.1 fails.2.1 fails.2.2
  | fetch =>
    rw [control] at fails
    exact absurd trivial fails
  | after op =>
    rw [control] at placed
    obtain ⟨f, rest, stack, -, -⟩ := placed
    rw [control, stack] at fails
    simp only [Classical.not_imp] at fails
    rw [stack]
    intro sound
    dsimp only at sound
    rw [afterOp_breaks fails.1 fails.2] at sound
    have stopped := sound.inside _ rfl
    cases stopped
  | ret status =>
    rw [control] at fails
    exact absurd trivial fails
  | done status =>
    rw [control] at fails
    exact absurd trivial fails
  | stopped stop =>
    rw [control] at fails
    exact absurd trivial fails

theorem exec_keeps (c : Context) (index : Nat) (params : List Word) (depth : Int) :
    Keeps depth (execTable c index params depth) := by
  refine ⟨⟨fun f member => absurd member List.not_mem_nil, rfl, (Int.add_zero depth).symm⟩, ?_⟩
  exact ⟨Or.inr (Nat.le_of_eq (Nat.zero_add _)), rfl⟩

/-- For every image, table and parameter space: everything is in order in every state of a run
exactly when all its steps meet the condition. -/
theorem frames_kept (env : Env) (c : Context) (index : Nat) (params : List Word) (depth : Int)
    (n : Nat) :
    (∀ k ≤ n, Sound depth (steps (Machine.step env) k (execTable c index params depth))) ↔
      ∀ k < n, Meets env (steps (Machine.step env) k (execTable c index params depth)) :=
  sound_iff_meets (fun _ keeps => keeps.sound) (fun _ keeps meets => step_keeps keeps meets)
    (fun _ keeps fails => step_breaks keeps fails) (exec_keeps c index params depth) n

end Runs

/-- An image with one table: eleven words of parameters, no work space, and a move to a parameter
behind them. -/
def movesOutside (ptr : Nat) : BitVec 8 :=
  ([0, 0, 0, 0, 0x10, 0, 0, 0, 0, 0, 0, 0, 0, 0, 0, 0,
    13, 0, 0, 0, 0, 44, 0x02, 0x05, 0xff, 0, 0, 0, 0].map (BitVec.ofNat 8)).getD ptr 0

def quietEnv : Env :=
  ⟨movesOutside, fun _ => 0, fun _ => 0, fun _ => true, 0, 100, fun _ _ => 0, fun _ _ => 0⟩

def newContext : Context :=
  ⟨0, 0, fun _ => 0, 0, 0, (0, 0), 0, 0, 0, false, false, 0⟩

/-- The table is given up, and its eleven parameters are printed into a buffer for ten. -/
theorem abort_overruns :
    ¬∀ (env : Env) (c : Context) (index : Nat) (params : List Word) (depth : Int) (n : Nat),
      Sound depth (steps (Machine.step env) n (execTable c index params depth)) := by
  intro claim
  have sound := claim quietEnv newContext 0 (List.replicate 11 0) 0 3
  have stopped : (steps (Machine.step quietEnv) 3
      (execTable newContext 0 (List.replicate 11 0) 0)).control = .stopped .overrun := by
    decide +kernel
  exact absurd (sound.inside _ stopped) (by decide)

end MxGpu.Atom
