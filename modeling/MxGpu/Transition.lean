import Mathlib.Logic.Relation

/- Runs of a labelled transition relation, with a condition that every step of
the run meets in the state it leaves. Nothing here knows what is running. -/
namespace Transition

variable {State Label : Type}

/-- States reached from a start by steps whose labels meet `ok` where they fire. -/
inductive Run (start : State → Prop) (step : State → Label → State → Prop)
    (ok : State → Label → Prop) : State → Prop
  | start {state : State} (first : start state) : Run start step ok state
  | next {before after : State} (label : Label) (earlier : Run start step ok before)
      (met : ok before label) (fired : step before label after) :
      Run start step ok after

def always (_ : State) (_ : Label) : Prop := True

theorem Run.invariant {start : State → Prop} {step : State → Label → State → Prop}
    {ok : State → Label → Prop} (keeps : State → Prop)
    (base : ∀ state, start state → keeps state)
    (preserved : ∀ before label after, keeps before → ok before label →
      step before label after → keeps after)
    {state : State} (run : Run start step ok state) : keeps state := by
  induction run with
  | start first => exact base _ first
  | next label _ met fired ih => exact preserved _ label _ ih met fired

theorem Run.weaken {start : State → Prop} {step : State → Label → State → Prop}
    {ok weaker : State → Label → Prop}
    (implies : ∀ state label, ok state label → weaker state label)
    {state : State} (run : Run start step ok state) : Run start step weaker state := by
  induction run with
  | start first => exact .start first
  | next label _ met fired ih => exact .next label ih (implies _ _ met) fired

theorem Run.followMet {start : State → Prop} {next : State → Label → Option State}
    {ok : State → Label → Prop} [∀ before label, Decidable (ok before label)]
    (labels : List Label) {state last : State}
    (run : Run start (fun before label after => next before label = some after) ok state)
    (follows : labels.foldlM (fun before label =>
      if ok before label then next before label else none) state = some last) :
    Run start (fun before label after => next before label = some after) ok last := by
  induction labels generalizing state with
  | nil =>
    simp only [List.foldlM_nil, Option.pure_def, Option.some.injEq] at follows
    exact follows ▸ run
  | cons label labels ih =>
    simp only [List.foldlM_cons, Option.bind_eq_bind, Option.bind_eq_some_iff] at follows
    obtain ⟨between, fired, rest⟩ := follows
    split at fired
    case isTrue met => exact ih (.next label run met fired) rest
    case isFalse => exact absurd fired.symm (Option.some_ne_none between)

theorem Run.follow {start : State → Prop} {next : State → Label → Option State}
    (labels : List Label) {state last : State}
    (run : Run start (fun before label after => next before label = some after) always state)
    (follows : labels.foldlM next state = some last) :
    Run start (fun before label after => next before label = some after) always last :=
  @Run.followMet _ _ start next always (fun _ _ => .isTrue trivial) labels state last run follows

/-- A finite execution between two states, with the labels it took. -/
inductive Path (step : State → Label → State → Prop) (ok : State → Label → Prop) :
    State → List Label → State → Prop
  | nil (state : State) : Path step ok state [] state
  | cons {before middle after : State} {label : Label} {labels : List Label}
      (met : ok before label) (fired : step before label middle)
      (rest : Path step ok middle labels after) : Path step ok before (label :: labels) after

def Path.Meets (step : State → Label → State → Prop) (ok : State → Label → Prop)
    (goal : State → Prop) (before : State) (labels : List Label) (after : State) : Prop :=
  ∃ early late middle, labels = early ++ late ∧ Path step ok before early middle ∧
    Path step ok middle late after ∧ goal middle

/-- Progress by a measure: as long as an execution has not met its goal, each
ticking step uses the measure up and every other step adds at most `gain` to it. -/
theorem Path.meets_or_bounded {step : State → Label → State → Prop} {ok : State → Label → Prop}
    (goal keeps : State → Prop) (measure : State → Nat) (tick : Label → Bool) (gain : Nat)
    (preserved : ∀ before label after, keeps before → ok before label →
      step before label after → goal after ∨ keeps after ∧
        (if tick label then measure after + 1 ≤ measure before
          else measure after ≤ measure before + gain))
    {before after : State} {labels : List Label} (path : Path step ok before labels after)
    (first : keeps before) :
    Path.Meets step ok goal before labels after ∨
      keeps after ∧ labels.countP tick + measure after ≤
        measure before + gain * labels.countP fun label => !tick label := by
  induction path with
  | nil => exact .inr ⟨first, by simp⟩
  | @cons before middle after label labels met fired rest ih =>
    rcases preserved before label middle first met fired with reached | ⟨kept, used⟩
    · exact .inl ⟨[label], labels, middle, rfl, .cons met fired (.nil middle), rest, reached⟩
    · rcases ih kept with ⟨early, late, at_, split, toGoal, fromGoal, reached⟩ | ⟨last, bound⟩
      · exact .inl ⟨label :: early, late, at_, by rw [split, List.cons_append],
          .cons met fired toGoal, fromGoal, reached⟩
      · refine .inr ⟨last, ?_⟩
        rw [List.countP_cons, List.countP_cons]
        cases ticks : tick label with
        | true =>
          rw [ticks, if_pos rfl] at used
          simp only [Bool.not_true, Bool.false_eq_true, if_false, if_true, Nat.add_zero]
          omega
        | false =>
          rw [ticks, if_neg (by decide)] at used
          simp only [Bool.not_false, Bool.false_eq_true, if_false, if_true, Nat.mul_add,
            Nat.mul_one]
          omega

/-- The property holds in a state and in every state that the labels lead to from it. -/
def Along (next : State → Label → Option State) (holds : State → Prop) :
    State → List Label → Prop
  | state, [] => holds state
  | state, label :: labels =>
    holds state ∧ ∀ after, next state label = some after → Along next holds after labels

/-- Every step that the labels take meets the condition where it is taken. -/
def Obeys (next : State → Label → Option State) (ok : State → Label → Prop) :
    State → List Label → Prop
  | _, [] => True
  | state, label :: labels =>
    ∀ after, next state label = some after → ok state label ∧ Obeys next ok after labels

theorem along_iff_obeys {next : State → Label → Option State} {holds keeps : State → Prop}
    {ok : State → Label → Prop}
    (preserved : ∀ before label after, keeps before → next before label = some after → keeps after)
    (exact : ∀ before label after, keeps before → holds before →
      next before label = some after → (holds after ↔ ok before label))
    {state : State} (kept : keeps state) (first : holds state) (labels : List Label) :
    Along next holds state labels ↔ Obeys next ok state labels := by
  induction labels generalizing state with
  | nil => exact ⟨fun _ => trivial, fun _ => first⟩
  | cons label labels ih =>
    constructor
    · rintro ⟨_, rest⟩ after fired
      have later := rest after fired
      have there : holds after := by
        cases labels with
        | nil => exact later
        | cons => exact later.1
      exact ⟨(exact _ label after kept first fired).mp there,
        (ih (preserved _ label after kept fired) there).mp later⟩
    · intro obeys
      refine ⟨first, fun after fired => ?_⟩
      obtain ⟨met, later⟩ := obeys after fired
      have there := (exact _ label after kept first fired).mpr met
      exact (ih (preserved _ label after kept fired) there).mpr later

def Steps (next : State → Label → Option State) (lawful : State → Label → State → Prop) :
    State → List Label → Prop
  | _, [] => True
  | state, label :: labels =>
    ∀ after, next state label = some after →
      lawful state label after ∧ Steps next lawful after labels

theorem steps_iff_obeys {next : State → Label → Option State}
    {lawful : State → Label → State → Prop} {keeps : State → Prop} {ok : State → Label → Prop}
    (preserved : ∀ before label after, keeps before → ok before label →
      next before label = some after → keeps after)
    (exact : ∀ before label after, keeps before → next before label = some after →
      (lawful before label after ↔ ok before label))
    {state : State} (kept : keeps state) (labels : List Label) :
    Steps next lawful state labels ↔ Obeys next ok state labels := by
  induction labels generalizing state with
  | nil => exact Iff.rfl
  | cons label labels ih =>
    apply forall_congr'
    intro after
    apply imp_congr_right
    intro fired
    have step := exact state label after kept fired
    constructor
    · intro ⟨first, rest⟩
      have met := step.mp first
      exact ⟨met, (ih (preserved state label after kept met fired)).mp rest⟩
    · intro ⟨met, rest⟩
      exact ⟨step.mpr met, (ih (preserved state label after kept met fired)).mpr rest⟩

section Computed

variable (next : State → Label → Option State)

def alongCheck (holds : State → Prop) [∀ state, Decidable (holds state)] :
    State → List Label → Bool
  | state, [] => decide (holds state)
  | state, label :: labels =>
    match next state label with
    | none => decide (holds state)
    | some after => decide (holds state) && alongCheck holds after labels

def obeysCheck (ok : State → Label → Prop) [∀ state label, Decidable (ok state label)] :
    State → List Label → Bool
  | _, [] => true
  | state, label :: labels =>
    match next state label with
    | none => true
    | some after => decide (ok state label) && obeysCheck ok after labels

theorem alongCheck_iff {holds : State → Prop} [∀ state, Decidable (holds state)] {state : State}
    {labels : List Label} : alongCheck next holds state labels ↔ Along next holds state labels := by
  induction labels generalizing state with
  | nil => simp [alongCheck, Along]
  | cons label labels ih => cases fired : next state label <;> simp [alongCheck, Along, fired, ih]

theorem obeysCheck_iff {ok : State → Label → Prop} [∀ state label, Decidable (ok state label)]
    {state : State} {labels : List Label} :
    obeysCheck next ok state labels ↔ Obeys next ok state labels := by
  induction labels generalizing state with
  | nil => simp [obeysCheck, Obeys]
  | cons label labels ih => cases fired : next state label <;> simp [obeysCheck, Obeys, fired, ih]

instance {holds : State → Prop} [∀ state, Decidable (holds state)] {state : State}
    {labels : List Label} : Decidable (Along next holds state labels) :=
  decidable_of_iff _ (alongCheck_iff next)

instance {ok : State → Label → Prop} [∀ state label, Decidable (ok state label)] {state : State}
    {labels : List Label} : Decidable (Obeys next ok state labels) :=
  decidable_of_iff _ (obeysCheck_iff next)

end Computed

end Transition
