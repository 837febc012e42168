/- Programs that perform operations on a state one after another and decide by the
state and by what each operation replies. Nothing here knows the operations. -/
namespace Scripts

/-- A program over operations: finished, going on for ever, reading the state, or
performing an operation and going on by its reply. -/
inductive Script (State Op Reply Result : Type) : Type
  | done (result : Result)
  | stuck
  | look (next : State → Script State Op Reply Result)
  | act (op : Op) (next : Reply → Script State Op Reply Result)

namespace Script

variable {State Op Reply Result Result' : Type}

def bind : Script State Op Reply Result → (Result → Script State Op Reply Result') →
    Script State Op Reply Result'
  | .done result, next => next result
  | .stuck, _ => .stuck
  | .look rest, next => .look fun state => (rest state).bind next
  | .act op rest, next => .act op fun reply => (rest reply).bind next

instance : Monad (Script State Op Reply) where
  pure := .done
  bind := .bind

def get : Script State Op Reply State := .look .done

/-- A value that may be missing because the walk for it does not end. -/
def ofOption : Option Result → Script State Op Reply Result
  | some result => .done result
  | none => .stuck

section Execution

variable (step : State → Op → Option (State × Reply))

def exec : Script State Op Reply Result → State → Option (State × Result)
  | .done result, state => some (state, result)
  | .stuck, _ => none
  | .look next, state => (next state).exec state
  | .act op next, state =>
    match step state op with
    | none => none
    | some (after, reply) => (next reply).exec after

/-- Every operation that the run performs meets the condition where it is performed. -/
def Meets (ok : State → Op → Prop) : Script State Op Reply Result → State → Prop
  | .done _, _ => True
  | .stuck, _ => True
  | .look next, state => (next state).Meets ok state
  | .act op next, state =>
    ok state op ∧ ∀ after reply, step state op = some (after, reply) → (next reply).Meets ok after

/-- Whether a run meets a condition can be computed when the condition can. -/
instance decidableMeets (ok : State → Op → Prop) [∀ state op, Decidable (ok state op)] :
    (script : Script State Op Reply Result) → (state : State) →
      Decidable (script.Meets step ok state)
  | .done _, _ => isTrue trivial
  | .stuck, _ => isTrue trivial
  | .look next, state => decidableMeets ok (next state) state
  | .act op next, state =>
    match ran : step state op with
    | none => decidable_of_iff (ok state op) (by simp [Meets, ran])
    | some (after, reply) =>
      have := decidableMeets ok (next reply) after
      decidable_of_iff (ok state op ∧ (next reply).Meets step ok after) (by simp [Meets, ran])

variable {step}

theorem meets_of_forall {ok : State → Op → Prop} (all : ∀ state op, ok state op)
    (script : Script State Op Reply Result) (state : State) : script.Meets step ok state := by
  induction script generalizing state with
  | done _ => trivial
  | stuck => trivial
  | look next ih => exact ih state state
  | act op next ih => exact ⟨all state op, fun after reply _ => ih reply after⟩

theorem meets_weaken {ok ok' : State → Op → Prop} (weaker : ∀ state op, ok state op → ok' state op)
    (script : Script State Op Reply Result) (state : State)
    (meets : script.Meets step ok state) : script.Meets step ok' state := by
  induction script generalizing state with
  | done _ => trivial
  | stuck => trivial
  | look next ih => exact ih state state meets
  | act op next ih =>
    exact ⟨weaker state op meets.1, fun after reply done =>
      ih reply after (meets.2 after reply done)⟩

theorem exec_preserves {ok : State → Op → Prop} (keeps : State → Prop)
    (preserved : ∀ before op after reply, keeps before → ok before op →
      step before op = some (after, reply) → keeps after)
    (script : Script State Op Reply Result) {before after : State} {result : Result}
    (first : keeps before) (meets : script.Meets step ok before)
    (ran : script.exec step before = some (after, result)) : keeps after := by
  induction script generalizing before with
  | done _ =>
    obtain ⟨rfl, _⟩ := Prod.mk.inj (Option.some.inj ran)
    exact first
  | stuck => cases ran
  | look next ih => exact ih before first meets ran
  | act op next ih =>
    obtain ⟨met, rest⟩ := meets
    simp only [exec] at ran
    cases done : step before op with
    | none => simp [done] at ran
    | some pair =>
      obtain ⟨middle, reply⟩ := pair
      rw [done] at ran
      exact ih reply (preserved before op middle reply first met done) (rest middle reply done) ran

end Execution

end Script

end Scripts
