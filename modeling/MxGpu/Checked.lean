/- Programs over a state that may stop, and machines that take one step after another. Nothing here
knows the state. -/
namespace Checked

section Programs

variable {State Stop Result Result' : Type}

abbrev Prog (State Stop Result : Type) := StateT State (Except Stop) Result

/-- From a kept state the program ends in a kept state with a result that meets `post`, or stops
in a way that is allowed. -/
def Holds (allowed : Stop → Prop) (keeps : State → Prop) (prog : Prog State Stop Result)
    (post : Result → Prop) : Prop :=
  ∀ state, keeps state →
    match prog state with
    | .ok (result, after) => keeps after ∧ post result
    | .error stop => allowed stop

variable {allowed : Stop → Prop} {keeps : State → Prop} {post : Result → Prop}

theorem Holds.pure {result : Result} (meets : post result) :
    Holds allowed keeps (pure result) post := fun _ kept => ⟨kept, meets⟩

theorem Holds.stop {stop : Stop} (allows : allowed stop) :
    Holds allowed keeps (fun _ => .error stop : Prog State Stop Result) post := fun _ _ => allows

theorem Holds.bind {prog : Prog State Stop Result} {next : Result → Prog State Stop Result'}
    {post' : Result' → Prop} (first : Holds allowed keeps prog post)
    (rest : ∀ result, post result → Holds allowed keeps (next result) post') :
    Holds allowed keeps (prog >>= next) post' := by
  intro state kept
  have ran := first state kept
  show match (do let (result, after) ← prog state; next result after : Except Stop _) with
    | .ok (result, after) => keeps after ∧ post' result
    | .error stop => allowed stop
  cases done : prog state with
  | error stop =>
    rw [done] at ran
    exact ran
  | ok pair =>
    obtain ⟨result, after⟩ := pair
    rw [done] at ran
    exact rest result ran.2 after ran.1

theorem Holds.weaken {prog : Prog State Stop Result} {post' : Result → Prop}
    (holds : Holds allowed keeps prog post) (weaker : ∀ result, post result → post' result) :
    Holds allowed keeps prog post' := by
  intro state kept
  have ran := holds state kept
  cases done : prog state with
  | error stop =>
    rw [done] at ran
    exact ran
  | ok pair =>
    rw [done] at ran
    exact ⟨ran.1, weaker _ ran.2⟩

theorem Holds.ite {prog prog' : Prog State Stop Result} {c : Prop} [Decidable c]
    (yes : c → Holds allowed keeps prog post) (no : ¬c → Holds allowed keeps prog' post) :
    Holds allowed keeps (if c then prog else prog') post := by
  split
  · next holds => exact yes holds
  · next fails => exact no fails

theorem Holds.read {next : State → Prog State Stop Result}
    (rest : ∀ state, keeps state → Holds allowed keeps (next state) post) :
    Holds allowed keeps (get >>= next) post := fun state kept => rest state kept state kept

theorem Holds.step {f : State → Result × State}
    (rest : ∀ state, keeps state → keeps (f state).2 ∧ post (f state).1) :
    Holds allowed keeps (fun state => .ok (f state) : Prog State Stop Result) post :=
  fun state kept => rest state kept

end Programs

section Machines

variable {Machine : Type} (step : Machine → Machine)

/-- The machine after `n` steps. -/
def steps : Nat → Machine → Machine
  | 0, m => m
  | n + 1, m => step (steps n m)

variable {step} {keeps sound meets : Machine → Prop}

/-- If a sound machine stays sound exactly in the steps that meet a condition, then a run is sound
all along exactly when all its steps meet the condition. -/
theorem sound_iff_meets (tells : ∀ m, keeps m → sound m)
    (one : ∀ m, keeps m → meets m → keeps (step m))
    (breaks : ∀ m, keeps m → ¬meets m → ¬sound (step m))
    {m : Machine} (first : keeps m) (n : Nat) :
    (∀ k ≤ n, sound (steps step k m)) ↔ ∀ k < n, meets (steps step k m) := by
  have kept : ∀ n, (∀ k < n, meets (steps step k m)) → keeps (steps step n m) := by
    intro n
    induction n with
    | zero => exact fun _ => first
    | succ n ih =>
      intro all
      exact one _ (ih fun k below => all k (Nat.lt_succ_of_lt below)) (all n (Nat.lt_succ_self n))
  constructor
  · intro all k
    induction k using Nat.strongRecOn with
    | ind k ih =>
      intro below
      have earlier := kept k fun j less => ih j less (Nat.lt_trans less below)
      apply Classical.byContradiction
      intro fails
      exact breaks _ earlier fails (all (k + 1) below)
  · intro all k below
    exact tells _ (kept k fun j less => all j (Nat.lt_of_lt_of_le less below))

end Machines

end Checked
