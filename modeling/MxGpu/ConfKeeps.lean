import MxGpu.ConfFile

/-!
The options that are kept in the file stay within their bounds whatever is read, given on the
command line or set.
-/

namespace MxGpu.Conf

def OptInfo.width (info : OptInfo) : Nat := if info.array then maxGpuNum else 1

structure Fits (o : ConfOpt) (st : OptState) : Prop where
  valid : ∀ i < o.info.width, validOpt o (st.value i) = true
  given : o.info.array = true → 0 < st.repeatValIdx ∧ st.repeatValIdx ≤ maxGpuNum

def InRange (s : Opts) : Prop := ∀ o : ConfOpt, o.info.persistent = true → Fits o (s o)

/-- States of the options: those after `gim_conf_init`, and those `gim_conf_set_opt` and
`set_array_value` lead to. -/
inductive Reachable : Opts → Prop
  | start (uninit : List Text → Int) (params : List Param) (file : Option Text) :
    Reachable (confInit uninit params file).opts
  | setOpt {s : Opts} (file : Option Text) (o : ConfOpt) (value : Int) (reachable : Reachable s) :
    Reachable (confSetOpt s file o value).2.1
  | setArray {s : Opts} (o : ConfOpt) (values : List (BitVec 32)) (some : values ≠ [])
    (reachable : Reachable s) : Reachable (s.setArrayValue o values)

variable {s : Opts} {o : ConfOpt} {st : OptState} {value : Int} {values : List Int}

theorem default_valid (persistent : o.info.persistent = true) :
    validOpt o o.info.defaultValue = true := by
  revert persistent
  cases o <;> decide

theorem max_valid (persistent : o.info.persistent = true) : validOpt o o.info.max = true := by
  revert persistent
  cases o <;> decide

theorem InRange.update (inRange : InRange s) (fits : o.info.persistent = true → Fits o st) :
    InRange (Function.update s o st) := by
  intro other persistent
  by_cases same : other = o
  · subst same
    rw [Function.update_self]
    exact fits persistent
  · rw [Function.update_of_ne same]
    exact inRange other persistent

theorem InRange.setConfOpt (inRange : InRange s)
    (valid : o.info.persistent = true → validOpt o value = true) :
    InRange (s.setConfOpt o value) := by
  apply inRange.update
  intro persistent
  constructor
  · intro i below
    by_cases first : i = 0
    · subst first
      simpa using valid persistent
    · dsimp only
      rw [Function.update_of_ne first]
      exact (inRange o persistent).valid i below
  · exact (inRange o persistent).given

theorem InRange.fill (inRange : InRange s)
    (valid : o.info.persistent = true → validOpt o value = true) : InRange (s.fill o value) := by
  unfold Opts.fill
  split
  · apply inRange.update
    intro persistent
    exact ⟨fun _ _ => valid persistent, (inRange o persistent).given⟩
  · exact inRange.setConfOpt valid

theorem InRange.foldl {f : Opts → ConfOpt → Opts} (step : ∀ s o, InRange s → InRange (f s o))
    (os : List ConfOpt) (inRange : InRange s) : InRange (os.foldl f s) := by
  induction os generalizing s with
  | nil => exact inRange
  | cons o os ih => exact ih (step s o inRange)

theorem InRange.fillDefault (inRange : InRange s) : InRange s.fillDefault :=
  InRange.foldl (fun _ _ inRange => inRange.fill default_valid) ConfOpt.all inRange

theorem InRange.initPersistConfig (inRange : InRange s) : InRange s.initPersistConfig := by
  apply InRange.foldl _ ConfOpt.all inRange
  intro s o inRange
  split
  · exact inRange.fill max_valid
  · exact inRange

theorem InRange.clearSavedPersistConfig (inRange : InRange s) (created : Bool) :
    InRange (s.clearSavedPersistConfig created) := by
  have unchanged : ∀ {s : Opts}, InRange s →
      InRange (Function.update s .vfNumber { s .vfNumber with changed := false }) := by
    intro s inRange
    apply inRange.update
    intro persistent
    exact ⟨(inRange _ persistent).valid, (inRange _ persistent).given⟩
  have cleared : ∀ {s : Opts}, InRange s → InRange (ConfOpt.all.foldl
      (fun s o =>
        if o ≠ .vfNumber ∧ o.info.persistent then s.fill o o.info.defaultValue else s) s) := by
    intro s inRange
    apply InRange.foldl _ ConfOpt.all inRange
    intro s o inRange
    split
    · exact inRange.fill default_valid
    · exact inRange
  unfold Opts.clearSavedPersistConfig
  cases created <;> simp only [Bool.false_eq_true, if_false, if_true] <;> split
  · exact unchanged (cleared inRange)
  · exact inRange
  · exact unchanged (cleared (unchanged inRange))
  · exact unchanged inRange

theorem given_valid (persistent : o.info.persistent = true)
    (valid : ∀ value ∈ values, validOpt o value = true) (i : Nat) :
    validOpt o (Opts.given o values i) = true := by
  unfold Opts.given
  rw [List.getD_eq_getElem?_getD]
  cases found : values[i]? with
  | some value => exact valid value (List.mem_of_getElem? found)
  | none =>
    cases last : values.getLast? with
    | some value => exact valid value (List.mem_of_getLast? last)
    | none => exact default_valid persistent

theorem tokenValue_valid (persistent : o.info.persistent = true) (token : Text) :
    validOpt o (Opts.tokenValue o token) = true := by
  unfold Opts.tokenValue
  split
  · split
    · assumption
    · exact default_valid persistent
  · exact default_valid persistent

theorem InRange.handleArrayToken (inRange : InRange s) (token : Text) (o : ConfOpt) :
    InRange (s.handleArrayToken token o) := by
  apply inRange.update
  intro persistent
  constructor
  · intro i _
    apply given_valid persistent
    intro value member
    obtain ⟨piece, -, rfl⟩ := List.mem_map.mp member
    exact tokenValue_valid persistent piece
  · intro _
    have some := List.length_pos_iff.mpr (List.splitOn_ne_nil 44 token)
    simp only [List.length_map, List.length_take]
    have room : 0 < maxGpuNum := by decide
    constructor
    · exact Nat.lt_min.mpr ⟨room, some⟩
    · exact Nat.min_le_left _ _

theorem InRange.setArrayValue (inRange : InRange s) {values : List (BitVec 32)}
    (some : values ≠ []) (o : ConfOpt) : InRange (s.setArrayValue o values) := by
  apply inRange.update
  intro persistent
  constructor
  · intro i _
    apply given_valid persistent
    intro value member
    obtain ⟨v, -, rfl⟩ := List.mem_map.mp member
    split
    · assumption
    · exact default_valid persistent
  · intro _
    have some := List.length_pos_iff.mpr some
    simp only [List.length_map, List.length_take]
    have room : 0 < maxGpuNum := by decide
    constructor
    · exact Nat.lt_min.mpr ⟨room, some⟩
    · exact Nat.min_le_left _ _

theorem InRange.setParam (inRange : InRange s) (param : Param) : InRange (s.setParam param) := by
  cases param with
  | array o values =>
    simp only [Opts.setParam]
    split
    · exact inRange
    · next some => exact inRange.setArrayValue some o
  | mode o value =>
    have valid : o.info.persistent = true → validOpt o
        (if validOpt o value.toInt then value.toInt else o.info.defaultValue) = true := by
      intro persistent
      split
      · assumption
      · exact default_valid persistent
    simp only [Opts.setParam]
    split
    · exact inRange
    · split
      · exact inRange.setConfOpt valid
      · apply inRange.update
        intro persistent
        exact ⟨fun _ _ => valid persistent, (inRange o persistent).given⟩

theorem InRange.parse (uninit : List Text → Int) (tokens : List Text) (inRange : InRange s) :
    InRange (parseConfFile uninit tokens s).opts := by
  fun_induction parseConfFile uninit tokens s with
  | case1 => exact inRange
  | case2 => exact inRange.fillDefault
  | case3 => exact inRange
  | case4 => exact inRange.fillDefault
  | case5 _ _ _ _ _ _ _ ih => exact ih (inRange.handleArrayToken _ _)
  | case6 => exact inRange.fillDefault
  | case7 _ _ _ _ _ _ _ value _ ih =>
    apply ih
    split
    · next valid => exact inRange.setConfOpt fun _ => valid
    · exact inRange

theorem inRange_defaults : InRange Opts.defaults := by
  intro o persistent
  cases o <;> simp only [ConfOpt.info, perGpu, single, Bool.false_eq_true] at persistent
  · exact ⟨fun _ _ => rfl, fun _ => by decide⟩
  all_goals
    constructor
    · intro i below
      rw [Nat.lt_one_iff.mp below]
      rfl
    · intro array
      cases array

theorem InRange.init (uninit : List Text → Int) (params : List Param) (file : Option Text) :
    InRange (confInit uninit params file).opts := by
  have given : ∀ {s : Opts}, InRange s → InRange (params.foldl Opts.setParam s) := by
    induction params with
    | nil => exact fun inRange => inRange
    | cons param params ih => exact fun inRange => ih (inRange.setParam param)
  cases file with
  | none => exact (given inRange_defaults.initPersistConfig).clearSavedPersistConfig true
  | some data => exact (given (inRange_defaults.parse uninit _)).clearSavedPersistConfig false

theorem Reachable.inRange (reachable : Reachable s) : InRange s := by
  induction reachable with
  | start uninit params file => exact InRange.init uninit params file
  | @setOpt s file o value _ ih =>
    unfold confSetOpt
    split
    · next valid => exact ih.setConfOpt fun _ => valid
    · exact ih
  | setArray o values some _ ih => exact ih.setArrayValue some o

end MxGpu.Conf
