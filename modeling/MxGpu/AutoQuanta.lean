import Mathlib.Algebra.GroupWithZero.Nat
import Mathlib.Data.List.Basic

/- The automatic world switch: the four quanta that the hardware schedulers choose from, and
the index of the one that each function gets. -/
namespace MxGpu.Quanta

/-- What the schedulers of one world switch have: `option` is the adapter's
`time_quanta_option` of their block, `programmed` the one they were given last, and `index` the
`time_quanta_index` of each function. -/
structure AutoSwitch where
  option : BitVec 32
  programmed : BitVec 32
  index : Nat → Option Nat

/-- The slice of a function in microseconds, and `GET_GFX_TIME_SLICE` where the block is
`AMDGV_SCHED_BLOCK_GFX` and there is `setup_vf_timeslice`. -/
structure VfSlice where
  timeSlice : BitVec 32
  gfxTimeSlice : Option (BitVec 32)

def VfSlice.ms (slice : VfSlice) : Nat := slice.timeSlice.toNat / 1000

/-- `vf_quanta`. -/
def VfSlice.quanta (slice : VfSlice) : BitVec 8 :=
  (slice.gfxTimeSlice.getD slice.timeSlice / 1000).setWidth 8

/-- The search for `vf_quanta_index`, with what is left of the word. -/
def findIndex (vfQuanta : BitVec 8) : Nat → Nat → BitVec 32 → Option Nat × BitVec 32
  | 0, _, option => (none, option)
  | turns + 1, i, option =>
    if vfQuanta ≤ (option &&& 0xff).setWidth 8 then (some i, option >>> 8)
    else findIndex vfQuanta turns (i + 1) (option >>> 8)

/-- The index for a function, and the word that it is an index into. -/
def selectIndex (option : BitVec 32) (slice : VfSlice) : Nat × BitVec 32 :=
  if slice.timeSlice = 0 then (0, option)
  else if slice.quanta = 0 then (0, option)
  else
    match findIndex slice.quanta 4 0 option with
    | (some index, _) => (index, option)
    | (none, rest) => (3, rest &&& 0x00ffffff#32 ||| slice.quanta.setWidth 32 <<< 24)

/-- `amdgv_sched_auto_switch_add_vf`, as far as the quanta go. -/
def AutoSwitch.addVf (s : AutoSwitch) (idxVf : Nat) (slice : VfSlice) : AutoSwitch :=
  let (index, option) := selectIndex s.option slice
  { option
    programmed := if s.programmed ≠ option then option else s.programmed
    index := Function.update s.index idxVf (some index) }

def AutoSwitch.addVfs (s : AutoSwitch) (adds : List (Nat × VfSlice)) : AutoSwitch :=
  adds.foldl (fun s add => s.addVf add.1 add.2) s

def quantum (option : BitVec 32) (index : Nat) : Nat := ((option >>> (8 * index)).setWidth 8).toNat

/-- The function that is added has a quantum of its slice at least, and the quanta at the other
indexes are what they were. -/
structure Serves (s : AutoSwitch) (idxVf : Nat) (slice : VfSlice) : Prop where
  served : ∀ i, (s.addVf idxVf slice).index idxVf = some i →
    i < 4 ∧ (slice.ms ≤ 255 → slice.ms ≤ quantum (s.addVf idxVf slice).programmed i)
  unchanged : ∀ j < 4, (s.addVf idxVf slice).index idxVf ≠ some j →
    quantum (s.addVf idxVf slice).option j = quantum s.option j

/-- There is no quantum to store: the function needs none, or one that is there is enough. -/
def Stays (option : BitVec 32) (slice : VfSlice) : Prop :=
  slice.timeSlice = 0 ∨ slice.quanta = 0 ∨ ∃ j < 4, slice.quanta.toNat ≤ quantum option j

/-- The quantum that fits `vf_quanta`: the first one that is enough, or itself. -/
def fitting (option : BitVec 32) (slice : VfSlice) : Nat :=
  if slice.quanta = 0 then quantum option 0
  else
    match (List.range 4).find? fun j => slice.quanta.toNat ≤ quantum option j with
    | some j => quantum option j
    | none => slice.quanta.toNat

def Spares (s : AutoSwitch) (idxVf : Nat) (slice : VfSlice) : Prop :=
  Stays s.option slice ∨ ∀ v i, v ≠ idxVf → s.index v = some i → i ≠ 3 ∧ quantum s.option i = 0

def AllSpare : AutoSwitch → List (Nat × VfSlice) → Prop
  | _, [] => True
  | s, add :: adds => Spares s add.1 add.2 ∧ AllSpare (s.addVf add.1 add.2) adds

variable {s : AutoSwitch} {option rest : BitVec 32} {slice : VfSlice} {vfQuanta : BitVec 8}
  {i j turns idxVf : Nat}

theorem quantum_zero (option : BitVec 32) :
    quantum option 0 = ((option &&& 0xff).setWidth 8).toNat := by
  unfold quantum
  have hmask : (option &&& 0xff).toNat = option.toNat % 2 ^ 8 := by
    rw [BitVec.toNat_and]
    exact Nat.and_two_pow_sub_one_eq_mod _ 8
  simp only [Nat.mul_zero, BitVec.ushiftRight_zero, BitVec.toNat_setWidth, hmask, Nat.mod_mod]

theorem quantum_shift (option : BitVec 32) (j : Nat) :
    quantum (option >>> 8) j = quantum option (j + 1) := by
  unfold quantum
  rw [← BitVec.shiftRight_add]
  congr 3
  omega

theorem findIndex_spec (vfQuanta : BitVec 8) (turns i : Nat) (option : BitVec 32) :
    (∃ j < turns, (findIndex vfQuanta turns i option).1 = some (i + j) ∧
      vfQuanta.toNat ≤ quantum option j ∧ ∀ k < j, quantum option k < vfQuanta.toNat) ∨
    (findIndex vfQuanta turns i option = (none, option >>> (8 * turns)) ∧
      ∀ k < turns, quantum option k < vfQuanta.toNat) := by
  induction turns generalizing i option with
  | zero =>
    apply Or.inr
    refine ⟨?_, fun k hk => absurd hk (Nat.not_lt_zero k)⟩
    simp [findIndex]
  | succ turns ih =>
    unfold findIndex
    split
    · next hfits =>
      apply Or.inl
      refine ⟨0, Nat.succ_pos _, rfl, ?_, fun k hk => absurd hk (Nat.not_lt_zero k)⟩
      rw [quantum_zero]
      exact hfits
    · next hshort =>
      have hfirst : quantum option 0 < vfQuanta.toNat := by
        rw [quantum_zero]
        exact Nat.lt_of_not_le hshort
      rcases ih (i + 1) (option >>> 8) with ⟨j, hj, hfound, henough, hbelow⟩ | ⟨hnone, hbelow⟩
      · apply Or.inl
        refine ⟨j + 1, by omega, by rw [hfound]; congr 1; omega, ?_, ?_⟩
        · rw [← quantum_shift]
          exact henough
        · intro k hk
          cases k with
          | zero => exact hfirst
          | succ k =>
            rw [← quantum_shift]
            exact hbelow k (by omega)
      · apply Or.inr
        refine ⟨?_, ?_⟩
        · rw [hnone, ← BitVec.shiftRight_add]
          congr 2
          omega
        · intro k hk
          cases k with
          | zero => exact hfirst
          | succ k =>
            rw [← quantum_shift]
            exact hbelow k (by omega)

theorem shifted_out (option : BitVec 32) : option >>> (8 * 4) = 0 := by
  apply BitVec.eq_of_toNat_eq
  have hlt := option.isLt
  rw [BitVec.toNat_ushiftRight, Nat.shiftRight_eq_div_pow]
  exact Nat.div_eq_of_lt hlt

theorem quantum_last (vfQuanta : BitVec 8) (j : Nat) :
    quantum ((0 : BitVec 32) &&& 0x00ffffff#32 ||| vfQuanta.setWidth 32 <<< 24) j =
      if j = 3 then vfQuanta.toNat else 0 := by
  have hlt := vfQuanta.isLt
  have hword : ((0 : BitVec 32) &&& 0x00ffffff#32 ||| vfQuanta.setWidth 32 <<< 24).toNat =
      vfQuanta.toNat * 2 ^ 24 := by
    simp only [BitVec.ofNat_eq_ofNat, BitVec.zero_and, BitVec.zero_or, BitVec.toNat_shiftLeft,
      BitVec.toNat_setWidth, Nat.shiftLeft_eq]
    omega
  unfold quantum
  rw [BitVec.toNat_setWidth, BitVec.toNat_ushiftRight, Nat.shiftRight_eq_div_pow, hword]
  split
  · next hlast =>
    subst hlast
    omega
  · next hother =>
    rcases Nat.lt_or_ge j 3 with hlow | hhigh
    · have hcases : j = 0 ∨ j = 1 ∨ j = 2 := by omega
      rcases hcases with rfl | rfl | rfl <;> omega
    · have hpow : 2 ^ 32 ≤ 2 ^ (8 * j) := Nat.pow_le_pow_right (by decide) (by omega)
      have hsmall : vfQuanta.toNat * 2 ^ 24 < 2 ^ (8 * j) := by omega
      rw [Nat.div_eq_of_lt hsmall]

theorem selectIndex_cases (option : BitVec 32) (slice : VfSlice) :
    (Stays option slice ∧ (selectIndex option slice).2 = option ∧
      (selectIndex option slice).1 < 4 ∧
      (slice.timeSlice ≠ 0 → quantum option (selectIndex option slice).1 = fitting option slice)) ∨
    (¬Stays option slice ∧ (selectIndex option slice).1 = 3 ∧
      (∀ j, quantum (selectIndex option slice).2 j = if j = 3 then slice.quanta.toNat else 0) ∧
      fitting option slice = slice.quanta.toNat) := by
  unfold selectIndex fitting
  split
  · next hnone => exact Or.inl ⟨Or.inl hnone, rfl, Nat.succ_pos 3, fun hsome => absurd hnone hsome⟩
  · next hsome =>
    split
    · next hnone => exact Or.inl ⟨Or.inr (Or.inl hnone), rfl, Nat.succ_pos 3, fun _ => rfl⟩
    · next hquanta =>
      rcases findIndex_spec slice.quanta 4 0 option with
        ⟨j, hj, hfound, henough, hbelow⟩ | ⟨hnone, hbelow⟩
      · apply Or.inl
        have hfirst : (List.range 4).find? (fun j => slice.quanta.toNat ≤ quantum option j) =
            some j := by
          apply List.find?_range_eq_some.mpr
          refine ⟨by simpa using henough, List.mem_range.mpr hj, fun k hk => ?_⟩
          have hlt := hbelow k hk
          simp only [Bool.not_eq_eq_eq_not, Bool.not_true, decide_eq_false_iff_not]
          omega
        have hindex : (findIndex slice.quanta 4 0 option).1 = some j := by
          rw [hfound, Nat.zero_add]
        rw [hfirst]
        generalize findIndex slice.quanta 4 0 option = found at hindex
        obtain ⟨index, rest⟩ := found
        dsimp only at hindex
        subst hindex
        exact ⟨Or.inr (Or.inr ⟨j, hj, henough⟩), rfl, hj, fun _ => rfl⟩
      · apply Or.inr
        have hall : (List.range 4).find? (fun j => slice.quanta.toNat ≤ quantum option j) =
            none := by
          apply List.find?_eq_none.mpr
          intro j hj
          have hlt := hbelow j (List.mem_range.mp hj)
          simp only [decide_eq_true_eq]
          omega
        rw [hall, hnone]
        refine ⟨?_, rfl, fun j => ?_, rfl⟩
        · rintro (hzero | hzero | ⟨j, hj, henough⟩)
          · exact hsome hzero
          · exact hquanta hzero
          · have hlt := hbelow j hj
            omega
        · rw [shifted_out]
          exact quantum_last slice.quanta j

theorem ms_le_fitting (hown : slice.gfxTimeSlice = none) (hms : slice.ms ≤ 255) :
    slice.ms ≤ fitting option slice := by
  have hquanta : slice.quanta.toNat = slice.ms := by
    unfold VfSlice.quanta VfSlice.ms at *
    rw [hown, Option.getD_none, BitVec.toNat_setWidth, BitVec.toNat_udiv]
    show slice.timeSlice.toNat / 1000 % 256 = slice.timeSlice.toNat / 1000
    omega
  unfold fitting
  split
  · next hzero =>
    rw [hzero] at hquanta
    rw [← hquanta]
    exact Nat.zero_le _
  · split
    · next j hfound =>
      have henough := List.find?_some hfound
      rw [decide_eq_true_eq] at henough
      omega
    · omega

theorem ms_eq_zero (h : slice.timeSlice = 0) : slice.ms = 0 := by
  unfold VfSlice.ms
  rw [h]
  rfl

theorem addVf_option (idxVf : Nat) :
    (s.addVf idxVf slice).option = (selectIndex s.option slice).2 := rfl

theorem addVf_index (idxVf : Nat) :
    (s.addVf idxVf slice).index idxVf = some (selectIndex s.option slice).1 :=
  Function.update_self ..

theorem addVf_index_of_ne {v : Nat} (hv : v ≠ idxVf) :
    (s.addVf idxVf slice).index v = s.index v := Function.update_of_ne hv ..

theorem addVf_programmed (idxVf : Nat) :
    (s.addVf idxVf slice).programmed = (selectIndex s.option slice).2 := by
  show (if s.programmed ≠ (selectIndex s.option slice).2 then (selectIndex s.option slice).2
    else s.programmed) = _
  split
  · rfl
  · next hsame => exact not_not.mp hsame

theorem serves_iff : Serves s idxVf slice ↔
    (Stays s.option slice ∨ ∀ j < 3, quantum s.option j = 0) ∧
      (slice.gfxTimeSlice = none ∨ 255 < slice.ms ∨ slice.ms ≤ fitting s.option slice) := by
  have hfits : (slice.gfxTimeSlice = none ∨ 255 < slice.ms ∨ slice.ms ≤ fitting s.option slice) ↔
      (slice.ms ≤ 255 → slice.ms ≤ fitting s.option slice) := by
    constructor
    · rintro (hown | hlong | hfitting) hms
      · exact ms_le_fitting hown hms
      · omega
      · exact hfitting
    · intro hfitting
      by_cases hms : slice.ms ≤ 255
      · exact Or.inr (Or.inr (hfitting hms))
      · exact Or.inr (Or.inl (by omega))
  rw [hfits]
  rcases selectIndex_cases s.option slice with
    ⟨hstays, hword, hindex, hquantum⟩ | ⟨hstores, hindex, hword, hfitting⟩
  · constructor
    · intro hserves
      refine ⟨Or.inl hstays, fun hms => ?_⟩
      by_cases hslice : slice.timeSlice = 0
      · rw [ms_eq_zero hslice]
        exact Nat.zero_le _
      · have hserved := (hserves.served _ (addVf_index idxVf)).2 hms
        rwa [addVf_programmed, hword, hquantum hslice] at hserved
    · rintro ⟨-, hfitting⟩
      constructor
      · intro i hi
        rw [addVf_index, Option.some.injEq] at hi
        subst hi
        refine ⟨hindex, fun hms => ?_⟩
        rw [addVf_programmed, hword]
        by_cases hslice : slice.timeSlice = 0
        · rw [ms_eq_zero hslice]
          exact Nat.zero_le _
        · rw [hquantum hslice]
          exact hfitting hms
      · intro j _ _
        rw [addVf_option, hword]
  · rw [hfitting]
    constructor
    · intro hserves
      constructor
      · apply Or.inr
        intro j hj
        have hother : (s.addVf idxVf slice).index idxVf ≠ some j := by
          rw [addVf_index, hindex, Ne, Option.some.injEq]
          omega
        have hsame := hserves.unchanged j (by omega) hother
        rw [addVf_option, hword, if_neg (by omega)] at hsame
        exact hsame.symm
      · intro hms
        have hserved := (hserves.served _ (addVf_index idxVf)).2 hms
        rwa [addVf_programmed, hword, if_pos hindex] at hserved
    · rintro ⟨hzero, hquanta⟩
      constructor
      · intro i hi
        rw [addVf_index, Option.some.injEq] at hi
        subst hi
        refine ⟨by omega, fun hms => ?_⟩
        rw [addVf_programmed, hword, if_pos hindex]
        exact hquanta hms
      · intro j hj hother
        rw [addVf_index, hindex, Ne, Option.some.injEq] at hother
        rw [addVf_option, hword, if_neg (by omega)]
        exact (hzero.resolve_left hstores j (by omega)).symm

theorem spares_iff : Spares s idxVf slice ↔
    ∀ v i, v ≠ idxVf → s.index v = some i →
      quantum (s.addVf idxVf slice).option i = quantum s.option i := by
  rcases selectIndex_cases s.option slice with
    ⟨hstays, hword, -, -⟩ | ⟨hstores, -, hword, -⟩
  · constructor
    · intro _ v i _ _
      rw [addVf_option, hword]
    · intro _
      exact Or.inl hstays
  · constructor
    · intro hspares v i hv hi
      obtain ⟨hlast, hzero⟩ := hspares.resolve_left hstores v i hv hi
      rw [addVf_option, hword, if_neg hlast, hzero]
    · intro hsame
      apply Or.inr
      intro v i hv hi
      have hquantum := hsame v i hv hi
      rw [addVf_option, hword] at hquantum
      by_cases hlast : i = 3
      · -- what is stored there is more than what was there
        exfalso
        rw [if_pos hlast, hlast] at hquantum
        exact hstores (Or.inr (Or.inr ⟨3, by decide, Nat.le_of_eq hquantum⟩))
      · rw [if_neg hlast] at hquantum
        exact ⟨hlast, hquantum.symm⟩

theorem addVfs_keep {adds : List (Nat × VfSlice)} (hspare : AllSpare s adds) {v i : Nat}
    (hv : v ∉ adds.map Prod.fst) (hi : s.index v = some i) :
    (s.addVfs adds).index v = some i ∧
      quantum (s.addVfs adds).option i = quantum s.option i := by
  induction adds generalizing s with
  | nil => exact ⟨hi, rfl⟩
  | cons add adds ih =>
    rw [List.map_cons, List.mem_cons, not_or] at hv
    have hnext : (s.addVf add.1 add.2).index v = some i := by
      rw [addVf_index_of_ne hv.1, hi]
    obtain ⟨hindex, hquantum⟩ := ih hspare.2 hv.2 hnext
    refine ⟨hindex, hquantum.trans ?_⟩
    exact spares_iff.mp hspare.1 v i hv.1 hi

/-- Adding a function gives it a quantum of its slice at least and leaves the others as they
are exactly when no quantum has to be stored or the three that are lost are zero; and functions
that spare those before them leave these their quanta, however many are added. -/
theorem quanta_kept (s : AutoSwitch) :
    (∀ idxVf slice, Serves s idxVf slice ↔
      (Stays s.option slice ∨ ∀ j < 3, quantum s.option j = 0) ∧
        (slice.gfxTimeSlice = none ∨ 255 < slice.ms ∨ slice.ms ≤ fitting s.option slice)) ∧
    (∀ idxVf slice, Spares s idxVf slice ↔
      ∀ v i, v ≠ idxVf → s.index v = some i →
        quantum (s.addVf idxVf slice).option i = quantum s.option i) ∧
    ∀ adds, AllSpare s adds → ∀ v i, v ∉ adds.map Prod.fst → s.index v = some i →
      (s.addVfs adds).index v = some i ∧
        quantum (s.addVfs adds).option i = quantum s.option i :=
  ⟨fun _ _ => serves_iff, fun _ _ => spares_iff, fun _ hspare _ _ hv hi =>
    addVfs_keep hspare hv hi⟩

/-- 20 ms, when the quanta are 1, 2, 4 and 8 ms: the first three are zero after that. -/
theorem quanta_lost : ¬∀ s idxVf slice, Serves s idxVf slice := by
  intro h
  have hserves := h ⟨0x08040201, 0x08040201, fun _ => none⟩ 0 ⟨20000, none⟩
  have hsame := hserves.unchanged 0 (by decide) (by decide)
  revert hsame
  decide

end MxGpu.Quanta
