import Mathlib.Data.List.Nodup
import Mathlib.Data.List.Pairwise
import Mathlib.Data.Nat.Bitwise

/- Fields whose bits are scattered over a word. A field is the list of the positions of its bits,
the lowest first. -/
namespace BitFields

def gather (positions : List Nat) (word : Nat) : Nat :=
  match positions with
  | [] => 0
  | position :: rest => Nat.bit (word.testBit position) (gather rest word)

/-- The word with a value in the field; a position that is listed twice gets both bits. -/
def scatter (positions : List Nat) (value : Nat) : Nat :=
  match positions with
  | [] => 0
  | position :: rest => (value.testBit 0).toNat <<< position ||| scatter rest (value >>> 1)

section Bits

variable {positions : List Nat} {word value : Nat}

theorem testBit_gather (positions : List Nat) (word i : Nat) :
    (gather positions word).testBit i = positions[i]?.any word.testBit := by
  induction positions generalizing i with
  | nil => simp [gather]
  | cons position rest ih =>
    cases i with
    | zero => simp [gather]
    | succ i => simp [gather, Nat.testBit_bit_succ, ih]

theorem gather_lt (positions : List Nat) (word : Nat) :
    gather positions word < 2 ^ positions.length := by
  induction positions with
  | nil => exact Nat.one_pos
  | cons position rest ih =>
    rw [List.length_cons, Nat.pow_succ, gather, Nat.bit_val]
    have bit := Bool.toNat_lt (word.testBit position)
    omega

theorem testBit_toNat_shiftLeft (bit : Bool) (position j : Nat) :
    (bit.toNat <<< position).testBit j = (decide (j = position) && bit) := by
  rw [Nat.testBit_shiftLeft]
  rcases Nat.lt_trichotomy j position with below | rfl | above
  · simp [Nat.not_le_of_lt below, Nat.ne_of_lt below]
  · cases bit <;> simp
  · have high : (bit.toNat).testBit (j - position) = false := by
      apply Nat.testBit_lt_two_pow
      calc bit.toNat < 2 := Bool.toNat_lt bit
        _ = 2 ^ 1 := rfl
        _ ≤ 2 ^ (j - position) := Nat.pow_le_pow_right (by decide) (Nat.sub_pos_of_lt above)
    simp [high, Nat.ne_of_gt above]

theorem testBit_scatter (positions : List Nat) (value j : Nat) :
    (scatter positions value).testBit j = true ↔
      ∃ i, positions[i]? = some j ∧ value.testBit i = true := by
  induction positions generalizing value with
  | nil => simp [scatter]
  | cons position rest ih =>
    rw [scatter, Nat.testBit_or, testBit_toNat_shiftLeft, Bool.or_eq_true, ih]
    constructor
    · rintro (first | ⟨i, there, bit⟩)
      · obtain ⟨same, bit⟩ := Bool.and_eq_true_iff.mp first
        exact ⟨0, congrArg some (of_decide_eq_true same).symm, bit⟩
      · rw [Nat.testBit_shiftRight, Nat.add_comm] at bit
        exact ⟨i + 1, there, bit⟩
    · rintro ⟨i, there, bit⟩
      cases i with
      | zero =>
        left
        rw [bit, decide_eq_true (Option.some.inj there).symm]
        rfl
      | succ i =>
        right
        refine ⟨i, there, ?_⟩
        rw [Nat.testBit_shiftRight, Nat.add_comm]
        exact bit

theorem eq_of_scatter_eq {value' : Nat} (used : Nat → Prop)
    (once : ∀ i i' j, used i → used i' → positions[i]? = some j → positions[i']? = some j → i = i')
    (here : ∀ i, value.testBit i = true → used i ∧ i < positions.length)
    (here' : ∀ i, value'.testBit i = true → used i ∧ i < positions.length)
    (same : scatter positions value = scatter positions value') : value = value' := by
  have into {a b : Nat} (ha : ∀ i, a.testBit i = true → used i ∧ i < positions.length)
      (hb : ∀ i, b.testBit i = true → used i ∧ i < positions.length)
      (words : scatter positions a = scatter positions b) (i : Nat) (bit : a.testBit i = true) :
      b.testBit i = true := by
    obtain ⟨use, small⟩ := ha i bit
    have there := List.getElem?_eq_getElem small
    have word := (testBit_scatter positions a positions[i]).mpr ⟨i, there, bit⟩
    rw [words] at word
    obtain ⟨i', there', bit'⟩ := (testBit_scatter positions b positions[i]).mp word
    rwa [once i i' _ use (hb i' bit').1 there there']
  apply Nat.eq_of_testBit_eq
  intro i
  rw [Bool.eq_iff_iff]
  exact ⟨into here here' same i, into here' here same.symm i⟩

theorem testBit_scatter_of_not_mem {j : Nat} (outside : j ∉ positions) :
    (scatter positions value).testBit j = false := by
  rw [Bool.eq_false_iff]
  intro bit
  obtain ⟨i, there, -⟩ := (testBit_scatter positions value j).mp bit
  exact outside (List.mem_of_getElem? there)

theorem testBit_scatter_getElem (nodup : positions.Nodup) {i j : Nat}
    (there : positions[i]? = some j) : (scatter positions value).testBit j = value.testBit i := by
  rw [Bool.eq_iff_iff, testBit_scatter]
  constructor
  · rintro ⟨k, again, bit⟩
    obtain ⟨less, _⟩ := List.getElem?_eq_some_iff.mp there
    have same : i = k := (List.getElem?_inj less nodup).mp (there.trans again.symm)
    rwa [same]
  · intro bit
    exact ⟨i, there, bit⟩

theorem gather_scatter (nodup : positions.Nodup) (small : value < 2 ^ positions.length) :
    gather positions (scatter positions value) = value := by
  apply Nat.eq_of_testBit_eq
  intro i
  rw [testBit_gather]
  cases there : positions[i]? with
  | none =>
    have high : positions.length ≤ i := List.getElem?_eq_none_iff.mp there
    have less : value < 2 ^ i :=
      Nat.lt_of_lt_of_le small (Nat.pow_le_pow_right (by decide) high)
    rw [Nat.testBit_lt_two_pow less]
    rfl
  | some j => exact testBit_scatter_getElem nodup there

theorem testBit_scatter_gather (nodup : positions.Nodup) (word j : Nat) :
    (scatter positions (gather positions word)).testBit j =
      (decide (j ∈ positions) && word.testBit j) := by
  by_cases listed : j ∈ positions
  · obtain ⟨i, less, there⟩ := List.getElem_of_mem listed
    have there' : positions[i]? = some j := List.getElem?_eq_some_iff.mpr ⟨less, there⟩
    rw [testBit_scatter_getElem nodup there', testBit_gather, there', decide_eq_true listed]
    rfl
  · rw [testBit_scatter_of_not_mem listed, decide_eq_false listed]
    rfl

theorem gather_congr {word' : Nat}
    (same : ∀ position ∈ positions, word.testBit position = word'.testBit position) :
    gather positions word = gather positions word' := by
  apply Nat.eq_of_testBit_eq
  intro i
  rw [testBit_gather, testBit_gather]
  cases there : positions[i]? with
  | none => rfl
  | some j => exact same j (List.mem_of_getElem? there)

end Bits

section Fields

def assemble (fields : List (List Nat × Nat)) : Nat :=
  fields.foldr (fun field word => scatter field.1 field.2 ||| word) 0

theorem testBit_assemble (fields : List (List Nat × Nat)) (j : Nat) :
    (assemble fields).testBit j = true ↔
      ∃ field ∈ fields, (scatter field.1 field.2).testBit j = true := by
  induction fields with
  | nil => simp [assemble]
  | cons field rest ih =>
    have head : assemble (field :: rest) = scatter field.1 field.2 ||| assemble rest := rfl
    rw [head, Nat.testBit_or, Bool.or_eq_true, ih, List.exists_mem_cons_iff]

theorem testBit_assemble_of_mem {fields : List (List Nat × Nat)}
    (apart : fields.Pairwise fun field other => field.1.Disjoint other.1)
    {field : List Nat × Nat} (listed : field ∈ fields) {j : Nat} (inside : j ∈ field.1) :
    (assemble fields).testBit j = (scatter field.1 field.2).testBit j := by
  rw [Bool.eq_iff_iff, testBit_assemble]
  constructor
  · rintro ⟨other, listed', bit⟩
    by_cases same : other = field
    · rwa [same] at bit
    · have symmetric : Std.Symm fun field other : List Nat × Nat => field.1.Disjoint other.1 :=
        ⟨fun _ _ disjoint _ there here => disjoint here there⟩
      have disjoint : other.1.Disjoint field.1 := apart.forall listed' listed same
      have inside' : j ∈ other.1 := by
        by_contra outside
        rw [testBit_scatter_of_not_mem outside] at bit
        cases bit
      exact absurd inside (disjoint inside')
  · intro bit
    exact ⟨field, listed, bit⟩

theorem gather_assemble {fields : List (List Nat × Nat)}
    (apart : fields.Pairwise fun field other => field.1.Disjoint other.1)
    {field : List Nat × Nat} (listed : field ∈ fields) (nodup : field.1.Nodup)
    (small : field.2 < 2 ^ field.1.length) : gather field.1 (assemble fields) = field.2 := by
  rw [gather_congr fun _ inside => testBit_assemble_of_mem apart listed inside]
  exact gather_scatter nodup small

end Fields

end BitFields
