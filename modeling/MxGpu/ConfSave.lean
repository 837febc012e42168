import MxGpu.ConfKeeps

/-!
The text of a save: it fits its buffer, and it is a list of lines, one for each persistent option.
-/

namespace MxGpu.Conf

open Tokens List

/-- The indices `gim_conf_save` prints behind the first. -/
def Opts.indices (s : Opts) (o : ConfOpt) : List Nat :=
  if o.info.array then range' 1 (min maxGpuNum (s o).repeatValIdx - 1) else []

def Opts.piece (s : Opts) (o : ConfOpt) (i : Nat) : Text := printInt ((s o).value i)

def Opts.valueText (s : Opts) (o : ConfOpt) : Text :=
  s.piece o 0 ++ (s.indices o).flatMap fun i => 44 :: s.piece o i

def Opts.line (s : Opts) (o : ConfOpt) : Text := o.info.name ++ 61 :: (s.valueText o ++ [10])

def saved : List ConfOpt := ConfOpt.all.filter fun o => o.info.persistent

def Opts.text (s : Opts) : Text := saved.flatMap s.line

variable {s : Opts} {o : ConfOpt} {t u : Text}

theorem print_eq (room : t.length + u.length < maxConfigFileLength) :
    SaveBuf.print ⟨t, t.length⟩ u = ⟨t ++ u, (t ++ u).length⟩ := by
  unfold SaveBuf.print
  dsimp only
  rw [if_neg (by omega), take_of_length_le (by omega), length_append]

theorem foldl_print {f : Nat → Text} (is : List Nat)
    (room : t.length + (is.flatMap f).length < maxConfigFileLength) :
    is.foldl (fun b i => SaveBuf.print b (f i)) ⟨t, t.length⟩ =
      (⟨t ++ is.flatMap f, (t ++ is.flatMap f).length⟩ : SaveBuf) := by
  induction is generalizing t with
  | nil => simp
  | cons i is ih =>
    rw [flatMap_cons, length_append] at room
    rw [foldl_cons, print_eq (by omega), ih (by rw [length_append]; omega),
      flatMap_cons, append_assoc]

theorem printOpt_eq (room : t.length + (s.line o).length < maxConfigFileLength) :
    s.printOpt o ⟨t, t.length⟩ = ⟨t ++ s.line o, (t ++ s.line o).length⟩ := by
  unfold Opts.line Opts.valueText at room ⊢
  simp only [length_append, length_cons, length_nil] at room
  unfold Opts.printOpt
  split
  · next array =>
    simp only [Opts.indices, array, if_true, Opts.piece] at room ⊢
    rw [print_eq (by simp only [length_append, length_cons]; omega),
      foldl_print _ (by simp only [length_append, length_cons]; omega),
      print_eq (by simp only [length_append, length_cons, length_nil]; omega)]
    simp
  · next single =>
    simp only [Opts.indices, single, Bool.false_eq_true, if_false, Opts.piece,
      flatMap_nil, append_nil] at room ⊢
    rw [print_eq (by simp only [length_append, length_cons, length_nil]; omega)]

theorem printOpts_eq (os : List ConfOpt)
    (room : t.length + ((os.filter fun o => o.info.persistent).flatMap s.line).length <
      maxConfigFileLength) :
    s.printOpts os ⟨t, t.length⟩ =
      ⟨t ++ (os.filter fun o => o.info.persistent).flatMap s.line,
        (t ++ (os.filter fun o => o.info.persistent).flatMap s.line).length⟩ := by
  induction os generalizing t with
  | nil => simp [Opts.printOpts]
  | cons o os ih =>
    unfold Opts.printOpts
    cases persistent : o.info.persistent with
    | false =>
      rw [filter_cons_of_neg (by simp [persistent])] at room ⊢
      exact ih room
    | true =>
      rw [filter_cons_of_pos (by simp [persistent]), flatMap_cons] at room ⊢
      rw [length_append] at room
      have here : t.length + (s.line o).length < maxConfigFileLength := by omega
      rw [printOpt_eq here]
      dsimp only
      rw [if_neg (by simp), if_neg (by rw [length_append]; omega),
        ih (by rw [length_append]; omega), append_assoc]

/-! The values that are printed are small. -/

/-- A printed value reads back, is short and has no byte that ends it early. -/
structure Printed (v : Int) : Prop where
  reads : kstrtoint (printInt v) = some v
  short : (printInt v).length ≤ 2
  some : printInt v ≠ []
  free : ∀ c ∈ printInt v, isDelimiter c = false ∧ c ≠ 44 ∧ c ≠ 0

theorem printed_small : ∀ n < 32, kstrtoint (printInt (n : Nat)) = some (n : Int) ∧
    (printInt (n : Nat)).length ≤ 2 ∧ printInt (n : Nat) ≠ [] ∧
    ∀ c ∈ printInt (n : Nat), isDelimiter c = false ∧ c ≠ 44 ∧ c ≠ 0 := by
  decide +kernel

theorem bounds (persistent : o.info.persistent = true) : 0 ≤ o.info.min ∧ o.info.max < 32 := by
  revert persistent
  cases o <;> decide

theorem printed {v : Int} (persistent : o.info.persistent = true)
    (valid : validOpt o v = true) : Printed v := by
  obtain ⟨low, high⟩ := bounds persistent
  simp only [validOpt, Bool.and_eq_true, decide_eq_true_eq] at valid
  obtain ⟨n, rfl⟩ := Int.eq_ofNat_of_zero_le (show 0 ≤ v by omega)
  obtain ⟨reads, short, some, free⟩ := printed_small n (by omega)
  exact ⟨reads, short, some, free⟩

theorem indices_lt {i : Nat} (member : i ∈ s.indices o) : i < o.info.width := by
  unfold Opts.indices at member
  unfold OptInfo.width
  split at member
  · next array =>
    rw [if_pos array]
    obtain ⟨-, below⟩ := mem_range'_1.mp member
    have : maxGpuNum = 32 := rfl
    omega
  · cases member

theorem width_pos : 0 < o.info.width := by
  unfold OptInfo.width
  split
  · decide
  · decide

theorem InRange.printed (inRange : InRange s) (persistent : o.info.persistent = true) {i : Nat}
    (below : i < o.info.width) : Printed ((s o).value i) :=
  Conf.printed persistent ((inRange o persistent).valid i below)

theorem InRange.valueText_length (inRange : InRange s) (persistent : o.info.persistent = true) :
    (s.valueText o).length ≤ 2 + (s.indices o).length * 3 := by
  have first := (inRange.printed persistent width_pos).short
  have others := length_flatMap_le (f := fun i => 44 :: s.piece o i) (k := 3) (s.indices o) (by
    intro i member
    have short := (inRange.printed persistent (indices_lt member)).short
    rw [length_cons]
    exact Nat.succ_le_succ short)
  unfold Opts.valueText
  rw [length_append]
  exact Nat.add_le_add first others

theorem indices_length : (s.indices o).length ≤ if o.info.array then 31 else 0 := by
  unfold Opts.indices
  split
  · rw [length_range']
    have : maxGpuNum = 32 := rfl
    omega
  · exact Nat.le_refl 0

theorem InRange.text_length (inRange : InRange s) : s.text.length < maxConfigFileLength := by
  have line : ∀ o : ConfOpt, o.info.persistent = true →
      (s.line o).length ≤ o.info.name.length + 4 + (if o.info.array then 31 else 0) * 3 := by
    intro o persistent
    have value := inRange.valueText_length persistent
    have few := indices_length (s := s) (o := o)
    unfold Opts.line
    simp only [length_append, length_cons, length_nil]
    omega
  have vfNumber := line .vfNumber rfl
  have accelerator := line .acceleratorPartitionMode rfl
  have memory := line .memoryPartitionMode rfl
  have cc := line .ccMode rfl
  have all : saved = [.vfNumber, .acceleratorPartitionMode, .memoryPartitionMode, .ccMode] := by
    decide
  unfold Opts.text
  rw [all]
  simp only [flatMap_cons, flatMap_nil, length_append, length_nil]
  have name : (ConfOpt.info .vfNumber).name.length = 6 := by decide
  have accName : (ConfOpt.info .acceleratorPartitionMode).name.length = 26 := by decide
  have memName : (ConfOpt.info .memoryPartitionMode).name.length = 21 := by decide
  have ccName : (ConfOpt.info .ccMode).name.length = 7 := by decide
  have size : maxConfigFileLength = 1024 := rfl
  simp only [show (ConfOpt.info .vfNumber).array = true from rfl,
    show (ConfOpt.info .acceleratorPartitionMode).array = false from rfl,
    show (ConfOpt.info .memoryPartitionMode).array = false from rfl,
    show (ConfOpt.info .ccMode).array = false from rfl, Bool.false_eq_true, if_true, if_false]
    at vfNumber accelerator memory cc
  omega

theorem InRange.saveBuf_eq (inRange : InRange s) : s.saveBuf = ⟨s.text, s.text.length⟩ := by
  have fits := inRange.text_length
  unfold Opts.saveBuf
  have printed := printOpts_eq (s := s) (t := []) ConfOpt.all (by
    rw [length_nil, Nat.zero_add]
    exact fits)
  rw [nil_append] at printed
  exact printed

end MxGpu.Conf
