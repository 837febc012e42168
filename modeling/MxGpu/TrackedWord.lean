import MxGpu.AlignUp

/- Machine arithmetic that remembers whether it wrapped: the value is the one the machine
computes, the flag says that every step on the way to it gave the exact result. -/
namespace TrackedWord

structure Tracked (α : Type) where
  val : α
  exact : Bool
  deriving DecidableEq, Repr

instance : Monad Tracked where
  pure a := { val := a, exact := true }
  bind t f := { val := (f t.val).val, exact := t.exact && (f t.val).exact }

section Steps

variable {α β : Type} (t : Tracked α) (f : α → Tracked β)

@[simp] theorem val_pure (a : α) : (pure a : Tracked α).val = a := rfl

@[simp] theorem exact_pure (a : α) : (pure a : Tracked α).exact = true := rfl

@[simp] theorem val_bind : (t >>= f).val = (f t.val).val := rfl

theorem exact_bind : (t >>= f).exact = true ↔ t.exact = true ∧ (f t.val).exact = true :=
  Bool.and_eq_true_iff

end Steps

variable {w : Nat} {x y a : BitVec w}

def add (x y : BitVec w) : Tracked (BitVec w) :=
  { val := x + y, exact := decide (x.toNat + y.toNat < 2 ^ w) }

def sub (x y : BitVec w) : Tracked (BitVec w) :=
  { val := x - y, exact := decide (y.toNat ≤ x.toNat) }

def mul (x y : BitVec w) : Tracked (BitVec w) :=
  { val := x * y, exact := decide (x.toNat * y.toNat < 2 ^ w) }

@[simp] theorem add_exact : (add x y).exact = true ↔ x.toNat + y.toNat < 2 ^ w :=
  decide_eq_true_iff

@[simp] theorem sub_exact : (sub x y).exact = true ↔ y.toNat ≤ x.toNat :=
  decide_eq_true_iff

@[simp] theorem mul_exact : (mul x y).exact = true ↔ x.toNat * y.toNat < 2 ^ w :=
  decide_eq_true_iff

theorem add_toNat (fits : x.toNat + y.toNat < 2 ^ w) :
    (add x y).val.toNat = x.toNat + y.toNat :=
  BitVec.toNat_add_of_lt fits

theorem sub_toNat (fits : y.toNat ≤ x.toNat) : (sub x y).val.toNat = x.toNat - y.toNat := by
  apply BitVec.toNat_sub_of_le
  exact fits

theorem mul_toNat (fits : x.toNat * y.toNat < 2 ^ w) :
    (mul x y).val.toNat = x.toNat * y.toNat :=
  BitVec.toNat_mul_of_lt fits

/-- The macro `(((x) + ((a) - 1)) / (a)) * (a)`. -/
def roundup (x a : BitVec w) : Tracked (BitVec w) := do
  let past ← add x (a - 1)
  mul (past / a) a

/-- The macro `(x) - ((x) % (a))`. -/
def rounddown (x a : BitVec w) : Tracked (BitVec w) :=
  sub x (x % a)

theorem toNat_pred (positive : 0 < a.toNat) : (a - 1).toNat = a.toNat - 1 := by
  have bound := a.isLt
  have one : (1 : BitVec w).toNat = 1 := by
    rw [BitVec.ofNat_eq_ofNat, BitVec.toNat_ofNat]
    exact Nat.mod_eq_of_lt (lt_of_le_of_lt positive bound)
  rw [BitVec.toNat_sub_of_le, one]
  rw [BitVec.le_def, one]
  exact positive

theorem roundup_exact (positive : 0 < a.toNat) :
    (roundup x a).exact = true ↔ x.toNat + (a.toNat - 1) < 2 ^ w := by
  rw [roundup, exact_bind, add_exact, mul_exact, toNat_pred positive, BitVec.toNat_udiv]
  constructor
  · exact And.left
  · intro fits
    refine ⟨fits, lt_of_le_of_lt (Nat.div_mul_le_self _ _) ?_⟩
    rw [add_toNat (by rw [toNat_pred positive]; exact fits), toNat_pred positive]
    exact fits

theorem roundup_value (positive : 0 < a.toNat) :
    (roundup x a).val.toNat = (x.toNat + (a.toNat - 1)) % 2 ^ w / a.toNat * a.toNat := by
  have past : (add x (a - 1)).val.toNat = (x.toNat + (a.toNat - 1)) % 2 ^ w := by
    show (x + (a - 1)).toNat = _
    rw [BitVec.toNat_add, toNat_pred positive]
  rw [roundup, val_bind, mul_toNat, BitVec.toNat_udiv, past]
  rw [BitVec.toNat_udiv]
  exact lt_of_le_of_lt (Nat.div_mul_le_self _ _) (BitVec.isLt _)

theorem roundup_toNat (positive : 0 < a.toNat) (fits : x.toNat + (a.toNat - 1) < 2 ^ w) :
    (roundup x a).val.toNat = AlignUp.alignUp x.toNat a.toNat := by
  rw [roundup_value positive, Nat.mod_eq_of_lt fits]
  rfl

theorem rounddown_exact : (rounddown x a).exact = true := by
  rw [rounddown, sub_exact, BitVec.toNat_umod]
  exact Nat.mod_le _ _

theorem rounddown_toNat : (rounddown x a).val.toNat = x.toNat / a.toNat * a.toNat := by
  have parts := Nat.div_add_mod' x.toNat a.toNat
  rw [rounddown, sub_toNat, BitVec.toNat_umod]
  · omega
  · rw [BitVec.toNat_umod]
    exact Nat.mod_le _ _

end TrackedWord
