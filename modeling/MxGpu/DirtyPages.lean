import Mathlib.Algebra.Group.Nat.Defs
import Mathlib.Data.List.Range

/- The pages a bitmap marks, in order, and the bytes they hold. Nothing here knows who moves
them. -/
namespace DirtyPages

variable {bitmap bitmap' : Nat → Bool} {bits page p m off k : Nat}

/-- The pages from `lo` on whose bit is set. -/
def setFrom (bitmap : Nat → Bool) (bits lo : Nat) : List Nat :=
  (List.range' lo (bits - lo)).filter bitmap

def content (page : Nat) (ps : List Nat) : List Nat :=
  ps.flatMap fun p => List.range' (p * page) page

/-- All pages from `p` up to `p + m` are marked. -/
def Marked (bitmap : Nat → Bool) (bits p m : Nat) : Prop :=
  ∀ k, k < m → p + k < bits ∧ bitmap (p + k) = true

theorem mem_setFrom {lo q : Nat} :
    q ∈ setFrom bitmap bits lo ↔ lo ≤ q ∧ q < bits ∧ bitmap q = true := by
  unfold setFrom
  rw [List.mem_filter, List.mem_range'_1]
  constructor
  · rintro ⟨hrange, hset⟩
    exact ⟨hrange.1, by omega, hset⟩
  · rintro ⟨hlo, hbits, hset⟩
    exact ⟨⟨hlo, by omega⟩, hset⟩

theorem setFrom_congr {lo : Nat} (h : ∀ q, lo ≤ q → bitmap q = bitmap' q) :
    setFrom bitmap bits lo = setFrom bitmap' bits lo := by
  unfold setFrom
  apply List.filter_congr
  intro q hq
  rw [List.mem_range'_1] at hq
  exact h q hq.1

theorem setFrom_nil {lo : Nat} (h : bits ≤ lo) : setFrom bitmap bits lo = [] := by
  unfold setFrom
  rw [Nat.sub_eq_zero_of_le h]
  rfl

theorem setFrom_step {lo : Nat} (h : lo < bits) :
    setFrom bitmap bits lo =
      if bitmap lo then lo :: setFrom bitmap bits (lo + 1) else setFrom bitmap bits (lo + 1) := by
  unfold setFrom
  rw [show bits - lo = bits - (lo + 1) + 1 by omega, List.range'_succ, List.filter_cons]

theorem setFrom_skip {lo q : Nat} (hle : lo ≤ q) (h : ∀ k, lo ≤ k → k < q → bitmap k = false) :
    setFrom bitmap bits lo = setFrom bitmap bits q := by
  induction q with
  | zero =>
    rw [Nat.le_zero.mp hle]
  | succ q ih =>
    rcases Nat.eq_or_lt_of_le hle with heq | hlt
    · rw [heq]
    · rw [ih (by omega) (fun k hlo hk => h k hlo (by omega))]
      rcases Nat.lt_or_ge q bits with hq | hq
      · rw [setFrom_step hq, h q (by omega) (by omega)]
        rfl
      · rw [setFrom_nil hq, setFrom_nil (by omega)]

theorem setFrom_marked (h : Marked bitmap bits p m) :
    setFrom bitmap bits p = List.range' p m ++ setFrom bitmap bits (p + m) := by
  induction m generalizing p with
  | zero => rfl
  | succ m ih =>
    have hfirst := h 0 (by omega)
    rw [Nat.add_zero] at hfirst
    have hrest : Marked bitmap bits (p + 1) m := by
      intro k hk
      have := h (k + 1) (by omega)
      rwa [show p + 1 + k = p + (k + 1) by omega]
    rw [setFrom_step hfirst.1, hfirst.2, if_pos rfl, ih hrest, List.range'_succ,
      List.cons_append, show p + 1 + m = p + (m + 1) by omega]

theorem Marked.mono {j : Nat} (h : Marked bitmap bits p m) (hj : j ≤ m) :
    Marked bitmap bits p j := fun k hk => h k (by omega)

theorem Marked.shift {j : Nat} (h : Marked bitmap bits p m) :
    Marked bitmap bits (p + j) (m - j) := by
  intro k hk
  have := h (j + k) (by omega)
  rwa [show p + j + k = p + (j + k) by omega]

theorem Marked.congr (h : Marked bitmap bits p m)
    (hsame : ∀ q, p ≤ q → bitmap' q = bitmap q) : Marked bitmap' bits p m := by
  intro k hk
  rw [hsame _ (by omega)]
  exact h k hk

theorem content_nil : content page [] = [] := rfl

theorem content_cons {ps : List Nat} :
    content page (p :: ps) = List.range' (p * page) page ++ content page ps := rfl

theorem content_append {ps qs : List Nat} :
    content page (ps ++ qs) = content page ps ++ content page qs := List.flatMap_append

theorem content_length {ps : List Nat} : (content page ps).length = ps.length * page := by
  induction ps with
  | nil => simp [content]
  | cons p ps ih =>
    rw [content_cons, List.length_append, List.length_range', ih, List.length_cons,
      Nat.succ_mul, Nat.add_comm]

theorem content_run : content page (List.range' p m) = List.range' (p * page) (m * page) := by
  induction m generalizing p with
  | zero => simp [content]
  | succ m ih =>
    rw [List.range'_succ, content_cons, ih, Nat.succ_mul, Nat.add_mul, Nat.one_mul,
      Nat.add_comm (m * page), List.range'_append_1]

theorem mem_content {ps : List Nat} {a : Nat} (hpage : 0 < page) :
    a ∈ content page ps ↔ a / page ∈ ps := by
  unfold content
  rw [List.mem_flatMap]
  constructor
  · rintro ⟨q, hq, ha⟩
    rw [List.mem_range'_1] at ha
    have hdiv : a / page = q :=
      Nat.div_eq_of_lt_le ha.1 (by rw [Nat.succ_mul]; exact ha.2)
    rwa [hdiv]
  · intro h
    refine ⟨_, h, ?_⟩
    rw [List.mem_range'_1]
    have hdiv := Nat.div_add_mod' a page
    have hmod := Nat.mod_lt a hpage
    omega

theorem content_drop {ps : List Nat} {c : Nat} :
    content page (ps.drop c) = (content page ps).drop (c * page) := by
  induction ps generalizing c with
  | nil => simp [content_nil]
  | cons p ps ih =>
    cases c with
    | zero => simp
    | succ c =>
      have hsucc : (c + 1) * page = page + c * page := by
        rw [Nat.succ_mul, Nat.add_comm]
      have hfirst : (List.range' (p * page) page).drop (page + c * page) = [] :=
        List.drop_eq_nil_of_le (by rw [List.length_range']; omega)
      rw [List.drop_succ_cons, ih, content_cons, hsucc, List.drop_append, hfirst,
        List.length_range', List.nil_append, Nat.add_sub_cancel_left]

theorem content_split (h : Marked bitmap bits p m)
    (hfits : off + k ≤ m * page) :
    (content page (setFrom bitmap bits p)).drop off =
      List.range' (p * page + off) k ++
        (content page (setFrom bitmap bits (p + (off + k) / page))).drop ((off + k) % page) := by
  generalize hdone : (off + k) / page = c
  generalize hrest : (off + k) % page = r
  have hsplit : off + k = c * page + r := by
    have := Nat.div_add_mod' (off + k) page
    rw [hdone, hrest] at this
    exact this.symm
  have hc : c ≤ m := by
    rw [← hdone]
    exact Nat.div_le_of_le_mul (by rwa [Nat.mul_comm])
  have hm : m * page = c * page + (m - c) * page := by
    rw [← Nat.add_mul, Nat.add_sub_cancel' hc]
  have hshift : Marked bitmap bits (p + c) (m - c) := h.shift
  rw [setFrom_marked h, setFrom_marked hshift, show p + c + (m - c) = p + m by omega,
    content_append, content_append, content_run, content_run]
  rw [List.drop_append_of_le_length (by rw [List.length_range']; omega),
    List.drop_append_of_le_length (by rw [List.length_range']; omega), List.drop_range',
    List.drop_range', ← List.append_assoc]
  congr 1
  rw [Nat.mul_one, Nat.mul_one, show (p + c) * page + r = p * page + off + k by
      rw [Nat.add_mul]; omega,
    show (m - c) * page - r = m * page - off - k by omega]
  rw [List.range'_append_1]
  congr 1
  omega

end DirtyPages
