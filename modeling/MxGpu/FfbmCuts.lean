import MxGpu.FfbmTable
import Mathlib.Data.Finset.Card

/- What taking a descriptor and cutting a block come to. -/
namespace MxGpu.Ffbm

open RingList Function

theorem pageAlignCeil_valid {size : Addr} {fragment : Nat}
    (valid : mapSizeValid size fragment = 0) : pageAlignCeil size fragment = size := by
  have apart : size &&& (pageSize fragment - 1) = 0#64 := valid
  have sum : size + pageSize fragment - 1 = size + (pageSize fragment - 1) := by
    simp only [BitVec.sub_eq_add_neg, BitVec.add_assoc]
  rw [pageAlignCeil, pageAlign, sum, BitVec.add_eq_or_of_and_eq_zero size _ apart]
  ext i bound
  have bit := congrArg (fun v => v[i]) apart
  simp only [BitVec.getElem_and, BitVec.getElem_zero] at bit
  simp only [BitVec.getElem_and, BitVec.getElem_or, BitVec.getElem_not]
  cases low : size[i] <;> cases high : (pageSize fragment - 1)[i] <;> simp_all

theorem pageSize_toNat {fragment : Nat} (small : fragment + 12 < 64) :
    (pageSize fragment).toNat = 2 ^ (fragment + 12) := by
  have below : 2 ^ (fragment + 12) < 2 ^ 64 := Nat.pow_lt_pow_right (by decide) small
  have one : (1 : Addr).toNat = 1 := rfl
  rw [pageSize, BitVec.toNat_shiftLeft, Nat.shiftLeft_eq, one, Nat.one_mul,
    Nat.mod_eq_of_lt below]

theorem pageMask_toNat {fragment : Nat} (small : fragment + 12 < 64) :
    (pageSize fragment - 1).toNat = 2 ^ (fragment + 12) - 1 := by
  have positive : 0 < 2 ^ (fragment + 12) := Nat.two_pow_pos _
  have whole := pageSize_toNat small
  bv_omega

theorem mapSizeValid_pageSize {fragment : Nat} (small : fragment + 12 < 64) :
    mapSizeValid (pageSize fragment) fragment = 0 := by
  apply BitVec.eq_of_toNat_eq
  rw [mapSizeValid, BitVec.toNat_and, pageSize_toNat small, pageMask_toNat small,
    Nat.and_two_pow_sub_one_eq_mod, Nat.mod_self]
  rfl

theorem pageAlign_toNat (val : Addr) {fragment : Nat} (small : fragment + 12 < 64) :
    (pageAlign val fragment).toNat + val.toNat % 2 ^ (fragment + 12) = val.toNat := by
  have apart : pageAlign val fragment &&& (val &&& (pageSize fragment - 1)) = 0#64 := by
    ext i bound
    simp only [pageAlign, BitVec.getElem_and, BitVec.getElem_not, BitVec.getElem_zero]
    cases val[i] <;> cases (pageSize fragment - 1)[i] <;> rfl
  have whole : pageAlign val fragment ||| (val &&& (pageSize fragment - 1)) = val := by
    ext i bound
    simp only [pageAlign, BitVec.getElem_or, BitVec.getElem_and, BitVec.getElem_not]
    cases val[i] <;> cases (pageSize fragment - 1)[i] <;> rfl
  have rest : (val &&& (pageSize fragment - 1)).toNat = val.toNat % 2 ^ (fragment + 12) := by
    rw [BitVec.toNat_and, pageMask_toNat small, Nat.and_two_pow_sub_one_eq_mod]
  have sum := BitVec.add_eq_or_of_and_eq_zero _ _ apart
  rw [whole] at sum
  have below : (pageAlign val fragment).toNat ≤ val.toNat := by
    rw [pageAlign, BitVec.toNat_and]
    exact Nat.and_le_left
  rw [← rest]
  bv_omega

theorem pageAlign_page (val : Addr) {fragment : Nat} (small : fragment + 12 < 64) :
    (pageAlign val fragment).toNat ≤ val.toNat ∧
      val.toNat < (pageAlign val fragment).toNat + (pageSize fragment).toNat ∧
      (pageAlign val fragment).toNat + (pageSize fragment).toNat ≤ 2 ^ 64 := by
  have start := pageAlign_toNat val small
  have positive : 0 < 2 ^ (fragment + 12) := Nat.two_pow_pos _
  have split := Nat.mod_add_div val.toNat (2 ^ (fragment + 12))
  rw [pageSize_toNat small]
  refine ⟨by omega, by omega, ?_⟩
  have power : 2 ^ 64 = 2 ^ (fragment + 12) * 2 ^ (64 - (fragment + 12)) := by
    rw [← Nat.pow_add]
    congr 1
    omega
  have quotient : val.toNat / 2 ^ (fragment + 12) < 2 ^ (64 - (fragment + 12)) := by
    rw [Nat.div_lt_iff_lt_mul positive, Nat.mul_comm, ← power]
    exact val.isLt
  have room := Nat.mul_le_mul_left (2 ^ (fragment + 12)) (Nat.succ_le_of_lt quotient)
  rw [← power, Nat.mul_succ] at room
  omega

namespace Table

variable {s : Table}

theorem firstFree_some {used : Nat → Bool} {count i n : Nat}
    (first : firstFree used count i = some n) : used n = false ∧ i ≤ n ∧ n < i + count := by
  induction count generalizing i with
  | zero => cases first
  | succ count ih =>
    rw [firstFree] at first
    cases taken : used i with
    | true =>
      rw [taken, if_pos rfl] at first
      obtain ⟨free, low, high⟩ := ih first
      exact ⟨free, by omega, by omega⟩
    | false =>
      rw [taken, if_neg (by decide)] at first
      obtain rfl := Option.some.inj first
      exact ⟨taken, by omega, by omega⟩

theorem firstFree_none {used : Nat → Bool} {count i : Nat}
    (none_ : firstFree used count i = none) {n : Nat} (low : i ≤ n) (high : n < i + count) :
    used n = true := by
  induction count generalizing i with
  | zero => omega
  | succ count ih =>
    rw [firstFree] at none_
    cases taken : used i with
    | true =>
      rw [taken, if_pos rfl] at none_
      rcases Nat.eq_or_lt_of_le low with rfl | later
      · exact taken
      · exact ih none_ later (by omega)
    | false =>
      rw [taken, if_neg (by decide)] at none_
      cases none_

/-- The blocks that `allocate_block` can still give out. -/
def free (s : Table) : Finset Nat :=
  (Finset.range memoryAllocationCount).filter fun i => s.used i = false

theorem allocateBlock_some {allocated : Table} {n : Nat}
    (first : s.allocateBlock = some (allocated, n)) :
    n ∈ s.free ∧ allocated = { s with
      used := update s.used n true
      block := update s.block n zeroBlock } := by
  rw [allocateBlock] at first
  cases found : firstFree s.used memoryAllocationCount 0 with
  | none => simp [found] at first
  | some i =>
    rw [found] at first
    obtain ⟨rfl, rfl⟩ := Prod.mk.inj (Option.some.inj first)
    obtain ⟨unused, _, high⟩ := firstFree_some found
    exact ⟨by simpa [free] using ⟨by omega, unused⟩, rfl⟩

theorem allocateBlock_none (none_ : s.allocateBlock = none) : s.free = ∅ := by
  rw [allocateBlock] at none_
  cases found : firstFree s.used memoryAllocationCount 0 with
  | some i => simp [found] at none_
  | none =>
    refine Finset.filter_eq_empty_iff.mpr fun n inRange unused => ?_
    rw [firstFree_none found (Nat.zero_le n) (by simpa using inRange)] at unused
    cases unused

/-- The block `i` cut after `size` bytes, the rest given to the free block `n`. -/
def cut (s : Table) (i n : Nat) (size : Addr) : Table :=
  { s with
    used := update s.used n true
    block := update s.block n zeroBlock : Table }.divideInto i n size

section Cut

variable {i n : Nat} {size : Addr}

theorem cut_spaLinks : (s.cut i n size).spaLinks =
    (s.spaLinks.init (.block n)).add (.block n) (.block i) := rfl

theorem cut_used : (s.cut i n size).used = update s.used n true := rfl

theorem cut_defaultFragment : (s.cut i n size).defaultFragment = s.defaultFragment := rfl

theorem cut_block_new (apart : i ≠ n) : (s.cut i n size).block n = rightPart (s.block i) size := by
  simp [cut, divideInto, ptebInit, ptebUpdate, apart, apart.symm]

theorem cut_block_old (apart : i ≠ n) :
    (s.cut i n size).block i = { s.block i with size := size } := by
  simp [cut, divideInto, ptebInit, ptebUpdate, apart]

theorem cut_block_other {j : Nat} (apart : j ≠ i) (apart' : j ≠ n) :
    (s.cut i n size).block j = s.block j := by
  simp [cut, divideInto, ptebInit, ptebUpdate, apart, apart']

theorem cut_free : (s.cut i n size).free = s.free.erase n := by
  ext j
  rw [free, cut_used]
  by_cases same : j = n
  · subst same
    simp
  · simp [free, same]

end Cut

/-- What a cut at `size` does and returns. -/
inductive Divided (s : Table) (i : Nat) (size : Addr) : Table × Option Nat → Prop
  | misaligned (left : mapSizeValid size (s.block i).fragment ≠ 0) : Divided s i size (s, none)
  | exhausted (within : size < (s.block i).size) (none_ : s.free = ∅) : Divided s i size (s, none)
  | whole (beyond : (s.block i).size ≤ size) : Divided s i size (s, some i)
  | cut (n : Nat) (within : size < (s.block i).size) (unused : n ∈ s.free)
    (valid : mapSizeValid size (s.block i).fragment = 0) : Divided s i size (s.cut i n size, some n)

theorem ptebDivideSize_divided (s : Table) (i : Nat) (size : Addr) :
    Divided s i size (s.ptebDivideSize i size) := by
  unfold ptebDivideSize
  split
  · next left => exact .misaligned left
  next valid =>
    rw [pageAlignCeil_valid (not_not.mp valid)]
    simp only
    split
    · next beyond => exact .whole beyond
    next within =>
      cases first : s.allocateBlock with
      | none => exact .exhausted (BitVec.not_le.mp within) (allocateBlock_none first)
      | some pair =>
        obtain ⟨allocated, n⟩ := pair
        obtain ⟨unused, rfl⟩ := allocateBlock_some first
        exact .cut n (BitVec.not_le.mp within) unused (not_not.mp valid)

theorem ne_of_free {i n : Nat} (used : s.used i = true) (unused : n ∈ s.free) : i ≠ n := by
  rintro rfl
  rw [free, Finset.mem_filter, used] at unused
  exact absurd unused.2 (by decide)

/-- The block that starts at `spa` once what lies before it is cut off. -/
inductive LeftCut (s : Table) (i : Nat) (spa : Addr) : Table → Nat → Prop
  | at_ (same : (s.block i).spa = spa) : LeftCut s i spa s i
  | cut (n : Nat) (before : (s.block i).spa < spa)
    (within : spa - (s.block i).spa < (s.block i).size) (unused : n ∈ s.free)
    (valid : mapSizeValid (spa - (s.block i).spa) (s.block i).fragment = 0) :
    LeftCut s i spa (s.cut i n (spa - (s.block i).spa)) n

/-- The block with what lies after `size` bytes cut off, if there is a descriptor. -/
inductive RightCut (s : Table) (j : Nat) (size : Addr) : Table → Prop
  | whole (beyond : (s.block j).size ≤ size) : RightCut s j size s
  | exhausted (within : size < (s.block j).size) (none_ : s.free = ∅) : RightCut s j size s
  | cut (n : Nat) (within : size < (s.block j).size) (unused : n ∈ s.free) :
    RightCut s j size (s.cut j n size)

/-- What making a hole of whole pages does and returns. -/
inductive Holed (s : Table) (i : Nat) (spa size : Addr) : Table × Option Nat → Prop
  | refused : Holed s i spa size (s, none)
  | holed {s₁ s₂ : Table} {j : Nat}
    (within : addrSizeInRange (s.block i).spa (s.block i).size spa size = true)
    (left : LeftCut s i spa s₁ j) (right : RightCut s₁ j size s₂) :
    Holed s i spa size (s₂, some j)

theorem addrInRange_iff {start size addr : Addr} :
    addrInRange start size addr = true ↔ start ≤ addr ∧ addr < start + size := by
  simp [addrInRange]

theorem rightCut {j : Nat} {size : Addr} (valid : mapSizeValid size (s.block j).fragment = 0) :
    RightCut s j size (if size < (s.block j).size then (s.ptebDivideSize j size).1 else s) := by
  split
  · next within =>
    have divided := ptebDivideSize_divided s j size
    generalize s.ptebDivideSize j size = outcome at divided ⊢
    cases divided with
    | misaligned left => exact absurd valid left
    | exhausted _ none_ => exact .exhausted within none_
    | whole beyond => exact absurd within (BitVec.not_lt.mpr beyond)
    | cut n _ unused => exact .cut n within unused
  · next beyond => exact .whole (BitVec.not_lt.mp beyond)

theorem LeftCut.fragment {i j : Nat} {spa : Addr} {s₁ : Table} (left : LeftCut s i spa s₁ j)
    (used : s.used i = true) : (s₁.block j).fragment = (s.block i).fragment := by
  cases left with
  | at_ => rfl
  | cut n _ _ unused =>
    rw [cut_block_new (ne_of_free used unused)]
    rfl

theorem ptebHoleByPhy_holed {i : Nat} (spa : Addr) {size : Addr} (used : s.used i = true)
    (valid : mapSizeValid size (s.block i).fragment = 0) :
    Holed s i spa size (s.ptebHoleByPhy i spa size) := by
  unfold ptebHoleByPhy
  rw [pageAlignCeil_valid valid]
  simp only
  split
  · exact .refused
  next within =>
    have within : addrSizeInRange (s.block i).spa (s.block i).size spa size = true := by
      simpa using within
    have inside : addrInRange (s.block i).spa (s.block i).size spa = true := by
      rw [addrSizeInRange, Bool.and_eq_true] at within
      exact within.1
    obtain ⟨low, high⟩ := addrInRange_iff.mp inside
    have finish : ∀ s₁ j, LeftCut s i spa s₁ j → Holed s i spa size
        (if size < (s₁.block j).size then ((s₁.ptebDivideSize j size).1, some j)
        else (s₁, some j)) := by
      intro s₁ j left
      have right : RightCut s₁ j size _ := rightCut (by rwa [left.fragment used])
      split
      · next within' => exact .holed within left (by rwa [if_pos within'] at right)
      · next within' => exact .holed within left (by rwa [if_neg within'] at right)
    by_cases before : (s.block i).spa < spa
    · have part : spa - (s.block i).spa < (s.block i).size := by bv_omega
      have divided := ptebDivideSize_divided s i (spa - (s.block i).spa)
      rw [if_pos before]
      generalize s.ptebDivideSize i (spa - (s.block i).spa) = outcome at divided ⊢
      cases divided with
      | misaligned => exact .refused
      | exhausted => exact .refused
      | whole beyond => exact absurd part (BitVec.not_lt.mpr beyond)
      | cut n _ unused valid => exact finish _ n (.cut n before part unused valid)
    · rw [if_neg before]
      exact finish s i (.at_ (BitVec.le_antisymm low (BitVec.not_lt.mp before)))

end Table

end MxGpu.Ffbm
