import MxGpu.AlignUp
import MxGpu.Bisect
import MxGpu.MemmgrTypes

/- Bad pages against ranges of addresses: the test of one page, the scan of a sorted list and the
search in it, and how such a list is kept. -/
namespace MxGpu.Fb

open AlignUp

def gpuPageSize : Addr := 0x1000

def pageAddr (pfn : Addr) : Addr := pfn <<< 12

def isBpInRange (errAddr offset size : Addr) : Prop :=
  let errAddrBegin := errAddr &&& ~~~(gpuPageSize - 1)
  let errAddrEnd := errAddrBegin ||| (gpuPageSize - 1)
  errAddrBegin ≥ offset ∧ errAddrEnd < offset + size

instance (errAddr offset size : Addr) : Decidable (isBpInRange errAddr offset size) :=
  inferInstanceAs (Decidable (_ ∧ _))

/-- `eh_data->sorted_bps`, in the order of the pages. Its entries are frame numbers: addresses
without the bits of the place in a page. -/
structure SortedPages where
  pages : List Addr
  sorted : pages.Pairwise (· ≤ ·)
  frames : ∀ pfn ∈ pages, pfn.toNat < 2 ^ 52

/-- How the sorted list of bad pages is filled. -/
structure Ascends (pages : List Addr) : Prop where
  rises : pages.Pairwise (· < ·)
  frames : ∀ pfn ∈ pages, pfn.toNat < 2 ^ 52

theorem Ascends.sortedPages {pages : List Addr} (ascends : Ascends pages) :
    pages.Pairwise (· ≤ ·) :=
  ascends.rises.imp fun order => BitVec.le_of_lt order

def Ascends.toSorted {pages : List Addr} (ascends : Ascends pages) : SortedPages where
  pages
  sorted := ascends.sortedPages
  frames := ascends.frames

/-- `amdgv_umc_check_bad_pages_in_range` of the pages of the host. -/
def checkBadPagesInRange (sortedBps : List Addr) (fbOffset size : Addr) : Bool :=
  sortedBps.any fun pfn => isBpInRange (pageAddr pfn) fbOffset size

/-- The loop of `amdgv_umc_bp_pfn_in_range`. -/
def firstAtOrAbove (sortedPfns : List Addr) (fbOffset : Addr) : Int :=
  let above := Bisect.onPlaces (fun pfn => !decide (pageAddr pfn ≥ fbOffset)) sortedPfns 0
  (Bisect.search above 0 ((sortedPfns.length : Int) - 1) (-1)).left

def bpPfnInRange (sortedPfns : List Addr) (fbOffset size : Addr) : Bool :=
  let left := firstAtOrAbove sortedPfns fbOffset
  if left ≥ sortedPfns.length then false
  else isBpInRange (pageAddr (sortedPfns.getD left.toNat 0)) fbOffset size

/-- `amdgv_umc_dst_check_bad_pages_in_range`: the pages of a VF that only the destination of its
migration has are asked for where there are such, else those of the host. -/
def dstCheckBadPagesInRange (dstUniqueBps : Option (List Addr)) (sortedBps : List Addr)
    (fbOffset size : Addr) : Bool :=
  match dstUniqueBps with
  | none => checkBadPagesInRange sortedBps fbOffset size
  | some [] => false
  | some dstUniqueBps => bpPfnInRange dstUniqueBps fbOffset size

theorem pageAddr_toNat (pfn : Addr) : (pageAddr pfn).toNat = pfn.toNat * 2 ^ 12 % 2 ^ 64 := by
  unfold pageAddr
  rw [BitVec.toNat_shiftLeft, Nat.shiftLeft_eq]

theorem pageAddr_dvd (pfn : Addr) : 2 ^ 12 ∣ (pageAddr pfn).toNat := by
  rw [pageAddr_toNat]
  have wide : 2 ^ 12 ∣ 2 ^ 64 := Nat.pow_dvd_pow 2 (by decide)
  exact (Nat.dvd_mod_iff wide).mpr (Nat.dvd_mul_left _ _)

theorem isBpInRange_iff {addr offset size : Addr} (aligned : 2 ^ 12 ∣ addr.toNat) :
    isBpInRange addr offset size ↔
      offset.toNat ≤ addr.toNat ∧ addr.toNat + 0xfff < (offset + size).toNat := by
  have mask := toNat_and_not addr (show gpuPageSize.toNat = 2 ^ 12 by decide)
  have rest := Nat.mod_eq_zero_of_dvd aligned
  have begins : addr &&& ~~~(gpuPageSize - 1) = addr := by
    apply BitVec.eq_of_toNat_eq
    omega
  have apart : addr &&& (gpuPageSize - 1) = 0#64 := by
    apply BitVec.eq_of_toNat_eq
    rw [BitVec.toNat_and]
    show addr.toNat &&& (2 ^ 12 - 1) = 0
    rw [Nat.and_two_pow_sub_one_eq_mod]
    exact rest
  have ends := BitVec.toNat_add_of_and_eq_zero apart
  have last : (gpuPageSize - 1).toNat = 0xfff := by decide
  unfold isBpInRange
  dsimp only
  rw [begins, ← BitVec.add_eq_or_of_and_eq_zero _ _ apart, ge_iff_le, BitVec.le_def,
    BitVec.lt_def, ends, last]

def SharesByte (pfn offset size : Addr) : Prop :=
  ∃ byte : Nat, offset.toNat ≤ byte ∧ byte < offset.toNat + size.toNat ∧
    pfn.toNat * 4096 ≤ byte ∧ byte < pfn.toNat * 4096 + 4096

def LiesWithin (pfn offset size : Addr) : Prop :=
  offset.toNat ≤ pfn.toNat * 4096 ∧
    pfn.toNat * 4096 + 4096 ≤ offset.toNat + size.toNat

variable {pfn offset size : Addr} {bad : SortedPages}

theorem pageAddr_frame (frame : pfn.toNat < 2 ^ 52) :
    (pageAddr pfn).toNat = pfn.toNat * 4096 := by
  rw [pageAddr_toNat]
  exact Nat.mod_eq_of_lt (by omega)

theorem isBpInRange_page (frame : pfn.toNat < 2 ^ 52) :
    isBpInRange (pageAddr pfn) offset size ↔
      offset.toNat + size.toNat < 2 ^ 64 ∧ LiesWithin pfn offset size := by
  have bound := size.isLt
  rw [isBpInRange_iff (pageAddr_dvd pfn), pageAddr_frame frame, BitVec.toNat_add]
  unfold LiesWithin
  by_cases wraps : offset.toNat + size.toNat < 2 ^ 64
  · rw [Nat.mod_eq_of_lt wraps]
    omega
  · -- the end of the range comes out below its start
    omega

theorem checkBadPagesInRange_iff :
    checkBadPagesInRange bad.pages offset size = true ↔
      ∃ pfn ∈ bad.pages, offset.toNat + size.toNat < 2 ^ 64 ∧ LiesWithin pfn offset size := by
  unfold checkBadPagesInRange
  rw [List.any_eq_true]
  constructor
  · intro ⟨pfn, listed, passes⟩
    exact ⟨pfn, listed, (isBpInRange_page (bad.frames pfn listed)).mp (of_decide_eq_true passes)⟩
  · intro ⟨pfn, listed, within⟩
    exact ⟨pfn, listed, decide_eq_true ((isBpInRange_page (bad.frames pfn listed)).mpr within)⟩

theorem not_at_or_above (bound : Addr) :
    (fun pfn => !decide (pageAddr pfn ≥ bound)) = fun pfn => decide (pageAddr pfn < bound) := by
  funext pfn
  rw [Bool.eq_iff_iff, Bool.not_eq_true', decide_eq_false_iff_not, decide_eq_true_iff, ge_iff_le,
    BitVec.not_le]

theorem search_pages (bound : Addr) (k : Nat) (missing : Int) (inside : k ≤ bad.pages.length) :
    let before := Bisect.onPlaces (fun pfn => decide (pageAddr pfn < bound)) bad.pages 0
    let found := Bisect.search before k ((bad.pages.length : Int) - 1) missing
    ∃ stop : Nat, k ≤ stop ∧ stop ≤ bad.pages.length ∧ found.left = stop ∧
      found.above = (if stop < bad.pages.length then (stop : Int) else missing) ∧
      found.below = (if k < stop then (stop : Int) - 1 else missing) ∧
      (∀ pfn ∈ (bad.pages.drop k).take (stop - k), pfn.toNat * 4096 < bound.toNat) ∧
      ∀ pfn ∈ bad.pages.drop stop, bound.toNat ≤ pfn.toNat * 4096 := by
  have below : ∀ pfn ∈ bad.pages, decide (pageAddr pfn < bound) = true ↔
      pfn.toNat * 4096 < bound.toNat := by
    intro pfn listed
    rw [decide_eq_true_iff, BitVec.lt_def, pageAddr_frame (bad.frames pfn listed)]
  have parted : bad.pages.Pairwise fun a b =>
      decide (pageAddr b < bound) = true → decide (pageAddr a < bound) = true := by
    apply bad.sorted.imp_of_mem
    intro a b a_in b_in order before
    rw [below b b_in] at before
    rw [below a a_in]
    exact Nat.lt_of_le_of_lt (Nat.mul_le_mul_right _ (BitVec.le_def.mp order)) before
  obtain ⟨stop, low, high, left, above, last, first, rest⟩ :=
    @Bisect.search_list missing _ _ _ (0 : Addr) k parted inside
  refine ⟨stop, low, high, left, above, last, ?_, ?_⟩
  · intro pfn listed
    exact (below pfn (List.mem_of_mem_drop (List.mem_of_mem_take listed))).mp (first pfn listed)
  · intro pfn listed
    have fails := rest pfn listed
    rw [← Bool.not_eq_true, below pfn (List.mem_of_mem_drop listed)] at fails
    exact Nat.not_lt.mp fails

theorem firstAtOrAbove_spec :
    ∃ stop : Nat, stop ≤ bad.pages.length ∧ firstAtOrAbove bad.pages offset = stop ∧
      (∀ pfn ∈ bad.pages.take stop, pfn.toNat * 4096 < offset.toNat) ∧
      ∀ pfn ∈ bad.pages.drop stop, offset.toNat ≤ pfn.toNat * 4096 := by
  obtain ⟨stop, -, inside, left, -, -, first, rest⟩ :=
    @search_pages bad offset 0 (-1) (Nat.zero_le _)
  unfold firstAtOrAbove
  rw [not_at_or_above]
  exact ⟨stop, inside, left, first, rest⟩

theorem bpPfnInRange_iff :
    bpPfnInRange bad.pages offset size = true ↔
      ∃ pfn ∈ bad.pages, offset.toNat + size.toNat < 2 ^ 64 ∧ LiesWithin pfn offset size := by
  obtain ⟨stop, inside, place, before, after⟩ := @firstAtOrAbove_spec offset bad
  unfold bpPfnInRange
  dsimp only
  rw [place]
  by_cases past : stop = bad.pages.length
  · rw [if_pos (by omega)]
    constructor
    · intro found
      exact absurd found Bool.false_ne_true
    · intro found
      obtain ⟨pfn, listed, -, within⟩ := found
      rw [← List.take_length (l := bad.pages), ← past] at listed
      exact absurd within.1 (Nat.not_le.mpr (before pfn listed))
  · have more : stop < bad.pages.length := by omega
    have listed : bad.pages[stop] ∈ bad.pages := List.getElem_mem more
    have entry : bad.pages.getD (stop : Int).toNat 0 = bad.pages[stop] := by
      rw [Int.toNat_natCast, List.getD_eq_getElem?_getD, List.getElem?_eq_getElem more,
        Option.getD_some]
    rw [if_neg (by omega), entry, decide_eq_true_iff, isBpInRange_page (bad.frames _ listed)]
    constructor
    · intro within
      exact ⟨bad.pages[stop], listed, within⟩
    · intro ⟨pfn, pfn_in, unwrapped, within⟩
      refine ⟨unwrapped, after _ ?_, ?_⟩
      · rw [List.drop_eq_getElem_cons more]
        exact List.mem_cons_self
      · have order : bad.pages[stop] ≤ pfn := by
          rw [← List.take_append_drop stop bad.pages, List.mem_append] at pfn_in
          rcases pfn_in with early | late
          · exact absurd within.1 (Nat.not_le.mpr (before pfn early))
          · have sorted := bad.sorted.drop (i := stop)
            rw [List.drop_eq_getElem_cons more] at sorted late
            rcases List.mem_cons.mp late with same | later
            · rw [same]
              exact BitVec.le_refl _
            · exact (List.pairwise_cons.mp sorted).1 pfn later
        have order := Nat.mul_le_mul_right 4096 (BitVec.le_def.mp order)
        exact Nat.le_trans (Nat.add_le_add_right order 4096) within.2

theorem searches_agree :
    bpPfnInRange bad.pages offset size = checkBadPagesInRange bad.pages offset size := by
  rw [Bool.eq_iff_iff, bpPfnInRange_iff, checkBadPagesInRange_iff]

/-- The search agrees with the scan, and both report a range that shares a byte with a listed
page. -/
def RangeReported (bad : SortedPages) (offset size : Addr) : Prop :=
  bpPfnInRange bad.pages offset size = checkBadPagesInRange bad.pages offset size ∧
    ∀ pfn ∈ bad.pages, SharesByte pfn offset size →
      bpPfnInRange bad.pages offset size = true ∧
        checkBadPagesInRange bad.pages offset size = true

/-- The search and the scan miss nothing exactly when the range shares no byte with a listed page,
or ends below 2^64 and has one of these pages in it with all its bytes. -/
theorem range_reported_iff (bad : SortedPages) (offset size : Addr) :
    RangeReported bad offset size ↔
      (∀ pfn ∈ bad.pages, ¬SharesByte pfn offset size) ∨
        offset.toNat + size.toNat < 2 ^ 64 ∧ ∃ pfn ∈ bad.pages, LiesWithin pfn offset size := by
  constructor
  · intro reported
    by_cases clean : ∀ pfn ∈ bad.pages, ¬SharesByte pfn offset size
    · exact Or.inl clean
    · simp only [Classical.not_forall, Classical.not_not] at clean
      obtain ⟨pfn, listed, shares⟩ := clean
      have found := (reported.2 pfn listed shares).2
      obtain ⟨page, page_in, unwrapped, within⟩ := checkBadPagesInRange_iff.mp found
      exact Or.inr ⟨unwrapped, page, page_in, within⟩
  · intro cases
    refine ⟨searches_agree, ?_⟩
    intro pfn listed shares
    rw [searches_agree, and_self]
    rcases cases with clean | ⟨unwrapped, page, page_in, within⟩
    · exact absurd shares (clean pfn listed)
    · exact checkBadPagesInRange_iff.mpr ⟨page, page_in, unwrapped, within⟩

def secondPage : SortedPages where
  pages := [1]
  sorted := List.pairwise_singleton _ _
  frames := by
    intro pfn listed
    rw [List.mem_singleton.mp listed]
    decide

theorem straddled_page_missed :
    ¬ ∀ (bad : SortedPages) (offset size : Addr), RangeReported bad offset size := by
  intro reported
  have found := (reported secondPage 0x1800 0x100).2 1 List.mem_cons_self
    ⟨0x1800, by decide, by decide, by decide, by decide⟩
  revert found
  decide

end MxGpu.Fb
