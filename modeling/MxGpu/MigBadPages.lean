import Mathlib.Data.List.TakeWhile
import MxGpu.FbCopyInfo
import MxGpu.PageRange

/- The bad pages of the source in the manifest of a migration, and the pages that only the
destination has. -/
namespace MxGpu.Fb

/-- `struct amdgv_migration_bad_page_section`, with the offsets that its count covers. -/
structure BadPageSection where
  magicNumber : Addr
  sortedBpOffsets : List Addr

def badPageMagic : Addr := 0x5345474150444142

def maxBadPageThreshold : Nat := 256

/-- The merge of `amdgv_migration_import_bad_pages`: the pages of the destination that are not
met in the source, which is read once from front to back. -/
def dstUnique (mcBasePfn : Addr) : List Addr → List Addr → List Addr
  | _, [] => []
  | offsets, pfn :: rest =>
    match offsets.dropWhile fun offset => offset + mcBasePfn < pfn with
    | [] => pfn :: dstUnique mcBasePfn [] rest
    | offset :: later =>
      if offset + mcBasePfn = pfn then dstUnique mcBasePfn (offset :: later) rest
      else pfn :: dstUnique mcBasePfn (offset :: later) rest

/-- `amdgv_migration_import_bad_pages`: `mig_state->dst_unique_bps` before and after, and whether
the import succeeds; `allocated` is that memory for the pages can be had. -/
def importBadPages (mcBase : Addr) (manifest : BadPageSection) (ehData : Option (List Addr))
    (allocated : Bool) (dstUniqueBps : Option (List Addr)) : Option (List Addr) × Bool :=
  if manifest.magicNumber ≠ badPageMagic then (dstUniqueBps, true)
  else
    match ehData with
    | none => (dstUniqueBps, true)
    | some sortedBps =>
      if manifest.sortedBpOffsets.length > maxBadPageThreshold then (dstUniqueBps, false)
      else if dstUniqueBps = none ∧ allocated = false then (none, false)
      else if sortedBps.length > maxBadPageThreshold then (some [], false)
      else (some (dstUnique (mcBase >>> 12) manifest.sortedBpOffsets sortedBps), true)

def BadPageSection.pages (manifest : BadPageSection) (mcBase : Addr) : List Addr :=
  manifest.sortedBpOffsets.map fun offset => offset + mcBase >>> 12

/-- The merge meets a page: only lower pages are in front of it in the source. -/
def Met (source : List Addr) (pfn : Addr) : Prop :=
  ∃ before after, source = before ++ pfn :: after ∧ ∀ lower ∈ before, lower < pfn

def metIn (source : List Addr) (pfn : Addr) : Bool :=
  (source.dropWhile fun lower => lower < pfn).head? = some pfn

theorem metIn_iff (source : List Addr) (pfn : Addr) : metIn source pfn = true ↔ Met source pfn := by
  unfold metIn
  rw [decide_eq_true_iff]
  constructor
  · intro first
    obtain ⟨after, rest⟩ := List.head?_eq_some_iff.mp first
    refine ⟨source.takeWhile fun lower => lower < pfn, after, ?_, ?_⟩
    · rw [← rest, List.takeWhile_append_dropWhile]
    · intro lower listed
      have passes := List.mem_takeWhile_imp listed
      exact of_decide_eq_true passes
  · intro ⟨before, after, split, below⟩
    rw [split, List.dropWhile_append_of_pos fun lower listed => decide_eq_true (below lower listed),
      List.dropWhile_cons, if_neg (by simp)]
    rfl

theorem dropWhile_below {pfn page : Addr} (order : pfn ≤ page) (source : List Addr) :
    (source.dropWhile fun lower => lower < pfn).dropWhile (fun lower => decide (lower < page)) =
      source.dropWhile fun lower => decide (lower < page) := by
  induction source with
  | nil => rfl
  | cons first rest ih =>
    by_cases below : first < pfn
    · have lower : first < page := by
        rw [BitVec.lt_def] at below ⊢
        exact Nat.lt_of_lt_of_le below (BitVec.le_def.mp order)
      rw [List.dropWhile_cons, if_pos (decide_eq_true below), List.dropWhile_cons,
        if_pos (decide_eq_true lower)]
      exact ih
    · rw [List.dropWhile_cons, if_neg (by simp [below])]

theorem dstUnique_eq (mcBasePfn : Addr) (pages : List Addr) :
    ∀ offsets, pages.Pairwise (· ≤ ·) →
      dstUnique mcBasePfn offsets pages =
        pages.filter fun pfn => !metIn (offsets.map fun offset => offset + mcBasePfn) pfn := by
  induction pages with
  | nil =>
    intro offsets _
    rfl
  | cons pfn rest ih =>
    intro offsets sorted
    have order := (List.pairwise_cons.mp sorted).1
    have later := (List.pairwise_cons.mp sorted).2
    -- what is left of the source after `pfn` meets the same pages
    have same : ∀ left, left.map (fun offset => offset + mcBasePfn) =
        ((offsets.map fun offset => offset + mcBasePfn).dropWhile fun lower => lower < pfn) →
        dstUnique mcBasePfn left rest =
          rest.filter fun page => !metIn (offsets.map fun offset => offset + mcBasePfn) page := by
      intro left cut
      rw [ih left later, cut]
      apply List.filter_congr
      intro page listed
      unfold metIn
      rw [dropWhile_below (order page listed)]
    have cut : (offsets.dropWhile fun offset => offset + mcBasePfn < pfn).map
        (fun offset => offset + mcBasePfn) =
        ((offsets.map fun offset => offset + mcBasePfn).dropWhile fun lower => lower < pfn) := by
      rw [List.dropWhile_map]
      rfl
    unfold dstUnique
    cases rest_of : offsets.dropWhile fun offset => offset + mcBasePfn < pfn with
    | nil =>
      rw [rest_of] at cut
      have unmet : metIn (offsets.map fun offset => offset + mcBasePfn) pfn = false := by
        unfold metIn
        rw [← cut]
        rfl
      dsimp only
      rw [same [] cut, List.filter_cons, unmet]
      rfl
    | cons offset left =>
      rw [rest_of] at cut
      have met : metIn (offsets.map fun offset => offset + mcBasePfn) pfn =
          decide (offset + mcBasePfn = pfn) := by
        unfold metIn
        rw [← cut]
        simp
      dsimp only
      rw [same _ cut, List.filter_cons, met]
      by_cases equal : offset + mcBasePfn = pfn
      · simp [equal]
      · simp [equal]

variable {bad : SortedPages} {mcBase offset size : Addr} {manifest : BadPageSection}
  {allocated : Bool} {before after : Option (List Addr)}

theorem importBadPages_eq (valid : manifest.magicNumber = badPageMagic)
    (imported : importBadPages mcBase manifest (some bad.pages) allocated before = (after, true)) :
    after = some (bad.pages.filter fun pfn => !metIn (manifest.pages mcBase) pfn) := by
  unfold importBadPages at imported
  rw [if_neg (fun wrong => wrong valid)] at imported
  dsimp only at imported
  by_cases long : manifest.sortedBpOffsets.length > maxBadPageThreshold
  · simp [long] at imported
  rw [if_neg long] at imported
  by_cases missing : before = none ∧ allocated = false
  · simp [missing] at imported
  rw [if_neg missing] at imported
  by_cases many : bad.pages.length > maxBadPageThreshold
  · simp [many] at imported
  rw [if_neg many, dstUnique_eq _ _ _ bad.sorted] at imported
  exact (Prod.mk.inj imported).1.symm

/-- The pages of the destination that the source does not have, one above the other, and what
the check of a range says of them. -/
structure DestinationOnly (bad : SortedPages) (source : List Addr) (offset size : Addr)
    (dstUniqueBps : Option (List Addr)) (pages : List Addr) : Prop where
  stored : dstUniqueBps = some pages
  rises : pages.Pairwise (· < ·)
  exact : ∀ pfn, pfn ∈ pages ↔ pfn ∈ bad.pages ∧ pfn ∉ source
  checked : dstCheckBadPagesInRange dstUniqueBps bad.pages offset size = true ↔
    ∃ pfn ∈ pages, LiesWithin pfn offset size

/-- When an import keeps the pages that only the destination has: each page of both lists is met,
each of the others is listed once, and a range with one of them ends below 2^64. -/
structure KeepsDestination (bad : SortedPages) (source : List Addr) (offset size : Addr) :
    Prop where
  met : ∀ pfn ∈ bad.pages, pfn ∈ source → Met source pfn
  once : ∀ pfn ∈ bad.pages, pfn ∉ source → bad.pages.count pfn = 1
  unwrapped : ∀ pfn ∈ bad.pages, pfn ∉ source → LiesWithin pfn offset size →
    offset.toNat + size.toNat < 2 ^ 64

theorem mem_of_met {source : List Addr} {pfn : Addr} (met : Met source pfn) : pfn ∈ source := by
  obtain ⟨front, back, split, -⟩ := met
  rw [split]
  exact List.mem_append_right front List.mem_cons_self

theorem rises_of_once {pages : List Addr} (sorted : pages.Pairwise (· ≤ ·))
    (once : pages.Nodup) : pages.Pairwise (· < ·) := by
  apply (sorted.and once).imp
  intro a b both
  have order := BitVec.le_def.mp both.1
  have apart : a.toNat ≠ b.toNat := fun same => both.2 (BitVec.eq_of_toNat_eq same)
  rw [BitVec.lt_def]
  omega

theorem dstCheck_iff {pages sortedBps : List Addr} (ascends : Ascends pages) :
    dstCheckBadPagesInRange (some pages) sortedBps offset size = true ↔
      ∃ pfn ∈ pages, offset.toNat + size.toNat < 2 ^ 64 ∧ LiesWithin pfn offset size := by
  cases pages with
  | nil =>
    constructor
    · intro found
      exact absurd found Bool.false_ne_true
    · intro ⟨pfn, listed, _⟩
      exact absurd listed List.not_mem_nil
  | cons first rest => exact @bpPfnInRange_iff offset size ascends.toSorted

theorem mem_kept_iff {source : List Addr} {pfn : Addr} :
    pfn ∈ bad.pages.filter (fun pfn => !metIn source pfn) ↔ pfn ∈ bad.pages ∧ ¬Met source pfn := by
  rw [List.mem_filter, Bool.not_eq_true', ← Bool.not_eq_true, metIn_iff]

theorem count_kept {source : List Addr} {pfn : Addr} (unmet : ¬Met source pfn) :
    (bad.pages.filter fun pfn => !metIn source pfn).count pfn = bad.pages.count pfn := by
  rw [← metIn_iff, Bool.not_eq_true] at unmet
  apply List.count_filter
  rw [unmet]
  rfl

theorem kept_iff_of_met {source : List Addr}
    (met : ∀ pfn ∈ bad.pages, pfn ∈ source → Met source pfn) (pfn : Addr) :
    pfn ∈ bad.pages.filter (fun pfn => !metIn source pfn) ↔ pfn ∈ bad.pages ∧ pfn ∉ source := by
  rw [mem_kept_iff]
  constructor
  · intro ⟨listed, unmet⟩
    exact ⟨listed, fun shared => unmet (met pfn listed shared)⟩
  · intro ⟨listed, own⟩
    exact ⟨listed, fun met => own (mem_of_met met)⟩

theorem KeepsDestination.ascends {source : List Addr}
    (keeps : KeepsDestination bad source offset size) :
    Ascends (bad.pages.filter fun pfn => !metIn source pfn) := by
  constructor
  · apply rises_of_once (bad.sorted.filter _)
    rw [List.nodup_iff_count]
    intro pfn
    by_cases kept : pfn ∈ bad.pages.filter fun pfn => !metIn source pfn
    · have own := (kept_iff_of_met keeps.met pfn).mp kept
      rw [count_kept (mem_kept_iff.mp kept).2, keeps.once pfn own.1 own.2]
    · rw [List.count_eq_zero_of_not_mem kept]
      exact Nat.zero_le 1
  · intro pfn kept
    exact bad.frames pfn (mem_kept_iff.mp kept).1

/-- After an import, the pages that only the destination has are kept in order, and the check of a
range reports them, exactly when each page of both lists has only lower pages in front of it in
the source, each of the others is listed once, and the range ends below 2^64 if it has one. -/
theorem import_keeps_iff (valid : manifest.magicNumber = badPageMagic)
    (imported : importBadPages mcBase manifest (some bad.pages) allocated before = (after, true)) :
    (∃ pages, DestinationOnly bad (manifest.pages mcBase) offset size after pages) ↔
      KeepsDestination bad (manifest.pages mcBase) offset size := by
  have stored := importBadPages_eq valid imported
  generalize manifest.pages mcBase = source at stored ⊢
  constructor
  · intro ⟨pages, holds⟩
    have same : bad.pages.filter (fun pfn => !metIn source pfn) = pages :=
      Option.some.inj (stored.symm.trans holds.stored)
    constructor
    · intro pfn listed shared
      by_cases met : Met source pfn
      · exact met
      · have kept := mem_kept_iff.mpr ⟨listed, met⟩
        rw [same] at kept
        exact absurd shared ((holds.exact pfn).mp kept).2
    · intro pfn listed own
      have nodup : pages.Nodup := holds.rises.imp fun order => BitVec.ne_of_lt order
      rw [← count_kept fun met => own (mem_of_met met), same]
      apply Nat.le_antisymm (List.nodup_iff_count.mp nodup pfn)
      rw [List.one_le_count_iff]
      exact (holds.exact pfn).mpr ⟨listed, own⟩
    · intro pfn listed own within
      have kept := (holds.exact pfn).mpr ⟨listed, own⟩
      have found := holds.checked.mpr ⟨pfn, kept, within⟩
      have frames : ∀ page ∈ pages, page.toNat < 2 ^ 52 := fun page page_in =>
        bad.frames page ((holds.exact page).mp page_in).1
      rw [holds.stored, dstCheck_iff ⟨holds.rises, frames⟩] at found
      obtain ⟨-, -, unwrapped, -⟩ := found
      exact unwrapped
  · intro keeps
    have exact := kept_iff_of_met keeps.met
    refine ⟨_, stored, keeps.ascends.rises, exact, ?_⟩
    rw [stored, dstCheck_iff keeps.ascends]
    constructor
    · intro ⟨pfn, kept, _, within⟩
      exact ⟨pfn, kept, within⟩
    · intro ⟨pfn, kept, within⟩
      have own := (exact pfn).mp kept
      exact ⟨pfn, kept, keeps.unwrapped pfn own.1 own.2 within, within⟩

theorem met_of_sorted {source : List Addr} (sorted : source.Pairwise (· ≤ ·)) {pfn : Addr}
    (listed : pfn ∈ source) : Met source pfn := by
  obtain ⟨front, back, split, new⟩ := List.eq_append_cons_of_mem listed
  refine ⟨front, back, split, ?_⟩
  intro lower in_front
  rw [split, List.pairwise_append] at sorted
  have order := BitVec.le_def.mp (sorted.2.2 lower in_front pfn List.mem_cons_self)
  have apart : lower.toNat ≠ pfn.toNat := fun same =>
    new (BitVec.eq_of_toNat_eq same ▸ in_front)
  rw [BitVec.lt_def]
  omega

/-- After the import of a manifest in ascending order, whatever its length and its repetitions,
the pages that only the destination has are kept in order, and the check of a range below 2^64
reports it exactly when one of these pages is in it. -/
theorem import_keeps_sorted {pages : List Addr} (ascends : Ascends pages)
    (valid : manifest.magicNumber = badPageMagic)
    (sorted : (manifest.pages mcBase).Pairwise (· ≤ ·))
    (imported : importBadPages mcBase manifest (some pages) allocated before = (after, true))
    (unwrapped : offset.toNat + size.toNat < 2 ^ 64) :
    ∃ unique, DestinationOnly ascends.toSorted (manifest.pages mcBase) offset size after
      unique := by
  apply (@import_keeps_iff ascends.toSorted _ _ _ _ _ _ _ valid imported).mpr
  constructor
  · intro pfn _ shared
    exact met_of_sorted sorted shared
  · intro pfn listed _
    have nodup : pages.Nodup := ascends.rises.imp fun order => BitVec.ne_of_lt order
    apply Nat.le_antisymm (List.nodup_iff_count.mp nodup pfn)
    rw [List.one_le_count_iff]
    exact listed
  · intro _ _ _ _
    exact unwrapped

theorem twoPages_ascend : Ascends [1, 3] := by
  constructor
  · simp
  · simp

/-- The page 3 is on both sides, and the page 1 on the destination only. -/
theorem import_keeps_first :
    ∃ unique, DestinationOnly twoPages_ascend.toSorted
      (BadPageSection.pages { magicNumber := badPageMagic, sortedBpOffsets := [2, 3] } 0)
      0x1000 0x1000 (some [1]) unique :=
  @import_keeps_sorted 0 0x1000 0x1000
    { magicNumber := badPageMagic, sortedBpOffsets := [2, 3] } true none (some [1]) [1, 3]
    twoPages_ascend rfl (by decide) (by decide) (by decide)

theorem unsorted_source_missed :
    ¬ ∀ (bad : SortedPages) (mcBase offset size : Addr) (manifest : BadPageSection)
      (allocated : Bool) (before after : Option (List Addr)),
      manifest.magicNumber = badPageMagic →
      importBadPages mcBase manifest (some bad.pages) allocated before = (after, true) →
        ∃ pages, DestinationOnly bad (manifest.pages mcBase) offset size after pages := by
  intro keeps
  obtain ⟨pages, holds⟩ := keeps secondPage 0 0 0
    { magicNumber := badPageMagic, sortedBpOffsets := [2, 1] } true none (some [1]) rfl (by decide)
  have kept : (1 : Addr) ∈ pages := by
    rw [← Option.some.inj holds.stored]
    exact List.mem_cons_self
  have own := ((holds.exact 1).mp kept).2
  revert own
  decide

end MxGpu.Fb
