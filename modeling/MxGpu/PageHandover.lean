import MxGpu.CritRegion

/- The bad pages that a guest is told of. -/
namespace MxGpu.Crit

open Fb VfFb

structure Entry where
  idx : Nat
  page : Addr
  deriving DecidableEq

/-- The bad pages of a VF as they are handed over: the entries written, their size in bytes, and
whether there are more. -/
structure Handover where
  entries : List Entry
  writeSize : Nat
  more : Bool

/-- The page of `amdgv_vfmgr_copy_bp_entry_to_vf_fb`: a retired page in the view of its VF. -/
def Host.vfPage (host : Host) (idxVf : Nat) (retiredPage : Addr) : Addr :=
  retiredPage - mbytesToBytes (host.arrayVf idxVf).fbOffset >>> 12

/-- A page that is handed to a VF: it is in its frame buffer and in no critical region. -/
def Host.forVf (host : Host) (idxVf : Nat) (retiredPage : Addr) : Bool :=
  host.calcRetiredPageVfSlot (pageAddr retiredPage) = idxVf &&
    (host.checkBpInCriticalRegion (pageAddr retiredPage) idxVf).isNone

/-- Whether `amdgv_vfmgr_copy_bp_entry_to_vf_fb` succeeds. -/
def Host.copiesEntry (host : Host) (copies : Nat → Bool) (idxVf i : Nat) : Bool :=
  (host.arrayVf idxVf).configured && copies i

/-- The loop of `amdgv_umc_copy_bp_records_to_vf` over the pages and their places; `copies` tells
of a place whether the copy of its entry to the memory of the VF succeeds. -/
def Host.copyBpRecordsToVf (host : Host) (copies : Nat → Bool) (idxVf allowedSize : Nat) :
    List (Addr × Nat) → Handover → Handover
  | [], handover => handover
  | (retiredPage, i) :: rest, handover =>
    if !host.forVf idxVf retiredPage then
      host.copyBpRecordsToVf copies idxVf allowedSize rest handover
    else if handover.writeSize > allowedSize then { handover with more := true }
    else if host.copiesEntry copies idxVf i then
      host.copyBpRecordsToVf copies idxVf allowedSize rest
        { entries := handover.entries ++
            [{ idx := handover.writeSize / 8, page := host.vfPage idxVf retiredPage }]
          writeSize := handover.writeSize + 8
          more := handover.more }
    else host.copyBpRecordsToVf copies idxVf allowedSize rest handover

def Host.handOver (host : Host) (copies : Nat → Bool) (idxVf allowedSize : Nat)
    (bps : List Addr) : Handover :=
  host.copyBpRecordsToVf copies idxVf allowedSize bps.zipIdx
    { entries := [], writeSize := 0, more := false }

def Host.entriesOf (host : Host) (idxVf : Nat) (pages : List Addr) : List Entry :=
  pages.mapIdx fun idx retiredPage => { idx, page := host.vfPage idxVf retiredPage }

/-- The entries are in the table, they are those of the first pages for the VF, and more is set
when there are others. -/
structure Host.Handed (host : Host) (idxVf allowedSize : Nat) (bps : List Addr)
    (handover : Handover) : Prop where
  inside : ∀ entry ∈ handover.entries, entry.idx * 8 + 8 ≤ allowedSize
  first : handover.entries =
    host.entriesOf idxVf ((bps.filter (host.forVf idxVf)).take handover.entries.length)
  writeSize : handover.writeSize = 8 * handover.entries.length
  more : handover.more = true ↔
    handover.entries.length < (bps.filter (host.forVf idxVf)).length

variable {host : Host} {copies : Nat → Bool} {idxVf allowedSize : Nat}

/-- The pages for a VF with their places in the list. -/
def Host.ownPlaces (host : Host) (idxVf : Nat) (bps : List (Addr × Nat)) : List (Addr × Nat) :=
  bps.filter fun page => host.forVf idxVf page.1

theorem ownPlaces_pages (bps : List Addr) :
    (host.ownPlaces idxVf bps.zipIdx).map Prod.fst = bps.filter (host.forVf idxVf) := by
  have pages := List.filter_map (f := Prod.fst) (p := host.forVf idxVf) (l := bps.zipIdx)
  rw [List.zipIdx_map_fst] at pages
  exact pages.symm

theorem ownPlaces_length (bps : List Addr) :
    (host.ownPlaces idxVf bps.zipIdx).length = (bps.filter (host.forVf idxVf)).length := by
  rw [← ownPlaces_pages, List.length_map]

theorem entriesOf_length (pages : List Addr) :
    (host.entriesOf idxVf pages).length = pages.length :=
  List.length_mapIdx

theorem entriesOf_append (pages : List Addr) (retiredPage : Addr) :
    host.entriesOf idxVf (pages ++ [retiredPage]) = host.entriesOf idxVf pages ++
      [{ idx := pages.length, page := host.vfPage idxVf retiredPage }] :=
  List.mapIdx_concat

theorem idx_lt_of_mem {pages : List Addr} {entry : Entry}
    (written : entry ∈ host.entriesOf idxVf pages) : entry.idx < pages.length := by
  obtain ⟨idx, inside, rfl⟩ := List.mem_mapIdx.mp written
  exact inside

/-- What the loop has handed over when `pages` are copied: it stops with more only when the size
of the entries is past the table. -/
structure Host.Reaches (host : Host) (idxVf allowedSize : Nat) (all : List Addr)
    (handover : Handover) : Prop where
  pages : ∃ pages, handover.entries = host.entriesOf idxVf pages ∧
    handover.writeSize = 8 * pages.length ∧
    (handover.more = false → pages = all) ∧
    (handover.more = true → allowedSize < 8 * pages.length ∧ pages.length ≤ all.length)

theorem copyBpRecordsToVf_reaches (bps : List (Addr × Nat)) :
    ∀ copied handover, handover.entries = host.entriesOf idxVf copied →
      handover.writeSize = 8 * copied.length → handover.more = false →
      host.Reaches idxVf allowedSize
        (copied ++ ((host.ownPlaces idxVf bps).filter fun page =>
          host.copiesEntry copies idxVf page.2).map Prod.fst)
        (host.copyBpRecordsToVf copies idxVf allowedSize bps handover) := by
  unfold Host.ownPlaces
  induction bps with
  | nil =>
    intro copied handover entries size unfinished
    refine ⟨copied, entries, size, fun _ => (List.append_nil copied).symm, fun more => ?_⟩
    exact absurd (unfinished.symm.trans more) Bool.false_ne_true
  | cons head rest ih =>
    obtain ⟨retiredPage, i⟩ := head
    intro copied handover entries size unfinished
    unfold Host.copyBpRecordsToVf
    by_cases own : host.forVf idxVf retiredPage = true
    · rw [if_neg (by simp [own]), List.filter_cons_of_pos (by exact own)]
      by_cases full : handover.writeSize > allowedSize
      · rw [if_pos full]
        refine ⟨copied, entries, size, fun more => absurd more (by simp), fun _ => ?_⟩
        rw [size] at full
        rw [List.length_append]
        exact ⟨full, Nat.le_add_right _ _⟩
      rw [if_neg full]
      by_cases copies_it : host.copiesEntry copies idxVf i = true
      · rw [if_pos copies_it, List.filter_cons_of_pos (by exact copies_it), List.map_cons]
        have next := ih (copied ++ [retiredPage])
          { entries := handover.entries ++
              [{ idx := handover.writeSize / 8, page := host.vfPage idxVf retiredPage }]
            writeSize := handover.writeSize + 8
            more := handover.more } (by
              rw [entriesOf_append, entries, size, Nat.mul_div_cancel_left _ (by decide)])
          (by
            show handover.writeSize + 8 = _
            rw [List.length_append, List.length_singleton, size]
            omega) unfinished
        rw [List.append_assoc] at next
        exact next
      · rw [if_neg copies_it, List.filter_cons_of_neg (by exact copies_it)]
        exact ih copied handover entries size unfinished
    · rw [if_pos (by simp [own]), List.filter_cons_of_neg (by exact own)]
      exact ih copied handover entries size unfinished

theorem handOver_reaches (host : Host) (copies : Nat → Bool) (idxVf allowedSize : Nat)
    (bps : List Addr) :
    host.Reaches idxVf allowedSize
      (((host.ownPlaces idxVf bps.zipIdx).filter fun page =>
        host.copiesEntry copies idxVf page.2).map Prod.fst)
      (host.handOver copies idxVf allowedSize bps) :=
  copyBpRecordsToVf_reaches bps.zipIdx [] { entries := [], writeSize := 0, more := false } rfl rfl rfl

/-- Where a hand-over is within its table and complete, all pages for the VF are written and fit
into the table: the loop stops with more only behind the entry that does not fit. -/
theorem all_written_of_handed {bps : List Addr}
    (handed : host.Handed idxVf allowedSize bps (host.handOver copies idxVf allowedSize bps)) :
    8 * (bps.filter (host.forVf idxVf)).length ≤ allowedSize ∧
      ∀ page ∈ host.ownPlaces idxVf bps.zipIdx, host.copiesEntry copies idxVf page.2 = true := by
  obtain ⟨pages, entries, size, done, stopped⟩ :=
    (handOver_reaches host copies idxVf allowedSize bps).pages
  have more := handed.more
  rw [entries, entriesOf_length] at more
  -- the last entry that is written is in the table
  have fits : 8 * pages.length ≤ allowedSize := by
    cases pages_of : pages.reverse with
    | nil =>
      rw [List.reverse_eq_nil_iff.mp pages_of]
      exact Nat.zero_le _
    | cons last before =>
      have split : pages = before.reverse ++ [last] := by
        rw [← List.reverse_reverse pages, pages_of, List.reverse_cons]
      have inside := handed.inside
        { idx := before.reverse.length, page := host.vfPage idxVf last } (by
          rw [entries, split, entriesOf_append]
          exact List.mem_append_right _ List.mem_cons_self)
      rw [split, List.length_append, List.length_singleton]
      dsimp only at inside
      omega
  have complete : (host.handOver copies idxVf allowedSize bps).more = false := by
    cases ends : (host.handOver copies idxVf allowedSize bps).more with
    | false => rfl
    | true => exact absurd fits (Nat.not_le.mpr (stopped ends).1)
  have all := done complete
  have shorter := List.length_filter_le (fun page => host.copiesEntry copies idxVf page.2)
    (host.ownPlaces idxVf bps.zipIdx)
  have not_less : ¬pages.length < (bps.filter (host.forVf idxVf)).length := fun less => by
    rw [more.mpr less] at complete
    exact Bool.noConfusion complete
  rw [all, List.length_map] at fits not_less
  rw [← ownPlaces_length] at not_less ⊢
  have all_copied := Nat.le_antisymm shorter (Nat.not_lt.mp not_less)
  rw [all_copied] at fits
  exact ⟨fits, List.length_filter_eq_length_iff.mp all_copied⟩

/-- A hand-over is within its table and complete exactly when all pages for the VF fit into the
table and their copies succeed. -/
theorem handed_iff (host : Host) (copies : Nat → Bool) (idxVf allowedSize : Nat)
    (bps : List Addr) :
    host.Handed idxVf allowedSize bps (host.handOver copies idxVf allowedSize bps) ↔
      8 * (bps.filter (host.forVf idxVf)).length ≤ allowedSize ∧
        ∀ i retiredPage, bps[i]? = some retiredPage → host.forVf idxVf retiredPage = true →
          host.copiesEntry copies idxVf i = true := by
  constructor
  · intro handed
    have written := all_written_of_handed handed
    refine ⟨written.1, fun i retiredPage at_i own => ?_⟩
    have listed := List.mk_mem_zipIdx_iff_getElem?.mpr at_i
    exact written.2 (retiredPage, i) (List.mem_filter.mpr ⟨listed, own⟩)
  · intro ⟨fits, copied⟩
    have own_copied : ∀ page ∈ host.ownPlaces idxVf bps.zipIdx,
        host.copiesEntry copies idxVf page.2 = true := by
      intro page listed
      obtain ⟨in_list, own⟩ := List.mem_filter.mp listed
      exact copied page.2 page.1 (List.mem_zipIdx_iff_getElem?.mp in_list) own
    obtain ⟨pages, entries, size, done, stopped⟩ :=
      (handOver_reaches host copies idxVf allowedSize bps).pages
    rw [List.filter_eq_self.mpr own_copied, ownPlaces_pages] at done stopped
    have complete : (host.handOver copies idxVf allowedSize bps).more = false := by
      cases ends : (host.handOver copies idxVf allowedSize bps).more with
      | false => rfl
      | true =>
        have past := stopped ends
        omega
    have all := done complete
    have length : (host.handOver copies idxVf allowedSize bps).entries.length =
        (bps.filter (host.forVf idxVf)).length := by
      rw [entries, entriesOf_length, all]
    constructor
    · intro entry written
      rw [entries, all] at written
      have in_list := idx_lt_of_mem written
      omega
    · rw [length, List.take_length, entries, all]
    · rw [size, entries, entriesOf_length]
    · rw [length, complete]
      constructor
      · intro more
        exact absurd more Bool.false_ne_true
      · intro less
        exact absurd less (Nat.lt_irrefl _)

def oneVf : Host :=
  { twoVfs with
    numVf := 1
    arrayVf := fun _ =>
      { configured := true
        active := true
        fbOffset := 0
        fbSize := 16
        xchg :=
          { vfTableOffsets := fun _ => 0
            vfTableSizesKb := fun _ => 0
            vfCritRegion := .unset
            gpaCtx := none } } }

theorem oneVf_forVf {n : Nat} (small : n < 4096) :
    oneVf.forVf 0 (BitVec.ofNat 64 n) = true := by
  have number : (BitVec.ofNat 64 n).toNat = n := by
    rw [BitVec.toNat_ofNat, Nat.mod_eq_of_lt (by omega)]
  have addr : (pageAddr (BitVec.ofNat 64 n)).toNat = n * 4096 := by
    rw [pageAddr_frame (by omega), number]
  have inside : isBpInRange (pageAddr (BitVec.ofNat 64 n)) (mbytesToBytes 0) (mbytesToBytes 16) := by
    have size : (mbytesToBytes 0 + mbytesToBytes 16).toNat = 0x1000000 := by decide
    have offset : (mbytesToBytes 0).toNat = 0 := by decide
    rw [isBpInRange_iff (pageAddr_dvd _), addr, size, offset]
    omega
  have apart : ¬isBpInRange (pageAddr (BitVec.ofNat 64 n)) (mbytesToBytes 64 - ipDiscoveryOffset)
      0x2800 := by
    have offset : (mbytesToBytes 64 - ipDiscoveryOffset).toNat = 0x3ff0000 := by decide
    rw [isBpInRange_iff (pageAddr_dvd _), addr, offset]
    omega
  have slot : oneVf.calcRetiredPageVfSlot (pageAddr (BitVec.ofNat 64 n)) = 0 := by
    show ([0].find? fun _ => decide (isBpInRange (pageAddr (BitVec.ofNat 64 n)) (mbytesToBytes 0)
      (mbytesToBytes 16))).getD pfIdx = 0
    rw [decide_eq_true inside]
    rfl
  have regions : oneVf.checkRegions (pageAddr (BitVec.ofNat 64 n)) = none := by
    show (if isBpInRange (pageAddr (BitVec.ofNat 64 n)) (mbytesToBytes 64 - ipDiscoveryOffset)
      0x2800 then some BpMsg.inCriticalRegion else none) = none
    exact if_neg apart
  have clear : oneVf.checkBpInCriticalRegion (pageAddr (BitVec.ofNat 64 n)) 0 = none := by
    unfold Host.checkBpInCriticalRegion
    rw [regions]
    rfl
  unfold Host.forVf
  rw [slot, clear]
  rfl

def fullTable : List Addr := (List.range 257).map (BitVec.ofNat 64)

theorem table_overrun :
    ¬ ∀ (host : Host) (copies : Nat → Bool) (idxVf allowedSize : Nat) (bps : List Addr),
      host.Handed idxVf allowedSize bps (host.handOver copies idxVf allowedSize bps) := by
  intro handed
  have fits := (all_written_of_handed (handed oneVf (fun _ => true) 0 2048 fullTable)).1
  have own : ∀ retiredPage ∈ fullTable, oneVf.forVf 0 retiredPage = true := by
    intro retiredPage listed
    obtain ⟨n, in_table, rfl⟩ := List.mem_map.mp listed
    have small := List.mem_range.mp in_table
    exact oneVf_forVf (by omega)
  rw [List.filter_eq_self.mpr own, fullTable, List.length_map, List.length_range] at fits
  omega

end MxGpu.Crit
