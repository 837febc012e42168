import MxGpu.FbCopyInfo
import MxGpu.PageRange
import MxGpu.SkipBlocks

/- A copy of the frame buffer of a VF in segments, around the bad pages of the host. -/
namespace MxGpu.VfFb

open Fb Function

/-- `amdgv_find_bad_page_range`: where the bad pages of a range are in the sorted list, and how
many there are. -/
def findBadPageRange (sortedBps : List Addr) (src srcEnd : Addr) : Int × Int :=
  if sortedBps = [] then (-1, 0)
  else
    let last := (sortedBps.length : Int) - 1
    let before := Bisect.onPlaces (fun pfn => !decide (pageAddr pfn ≥ src)) sortedBps 0
    let inside := Bisect.onPlaces (fun pfn => decide (pageAddr pfn < srcEnd)) sortedBps 0
    let bpStartIdx := (Bisect.search before 0 last (-1)).above
    let bpEndIdx :=
      if bpStartIdx ≠ -1 then (Bisect.search inside bpStartIdx last (-1)).below else -1
    if bpStartIdx ≠ -1 ∧ bpEndIdx ≠ -1 ∧ bpEndIdx ≥ bpStartIdx then
      (bpStartIdx, bpEndIdx - bpStartIdx + 1)
    else (bpStartIdx, 0)

structure Request where
  src : Addr
  dst : Addr
  totalSize : Addr
  srcVaddr : Addr
  dstVaddr : Addr

/-- A call of `amdgv_sched_event_do_fb_copy`. -/
structure Segment where
  src : Addr
  dst : Addr
  size : Addr
  srcVaddr : Addr
  dstVaddr : Addr
  deriving DecidableEq

/-- The cursors of `amdgv_perform_segmented_fb_copy`. -/
structure Cursors where
  currentSrc : Addr
  currentDst : Addr
  remainingSize : Addr

def Cursors.advance (cursors : Cursors) (size : Addr) : Cursors where
  currentSrc := cursors.currentSrc + size
  currentDst := cursors.currentDst + size
  remainingSize := cursors.remainingSize - size

structure Outcome where
  calls : List Segment
  ok : Bool
  remaining : Addr

def Request.segment (request : Request) (cursors : Cursors) (size : Addr) : Segment where
  src := cursors.currentSrc
  dst := cursors.currentDst
  size
  srcVaddr :=
    if request.srcVaddr ≠ 0 then request.srcVaddr + (cursors.currentSrc - request.src) else 0
  dstVaddr :=
    if request.dstVaddr ≠ 0 then request.dstVaddr + (cursors.currentDst - request.dst) else 0

/-- The clean segment in front of `segmentEnd`, if there is one. -/
def Cursors.segmentSize (cursors : Cursors) (segmentEnd : Addr) : Addr :=
  if segmentEnd > cursors.currentSrc then
    let segmentSize := segmentEnd - cursors.currentSrc
    if segmentSize < cursors.remainingSize then segmentSize else cursors.remainingSize
  else 0

def Cursors.skipPage (cursors : Cursors) : Cursors :=
  if cursors.remainingSize > 0 then
    cursors.advance
      (if gpuPageSize < cursors.remainingSize then gpuPageSize else cursors.remainingSize)
  else cursors

/-- The loop of `amdgv_perform_segmented_fb_copy` over the bad pages of the range, and the last
segment behind them. `copy` tells whether a call succeeds. -/
def Request.segmentedFbCopy (request : Request) (copy : Segment → Bool) :
    List Addr → Cursors → Outcome
  | [], cursors =>
    if cursors.remainingSize > 0 then
      let size := cursors.segmentSize (request.src + request.totalSize)
      if size > 0 then
        let call := request.segment cursors size
        if copy call then ⟨[call], true, (cursors.advance size).remainingSize⟩
        else ⟨[call], false, cursors.remainingSize⟩
      else ⟨[], true, cursors.remainingSize⟩
    else ⟨[], true, cursors.remainingSize⟩
  | pfn :: rest, cursors =>
    if cursors.remainingSize > 0 then
      let size := cursors.segmentSize (pageAddr pfn)
      if size > 0 then
        let call := request.segment cursors size
        if copy call then
          let outcome := request.segmentedFbCopy copy rest (cursors.advance size).skipPage
          { outcome with calls := call :: outcome.calls }
        else ⟨[call], false, cursors.remainingSize⟩
      else request.segmentedFbCopy copy rest cursors.skipPage
    else ⟨[], true, cursors.remainingSize⟩

def Request.copyWhole (request : Request) (copy : Segment → Bool) : Outcome :=
  let call : Segment :=
    { src := request.src
      dst := request.dst
      size := request.totalSize
      srcVaddr := request.srcVaddr
      dstVaddr := request.dstVaddr }
  if copy call then ⟨[call], true, 0⟩ else ⟨[call], false, request.totalSize⟩

/-- `amdgv_sched_event_vf_fb_copy_skip_bad_pages`; a list that is missing is an empty one. -/
def Request.copySkipBadPages (request : Request) (copy : Segment → Bool)
    (sortedBps : List Addr) : Outcome :=
  if sortedBps = [] then request.copyWhole copy
  else
    let (bpStartIdx, bpCount) :=
      findBadPageRange sortedBps request.src (request.src + request.totalSize)
    if bpCount = 0 then request.copyWhole copy
    else
      request.segmentedFbCopy copy ((sortedBps.drop bpStartIdx.toNat).take bpCount.toNat)
        { currentSrc := request.src
          currentDst := request.dst
          remainingSize := request.totalSize }

def InBadPage (bad : SortedPages) (byte : Addr) : Prop := byte >>> 12 ∈ bad.pages

instance (bad : SortedPages) (byte : Addr) : Decidable (InBadPage bad byte) :=
  inferInstanceAs (Decidable (_ ∈ _))

/-- A call reads the byte `k` of the range. -/
def Segment.reads (request : Request) (k : Nat) (call : Segment) : Bool :=
  (call.src - request.src).toNat ≤ k && k < (call.src - request.src).toNat + call.size.toNat

/-- A call writes to where it reads, seen from the ends of the range, and stays in the range. -/
structure Segment.Placed (request : Request) (call : Segment) : Prop where
  dst : call.dst - request.dst = call.src - request.src
  srcVaddr : call.srcVaddr =
    if request.srcVaddr ≠ 0 then request.srcVaddr + (call.src - request.src) else 0
  dstVaddr : call.dstVaddr =
    if request.dstVaddr ≠ 0 then request.dstVaddr + (call.dst - request.dst) else 0
  inside : (call.src - request.src).toNat + call.size.toNat ≤ request.totalSize.toNat

/-- The bytes outside of the bad pages are copied once, those inside are not read, and nothing is
left. -/
structure Copied (bad : SortedPages) (request : Request) (outcome : Outcome) : Prop where
  ok : outcome.ok = true
  consumed : outcome.remaining = 0
  placed : ∀ call ∈ outcome.calls, call.Placed request
  good : ∀ k < request.totalSize.toNat, ¬InBadPage bad (request.src + BitVec.ofNat 64 k) →
    outcome.calls.countP (Segment.reads request k) = 1
  bad : ∀ k < request.totalSize.toNat, InBadPage bad (request.src + BitVec.ofNat 64 k) →
    outcome.calls.countP (Segment.reads request k) = 0

def StartsClean (bad : SortedPages) (request : Request) : Prop :=
  ∀ pfn ∈ bad.pages, ¬(pfn.toNat * 4096 < request.src.toNat ∧
    request.src.toNat < pfn.toNat * 4096 + 4096 ∧ 0 < request.totalSize.toNat)

/-- Behind a page that is listed twice there are only bad pages in the range. -/
def RepeatsLast (bad : SortedPages) (request : Request) : Prop :=
  ∀ pfn ∈ bad.pages, 2 ≤ bad.pages.count pfn → request.src.toNat ≤ pfn.toNat * 4096 →
    ∀ k < request.totalSize.toNat, pfn.toNat * 4096 ≤ request.src.toNat + k →
      InBadPage bad (request.src + BitVec.ofNat 64 k)

/-- When a range can be copied around its bad pages: one that wraps has to be without any. -/
def Copyable (bad : SortedPages) (request : Request) : Prop :=
  if request.src.toNat + request.totalSize.toNat < 2 ^ 64 then
    StartsClean bad request ∧ RepeatsLast bad request
  else
    ∀ k < request.totalSize.toNat, ¬InBadPage bad (request.src + BitVec.ofNat 64 k)

variable {bad : SortedPages} {request : Request}

theorem copyWhole_copied_iff :
    Copied bad request (request.copyWhole fun _ => true) ↔
      ∀ k < request.totalSize.toNat, ¬InBadPage bad (request.src + BitVec.ofNat 64 k) := by
  have read : ∀ k < request.totalSize.toNat,
      (request.copyWhole fun _ => true).calls.countP (Segment.reads request k) = 1 := by
    intro k inside
    have reads : Segment.reads request k
        { src := request.src, dst := request.dst, size := request.totalSize,
          srcVaddr := request.srcVaddr, dstVaddr := request.dstVaddr } = true := by
      simp [Segment.reads, inside]
    exact List.countP_singleton.trans (if_pos reads)
  constructor
  · intro copied k inside listed
    have none := copied.bad k inside listed
    rw [read k inside] at none
    exact absurd none Nat.one_ne_zero
  · intro clean
    constructor
    · rfl
    · rfl
    · intro call called
      rw [List.mem_singleton.mp called]
      constructor
      · simp
      · simp
      · simp
      · simp
    · intro k inside _
      exact read k inside
    · intro k inside listed
      exact absurd listed (clean k inside)

/-- The cursors after `c` bytes. -/
def Request.cursors (request : Request) (c : Nat) : Cursors where
  currentSrc := request.src + BitVec.ofNat 64 c
  currentDst := request.dst + BitVec.ofNat 64 c
  remainingSize := BitVec.ofNat 64 (request.totalSize.toNat - c)

def Request.pieceCall (request : Request) (piece : Nat × Nat) : Segment :=
  request.segment (request.cursors piece.1) (BitVec.ofNat 64 piece.2)

def Request.place (request : Request) (pfn : Addr) : Nat := pfn.toNat * 4096 - request.src.toNat

theorem remaining_toNat (c : Nat) :
    (request.cursors c).remainingSize.toNat = request.totalSize.toNat - c := by
  have bound := request.totalSize.isLt
  show (BitVec.ofNat 64 (request.totalSize.toNat - c)).toNat = _
  rw [BitVec.toNat_ofNat, Nat.mod_eq_of_lt (by omega)]

theorem cursors_advance {c n : Nat} (inside : c + n ≤ request.totalSize.toNat) :
    (request.cursors c).advance (BitVec.ofNat 64 n) = request.cursors (c + n) := by
  have remaining : BitVec.ofNat 64 (request.totalSize.toNat - c) - BitVec.ofNat 64 n =
      BitVec.ofNat 64 (request.totalSize.toNat - (c + n)) := by
    apply BitVec.eq_of_toNat_eq
    rw [BitVec.toNat_sub_of_le]
    · simp only [BitVec.toNat_ofNat]
      omega
    · rw [BitVec.le_def]
      simp only [BitVec.toNat_ofNat]
      omega
  unfold Cursors.advance Request.cursors
  rw [remaining, BitVec.add_assoc, BitVec.add_assoc, BitVec.ofNat_add]

theorem cursors_segmentSize {c q : Nat} {segmentEnd : Addr}
    (unwrapped : request.src.toNat + request.totalSize.toNat < 2 ^ 64)
    (c_in : c ≤ request.totalSize.toNat) (q_in : q ≤ request.totalSize.toNat)
    (place : segmentEnd.toNat = request.src.toNat + q) :
    (request.cursors c).segmentSize segmentEnd = BitVec.ofNat 64 (q - c) := by
  have at_c : (request.cursors c).currentSrc.toNat = request.src.toNat + c := by
    show (request.src + BitVec.ofNat 64 c).toNat = _
    rw [BitVec.toNat_add, BitVec.toNat_ofNat]
    omega
  unfold Cursors.segmentSize
  by_cases ahead : segmentEnd > (request.cursors c).currentSrc
  · have ahead_nat := BitVec.lt_def.mp ahead
    have size : (segmentEnd - (request.cursors c).currentSrc).toNat = q - c := by
      rw [BitVec.toNat_sub_of_le (BitVec.le_of_lt ahead), at_c, place]
      omega
    rw [if_pos ahead]
    dsimp only
    apply BitVec.eq_of_toNat_eq
    rw [BitVec.toNat_ofNat]
    by_cases less : segmentEnd - (request.cursors c).currentSrc < (request.cursors c).remainingSize
    · rw [if_pos less, size, Nat.mod_eq_of_lt (by omega)]
    · rw [BitVec.lt_def, size, remaining_toNat] at less
      rw [if_neg (by rw [BitVec.lt_def, size, remaining_toNat]; exact less), remaining_toNat]
      omega
  · rw [if_neg ahead]
    have behind := Nat.not_lt.mp fun less => ahead (BitVec.lt_def.mpr less)
    have none : q - c = 0 := by omega
    rw [none]
    rfl

theorem cursors_skipPage {c : Nat} (more : c < request.totalSize.toNat) :
    (request.cursors c).skipPage = request.cursors (min (c + 4096) request.totalSize.toNat) := by
  have positive : (request.cursors c).remainingSize > 0 := by
    rw [gt_iff_lt, BitVec.lt_def, remaining_toNat]
    exact Nat.sub_pos_of_lt more
  have page : gpuPageSize.toNat = 4096 := by decide
  unfold Cursors.skipPage
  rw [if_pos positive]
  by_cases whole : gpuPageSize < (request.cursors c).remainingSize
  · rw [if_pos whole]
    rw [BitVec.lt_def, remaining_toNat, page] at whole
    rw [Nat.min_eq_left (by omega)]
    exact cursors_advance (n := 4096) (by omega)
  · rw [if_neg whole]
    rw [BitVec.lt_def, remaining_toNat, page] at whole
    rw [Nat.min_eq_right (by omega)]
    have rest := @cursors_advance request c (request.totalSize.toNat - c) (by omega)
    rw [Nat.add_sub_cancel' (Nat.le_of_lt more)] at rest
    exact rest

theorem ofNat_pos {n : Nat} (bound : n < 2 ^ 64) : BitVec.ofNat 64 n > 0 ↔ 0 < n := by
  rw [gt_iff_lt, BitVec.lt_def, BitVec.toNat_ofNat, Nat.mod_eq_of_lt bound]
  rfl

theorem segmentedFbCopy_eq (unwrapped : request.src.toNat + request.totalSize.toNat < 2 ^ 64)
    {pages : List Addr} (frames : ∀ pfn ∈ pages, pfn.toNat < 2 ^ 52)
    (low : ∀ pfn ∈ pages, request.src.toNat ≤ pfn.toNat * 4096)
    (high : ∀ pfn ∈ pages, request.place pfn < request.totalSize.toNat) :
    ∀ c ≤ request.totalSize.toNat,
      request.segmentedFbCopy (fun _ => true) pages (request.cursors c) =
        ⟨(SkipBlocks.pieces 4096 request.totalSize.toNat (pages.map request.place) c).map
          request.pieceCall, true, 0⟩ := by
  have none_left : (request.cursors request.totalSize.toNat).remainingSize = 0 := by
    unfold Request.cursors
    rw [Nat.sub_self]
    rfl
  induction pages with
  | nil =>
    intro c inside
    unfold Request.segmentedFbCopy
    by_cases more : c < request.totalSize.toNat
    · have positive : (request.cursors c).remainingSize > 0 := by
        rw [gt_iff_lt, BitVec.lt_def, remaining_toNat]
        exact Nat.sub_pos_of_lt more
      have ends : (request.src + request.totalSize).toNat =
          request.src.toNat + request.totalSize.toNat := by
        rw [BitVec.toNat_add, Nat.mod_eq_of_lt unwrapped]
      rw [if_pos positive, cursors_segmentSize unwrapped inside (Nat.le_refl _) ends]
      dsimp only
      rw [if_pos ((ofNat_pos (by omega)).mpr (by omega)), if_pos rfl,
        cursors_advance (by omega), Nat.add_sub_cancel' inside, none_left]
      unfold SkipBlocks.pieces
      rw [List.map_nil]
      dsimp only
      rw [if_pos more]
      rfl
    · have done : c = request.totalSize.toNat := by omega
      rw [done, none_left, if_neg (by decide), SkipBlocks.pieces_done (Nat.le_refl _)]
      rfl
  | cons pfn rest ih =>
    intro c inside
    have ih := ih (fun p listed => frames p (List.mem_cons_of_mem pfn listed))
      (fun p listed => low p (List.mem_cons_of_mem pfn listed))
      (fun p listed => high p (List.mem_cons_of_mem pfn listed))
    have above := low pfn List.mem_cons_self
    have below := high pfn List.mem_cons_self
    have place : (pageAddr pfn).toNat = request.src.toNat + request.place pfn := by
      rw [pageAddr_frame (frames pfn List.mem_cons_self)]
      unfold Request.place
      omega
    unfold Request.segmentedFbCopy
    by_cases more : c < request.totalSize.toNat
    · have positive : (request.cursors c).remainingSize > 0 := by
        rw [gt_iff_lt, BitVec.lt_def, remaining_toNat]
        exact Nat.sub_pos_of_lt more
      rw [if_pos positive, cursors_segmentSize unwrapped inside (Nat.le_of_lt below) place]
      dsimp only
      rw [List.map_cons, SkipBlocks.pieces, if_pos more]
      by_cases before : c < request.place pfn
      · rw [if_pos ((ofNat_pos (by omega)).mpr (by omega)), if_pos rfl, if_pos before,
          cursors_advance (by omega), Nat.add_sub_cancel' (Nat.le_of_lt before),
          cursors_skipPage below, ih _ (Nat.min_le_right _ _)]
        rfl
      · have empty : ¬BitVec.ofNat 64 (request.place pfn - c) > 0 := by
          rw [ofNat_pos (by omega)]
          omega
        rw [if_neg empty, if_neg before, cursors_skipPage more, ih _ (Nat.min_le_right _ _)]
    · have done : c = request.totalSize.toNat := by omega
      rw [done, none_left, if_neg (by decide), SkipBlocks.pieces_done (Nat.le_refl _)]
      rfl

theorem add_ofNat_sub (base : Addr) (c : Nat) :
    base + BitVec.ofNat 64 c - base = BitVec.ofNat 64 c := by
  rw [BitVec.add_comm, BitVec.add_sub_cancel]

theorem pieceCall_reads {piece : Nat × Nat} (k : Nat)
    (inside : piece.1 + piece.2 ≤ request.totalSize.toNat) :
    Segment.reads request k (request.pieceCall piece) = SkipBlocks.covers k piece := by
  have first : ((request.pieceCall piece).src - request.src).toNat = piece.1 := by
    show (request.src + BitVec.ofNat 64 piece.1 - request.src).toNat = _
    rw [add_ofNat_sub, BitVec.toNat_ofNat, Nat.mod_eq_of_lt (by omega)]
  have size : (request.pieceCall piece).size.toNat = piece.2 := by
    show (BitVec.ofNat 64 piece.2).toNat = _
    rw [BitVec.toNat_ofNat, Nat.mod_eq_of_lt (by omega)]
  unfold Segment.reads SkipBlocks.covers
  rw [first, size]

theorem pieceCall_placed {piece : Nat × Nat}
    (inside : piece.1 + piece.2 ≤ request.totalSize.toNat) :
    (request.pieceCall piece).Placed request := by
  constructor
  · show request.dst + BitVec.ofNat 64 piece.1 - request.dst =
      request.src + BitVec.ofNat 64 piece.1 - request.src
    rw [add_ofNat_sub, add_ofNat_sub]
  · rfl
  · rfl
  · show (request.src + BitVec.ofNat 64 piece.1 - request.src).toNat +
      (BitVec.ofNat 64 piece.2).toNat ≤ _
    rw [add_ofNat_sub, BitVec.toNat_ofNat, BitVec.toNat_ofNat, Nat.mod_eq_of_lt (by omega),
      Nat.mod_eq_of_lt (by omega)]
    exact inside

theorem pieces_copied_iff {taken : List (Nat × Nat)}
    (inside : ∀ piece ∈ taken, piece.1 + piece.2 ≤ request.totalSize.toNat) :
    Copied bad request ⟨taken.map request.pieceCall, true, 0⟩ ↔
      ∀ k < request.totalSize.toNat,
        (InBadPage bad (request.src + BitVec.ofNat 64 k) → SkipBlocks.times k taken = 0) ∧
          (¬InBadPage bad (request.src + BitVec.ofNat 64 k) → SkipBlocks.times k taken = 1) := by
  have counted : ∀ k, (taken.map request.pieceCall).countP (Segment.reads request k) =
      SkipBlocks.times k taken := by
    intro k
    rw [List.countP_map]
    apply List.countP_congr
    intro piece listed
    rw [comp_apply, pieceCall_reads k (inside piece listed)]
  constructor
  · intro copied k below
    have good := copied.good k below
    have bad := copied.bad k below
    simp only [counted] at good bad
    exact ⟨bad, good⟩
  · intro exact
    constructor
    · rfl
    · rfl
    · intro call called
      obtain ⟨piece, listed, rfl⟩ := List.mem_map.mp called
      exact pieceCall_placed (inside piece listed)
    · intro k below clean
      rw [counted]
      exact (exact k below).2 clean
    · intro k below listed
      rw [counted]
      exact (exact k below).1 listed

theorem findBadPageRange_spec (srcEnd : Addr) (some_page : bad.pages ≠ []) :
    ∃ first stop : Nat, first ≤ stop ∧ stop ≤ bad.pages.length ∧
      (∀ pfn ∈ bad.pages.take first, pfn.toNat * 4096 < request.src.toNat) ∧
      (∀ pfn ∈ (bad.pages.drop first).take (stop - first),
        request.src.toNat ≤ pfn.toNat * 4096 ∧ pfn.toNat * 4096 < srcEnd.toNat) ∧
      (∀ pfn ∈ bad.pages.drop stop, srcEnd.toNat ≤ pfn.toNat * 4096) ∧
      (findBadPageRange bad.pages request.src srcEnd).2 = ((stop - first : Nat) : Int) ∧
      (first < stop → (findBadPageRange bad.pages request.src srcEnd).1 = first) := by
  obtain ⟨first, -, first_in, -, above, -, before, after⟩ :=
    @search_pages bad request.src 0 (-1) (Nat.zero_le _)
  obtain ⟨stop, low, stop_in, -, -, below, inside, behind⟩ :=
    @search_pages bad srcEnd first (-1) first_in
  refine ⟨first, stop, low, stop_in, before, ?_, behind, ?_⟩
  · intro pfn listed
    exact ⟨after pfn (List.mem_of_mem_take listed), inside pfn listed⟩
  rw [Int.ofNat_zero] at above
  unfold findBadPageRange
  rw [if_neg some_page, not_at_or_above]
  dsimp only
  rw [above]
  by_cases page : first < bad.pages.length
  · have start : (first : Int) ≠ -1 := by omega
    rw [if_pos page, if_pos start, below]
    by_cases more : first < stop
    · have counted : (first : Int) ≠ -1 ∧ (stop : Int) - 1 ≠ -1 ∧ (stop : Int) - 1 ≥ first := by
        omega
      rw [if_pos more, if_pos counted]
      exact ⟨by dsimp only; omega, fun _ => rfl⟩
    · rw [if_neg more, if_neg (fun counted => counted.2.1 rfl)]
      exact ⟨by dsimp only; omega, fun less => absurd less more⟩
  · rw [if_neg page, if_neg (fun counted => counted.1 rfl)]
    exact ⟨by dsimp only; omega, fun less => absurd less (by omega)⟩

theorem inBadPage_iff {byte : Addr} :
    InBadPage bad byte ↔ ∃ pfn ∈ bad.pages,
      pfn.toNat * 4096 ≤ byte.toNat ∧ byte.toNat < pfn.toNat * 4096 + 4096 := by
  have page : (byte >>> 12).toNat = byte.toNat / 4096 := by
    rw [BitVec.toNat_ushiftRight, Nat.shiftRight_eq_div_pow]
  constructor
  · intro listed
    exact ⟨byte >>> 12, listed, by omega, by omega⟩
  · intro ⟨pfn, listed, low, high⟩
    have same : byte >>> 12 = pfn := by
      apply BitVec.eq_of_toNat_eq
      omega
    unfold InBadPage
    rw [same]
    exact listed

theorem byte_toNat {k : Nat} (unwrapped : request.src.toNat + request.totalSize.toNat < 2 ^ 64)
    (inside : k < request.totalSize.toNat) :
    (request.src + BitVec.ofNat 64 k).toNat = request.src.toNat + k := by
  rw [BitVec.toNat_add, BitVec.toNat_ofNat]
  omega

structure Window (bad : SortedPages) (request : Request) (window : List Addr) : Prop where
  listed : ∀ pfn ∈ window, pfn ∈ bad.pages
  low : ∀ pfn ∈ window, request.src.toNat ≤ pfn.toNat * 4096
  high : ∀ pfn ∈ window, pfn.toNat * 4096 < request.src.toNat + request.totalSize.toNat
  sorted : window.Pairwise (· ≤ ·)
  count : ∀ pfn : Addr, request.src.toNat ≤ pfn.toNat * 4096 →
    pfn.toNat * 4096 < request.src.toNat + request.totalSize.toNat →
    window.count pfn = bad.pages.count pfn

variable {window : List Addr}

theorem Window.marked_iff (holds : Window bad request window)
    (unwrapped : request.src.toNat + request.totalSize.toNat < 2 ^ 64)
    (clean : StartsClean bad request) {k : Nat} (inside : k < request.totalSize.toNat) :
    InBadPage bad (request.src + BitVec.ofNat 64 k) ↔
      SkipBlocks.Marked 4096 (window.map request.place) k := by
  rw [inBadPage_iff, byte_toNat unwrapped inside]
  constructor
  · intro ⟨pfn, listed, low, high⟩
    by_cases before : pfn.toNat * 4096 < request.src.toNat
    · exact absurd ⟨before, by omega, by omega⟩ (clean pfn listed)
    · have counted := holds.count pfn (by omega) (by omega)
      have in_window : pfn ∈ window := by
        rw [← List.one_le_count_iff, counted, List.one_le_count_iff]
        exact listed
      refine ⟨request.place pfn, List.mem_map_of_mem in_window, ?_, ?_⟩
      · unfold Request.place
        omega
      · unfold Request.place
        omega
  · intro ⟨q, listed, low, high⟩
    obtain ⟨pfn, in_window, rfl⟩ := List.mem_map.mp listed
    have above := holds.low pfn in_window
    unfold Request.place at low high
    exact ⟨pfn, holds.listed pfn in_window, by omega, by omega⟩

theorem Window.spaced (holds : Window bad request window) :
    SkipBlocks.Spaced 4096 (window.map request.place) := by
  unfold SkipBlocks.Spaced
  rw [List.pairwise_map]
  apply holds.sorted.imp_of_mem
  intro a b a_in b_in order
  have a_low := holds.low a a_in
  have b_low := holds.low b b_in
  have order := BitVec.le_def.mp order
  unfold Request.place
  omega

theorem Window.count_place (holds : Window bad request window) {pfn : Addr}
    (in_window : pfn ∈ window) :
    (window.map request.place).count (request.place pfn) = bad.pages.count pfn := by
  rw [← holds.count pfn (holds.low pfn in_window) (holds.high pfn in_window)]
  unfold List.count
  rw [List.countP_map]
  apply List.countP_congr
  intro other other_in
  have low := holds.low pfn in_window
  have other_low := holds.low other other_in
  rw [comp_apply, beq_iff_eq, beq_iff_eq]
  constructor
  · intro same
    apply BitVec.eq_of_toNat_eq
    unfold Request.place at same
    omega
  · intro same
    rw [same]

theorem Window.covered_iff (holds : Window bad request window)
    (unwrapped : request.src.toNat + request.totalSize.toNat < 2 ^ 64)
    (clean : StartsClean bad request) :
    SkipBlocks.Covered 4096 request.totalSize.toNat (window.map request.place) ↔
      RepeatsLast bad request := by
  constructor
  · intro covered pfn listed twice above k inside behind
    have in_window : pfn ∈ window := by
      rw [← List.one_le_count_iff, holds.count pfn above (by omega)]
      omega
    rw [holds.marked_iff unwrapped clean inside]
    apply covered (request.place pfn) (List.mem_map_of_mem in_window) _ k _ inside
    · rw [holds.count_place in_window]
      exact twice
    · unfold Request.place
      omega
  · intro last q listed twice k behind inside
    obtain ⟨pfn, in_window, rfl⟩ := List.mem_map.mp listed
    rw [holds.count_place in_window] at twice
    rw [← holds.marked_iff unwrapped clean inside]
    have above := holds.low pfn in_window
    unfold Request.place at behind
    exact last pfn (holds.listed pfn in_window) twice above k inside (by omega)

theorem Window.copied_iff (holds : Window bad request window)
    (unwrapped : request.src.toNat + request.totalSize.toNat < 2 ^ 64) :
    Copied bad request (request.segmentedFbCopy (fun _ => true) window (request.cursors 0)) ↔
      StartsClean bad request ∧ RepeatsLast bad request := by
  have below : ∀ pfn ∈ window, request.place pfn < request.totalSize.toNat := by
    intro pfn in_window
    have low := holds.low pfn in_window
    have high := holds.high pfn in_window
    unfold Request.place
    omega
  have places : ∀ q ∈ window.map request.place, q < request.totalSize.toNat := by
    intro q listed
    obtain ⟨pfn, in_window, rfl⟩ := List.mem_map.mp listed
    exact below pfn in_window
  have frames : ∀ pfn ∈ window, pfn.toNat < 2 ^ 52 := fun pfn in_window =>
    bad.frames pfn (holds.listed pfn in_window)
  rw [segmentedFbCopy_eq unwrapped frames holds.low below 0 (Nat.zero_le _),
    pieces_copied_iff (SkipBlocks.pieces_inside fun q listed => Nat.le_of_lt (places q listed))]
  by_cases clean : StartsClean bad request
  · rw [← holds.covered_iff unwrapped clean,
      ← SkipBlocks.exact_iff (by decide) holds.spaced (fun q _ => Nat.zero_le q) places,
      and_iff_right clean]
    constructor
    · intro exact k _ inside
      rw [← holds.marked_iff unwrapped clean inside]
      exact exact k inside
    · intro exact k inside
      rw [holds.marked_iff unwrapped clean inside]
      exact exact k (Nat.zero_le k) inside
  · -- the first byte is in a page that begins before the range, and it is copied
    constructor
    · intro exact
      unfold StartsClean at clean
      simp only [Classical.not_forall, Classical.not_not] at clean
      obtain ⟨pfn, listed, before, reaches, positive⟩ := clean
      have first : InBadPage bad (request.src + BitVec.ofNat 64 0) := by
        rw [inBadPage_iff, byte_toNat unwrapped positive]
        exact ⟨pfn, listed, by omega, by omega⟩
      have ahead : ∀ q ∈ window.map request.place, 0 < q := by
        intro q in_window
        obtain ⟨other, other_in, rfl⟩ := List.mem_map.mp in_window
        have low := holds.low other other_in
        unfold Request.place
        omega
      have taken : SkipBlocks.times 0 (SkipBlocks.pieces 4096 request.totalSize.toNat
          (window.map request.place) 0) = 1 := SkipBlocks.times_front ahead positive
      have untaken := (exact 0 positive).1 first
      omega
    · intro copyable
      exact absurd copyable.1 clean

theorem cursors_zero (request : Request) :
    request.cursors 0 =
      { currentSrc := request.src
        currentDst := request.dst
        remainingSize := request.totalSize } := by
  unfold Request.cursors
  rw [Nat.sub_zero, BitVec.ofNat_toNat, BitVec.setWidth_eq]
  simp

theorem window_of_split {first stop : Nat} (order : first ≤ stop)
    (before : ∀ pfn ∈ bad.pages.take first, pfn.toNat * 4096 < request.src.toNat)
    (inside : ∀ pfn ∈ (bad.pages.drop first).take (stop - first),
      request.src.toNat ≤ pfn.toNat * 4096 ∧
        pfn.toNat * 4096 < request.src.toNat + request.totalSize.toNat)
    (behind : ∀ pfn ∈ bad.pages.drop stop,
      request.src.toNat + request.totalSize.toNat ≤ pfn.toNat * 4096) :
    Window bad request ((bad.pages.drop first).take (stop - first)) := by
  have split : bad.pages =
      bad.pages.take first ++ ((bad.pages.drop first).take (stop - first) ++
        bad.pages.drop stop) := by
    have rest := List.take_append_drop (stop - first) (bad.pages.drop first)
    rw [List.drop_drop, Nat.add_sub_cancel' order] at rest
    rw [rest, List.take_append_drop]
  constructor
  · intro pfn in_window
    exact List.mem_of_mem_drop (List.mem_of_mem_take in_window)
  · intro pfn in_window
    exact (inside pfn in_window).1
  · intro pfn in_window
    exact (inside pfn in_window).2
  · exact bad.sorted.drop.take
  · intro pfn low high
    have not_before : pfn ∉ bad.pages.take first := by
      intro listed
      have early := before pfn listed
      omega
    have not_behind : pfn ∉ bad.pages.drop stop := by
      intro listed
      have late := behind pfn listed
      omega
    conv => rhs; rw [split]
    rw [List.count_append, List.count_append, List.count_eq_zero_of_not_mem not_before,
      List.count_eq_zero_of_not_mem not_behind]
    omega

theorem no_window_iff (unwrapped : request.src.toNat + request.totalSize.toNat < 2 ^ 64)
    (holds : Window bad request []) :
    (∀ k < request.totalSize.toNat, ¬InBadPage bad (request.src + BitVec.ofNat 64 k)) ↔
      StartsClean bad request ∧ RepeatsLast bad request := by
  constructor
  · intro good
    constructor
    · intro pfn listed straddles
      apply good 0 straddles.2.2
      rw [inBadPage_iff, byte_toNat unwrapped straddles.2.2]
      exact ⟨pfn, listed, by omega, by omega⟩
    · intro pfn listed twice above k inside behind
      have counted := holds.count pfn above (by omega)
      rw [← counted, List.count_nil] at twice
      omega
  · intro copyable k inside listed
    rw [holds.marked_iff unwrapped copyable.1 inside] at listed
    obtain ⟨q, q_in, -⟩ := listed
    exact absurd q_in List.not_mem_nil

theorem whole_copied_iff
    (holds : request.src.toNat + request.totalSize.toNat < 2 ^ 64 → Window bad request []) :
    Copied bad request (request.copyWhole fun _ => true) ↔ Copyable bad request := by
  rw [copyWhole_copied_iff]
  unfold Copyable
  by_cases unwrapped : request.src.toNat + request.totalSize.toNat < 2 ^ 64
  · rw [if_pos unwrapped]
    exact no_window_iff unwrapped (holds unwrapped)
  · rw [if_neg unwrapped]

/-- The copy around the bad pages copies every byte outside of them once, reads none inside of
them and leaves nothing, exactly when no page that begins before the range reaches into it and
there is no good byte behind a page that is listed twice; or, when the range wraps, when it has
no bad page. -/
theorem copied_iff_copyable (bad : SortedPages) (request : Request) :
    Copied bad request (request.copySkipBadPages (fun _ => true) bad.pages) ↔
      Copyable bad request := by
  have size_bound := request.totalSize.isLt
  unfold Request.copySkipBadPages
  by_cases empty : bad.pages = []
  · rw [if_pos empty]
    apply whole_copied_iff
    intro unwrapped
    constructor
    · exact fun pfn listed => absurd listed List.not_mem_nil
    · exact fun pfn listed => absurd listed List.not_mem_nil
    · exact fun pfn listed => absurd listed List.not_mem_nil
    · exact List.Pairwise.nil
    · intro pfn low high
      rw [empty]
  rw [if_neg empty]
  obtain ⟨first, stop, order, stop_in, before, inside, behind, count, start⟩ :=
    @findBadPageRange_spec bad request (request.src + request.totalSize) empty
  by_cases unwrapped : request.src.toNat + request.totalSize.toNat < 2 ^ 64
  · rw [BitVec.toNat_add, Nat.mod_eq_of_lt unwrapped] at inside behind
    have holds := window_of_split order before inside behind
    by_cases some_page : first < stop
    · dsimp only
      rw [if_neg (by omega), count, start some_page, Int.toNat_natCast, Int.toNat_natCast,
        ← cursors_zero, holds.copied_iff unwrapped]
      unfold Copyable
      rw [if_pos unwrapped]
    · have same : stop = first := by omega
      dsimp only
      rw [if_pos (by omega)]
      apply whole_copied_iff
      rw [same, Nat.sub_self, List.take_zero] at holds
      exact fun _ => holds
  · -- the end of the range comes out below its start, and no page is between them
    have none : ¬first < stop := by
      intro more
      have first_in : first < bad.pages.length := by omega
      have begins := inside bad.pages[first] (by
        rw [List.drop_eq_getElem_cons first_in, ← Nat.succ_pred_eq_of_pos (Nat.sub_pos_of_lt more)]
        exact List.mem_cons_self)
      rw [BitVec.toNat_add] at begins
      omega
    dsimp only
    rw [if_pos (by omega)]
    apply whole_copied_iff
    exact fun unwraps => absurd unwraps unwrapped

def straddledRequest : Request where
  src := 0x1800
  dst := 0x100000
  totalSize := 0x1000
  srcVaddr := 0
  dstVaddr := 0

theorem bad_page_copied :
    ¬ ∀ (bad : SortedPages) (request : Request),
      Copied bad request (request.copySkipBadPages (fun _ => true) bad.pages) := by
  intro copied
  have unread := (copied secondPage straddledRequest).bad 0 (by decide) (by decide)
  revert unread
  decide

end MxGpu.VfFb
