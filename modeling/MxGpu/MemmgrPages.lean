import MxGpu.MemmgrReserve

/- The pages that a manager keeps reserved, and the allocations around them. -/
namespace MxGpu.Fb

open AlignUp Tiling Transition

/-- `struct amdgv_mem_reservation`; `rsvMem` is the handle of `rsv_mem`. -/
structure Reservation where
  start : Addr
  size : Addr
  rsvMem : Option Nat
  deriving DecidableEq, Repr

structure Heap where
  adapt : Adapt
  reservationsPending : List Reservation
  reservedPages : List Reservation

/-- What the functions on reservations return: 0, `AMDGV_ERR_BUSY` or `AMDGV_FAILURE`. -/
inductive PageStatus
  | ok | busy | failure
  deriving DecidableEq, Repr

def Reservation.holds (rsv : Reservation) (addr : Addr) : Bool :=
  rsv.start ≤ addr && addr < rsv.start + rsv.size

namespace Heap

variable (heap : Heap)

def pageReserveStatus (pfn : Addr) : PageStatus :=
  if heap.reservationsPending.any (·.holds (pageAddr pfn)) then .busy
  else if heap.reservedPages.any (·.holds (pageAddr pfn)) then .ok
  else .failure

/-- `amdgv_memmgr_reserve_page`; `noRsv` is that there is no memory for the reservation. -/
def reservePage (env : Env) (noRsv : Bool) (pfn : Addr) : Heap × PageStatus :=
  match heap.pageReserveStatus pfn with
  | .ok => (heap, .ok)
  | .busy => (heap, .busy)
  | .failure =>
    if noRsv then (heap, .failure)
    else
      let rsv : Reservation := { start := pageAddr pfn, size := gpuPageSize, rsvMem := none }
      match heap.adapt.allocAlignAt env rsv.start rsv.size memEccBadPage with
      | (adapt, some mem) =>
        ({ heap with
            adapt
            reservedPages := heap.reservedPages ++ [{ rsv with rsvMem := some mem.handle }] }, .ok)
      | (adapt, none) =>
        ({ heap with adapt, reservationsPending := heap.reservationsPending ++ [rsv] }, .busy)

end Heap

inductive HeapOp
  | call (op : Op)
  | reservePage (env : Env) (noRsv : Bool) (pfn : Addr)

def Heap.step (heap : Heap) : HeapOp → Heap
  | .call op => { heap with adapt := heap.adapt.step op }
  | .reservePage env noRsv pfn => (heap.reservePage env noRsv pfn).1

def Op.target : Op → Option Nat
  | .allocAndReplace _ handle _ => some handle
  | .free handle => some handle
  | _ => none

/-- A page that can be reserved where it is: in the manager's range, aligned as its blocks
are, and below 4 GiB. -/
structure PageFits (memmgr : Memmgr) (pfn : Addr) : Prop where
  above : memmgr.offset ≤ pageAddr pfn
  shift : memmgr.align.toNat < 32
  fixed : Fixed memmgr (pageAddr pfn)

/-- What the calls leave open: those of the manager as before, and nobody frees or replaces
the block of a reserved page. -/
def Heap.Meets (heap : Heap) : HeapOp → Prop
  | .call op => PfCall heap.adapt op ∧ KeepsRow heap.adapt op ∧
      ∀ rsv ∈ heap.reservedPages, ∀ handle, rsv.rsvMem = some handle → op.target ≠ some handle
  | .reservePage _ _ pfn =>
      heap.pageReserveStatus pfn = .failure → PageFits heap.adapt.memmgr pfn

def HeapStarts (heap : Heap) : Prop :=
  StartsUp heap.adapt ∧ heap.reservationsPending = [] ∧ heap.reservedPages = []

def HeapCalls (before : Heap) (op : HeapOp) (after : Heap) : Prop := after = before.step op

/-- A page is reserved: the query says so, a live block has exactly its bytes, and no other
live block has one of them. -/
structure Guarded (heap : Heap) (pfn : Addr) : Prop where
  status : heap.pageReserveStatus pfn = .ok
  block : ∃ mem ∈ heap.adapt.memmgr.allocs, mem.span = ((pageAddr pfn).toNat, gpuPageSize.toNat) ∧
    ∀ other ∈ heap.adapt.memmgr.allocs, other.handle ≠ mem.handle →
      ∀ x, (pageAddr pfn).toNat ≤ x → x < (pageAddr pfn).toNat + gpuPageSize.toNat →
        ¬other.Covers x

structure Heap.Inv (heap : Heap) : Prop where
  up : UpSound heap.adapt
  tagged : heap.adapt.Tagged
  held : ∀ rsv ∈ heap.reservedPages, ∃ mem ∈ heap.adapt.memmgr.allocs,
    rsv.rsvMem = some mem.handle ∧ mem.span = (rsv.start.toNat, gpuPageSize.toNat)
  pages : ∀ rsv ∈ heap.reservedPages ++ heap.reservationsPending, ∃ pfn,
    rsv.start = pageAddr pfn ∧ rsv.size = gpuPageSize

variable {s : Adapt} {heap : Heap} {env : Env} {pfn : Addr} {noRsv : Bool} {mem : Mem}

theorem Reservation.start_of_holds {rsv : Reservation} {own : Addr}
    (hstart : rsv.start = pageAddr own) (hsize : rsv.size = gpuPageSize)
    (h : rsv.holds (pageAddr pfn) = true) :
    rsv.start = pageAddr pfn := by
  have hown := pageAddr_dvd own
  have hother := pageAddr_dvd pfn
  unfold Reservation.holds at h
  simp only [Bool.and_eq_true, decide_eq_true_eq, BitVec.le_def, BitVec.lt_def] at h
  obtain ⟨hlow, hhigh⟩ := h
  have hsum : (rsv.start + rsv.size).toNat ≤ rsv.start.toNat + 4096 := by
    rw [BitVec.toNat_add, hsize]
    exact Nat.mod_le _ _
  apply BitVec.eq_of_toNat_eq
  rw [hstart] at hlow hsum hhigh ⊢
  omega

theorem Reservation.holds_start {rsv : Reservation} (hsize : rsv.size = gpuPageSize)
    (hlow : rsv.start.toNat < 2 ^ 32) : rsv.holds rsv.start = true := by
  unfold Reservation.holds
  have hsum : (rsv.start + rsv.size).toNat = rsv.start.toNat + 4096 := by
    rw [BitVec.toNat_add, hsize]
    apply Nat.mod_eq_of_lt
    show rsv.start.toNat + 4096 < 2 ^ 64
    omega
  simp only [Bool.and_eq_true, decide_eq_true_eq, BitVec.le_def, BitVec.lt_def]
  omega

theorem PageFits.call (env : Env) (h : PageFits s.memmgr pfn) :
    PfCall s (.allocAlignAt env (pageAddr pfn) gpuPageSize memEccBadPage) ∧
      KeepsRow s (.allocAlignAt env (pageAddr pfn) gpuPageSize memEccBadPage) := by
  have hfits := h.fixed.fits h.shift
  refine ⟨h.above, fun _ _ _ _ => ⟨h.shift, hfits, ?_⟩⟩
  rw [h.fixed.alignUp]
  have hlow := h.fixed.1
  show (pageAddr pfn).toNat + 4096 < 2 ^ 64
  omega

theorem mem_insert_old {memmgr : Memmgr} {before after : List Mem} {new : Mem}
    (hsplit : memmgr.allocs = before ++ after) (hmem : mem ∈ memmgr.allocs) :
    mem ∈ (memmgr.insert before new after).allocs := by
  show mem ∈ before ++ new :: after
  rw [hsplit] at hmem
  rcases List.mem_append.mp hmem with hmem | hmem
  · exact List.mem_append_left _ hmem
  · exact List.mem_append_right _ (List.mem_cons_of_mem _ hmem)

theorem UpSound.keptAllocates (h : UpSound s) {len align : Addr} {id : MemId} {s' : Adapt}
    {result : Option Mem} (ha : ∃ k, align.toNat = 2 ^ k)
    (hfits : ∀ mems tag, s.Searches env id mems tag → NoWrap s.memmgr len align)
    (hall : Allocates s env len align id s' result) (hmem : mem ∈ s.memmgr.allocs) :
    mem ∈ s'.memmgr.allocs := by
  cases hall with
  | refused mems same => exact hmem
  | failed mems tag numbered => exact hmem
  | known mems tag known numbered update found => exact hmem
  | deferred mems tag later numbered => exact hmem
  | placed mems tag before addr after searches place =>
    obtain ⟨k, hk⟩ := ha
    have hroom : alignUp s.memmgr.tom.toNat (2 ^ k) + len.toNat < 2 ^ 64 := by
      rw [← hk]
      exact hfits mems tag searches
    have hsplit := (h.sound.place_some hk hroom place).1
    exact mem_insert_old hsplit hmem

theorem UpSound.kept (h : UpSound s) (htags : s.Tagged) {op : Op} (hcall : PfCall s op)
    (hkeeps : KeepsRow s op) (hmem : mem ∈ s.memmgr.allocs) (hother : op.target ≠ some mem.handle) :
    mem ∈ (s.step op).memmgr.allocs := by
  cases op with
  | allocAlign env len align id =>
    exact h.keptAllocates hcall hkeeps (allocAlign_allocates env len align id h.inited) hmem
  | allocAlignAt env offset len id =>
    have hall : AllocatesAt s env offset len id (s.step (.allocAlignAt env offset len id)) :=
      allocAlignAt_allocates
    generalize s.step (.allocAlignAt env offset len id) = after at hall
    cases hall with
    | refused mems same => exact hmem
    | failed mems tag numbered => exact hmem
    | placed mems tag align addr before after memory shift numbered inside room start =>
      rw [h.up, if_neg (by decide)] at start
      have hoff : addr + len = align32 offset align + len := by rw [start]
      have hnew := h.sound.placed_at shift (hkeeps memory mems tag numbered) hcall inside room
        (s.newMem (addr + len) len (align.setWidth 64) tag) hoff rfl rfl
      exact mem_insert_old hnew.2.1 hmem
  | deferredTurn =>
    rcases deferredTurn_step s with hsame | ⟨first, rest, hfirst, hturn⟩
    · rw [hsame]
      exact hmem
    · generalize s.step .deferredTurn = after at hturn
      cases hturn with
      | failed => exact hmem
      | placed before addr after place =>
        obtain ⟨k, -, -, hwide, hroom⟩ := h.turn_search hfirst (hkeeps first rest hfirst)
        have hsplit := (h.sound.place_some hwide hroom place).1
        exact mem_insert_old hsplit hmem
  | allocAndReplace env handle replaceType =>
    have hrep : Replaces s env handle replaceType (s.step (.allocAndReplace env handle _)) :=
      allocAndReplace_replaces h.inited
    generalize s.step (.allocAndReplace env handle replaceType) = after at hrep
    have hrenews := htags.renews (.allocAndReplace env handle replaceType)
    cases hrep with
    | unknown => exact hmem
    | failed memOld after found hall =>
      exact h.keptAllocates (h.powers memOld (mem?_some found)) (hkeeps memOld found) hall hmem
    | swapped memOld memNew after found hall =>
      have hin := mem?_some found
      have hpow := h.powers memOld hin
      have hkept := h.keptAllocates hpow (hkeeps memOld found) hall hmem
      obtain ⟨-, -, hnew, -⟩ := hall.fresh h hpow (hkeeps memOld found) hrenews
      have hnamed : memOld.handle = handle := by simpa using List.find?_some found
      have hold : mem.handle ≠ memOld.handle := by
        intro heq
        apply hother
        rw [heq, hnamed]
        rfl
      have hlt : mem.handle < s.nextMem := h.handles.old mem (List.mem_append_left _ hmem)
      apply List.mem_map.mpr
      refine ⟨mem, hkept, ?_⟩
      unfold Fb.exchange
      rw [if_neg hold, if_neg (by omega)]
  | free handle =>
    have hfree : Frees s handle (s.step (.free handle)) := free_frees
    generalize s.step (.free handle) = after at hfree
    cases hfree with
    | unknown => exact hmem
    | reserved before freed after split named => exact hmem
    | live before freed after split named =>
      show mem ∈ before ++ after
      rw [split] at hmem
      rcases List.mem_append.mp hmem with hmem | hmem
      · exact List.mem_append_left _ hmem
      · rcases List.mem_cons.mp hmem with rfl | hmem
        · rw [← named] at hother
          exact absurd rfl hother
        · exact List.mem_append_right _ hmem

/-- What `amdgv_memmgr_reserve_page` can do. -/
inductive Reserves (heap : Heap) (env : Env) (pfn : Addr) : Heap × PageStatus → Prop
  | failed : Reserves heap env pfn (heap, .failure)
  | known (known : heap.pageReserveStatus pfn ≠ .failure) :
    Reserves heap env pfn (heap, heap.pageReserveStatus pfn)
  | reserved (adapt : Adapt) (mem : Mem) (unknown : heap.pageReserveStatus pfn = .failure)
    (alloc : heap.adapt.allocAlignAt env (pageAddr pfn) gpuPageSize memEccBadPage =
      (adapt, some mem))
    (span : mem.span =
      ((align32 (pageAddr pfn) heap.adapt.memmgr.alignAt).toNat, gpuPageSize.toNat))
    (live : mem ∈ adapt.memmgr.allocs) :
    Reserves heap env pfn
      ({ heap with
          adapt
          reservedPages := heap.reservedPages ++
            [⟨pageAddr pfn, gpuPageSize, some mem.handle⟩] }, .ok)
  | pending (adapt : Adapt) (unknown : heap.pageReserveStatus pfn = .failure)
    (alloc : heap.adapt.allocAlignAt env (pageAddr pfn) gpuPageSize memEccBadPage =
      (adapt, none)) :
    Reserves heap env pfn
      ({ heap with
          adapt
          reservationsPending := heap.reservationsPending ++
            [⟨pageAddr pfn, gpuPageSize, none⟩] }, .busy)

theorem reservePage_reserves (env : Env) (noRsv : Bool) (pfn : Addr)
    (hup : heap.adapt.memmgr.down = false) :
    Reserves heap env pfn (heap.reservePage env noRsv pfn) := by
  unfold Heap.reservePage
  cases hstatus : heap.pageReserveStatus pfn with
  | ok =>
    have hknown := @Reserves.known heap env pfn (by simp [hstatus])
    rwa [hstatus] at hknown
  | busy =>
    have hknown := @Reserves.known heap env pfn (by simp [hstatus])
    rwa [hstatus] at hknown
  | failure =>
    cases noRsv with
    | true => exact .failed
    | false =>
      rcases allocAlignAt_cases env (pageAddr pfn) gpuPageSize memEccBadPage hup with
        ⟨s', hnone, -⟩ | ⟨mems, tag, before, after, hsome, -⟩
      · simp only [Bool.false_eq_true, if_false, hnone]
        exact .pending s' hstatus hnone
      · simp only [Bool.false_eq_true, if_false, hsome]
        refine .reserved _ _ hstatus hsome (newMem_span _ _ _) ?_
        exact List.mem_append_right _ (List.mem_cons_self ..)

theorem status_ok_iff : heap.pageReserveStatus pfn = .ok ↔
    (∀ rsv ∈ heap.reservationsPending, rsv.holds (pageAddr pfn) = false) ∧
      ∃ rsv ∈ heap.reservedPages, rsv.holds (pageAddr pfn) = true := by
  unfold Heap.pageReserveStatus
  by_cases hpending : heap.reservationsPending.any (·.holds (pageAddr pfn)) = true
  · rw [if_pos hpending]
    obtain ⟨rsv, hrsv, hholds⟩ := List.any_eq_true.mp hpending
    constructor
    · intro h
      cases h
    · rintro ⟨hnone, -⟩
      rw [hnone rsv hrsv] at hholds
      cases hholds
  · rw [if_neg hpending]
    have hnone : ∀ rsv ∈ heap.reservationsPending, rsv.holds (pageAddr pfn) = false := by
      simpa using hpending
    by_cases hreserved : heap.reservedPages.any (·.holds (pageAddr pfn)) = true
    · rw [if_pos hreserved]
      exact ⟨fun _ => ⟨hnone, List.any_eq_true.mp hreserved⟩, fun _ => rfl⟩
    · rw [if_neg hreserved]
      constructor
      · intro h
        cases h
      · rintro ⟨-, hsome⟩
        exact absurd (List.any_eq_true.mpr hsome) hreserved

theorem Heap.Inv.call (h : heap.Inv) {op : Op} (hcall : PfCall heap.adapt op)
    (hkeeps : KeepsRow heap.adapt op)
    (htarget : ∀ rsv ∈ heap.reservedPages, ∀ handle, rsv.rsvMem = some handle →
      op.target ≠ some handle) :
    ({ heap with adapt := heap.adapt.step op } : Heap).Inv := by
  refine ⟨h.up.step hcall hkeeps (h.tagged.renews op), h.tagged.step h.up hcall hkeeps, ?_,
    h.pages⟩
  intro rsv hrsv
  obtain ⟨mem, hmem, hhandle, hspan⟩ := h.held rsv hrsv
  exact ⟨mem, h.up.kept h.tagged hcall hkeeps hmem (htarget rsv hrsv _ hhandle), hhandle, hspan⟩

theorem Heap.Inv.reserve (h : heap.Inv)
    (hfits : heap.pageReserveStatus pfn = .failure → PageFits heap.adapt.memmgr pfn) :
    (heap.reservePage env noRsv pfn).1.Inv := by
  have hreserves := reservePage_reserves env noRsv pfn h.up.up
  generalize heap.reservePage env noRsv pfn = result at hreserves
  have hnext := fun hunknown => h.call ((hfits hunknown).call env).1
    ((hfits hunknown).call env).2 (fun _ _ _ _ => by simp [Op.target])
  cases hreserves with
  | failed => exact h
  | known hknown => exact h
  | pending adapt hunknown alloc =>
    have hinv := hnext hunknown
    have hadapt : heap.adapt.step
        (.allocAlignAt env (pageAddr pfn) gpuPageSize memEccBadPage) = adapt :=
      congrArg Prod.fst alloc
    rw [hadapt] at hinv
    refine ⟨hinv.up, hinv.tagged, hinv.held, ?_⟩
    intro rsv hrsv
    rw [← List.append_assoc] at hrsv
    rcases List.mem_append.mp hrsv with hrsv | hrsv
    · exact h.pages rsv hrsv
    · rw [List.mem_singleton.mp hrsv]
      exact ⟨pfn, rfl, rfl⟩
  | reserved adapt mem hunknown alloc span live =>
    have hinv := hnext hunknown
    have hadapt : heap.adapt.step
        (.allocAlignAt env (pageAddr pfn) gpuPageSize memEccBadPage) = adapt :=
      congrArg Prod.fst alloc
    rw [hadapt] at hinv
    refine ⟨hinv.up, hinv.tagged, ?_, ?_⟩
    · intro rsv hrsv
      rcases List.mem_append.mp hrsv with hrsv | hrsv
      · exact hinv.held rsv hrsv
      · rw [List.mem_singleton.mp hrsv]
        rw [align32_fixed.mpr (hfits hunknown).fixed] at span
        exact ⟨mem, live, rfl, span⟩
    · intro rsv hrsv
      simp only [List.mem_append, List.mem_singleton, or_assoc] at hrsv
      rcases hrsv with hrsv | rfl | hrsv
      · exact h.pages rsv (List.mem_append_left _ hrsv)
      · exact ⟨pfn, rfl, rfl⟩
      · exact h.pages rsv (List.mem_append_right _ hrsv)

theorem Heap.Inv.step (h : heap.Inv) {op : HeapOp} (hmeets : heap.Meets op) :
    (heap.step op).Inv := by
  cases op with
  | call op => exact h.call hmeets.1 hmeets.2.1 hmeets.2.2
  | reservePage env noRsv pfn => exact h.reserve hmeets

theorem heapStarts_inv (h : HeapStarts heap) : heap.Inv := by
  obtain ⟨⟨mems, nextMem, offset, size, align, hinit⟩, hpending, hreserved⟩ := h
  refine ⟨?_, ?_, ?_, ?_⟩
  · rw [hinit]
    exact init_upSound mems nextMem offset size align
  · rw [hinit]
    exact ⟨.nil, fun _ h => absurd h List.not_mem_nil⟩
  · intro rsv hrsv
    rw [hreserved] at hrsv
    exact absurd hrsv List.not_mem_nil
  · intro rsv hrsv
    rw [hreserved, hpending] at hrsv
    exact absurd hrsv List.not_mem_nil

theorem Heap.Inv.guarded (h : heap.Inv) (hok : heap.pageReserveStatus pfn = .ok) :
    Guarded heap pfn := by
  obtain ⟨-, rsv, hrsv, hholds⟩ := status_ok_iff.mp hok
  obtain ⟨own, hstart, hsize⟩ := h.pages rsv (List.mem_append_left _ hrsv)
  have hsame := Reservation.start_of_holds hstart hsize hholds
  obtain ⟨mem, hmem, -, hspan⟩ := h.held rsv hrsv
  rw [hsame] at hspan
  refine ⟨hok, mem, hmem, hspan, ?_⟩
  intro other hother hne x hlow hhigh hcovers
  have hsized := (h.up.sound.sized mem hmem).start_add
  have hbegin : mem.start = (pageAddr pfn).toNat := congrArg Prod.fst hspan
  have hlen : mem.len.toNat = gpuPageSize.toNat := congrArg Prod.snd hspan
  have hmine : mem.Covers x := by
    unfold Mem.Covers
    omega
  have hapart : mem ≠ other := fun heq => hne (congrArg Mem.handle heq.symm)
  have hsymm : Std.Symm fun a b : Mem => ∀ x, ¬(a.Covers x ∧ b.Covers x) :=
    ⟨fun a b hab x hx => hab x hx.symm⟩
  have hdisjoint := h.up.sound.ranges.disjoint.forall hmem hother hapart
  exact hdisjoint x ⟨hmine, hcovers⟩

theorem Heap.Inv.status (h : heap.Inv) {op : HeapOp} (hok : heap.pageReserveStatus pfn = .ok) :
    (heap.step op).pageReserveStatus pfn = .ok := by
  cases op with
  | call op => exact hok
  | reservePage env noRsv other =>
    obtain ⟨hnone, rsv, hrsv, hholds⟩ := status_ok_iff.mp hok
    have hreserves := reservePage_reserves env noRsv other h.up.up
    show (heap.reservePage env noRsv other).1.pageReserveStatus pfn = .ok
    generalize heap.reservePage env noRsv other = result at hreserves
    cases hreserves with
    | failed => exact hok
    | known hknown => exact hok
    | reserved adapt mem hunknown alloc span live =>
      exact status_ok_iff.mpr ⟨hnone, rsv, List.mem_append_left _ hrsv, hholds⟩
    | pending adapt hunknown alloc =>
      apply status_ok_iff.mpr
      refine ⟨?_, rsv, hrsv, hholds⟩
      intro new hnew
      rcases List.mem_append.mp hnew with hnew | hnew
      · exact hnone new hnew
      · rw [List.mem_singleton.mp hnew, ← Bool.not_eq_true]
        intro hagain
        -- the page would be the one that is reserved
        have hsame : pageAddr other = pageAddr pfn := Reservation.start_of_holds rfl rfl hagain
        unfold Heap.pageReserveStatus at hunknown hok
        rw [hsame, hok] at hunknown
        cases hunknown

theorem Heap.Inv.reserved (h : heap.Inv)
    (hfits : heap.pageReserveStatus pfn = .failure → PageFits heap.adapt.memmgr pfn)
    (hok : (heap.reservePage env noRsv pfn).2 = .ok) :
    (heap.reservePage env noRsv pfn).1.pageReserveStatus pfn = .ok := by
  have hreserves := reservePage_reserves env noRsv pfn h.up.up
  generalize heap.reservePage env noRsv pfn = result at hreserves hok
  cases hreserves with
  | failed => cases hok
  | known hknown => exact hok
  | pending adapt hunknown alloc => cases hok
  | reserved adapt mem hunknown alloc span live =>
    have hlow := (hfits hunknown).fixed.1
    apply status_ok_iff.mpr
    refine ⟨?_, _, List.mem_append_right _ (List.mem_singleton_self _),
      Reservation.holds_start rfl hlow⟩
    intro rsv hrsv
    rw [← Bool.not_eq_true]
    intro hholds
    unfold Heap.pageReserveStatus at hunknown
    rw [if_pos (List.any_eq_true.mpr ⟨rsv, hrsv, hholds⟩)] at hunknown
    cases hunknown

theorem run_inv (run : Run HeapStarts HeapCalls Heap.Meets heap) : heap.Inv := by
  apply run.invariant Heap.Inv
  · intro first hfirst
    exact heapStarts_inv hfirst
  · rintro before op _ hinv hmeets rfl
    exact hinv.step hmeets

/-- A request at a fixed place gets the block it asks for, and none behind the manager's
range, exactly when it is placed nowhere or its offset is left where it is by the 32-bit
alignment; and a page that is reserved under this condition stays guarded for good. -/
theorem reserved_page_guarded (heap : Heap) :
    (∀ env offset len id, heap.adapt.memmgr.down = false →
      (CoversRequest heap.adapt env offset len id ↔
        NotPlaced heap.adapt env offset len id ∨
          (InHeap heap.adapt.memmgr offset len → Fixed heap.adapt.memmgr offset) ∧
            ¬BehindHeap heap.adapt.memmgr offset len)) ∧
    (∀ env offset len id, heap.adapt.memmgr.down = false → Fixed heap.adapt.memmgr offset →
      offset.toNat + len.toNat < 2 ^ 64 → CoversRequest heap.adapt env offset len id) ∧
    (Run HeapStarts HeapCalls Heap.Meets heap →
      ∀ env noRsv pfn, heap.Meets (.reservePage env noRsv pfn) →
        (heap.reservePage env noRsv pfn).2 = .ok →
          ∀ later, Run (· = (heap.reservePage env noRsv pfn).1) HeapCalls Heap.Meets later →
            Guarded later pfn) := by
  refine ⟨fun env offset len id hup => coversRequest_iff hup,
    fun env offset len id hup hfixed hend => hfixed.covers hup hend, ?_⟩
  intro run env noRsv pfn hmeets hok later hlater
  have hinv := run_inv run
  have hboth : later.Inv ∧ later.pageReserveStatus pfn = .ok := by
    apply hlater.invariant fun later => later.Inv ∧ later.pageReserveStatus pfn = .ok
    · rintro first rfl
      exact ⟨hinv.reserve hmeets, hinv.reserved hmeets hok⟩
    · rintro before op _ ⟨hbefore, hstatus⟩ hstep rfl
      exact ⟨hbefore.step hstep, hbefore.status hstatus⟩
  exact hboth.1.guarded hboth.2

def pfHeap : Heap := { adapt := pfManager, reservationsPending := [], reservedPages := [] }

/-- Page 16 is reserved, and a page that is allocated after that is another one. -/
theorem reserved_page_guarded_one :
    Guarded ((pfHeap.reservePage plainEnv false 16).1.step (.call pageCall)) 16 := by
  have hfits : PageFits pfManager.memmgr 16 := by
    refine ⟨by decide, by decide, by decide, ?_⟩
    show 2 ^ 12 ∣ 16 * 4096
    decide
  refine (reserved_page_guarded pfHeap).2.2 (.start ⟨pfManager_starts, rfl, rfl⟩) plainEnv false 16
    (fun _ => hfits) (by decide +kernel) _ (.next (.call pageCall) (.start rfl) ⟨⟨12, by decide⟩,
      fun _ _ _ => ?_, fun _ _ _ _ => by simp [Op.target, pageCall]⟩ rfl)
  show alignUp (pfHeap.reservePage plainEnv false 16).1.adapt.memmgr.tom.toNat 0x1000 + 0x1000 <
    2 ^ 64
  decide +kernel

/-- The page at 4 GiB, in a manager of 8 GiB, is put at the bottom of the range. -/
theorem fourGiB_page_misplaced :
    ¬∀ s env offset len id, s.memmgr.down = false → 4096 ∣ offset.toNat → 4096 ∣ len.toNat →
      CoversRequest s env offset len id := by
  intro h
  have hcovers := h (init [] 0 0 0x200000000 0 false) plainEnv 0x100000000 0x1000 memEccBadPage rfl
    (by decide) (by decide)
  have hspan := hcovers.exact ⟨by decide, by decide⟩ ⟨0, 0x1000, 0x1000, 0x1000, ⟨memEccBadPage, 0⟩⟩
    (by decide +kernel)
  revert hspan
  decide

end MxGpu.Fb
