import MxGpu.MemmgrIds
import MxGpu.MemmgrLayout
import MxGpu.Transition

/- What each call can leave. -/
namespace MxGpu.Fb

open Transition

/-- An allocation that `amdgv_memmgr_alloc_align` makes, up to where it lies. -/
def Adapt.newMem (s : Adapt) (allocOff len align : Addr) (tag : MemTag) : Mem :=
  { handle := s.nextMem, allocOff, len, align, tag }

def Env.Defers (env : Env) : Prop := env.mi350x ∧ env.statusInvalid ∧ ¬env.skipHwInit

structure Adapt.Searches (s : Adapt) (env : Env) (id : MemId) (mems : List MemWithBitmap)
    (tag : MemTag) : Prop where
  now : ¬env.Defers
  memory : ¬env.noMemory
  numbered : memIdAdd s.mems id = (mems, some tag)
  unknown : env.skipHwInit → ¬alwaysAllocNew id → findMemId s.memmgr.allocs tag = none

/-- What `amdgv_memmgr_alloc_align` can do. -/
inductive Allocates (s : Adapt) (env : Env) (len align : Addr) (id : MemId) :
    Adapt → Option Mem → Prop
  /-- No id is left, or no memory for a deferred one. -/
  | refused (mems : List MemWithBitmap) (same : ∀ tag, taken mems tag = taken s.mems tag) :
    Allocates s env len align id { s with mems } none
  /-- The id is used up without an allocation. -/
  | failed (mems : List MemWithBitmap) (tag : MemTag)
    (numbered : memIdAdd s.mems id = (mems, some tag)) :
    Allocates s env len align id { s with mems } none
  | deferred (mems : List MemWithBitmap) (tag : MemTag) (later : env.Defers)
    (numbered : memIdAdd s.mems id = (mems, some tag)) :
    Allocates s env len align id
      { mems
        nextMem := s.nextMem + 1
        memmgr := { s.memmgr with
          reserves := insertReserve (s.newMem 0 len align tag) s.memmgr.reserves
          reserveCount := s.memmgr.reserveCount + 1 } }
      (some (s.newMem 0 len align tag))
  /-- During a live update the allocation is already there. -/
  | known (mems : List MemWithBitmap) (tag : MemTag) (mem : Mem)
    (numbered : memIdAdd s.mems id = (mems, some tag))
    (update : env.skipHwInit ∧ ¬alwaysAllocNew id)
    (found : findMemId s.memmgr.allocs tag = some mem) :
    Allocates s env len align id { s with mems } (some mem)
  | placed (mems : List MemWithBitmap) (tag : MemTag) (before : List Mem) (addr : Addr)
    (after : List Mem) (searches : s.Searches env id mems tag)
    (place : s.memmgr.place len align (align64 · align) = some (before, addr, after)) :
    Allocates s env len align id
      { mems
        nextMem := s.nextMem + 1
        memmgr := s.memmgr.insert before (s.newMem (addr + len) len align tag) after }
      (some (s.newMem (addr + len) len align tag))

/-- What `amdgv_memmgr_alloc_align_at` can do. -/
inductive AllocatesAt (s : Adapt) (env : Env) (offset len : Addr) (id : MemId) : Adapt → Prop
  | refused (mems : List MemWithBitmap) (same : ∀ tag, taken mems tag = taken s.mems tag) :
    AllocatesAt s env offset len id { s with mems }
  | failed (mems : List MemWithBitmap) (tag : MemTag)
    (numbered : memIdAdd s.mems id = (mems, some tag)) :
    AllocatesAt s env offset len id { s with mems }
  | placed (mems : List MemWithBitmap) (tag : MemTag) (align : BitVec 32) (addr : Addr)
    (before after : List Mem) (memory : ¬env.noMemory)
    (shift : align = ((1 : Addr) <<< s.memmgr.align).setWidth 32)
    (numbered : memIdAdd s.mems id = (mems, some tag))
    (inside : s.memmgr.exceeds (align32 offset align) len = false)
    (room : s.memmgr.findSizeAt offset len (align.setWidth 64) = some (before, after))
    (start : addr = if s.memmgr.down then align32 (offset + len) align - len
      else align32 offset align) :
    AllocatesAt s env offset len id
      { mems
        nextMem := s.nextMem + 1
        memmgr := s.memmgr.insert before
          (s.newMem (addr + len) len (align.setWidth 64) tag) after }

variable {s : Adapt} {env : Env} {len align offset : Addr} {id : MemId} {handle : Nat}

theorem allocAlign_allocates (env : Env) (len align : Addr) (id : MemId)
    (hinit : s.memmgr.isInit) :
    Allocates s env len align id (s.allocAlign env len align id).1
      (s.allocAlign env len align id).2 := by
  unfold Adapt.allocAlign
  split
  · next hlater =>
    have hdefers : env.Defers := by simpa [Env.Defers, and_assoc] using hlater
    unfold Adapt.reserveAttrs
    rw [if_neg (by simp [hinit])]
    split
    · next mems hnone => exact .refused mems (memIdAdd_none hnone)
    · next mems tag hsome =>
      split
      · -- the id is given back
        obtain ⟨-, hindex, hfree, -, htaken⟩ := memIdAdd_some hsome
        refine .refused _ fun other => ?_
        rw [taken_memIdRemove (by rw [htaken, if_pos rfl]) hindex, htaken]
        by_cases hother : other = tag
        · rw [if_pos hother, hother, hfree]
        · rw [if_neg hother, if_neg hother]
      · exact .deferred mems tag hdefers hsome
  · next hnow =>
    have hnot : ¬env.Defers := by simpa [Env.Defers, and_assoc] using hnow
    unfold Adapt.allocUnifyAlign
    rw [if_neg (by simp [hinit])]
    split
    · next mems hnone => exact .refused mems (memIdAdd_none hnone)
    · next mems tag hsome =>
      simp only
      split
      · next mem hfound =>
        split at hfound
        · next hupdate => exact .known mems tag mem hsome (by simpa using hupdate) hfound
        · cases hfound
      · next hfound =>
        unfold Adapt.allocNew
        split
        · exact .failed mems tag hsome
        · next hmemory =>
          split
          · exact .failed mems tag hsome
          · next before addr after hplace =>
            refine .placed mems tag before addr after ⟨hnot, hmemory, hsome, ?_⟩ hplace
            intro hskip hold
            rw [if_pos (by simp [hskip, hold])] at hfound
            exact hfound

theorem allocAlignAt_allocates :
    AllocatesAt s env offset len id (s.allocAlignAt env offset len id).1 := by
  unfold Adapt.allocAlignAt
  split
  · exact .refused s.mems fun _ => rfl
  · next hmemory =>
    simp only
    split
    · next mems hnone => exact .refused mems (memIdAdd_none hnone)
    · next mems tag hsome =>
      split
      · exact .failed mems tag hsome
      · next hinside =>
        split
        · exact .failed mems tag hsome
        · next before after hroom =>
          exact .placed mems tag _ _ before after hmemory rfl hsome (by simpa using hinside)
            hroom rfl

theorem nodeIn_some {allocs before after : List Mem} {mem : Mem}
    (h : nodeIn handle allocs = some (before, mem, after)) :
    allocs = before ++ mem :: after ∧ mem.handle = handle := by
  induction allocs generalizing before with
  | nil => cases h
  | cons alloc rest ih =>
    unfold nodeIn at h
    split at h
    · next hhere =>
      cases h
      exact ⟨rfl, hhere⟩
    · obtain ⟨⟨front, found, back⟩, hrest, heq⟩ := Option.map_eq_some_iff.mp h
      cases heq
      obtain ⟨hsplit, hhandle⟩ := ih hrest
      exact ⟨congrArg (alloc :: ·) hsplit, hhandle⟩

/-- What `amdgv_memmgr_free` can do. -/
inductive Frees (s : Adapt) (handle : Nat) : Adapt → Prop
  | unknown : Frees s handle s
  | live (before : List Mem) (mem : Mem) (after : List Mem)
    (split : s.memmgr.allocs = before ++ mem :: after) (named : mem.handle = handle) :
    Frees s handle (s.afterDel { s.memmgr with allocs := before ++ after } mem
      (endOf s.memmgr.headOff before))
  | reserved (before : List Mem) (mem : Mem) (after : List Mem)
    (split : s.memmgr.reserves = before ++ mem :: after) (named : mem.handle = handle) :
    Frees s handle (s.afterDel { s.memmgr with reserves := before ++ after } mem
      (endOf s.memmgr.headOff before))

theorem free_frees : Frees s handle (s.free handle) := by
  unfold Adapt.free
  split
  · next before mem after hnode =>
    obtain ⟨hsplit, hnamed⟩ := nodeIn_some hnode
    exact .live before mem after hsplit hnamed
  · split
    · next before mem after hnode =>
      obtain ⟨hsplit, hnamed⟩ := nodeIn_some hnode
      exact .reserved before mem after hsplit hnamed
    · exact .unknown

def Parked (memmgr : Memmgr) : Prop := ∀ mem ∈ memmgr.reserves, mem.allocOff = 0

/-- A block without length does not keep the top of memory from being found again: the
block that is freed ends below the top, is the last one, or leaves another one there. -/
def TopFits (memmgr : Memmgr) (handle : Nat) : Prop :=
  ∀ before mem after, memmgr.allocs = before ++ mem :: after → mem.handle = handle →
    mem.allocOff = memmgr.tom → after = [] ∨ endOf memmgr.headOff before = memmgr.tom

theorem endOf_parked {allocs : List Mem} (h : ∀ mem ∈ allocs, mem.allocOff = 0) :
    endOf 0 allocs = 0 := by
  induction allocs with
  | nil => rfl
  | cons alloc rest ih =>
    unfold endOf
    rw [h alloc (List.mem_cons_self ..)]
    exact ih fun mem hmem => h mem (List.mem_cons_of_mem _ hmem)

theorem Frees.sound {s' : Adapt} (h : Frees s handle s') (hsound : Sound s.memmgr)
    (hparked : Parked s.memmgr) (htop : TopFits s.memmgr handle) : Sound s'.memmgr := by
  cases h with
  | unknown => exact hsound
  | live before mem after split named =>
    exact hsound.remove split (htop before mem after split named) _
  | reserved before mem after split named =>
    have hzero : mem.allocOff = 0 := hparked mem (by simp [split])
    have htom : (if mem.allocOff ≥ s.memmgr.tom then endOf s.memmgr.headOff before
        else s.memmgr.tom) = s.memmgr.tom := by
      split
      · next hge =>
        have hle := hsound.laid.le Tiling.le_nearness
        have hnull : s.memmgr.tom = 0 := by
          rw [hzero] at hge
          exact BitVec.le_zero_iff.mp hge
        have hhead : s.memmgr.headOff = 0 := by
          apply BitVec.eq_of_toNat_eq
          rw [hnull] at hle
          exact Nat.le_zero.mp hle
        rw [hhead, hnull]
        exact endOf_parked fun m hm => hparked m (by simp [split, hm])
      · rfl
    unfold Adapt.afterDel
    simp only [htom]
    exact ⟨hsound.sized, hsound.laid, hsound.top, hsound.head, hsound.bounded⟩

inductive Turns (s : Adapt) (reserved : Mem) : Adapt → Prop
  | failed : Turns s reserved s
  | placed (before : List Mem) (addr : Addr) (after : List Mem)
    (place : s.memmgr.place reserved.len ((reserved.align.setWidth 32).setWidth 64)
      (align32 · (reserved.align.setWidth 32)) = some (before, addr, after)) :
    Turns s reserved { s with memmgr :=
      { Memmgr.insert { s.memmgr with
          reserves := s.memmgr.reserves.filter fun mem => mem.handle ≠ reserved.handle }
          before { reserved with allocOff := addr + reserved.len } after with
        reserveCount := s.memmgr.reserveCount - 1 } }

theorem deferredTurn_turns (reserved : Mem) : Turns s reserved (s.deferredTurn reserved).1 := by
  unfold Adapt.deferredTurn Adapt.assignReservedRegion
  simp only
  cases hplace : s.memmgr.place reserved.len ((reserved.align.setWidth 32).setWidth 64)
      (align32 · (reserved.align.setWidth 32)) with
  | none => exact .failed
  | some found =>
    obtain ⟨before, addr, after⟩ := found
    exact .placed before addr after hplace

theorem deferredTurn_step (s : Adapt) :
    s.step .deferredTurn = s ∨ ∃ first rest, s.memmgr.reserves = first :: rest ∧
      Turns s first (s.step .deferredTurn) := by
  unfold Adapt.step
  cases hres : s.memmgr.reserves with
  | nil => exact .inl rfl
  | cons first rest => exact .inr ⟨first, rest, rfl, deferredTurn_turns first⟩

/-- What `amdgv_memmgr_alloc_and_replace` can do. -/
inductive Replaces (s : Adapt) (env : Env) (handle : Nat) (replaceType : MemId) : Adapt → Prop
  | unknown : Replaces s env handle replaceType s
  | failed (memOld : Mem) (after : Adapt) (found : s.mem? handle = some memOld)
    (alloc : Allocates s env memOld.len memOld.align replaceType after none) :
    Replaces s env handle replaceType after
  | swapped (memOld memNew : Mem) (after : Adapt) (found : s.mem? handle = some memOld)
    (alloc : Allocates s env memOld.len memOld.align replaceType after (some memNew)) :
    Replaces s env handle replaceType { after with memmgr := { after.memmgr with
      allocs := after.memmgr.allocs.map (exchange memOld memNew)
      reserves := after.memmgr.reserves.map (exchange memOld memNew) } }

theorem allocAndReplace_replaces {replaceType : MemId} (hinit : s.memmgr.isInit) :
    Replaces s env handle replaceType (s.allocAndReplace env handle replaceType).1 := by
  unfold Adapt.allocAndReplace
  split
  · exact .unknown
  · next memOld hold =>
    have hall := allocAlign_allocates env memOld.len memOld.align replaceType hinit
    generalize s.allocAlign env memOld.len memOld.align replaceType = result at hall
    obtain ⟨after, mem⟩ := result
    cases mem with
    | none => exact .failed memOld after hold hall
    | some memNew => exact .swapped memOld memNew after hold hall

theorem mem?_some {mem : Mem} (h : s.mem? handle = some mem) :
    mem ∈ s.memmgr.allocs ++ s.memmgr.reserves := List.mem_of_find?_eq_some h

def Calls (before : Adapt) (op : Op) (after : Adapt) : Prop := after = before.step op

def Adapt.steps (s : Adapt) (ops : List Op) : Adapt := ops.foldl Adapt.step s

theorem run_steps {start : Adapt → Prop} {ok : Adapt → Op → Prop} {ops : List Op}
    (hrun : Run start Calls ok s) (hok : ∀ op ∈ ops, ∀ t, ok t op) :
    Run start Calls ok (s.steps ops) := by
  induction ops generalizing s with
  | nil => exact hrun
  | cons op rest ih =>
    apply ih (hrun.next op (hok op (List.mem_cons_self ..) s) rfl)
    exact fun later h => hok later (List.mem_cons_of_mem _ h)

end MxGpu.Fb
