import MxGpu.MemmgrLive
import MxGpu.MemmgrReplace

/- What an allocation that fails leaves behind. -/
namespace MxGpu.Fb

instance (env : Env) : Decidable env.Defers := inferInstanceAs (Decidable (_ ∧ _ ∧ _))

/-- The alignment that `amdgv_memmgr_alloc_align_at` takes from its manager. -/
def Memmgr.alignAt (memmgr : Memmgr) : BitVec 32 := ((1 : Addr) <<< memmgr.align).setWidth 32

/-- A request for memory from one manager; `noDma` is that the pages of an allocation of
system memory cannot be had. -/
inductive Call
  | align (env : Env) (noDma : Bool) (len align : Addr) (id : MemId)
  | alignAt (env : Env) (offset len : Addr) (id : MemId)

/-- `amdgv_memmgr_alloc_unify_align` of a manager of system memory, whose allocations have
the id they were asked for and no index. The pages are asked for when a place is found and
before anything is linked; `amdgv_map_mem_gart` always succeeds. -/
def Adapt.allocUnifyAlignSys (s : Adapt) (env : Env) (noDma : Bool) (len align : Addr)
    (id : MemId) : Adapt × Option Mem :=
  if !s.memmgr.isInit || noDma then (s, none)
  else s.allocNew env (roundup len gpuPageSize) (roundup align gpuPageSize) { id, index := 0 }

/-- `amdgv_memmgr_alloc_align` and `amdgv_memmgr_alloc_align_at` of a manager of system
memory (`isSys`) or of frame buffer. -/
def Adapt.serve (isSys : Bool) (s : Adapt) : Call → Adapt × Option Mem
  | .align env noDma len align id =>
    if isSys ∧ ¬env.Defers then s.allocUnifyAlignSys env noDma len align id
    else s.allocAlign env len align id
  | .alignAt env offset len id => s.allocAlignAt env offset len id

def Adapt.serveAll (isSys : Bool) (s : Adapt) (calls : List Call) : Adapt :=
  calls.foldl (fun s call => (s.serve isSys call).1) s

/-- Each of the requests returns `NULL`. -/
def AllFail (isSys : Bool) : Adapt → List Call → Prop
  | _, [] => True
  | s, call :: calls => (s.serve isSys call).2 = none ∧ AllFail isSys (s.serve isSys call).1 calls

structure Undone (s s' : Adapt) : Prop where
  allocs : s'.memmgr.allocs = s.memmgr.allocs
  tom : s'.memmgr.tom = s.memmgr.tom
  bitmaps : ∀ tag, taken s'.mems tag = taken s.mems tag

/-- All that is left of a failed request is that a free index is taken. -/
structure Claimed (s s' : Adapt) (tag : MemTag) : Prop where
  allocs : s'.memmgr.allocs = s.memmgr.allocs
  tom : s'.memmgr.tom = s.memmgr.tom
  free : taken s.mems tag = false
  bitmaps : ∀ other, taken s'.mems other = if other = tag then true else taken s.mems other

/-- The next allocation of an id gets this tag, its first one that is free. -/
structure NextTag (mems : List MemWithBitmap) (id : MemId) (tag : MemTag) : Prop where
  room : (bitmapsOf id mems).isSome ∨ mems.length < memIdCountMax
  same : tag.id = id
  index_lt : tag.index < maxMemCount
  free : taken mems tag = false
  below : ∀ i < tag.index, taken mems { id, index := i } = true

/-- A request claims an index and then finds no memory for the node or no place for the
block, with nothing in its way out that gives the index back. -/
def Adapt.Leaks (isSys : Bool) (s : Adapt) : Call → Prop
  | .align env _ len align id =>
    isSys = false ∧ ¬env.Defers ∧ s.memmgr.isInit = true ∧
      (∃ tag, NextTag s.mems id tag ∧
        (env.skipHwInit = true → alwaysAllocNew id = false →
          findMemId s.memmgr.allocs tag = none)) ∧
      (env.noMemory = true ∨ s.memmgr.place len align (align64 · align) = none)
  | .alignAt env offset len id =>
    env.noMemory = false ∧ (∃ tag, NextTag s.mems id tag) ∧
      (s.memmgr.exceeds (align32 offset s.memmgr.alignAt) len = true ∨
        s.memmgr.findSizeAt offset len (s.memmgr.alignAt.setWidth 64) = none)

def NoneLeaks (isSys : Bool) : Adapt → List Call → Prop
  | _, [] => True
  | s, call :: calls => ¬ s.Leaks isSys call ∧ NoneLeaks isSys (s.serve isSys call).1 calls

variable {isSys : Bool} {s s' s'' : Adapt} {env : Env} {len align offset : Addr} {id : MemId}
  {mems : List MemWithBitmap} {tag : MemTag} {mem : Option Mem}

theorem Undone.refl : Undone s s := ⟨rfl, rfl, fun _ => rfl⟩

theorem Undone.trans (first : Undone s s') (second : Undone s' s'') : Undone s s'' where
  allocs := second.allocs.trans first.allocs
  tom := second.tom.trans first.tom
  bitmaps tag := (second.bitmaps tag).trans (first.bitmaps tag)

theorem Claimed.not_undone (h : Claimed s s' tag) : ¬Undone s s' := by
  intro hundone
  have hset : taken s'.mems tag = true := by simp [h.bitmaps]
  rw [hundone.bitmaps, h.free] at hset
  cases hset

theorem nextTag_of_some {mems' : List MemWithBitmap} (h : memIdAdd mems id = (mems', some tag)) :
    NextTag mems id tag := by
  obtain ⟨hid, hindex, hfree, hbelow, -⟩ := memIdAdd_some h
  have hroom : (bitmapsOf id mems).isSome ∨ mems.length < memIdCountMax := by
    by_cases hlisted : (bitmapsOf id mems).isSome
    · exact Or.inl hlisted
    · apply Or.inr
      by_contra hfull
      simp [memIdAdd, hlisted, memIdListAdd, hfull] at h
  exact ⟨hroom, hid, hindex, hfree, hbelow⟩

theorem NextTag.le {other : MemTag} (h : NextTag mems id tag) (hother : NextTag mems id other) :
    tag.index ≤ other.index := by
  by_contra hlt
  have hset := h.below other.index (by omega)
  have htag : ({ id, index := other.index } : MemTag) = other := by rw [← hother.same]
  rw [htag, hother.free] at hset
  cases hset

theorem NextTag.eq {other : MemTag} (h : NextTag mems id tag) (hother : NextTag mems id other) :
    tag = other := by
  have hindex : tag.index = other.index := Nat.le_antisymm (h.le hother) (hother.le h)
  have hid : tag.id = other.id := h.same.trans hother.same.symm
  cases tag
  cases other
  simp_all

theorem NextTag.added (h : NextTag mems id tag) :
    ∃ mems', memIdAdd mems id = (mems', some tag) := by
  have hfree : taken mems { id, index := tag.index } = false := by
    rw [← h.same]
    exact h.free
  obtain ⟨mems', claimed, hadd, -⟩ := memIdAdd_exists h.room h.index_lt hfree
  have hsame : tag = claimed := h.eq (nextTag_of_some hadd)
  exact ⟨mems', hsame ▸ hadd⟩

theorem claimed_of_some (hadd : memIdAdd s.mems id = (mems, some tag)) :
    Claimed s { s with mems } tag := by
  obtain ⟨-, -, hfree, -, htaken⟩ := memIdAdd_some hadd
  exact ⟨rfl, rfl, hfree, htaken⟩

theorem undone_of_none (hadd : memIdAdd s.mems id = (mems, none)) : Undone s { s with mems } :=
  ⟨rfl, rfl, memIdAdd_none hadd⟩

inductive Serves (isSys : Bool) (s : Adapt) (call : Call) : Adapt → Option Mem → Prop
  | served (s' : Adapt) (mem : Mem) (kept : ¬s.Leaks isSys call) : Serves isSys s call s' (some mem)
  | undone (s' : Adapt) (undone : Undone s s') (kept : ¬s.Leaks isSys call) :
    Serves isSys s call s' none
  | leaked (s' : Adapt) (tag : MemTag) (claimed : Claimed s s' tag) (leaks : s.Leaks isSys call) :
    Serves isSys s call s' none

theorem allocNew_cases (s : Adapt) (env : Env) (len align : Addr) (tag : MemTag) :
    (s.allocNew env len align tag = (s, none) ∧
      (env.noMemory = true ∨ s.memmgr.place len align (align64 · align) = none)) ∨
    (∃ s' mem, s.allocNew env len align tag = (s', some mem) ∧
      ¬(env.noMemory = true ∨ s.memmgr.place len align (align64 · align) = none)) := by
  unfold Adapt.allocNew
  split
  · next hmemory => exact Or.inl ⟨rfl, Or.inl hmemory⟩
  · next hmemory =>
    split
    · next hplace => exact Or.inl ⟨rfl, Or.inr hplace⟩
    · next hplace =>
      apply Or.inr
      simp [hmemory, hplace]

theorem reserveAttrs_serves {call : Call} (hkept : ¬s.Leaks isSys call) :
    Serves isSys s call (s.reserveAttrs env len align id).1
      (s.reserveAttrs env len align id).2 := by
  unfold Adapt.reserveAttrs
  split
  · exact .undone s Undone.refl hkept
  · split
    · next mems hadd => exact .undone _ (undone_of_none hadd) hkept
    · next mems tag hadd =>
      split
      · refine .undone _ ⟨rfl, rfl, fun other => ?_⟩ hkept
        obtain ⟨-, hindex, hfree, -, htaken⟩ := memIdAdd_some hadd
        have hset : taken mems tag = true := by rw [htaken, if_pos rfl]
        rw [taken_memIdRemove hset hindex, htaken]
        by_cases hother : other = tag
        · rw [if_pos hother, hother, hfree]
        · rw [if_neg hother, if_neg hother]
      · exact .served _ _ hkept

theorem allocUnifyAlignSys_serves {noDma : Bool} {call : Call} (hkept : ¬s.Leaks isSys call) :
    Serves isSys s call (s.allocUnifyAlignSys env noDma len align id).1
      (s.allocUnifyAlignSys env noDma len align id).2 := by
  unfold Adapt.allocUnifyAlignSys
  split
  · exact .undone s Undone.refl hkept
  · rcases allocNew_cases s env (roundup len gpuPageSize) (roundup align gpuPageSize)
      { id, index := 0 } with
      ⟨hnew, -⟩ | ⟨s', mem, hnew, -⟩
    · rw [hnew]
      exact .undone s Undone.refl hkept
    · rw [hnew]
      exact .served s' mem hkept

theorem allocUnifyAlign_serves {noDma : Bool} (hnow : ¬env.Defers) :
    Serves false s (.align env noDma len align id) (s.allocUnifyAlign env len align id).1
      (s.allocUnifyAlign env len align id).2 := by
  unfold Adapt.allocUnifyAlign
  split
  · next hinit =>
    apply Serves.undone s Undone.refl
    rintro ⟨-, -, hleaks, -⟩
    simp [hleaks] at hinit
  · next hinit =>
    have hinit : s.memmgr.isInit = true := by simpa using hinit
    split
    · next mems hadd =>
      apply Serves.undone _ (undone_of_none hadd)
      rintro ⟨-, -, -, ⟨tag, htag, -⟩, -⟩
      obtain ⟨mems', hsome⟩ := htag.added
      rw [hadd] at hsome
      cases hsome
    · next mems tag hadd =>
      have hnext := nextTag_of_some hadd
      dsimp only
      split
      · next mem hfound =>
        split at hfound
        · next hupdate =>
          apply Serves.served
          rintro ⟨-, -, -, ⟨other, hother, hunknown⟩, -⟩
          rw [hother.eq hnext, hfound] at hunknown
          simp only [Bool.and_eq_true, Bool.not_eq_true'] at hupdate
          exact absurd (hunknown hupdate.1 hupdate.2) (Option.some_ne_none mem)
        · cases hfound
      · next hfound =>
        rcases allocNew_cases { s with mems } env len align tag with
          ⟨hnew, hfails⟩ | ⟨s', mem, hnew, hfits⟩
        · rw [hnew]
          refine .leaked _ tag (claimed_of_some hadd) ⟨rfl, hnow, hinit, ⟨tag, hnext, ?_⟩, hfails⟩
          intro hskip hold
          rw [if_pos (by simp [hskip, hold])] at hfound
          exact hfound
        · rw [hnew]
          apply Serves.served
          rintro ⟨-, -, -, -, hfails⟩
          exact hfits hfails

theorem allocAlignAt_serves :
    Serves isSys s (.alignAt env offset len id) (s.allocAlignAt env offset len id).1
      (s.allocAlignAt env offset len id).2 := by
  unfold Adapt.allocAlignAt
  split
  · next hmemory =>
    apply Serves.undone s Undone.refl
    rintro ⟨hleaks, -⟩
    rw [hmemory] at hleaks
    cases hleaks
  · next hmemory =>
    have hmemory : env.noMemory = false := by simpa using hmemory
    dsimp only
    split
    · next mems hadd =>
      apply Serves.undone _ (undone_of_none hadd)
      rintro ⟨-, ⟨tag, htag⟩, -⟩
      obtain ⟨mems', hsome⟩ := htag.added
      rw [hadd] at hsome
      cases hsome
    · next mems tag hadd =>
      have hnext := nextTag_of_some hadd
      split
      · next hexceeds =>
        exact .leaked _ tag (claimed_of_some hadd) ⟨hmemory, ⟨tag, hnext⟩, Or.inl hexceeds⟩
      · next hinside =>
        split
        · next hroom =>
          exact .leaked _ tag (claimed_of_some hadd) ⟨hmemory, ⟨tag, hnext⟩, Or.inr hroom⟩
        · next before after hroom =>
          apply Serves.served
          rintro ⟨-, -, hexceeds | hnone⟩
          · exact hinside hexceeds
          · exact absurd (hroom.symm.trans hnone) (Option.some_ne_none _)

theorem serve_serves (isSys : Bool) (s : Adapt) (call : Call) :
    Serves isSys s call (s.serve isSys call).1 (s.serve isSys call).2 := by
  cases call with
  | alignAt env offset len id => exact allocAlignAt_serves
  | align env noDma len align id =>
    simp only [Adapt.serve]
    split
    · next hsys =>
      apply allocUnifyAlignSys_serves
      rintro ⟨hframe, -⟩
      rw [hframe] at hsys
      cases hsys.1
    · next hframe =>
      unfold Adapt.allocAlign
      split
      · next hlater =>
        apply reserveAttrs_serves
        rintro ⟨-, hnow, -⟩
        apply hnow
        simpa [Env.Defers, and_assoc] using hlater
      · next hnow =>
        have hnow : ¬env.Defers := by simpa [Env.Defers, and_assoc] using hnow
        have hframe : isSys = false := by simpa [hnow] using hframe
        subst hframe
        exact allocUnifyAlign_serves hnow

theorem Serves.grows {call : Call} (h : Serves isSys s call s' none)
    (hset : taken s.mems tag = true) : taken s'.mems tag = true := by
  cases h with
  | undone hundone hkept => rw [hundone.bitmaps, hset]
  | leaked claimed hclaimed hleaks =>
    rw [hclaimed.bitmaps, hset]
    split <;> rfl

theorem serveAll_grows {calls : List Call} (h : AllFail isSys s calls)
    (hset : taken s.mems tag = true) : taken (s.serveAll isSys calls).mems tag = true := by
  induction calls generalizing s with
  | nil => exact hset
  | cons call calls ih =>
    have hserves := serve_serves isSys s call
    rw [h.1] at hserves
    exact ih h.2 (hserves.grows hset)

theorem serveAll_undone {calls : List Call} (h : AllFail isSys s calls) :
    Undone s (s.serveAll isSys calls) ↔ NoneLeaks isSys s calls := by
  induction calls generalizing s with
  | nil => exact ⟨fun _ => trivial, fun _ => Undone.refl⟩
  | cons call calls ih =>
    have hserves := serve_serves isSys s call
    rw [h.1] at hserves
    have hrest := ih h.2
    show Undone s ((s.serve isSys call).1.serveAll isSys calls) ↔
      ¬s.Leaks isSys call ∧ NoneLeaks isSys (s.serve isSys call).1 calls
    cases hserves with
    | undone hundone hkept =>
      rw [← hrest]
      constructor
      · intro hall
        refine ⟨hkept, ⟨?_, ?_, fun tag => ?_⟩⟩
        · rw [hall.allocs, hundone.allocs]
        · rw [hall.tom, hundone.tom]
        · rw [hall.bitmaps, hundone.bitmaps]
      · intro hall
        exact hundone.trans hall.2
    | leaked tag hclaimed hleaks =>
      constructor
      · intro hall
        exfalso
        have hset : taken (s.serve isSys call).1.mems tag = true := by simp [hclaimed.bitmaps]
        have hlast := serveAll_grows h.2 hset
        rw [hall.bitmaps, hclaimed.free] at hlast
        cases hlast
      · intro hall
        exact absurd hleaks hall.1

/-- A request that fails leaves the allocations, the top of memory and the indexes of all
ids as they were, unless it claimed an index first and has no way to give it back; and so
do any number of failing requests. -/
theorem failed_alloc_undone (isSys : Bool) (s : Adapt) :
    (∀ call, ((s.serve isSys call).2 = none → Undone s (s.serve isSys call).1) ↔
      ¬s.Leaks isSys call) ∧
    ∀ calls, AllFail isSys s calls →
      (Undone s (s.serveAll isSys calls) ↔ NoneLeaks isSys s calls) := by
  constructor
  · intro call
    have hserves := serve_serves isSys s call
    constructor
    · intro hundone hleaks
      cases hresult : (s.serve isSys call).2 with
      | some mem =>
        rw [hresult] at hserves
        cases hserves with
        | served mem hkept => exact hkept hleaks
      | none =>
        rw [hresult] at hserves
        cases hserves with
        | undone hundone hkept => exact hkept hleaks
        | leaked tag hclaimed hleaks' => exact hclaimed.not_undone (hundone hresult)
    · intro hkept hresult
      rw [hresult] at hserves
      cases hserves with
      | undone hundone hkept' => exact hundone
      | leaked tag hclaimed hleaks => exact absurd hleaks hkept
  · intro calls hfail
    exact serveAll_undone hfail

/-- 1 TiB of a manager of 256 MiB are refused, and index 0 of the id is gone. -/
theorem failed_alloc_leaks :
    ¬∀ isSys s call, (s.serve isSys call).2 = none → Undone s (s.serve isSys call).1 := by
  intro h
  have hfails := h false pfManager (.align plainEnv false 0x10000000000 0x1000 5) (by decide)
  have hbit := hfails.bitmaps { id := 5, index := 0 }
  revert hbit
  decide

end MxGpu.Fb
