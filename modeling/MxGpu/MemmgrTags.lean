import MxGpu.MemmgrCalls
import Mathlib.Data.List.Nodup

/- Every allocation of a manager, live or deferred, has a handle and a tag of its own. -/
namespace MxGpu.Fb

open List

def Memmgr.known (memmgr : Memmgr) : List Mem := memmgr.allocs ++ memmgr.reserves

structure Handles (live : List Mem) (nextMem : Nat) : Prop where
  nodup : (live.map Mem.handle).Nodup
  old : ∀ mem ∈ live, mem.handle < nextMem

/-- No tag is in the lists twice, and the bit of each is set. -/
structure Tagged (live : List Mem) (mems : List MemWithBitmap) : Prop where
  nodup : (live.map Mem.tag).Nodup
  numbered : ∀ mem ∈ live, mem.tag.index < maxMemCount ∧ taken mems mem.tag = true

variable {live live' : List Mem} {mems mems' : List MemWithBitmap} {nextMem : Nat}
  {new mem : Mem} {id : MemId} {tag : MemTag}

theorem Handles.congr (h : Handles live nextMem)
    (hperm : (live'.map Mem.handle).Perm (live.map Mem.handle)) : Handles live' nextMem := by
  refine ⟨hperm.nodup_iff.mpr h.nodup, fun m hm => ?_⟩
  have hin := hperm.mem_iff.mp (mem_map_of_mem hm)
  obtain ⟨other, hother, heq⟩ := mem_map.mp hin
  rw [← heq]
  exact h.old other hother

theorem Tagged.congr (h : Tagged live mems) (hperm : (live'.map Mem.tag).Perm (live.map Mem.tag)) :
    Tagged live' mems := by
  refine ⟨hperm.nodup_iff.mpr h.nodup, fun m hm => ?_⟩
  have hin := hperm.mem_iff.mp (mem_map_of_mem hm)
  obtain ⟨other, hother, heq⟩ := mem_map.mp hin
  rw [← heq]
  exact h.numbered other hother

theorem Handles.add (h : Handles live nextMem) (hnew : new.handle = nextMem) :
    Handles (new :: live) (nextMem + 1) := by
  constructor
  · rw [map_cons, nodup_cons]
    refine ⟨fun hin => ?_, h.nodup⟩
    obtain ⟨m, hm, heq⟩ := mem_map.mp hin
    have := h.old m hm
    omega
  · intro m hm
    rcases mem_cons.mp hm with rfl | hm
    · omega
    · have := h.old m hm
      omega

theorem Tagged.weaken (h : Tagged live mems)
    (hset : ∀ tag, taken mems tag = true → taken mems' tag = true) : Tagged live mems' :=
  ⟨h.nodup, fun m hm => ⟨(h.numbered m hm).1, hset _ (h.numbered m hm).2⟩⟩

theorem Tagged.numberedMore (h : Tagged live mems) (hadd : memIdAdd mems id = (mems', some tag)) :
    Tagged live mems' := by
  obtain ⟨-, -, -, -, htaken⟩ := memIdAdd_some hadd
  apply h.weaken
  intro other hother
  rw [htaken, hother, ite_self]

theorem Tagged.fresh (h : Tagged live mems) (hadd : memIdAdd mems id = (mems', some tag)) :
    ∀ mem ∈ live, mem.tag ≠ tag := by
  obtain ⟨-, -, hfree, -, -⟩ := memIdAdd_some hadd
  intro m hm heq
  have := (h.numbered m hm).2
  rw [heq, hfree] at this
  cases this

theorem Tagged.add (h : Tagged live mems) (hadd : memIdAdd mems id = (mems', some tag))
    (new : Mem) (hnew : new.tag = tag) : Tagged (new :: live) mems' := by
  obtain ⟨-, hindex, -, -, htaken⟩ := memIdAdd_some hadd
  constructor
  · rw [map_cons, nodup_cons]
    refine ⟨fun hin => ?_, h.nodup⟩
    obtain ⟨m, hm, heq⟩ := mem_map.mp hin
    exact h.fresh hadd m hm (heq.trans hnew)
  · intro m hm
    rcases mem_cons.mp hm with rfl | hm
    · rw [hnew, htaken, if_pos rfl]
      exact ⟨hindex, rfl⟩
    · exact (h.numberedMore hadd).numbered m hm

theorem Handles.tail (h : Handles (mem :: live) nextMem) : Handles live nextMem :=
  ⟨(nodup_cons.mp h.nodup).2, fun m hm => h.old m (mem_cons_of_mem _ hm)⟩

theorem Tagged.remove (h : Tagged (mem :: live) mems) : Tagged live (memIdRemove mems mem.tag) := by
  obtain ⟨hout, hnodup⟩ := nodup_cons.mp h.nodup
  obtain ⟨hindex, htaken⟩ := h.numbered mem (mem_cons_self ..)
  refine ⟨hnodup, fun m hm => ?_⟩
  have hm' := h.numbered m (mem_cons_of_mem _ hm)
  have hne : m.tag ≠ mem.tag := fun heq => hout (heq ▸ mem_map_of_mem hm)
  rw [taken_memIdRemove htaken hindex, if_neg hne]
  exact hm'

theorem insertReserve_perm (new : Mem) (reserves : List Mem) :
    (insertReserve new reserves).Perm (new :: reserves) := by
  induction reserves with
  | nil => exact .refl _
  | cons iter rest ih =>
    unfold insertReserve
    split
    · exact .refl _
    · exact (ih.cons iter).trans (.swap ..)

section Known

variable {memmgr : Memmgr} {before after rest : List Mem} {first : Mem}

theorem insert_known (memmgr : Memmgr) (before : List Mem) (new : Mem) (after : List Mem)
    (h : memmgr.allocs = before ++ after) :
    (memmgr.insert before new after).known.Perm (new :: memmgr.known) := by
  show ((before ++ new :: after) ++ memmgr.reserves).Perm (new :: (memmgr.allocs ++ memmgr.reserves))
  rw [h, ← cons_append]
  exact perm_middle.append_right _

theorem known_live (h : memmgr.allocs = before ++ mem :: after) :
    memmgr.known.Perm (mem :: ((before ++ after) ++ memmgr.reserves)) := by
  rw [Memmgr.known, h, ← cons_append]
  exact perm_middle.append_right _

theorem known_reserved (h : memmgr.reserves = before ++ mem :: after) :
    memmgr.known.Perm (mem :: (memmgr.allocs ++ (before ++ after))) := by
  rw [Memmgr.known, h]
  exact (perm_middle.append_left _).trans perm_middle

theorem known_deferred (memmgr : Memmgr) (new : Mem) :
    (memmgr.allocs ++ insertReserve new memmgr.reserves).Perm (new :: memmgr.known) :=
  ((insertReserve_perm _ _).append_left _).trans perm_middle

theorem filter_head (hfirst : memmgr.reserves = first :: rest)
    (hout : first.handle ∉ rest.map Mem.handle) :
    memmgr.reserves.filter (fun mem => mem.handle ≠ first.handle) = rest := by
  rw [hfirst, filter_cons]
  simp only [ne_eq, not_true_eq_false, decide_false, Bool.false_eq_true, if_false]
  apply filter_eq_self.mpr
  intro m hm
  have hne : m.handle ≠ first.handle := fun heq => hout (heq ▸ mem_map_of_mem hm)
  simp [hne]

theorem filter_first (h : Handles memmgr.known nextMem) (hfirst : memmgr.reserves = first :: rest) :
    memmgr.reserves.filter (fun mem => mem.handle ≠ first.handle) = rest := by
  have hnodup := h.nodup
  rw [Memmgr.known, map_append, hfirst, map_cons] at hnodup
  exact filter_head hfirst (nodup_cons.mp (nodup_append.mp hnodup).2.1).1

theorem known_placed {β : Type} (f : Mem → β) (hsplit : memmgr.allocs = before ++ after)
    (hfirst : memmgr.reserves = first :: rest) {placed : Mem} (hsame : f placed = f first) :
    (((before ++ placed :: after) ++ rest).map f).Perm (memmgr.known.map f) := by
  rw [Memmgr.known, hsplit, hfirst]
  simp only [map_append, map_cons, append_assoc, hsame, cons_append]
  exact (perm_middle.symm).append_left _

end Known

section Exchange

variable {memOld memNew : Mem}

theorem Handles.eq (h : Handles live nextMem) {a b : Mem} (ha : a ∈ live) (hb : b ∈ live)
    (heq : a.handle = b.handle) : a = b := inj_on_of_nodup_map h.nodup ha hb heq

theorem exchange_same (h : Handles live nextMem) (hold : memOld ∈ live) (hnew : memNew ∈ live)
    (hlen : memNew.len = memOld.len) (halign : memNew.align = memOld.align) (hmem : mem ∈ live) :
    (exchange memOld memNew mem).allocOff = mem.allocOff ∧
      (exchange memOld memNew mem).len = mem.len ∧
      (exchange memOld memNew mem).align = mem.align := by
  unfold exchange
  split
  · next heq =>
    rw [h.eq hmem hold heq]
    exact ⟨rfl, hlen, halign⟩
  · split
    · next heq =>
      rw [h.eq hmem hnew heq]
      exact ⟨rfl, hlen.symm, halign.symm⟩
    · exact ⟨rfl, rfl, rfl⟩

theorem Handles.exchange (h : Handles live nextMem) (hold : memOld ∈ live)
    (hnew : memNew ∈ live) : Handles (live.map (exchange memOld memNew)) nextMem := by
  constructor
  · rw [map_map]
    have hswap : live.map (Mem.handle ∘ Fb.exchange memOld memNew) =
        (live.map Mem.handle).map (Equiv.swap memOld.handle memNew.handle) := by
      rw [map_map]
      apply map_congr_left
      intro m _
      simp only [Function.comp_apply, Fb.exchange, Equiv.swap_apply_def]
      split
      · rfl
      · split <;> rfl
    rw [hswap]
    exact h.nodup.map (Equiv.injective _)
  · intro m hm
    obtain ⟨e, he, rfl⟩ := mem_map.mp hm
    unfold Fb.exchange
    split
    · exact h.old memNew hnew
    · split
      · exact h.old memOld hold
      · exact h.old e he

theorem Tagged.exchange (h : Tagged live mems) (handles : Handles live nextMem)
    (hold : memOld ∈ live) (hnew : memNew ∈ live) :
    Tagged (live.map (exchange memOld memNew)) mems := by
  have htag : ∀ e ∈ live, (Fb.exchange memOld memNew e).tag =
      Equiv.swap memOld.tag memNew.tag e.tag := by
    intro e he
    have hinj : ∀ m ∈ live, (e.handle = m.handle ↔ e.tag = m.tag) := fun m hm =>
      ⟨fun heq => by rw [handles.eq he hm heq],
        fun heq => by rw [inj_on_of_nodup_map h.nodup he hm heq]⟩
    simp only [Fb.exchange, Equiv.swap_apply_def, hinj memOld hold, hinj memNew hnew]
    split
    · rfl
    · split <;> rfl
  constructor
  · have hswap : (live.map (Fb.exchange memOld memNew)).map Mem.tag =
        (live.map Mem.tag).map (Equiv.swap memOld.tag memNew.tag) := by
      rw [map_map, map_map]
      exact map_congr_left htag
    rw [hswap]
    exact h.nodup.map (Equiv.injective _)
  · intro m hm
    obtain ⟨e, he, rfl⟩ := mem_map.mp hm
    rw [htag e he, Equiv.swap_apply_def]
    split
    · exact h.numbered memNew hnew
    · split
      · exact h.numbered memOld hold
      · exact h.numbered e he

end Exchange

end MxGpu.Fb
