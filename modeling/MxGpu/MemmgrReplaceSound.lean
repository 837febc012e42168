import MxGpu.MemmgrReplace

/- Replacing the bad pages of a sound manager: the entries are taken out, the pages reserved in
the holes, and the entries put back elsewhere. -/
namespace MxGpu.Fb

open AlignUp Tiling Transition List

variable {s s₀ : Adapt} {memmgr : Memmgr} {before after moved : List Mem} {old mem : Mem}
  {errAddr size : Addr}

theorem findMemAtOffset_some {allocs : List Mem}
    (h : findMemAtOffset errAddr size allocs = some (before, old, after)) :
    allocs = before ++ old :: after ∧ Overlaps old errAddr size := by
  induction allocs generalizing before with
  | nil => cases h
  | cons alloc rest ih =>
    unfold findMemAtOffset at h
    split at h
    · next hhere =>
      cases h
      exact ⟨rfl, hhere⟩
    · obtain ⟨⟨front, found, back⟩, hrest, heq⟩ := Option.map_eq_some_iff.mp h
      cases heq
      obtain ⟨hsplit, hover⟩ := ih hrest
      exact ⟨congrArg (alloc :: ·) hsplit, hover⟩

theorem findMemAtOffset_none {allocs : List Mem}
    (h : findMemAtOffset errAddr size allocs = none) : ∀ mem ∈ allocs, ¬Overlaps mem errAddr size := by
  induction allocs with
  | nil => exact nofun
  | cons alloc rest ih =>
    unfold findMemAtOffset at h
    split at h
    · cases h
    · next hapart =>
      intro mem hmem
      rcases mem_cons.mp hmem with rfl | hrest
      · exact hapart
      · exact ih (Option.map_eq_none_iff.mp h) mem hrest

theorem Sound.moveOut (h : Sound memmgr) (hsplit : memmgr.allocs = before ++ old :: after) :
    Sound (memmgr.moveOut before after) := by
  have hsub : (before ++ after).Sublist memmgr.allocs := by
    rw [hsplit]
    exact (List.Sublist.refl _).append (sublist_cons_self _ _)
  have hlaid := h.laid.sublist (hsub.map Mem.span)
  have hsized : ∀ m ∈ before ++ after, m.Sized := fun m hm => h.sized m (hsub.subset hm)
  have hbound := h.bounded (by rw [hsplit]; simp)
  by_cases hlast : after = []
  · subst hlast
    rw [append_nil] at hlaid hsized
    obtain ⟨hrow, hle⟩ := endOf_le hsized hlaid
    unfold Memmgr.moveOut
    rw [if_pos rfl, append_nil]
    exact ⟨hsized, hrow, rfl, h.head, fun _ => hle.trans hbound⟩
  · have htop := h.top
    rw [hsplit, endOf_append] at htop
    unfold Memmgr.moveOut
    rw [if_neg hlast]
    refine ⟨hsized, hlaid, ?_, h.head, fun _ => hbound⟩
    obtain ⟨next, rest, rfl⟩ := exists_cons_of_ne_nil hlast
    show endOf memmgr.headOff (before ++ next :: rest) = memmgr.tom
    rw [endOf_append, ← htop]
    rfl

/-- What holds between the turns: the manager is sound, the entries in `list_tmp` have their
own handles, and every block from before is live or in that list, with its tag and length. -/
structure Clearing (s₀ s : Adapt) (moved : List Mem) : Prop where
  sound : UpSound s
  shift : s.memmgr.align = 12
  offset : s.memmgr.offset = s₀.memmgr.offset
  size : s.memmgr.size = s₀.memmgr.size
  handles : Handles (s.memmgr.known ++ moved) s.nextMem
  powers : ∀ mem ∈ moved, ∃ k, mem.align.toNat = 2 ^ k
  filled : ∀ mem ∈ moved, mem.len ≠ 0
  kept : ∀ mem ∈ s₀.memmgr.allocs, ∃ mem' ∈ s.memmgr.allocs ++ moved,
    mem'.handle = mem.handle ∧ mem'.tag = mem.tag ∧ mem'.len = mem.len

theorem Clearing.start (h : UpSound s) (hshift : s.memmgr.align = 12) : Clearing s s [] := by
  refine ⟨h, hshift, rfl, rfl, ?_, nofun, nofun, fun mem hmem => ⟨mem, ?_, rfl, rfl, rfl⟩⟩
  · rw [append_nil]
    exact h.handles
  · rw [append_nil]
    exact hmem

theorem Clearing.moveOut (h : Clearing s₀ s moved)
    (hsplit : s.memmgr.allocs = before ++ old :: after) (hlen : old.len ≠ 0) :
    Clearing s₀ { s with memmgr := s.memmgr.moveOut before after } (old :: moved) := by
  have hknown := known_live hsplit
  have hin : old ∈ s.memmgr.known := by
    apply hknown.mem_iff.mpr
    exact mem_cons_self
  have hperm : (s.memmgr.known ++ moved).Perm
      ((s.memmgr.moveOut before after).known ++ old :: moved) := by
    refine (hknown.append_right _).trans ?_
    exact perm_middle.symm
  have hmem : ∀ m ∈ before ++ after, m ∈ s.memmgr.allocs := by
    intro m hm
    rw [hsplit]
    rcases mem_append.mp hm with hm | hm <;> simp [hm]
  have hall := h.handles.congr (hperm.map Mem.handle).symm
  refine ⟨⟨h.sound.sound.moveOut hsplit, ?_, ?_, h.sound.parked, h.sound.up, h.sound.inited, ?_⟩,
    h.shift, h.offset, h.size, hall, ?_, ?_, ?_⟩
  · exact fun m hm => h.sound.aligned m (hmem m hm)
  · intro m hm
    apply h.sound.powers m
    rcases mem_append.mp hm with hm | hm
    · exact mem_append_left _ (hmem m hm)
    · exact mem_append_right _ hm
  · refine ⟨?_, fun m hm => hall.old m (mem_append_left _ hm)⟩
    have hnodup := hall.nodup
    rw [map_append] at hnodup
    exact (nodup_append.mp hnodup).1
  · intro m hm
    rcases mem_cons.mp hm with rfl | hm
    · exact h.sound.powers m hin
    · exact h.powers m hm
  · intro m hm
    rcases mem_cons.mp hm with rfl | hm
    · exact hlen
    · exact h.filled m hm
  · intro m hm
    obtain ⟨m', hm', hsame⟩ := h.kept m hm
    refine ⟨m', ?_, hsame⟩
    rw [hsplit] at hm'
    show m' ∈ (before ++ after) ++ old :: moved
    simp only [mem_append, mem_cons] at hm' ⊢
    tauto

/-- What the loop over the entries that overlap a page leaves: no other entry than those is
gone, and either a bad-page entry is found or nothing overlaps the page. -/
theorem Clearing.moveOverlapping (turns : Nat) (h : Clearing s₀ { s with memmgr } moved)
    (hturns : memmgr.allocs.length < turns) :
    Clearing s₀ { s with memmgr := (Fb.moveOverlapping errAddr turns memmgr moved).1 }
        (Fb.moveOverlapping errAddr turns memmgr moved).2.1 ∧
      (∀ mem ∈ (Fb.moveOverlapping errAddr turns memmgr moved).1.allocs, mem ∈ memmgr.allocs) ∧
      (∀ mem ∈ memmgr.allocs, mem.tag.id = memEccBadPage →
        mem ∈ (Fb.moveOverlapping errAddr turns memmgr moved).1.allocs) ∧
      match (Fb.moveOverlapping errAddr turns memmgr moved).2.2 with
      | some old => old ∈ memmgr.allocs ∧ old.tag.id = memEccBadPage ∧
          Overlaps old errAddr gpuPageSize
      | none => ∀ mem ∈ (Fb.moveOverlapping errAddr turns memmgr moved).1.allocs,
          ¬Overlaps mem errAddr gpuPageSize := by
  induction turns generalizing memmgr moved with
  | zero => exact absurd hturns (Nat.not_lt_zero _)
  | succ turns ih =>
    unfold Fb.moveOverlapping
    cases hfind : findMemAtOffset errAddr gpuPageSize memmgr.allocs with
    | none => exact ⟨h, fun _ hm => hm, fun _ hm _ => hm, findMemAtOffset_none hfind⟩
    | some found =>
      obtain ⟨before, old, after⟩ := found
      obtain ⟨hsplit, hover⟩ := findMemAtOffset_some hfind
      have hin : old ∈ memmgr.allocs := by
        rw [hsplit]
        simp
      by_cases hbad : old.tag.id = memEccBadPage
      · simp only [if_pos hbad]
        exact ⟨h, fun _ hm => hm, fun _ hm _ => hm, hin, hbad, hover⟩
      · simp only [if_neg hbad]
        have hnext := h.moveOut hsplit hover.1
        have hshorter : (memmgr.moveOut before after).allocs.length < turns := by
          rw [hsplit, length_append, length_cons] at hturns
          show (before ++ after).length < turns
          rw [length_append]
          omega
        have hsub : ∀ mem ∈ (memmgr.moveOut before after).allocs, mem ∈ memmgr.allocs := by
          intro mem hm
          rw [hsplit]
          rcases mem_append.mp hm with hm | hm <;> simp [hm]
        obtain ⟨hclear, hless, hbads, hfound⟩ := ih hnext hshorter
        refine ⟨hclear, fun mem hm => hsub mem (hless mem hm), ?_, ?_⟩
        · intro mem hm hid
          apply hbads mem _ hid
          rw [hsplit] at hm
          show mem ∈ before ++ after
          rcases mem_append.mp hm with hm | hm
          · exact mem_append_left _ hm
          · apply mem_append_right
            apply mem_of_ne_of_mem _ hm
            rintro rfl
            exact hbad hid
        · revert hfound
          cases (Fb.moveOverlapping errAddr turns (memmgr.moveOut before after)
            (old :: moved)).2.2 with
          | none => exact id
          | some other => exact fun hother => ⟨hsub other hother.1, hother.2⟩

section Page

variable {bad : BadPage}

theorem errAddr_inRange (h : bad.InRange memmgr) :
    memmgr.offset ≤ bad.errAddr ∧
      bad.errAddr.toNat + 0x1000 ≤ (memmgr.offset + memmgr.size).toNat := by
  obtain ⟨hlow, hhigh⟩ := (isBpInRange_iff (pageAddr_dvd bad.retiredPage)).mp h
  exact ⟨BitVec.le_def.mpr hlow, hhigh⟩

theorem findSizeAtFrom_isSome {size tom : Addr} {allocs : List Mem}
    (h : ∀ mem ∈ allocs, ¬(mem.allocOff > tom ∧ mem.allocOff - mem.len < tom + size)) :
    ∃ before after, findSizeAtFrom size tom allocs = some (before, after) := by
  induction allocs with
  | nil => exact ⟨[], [], rfl⟩
  | cons alloc rest ih =>
    obtain ⟨before, after, hrest⟩ := ih fun mem hm => h mem (mem_cons_of_mem _ hm)
    unfold findSizeAtFrom
    rw [hrest, if_neg (h alloc mem_cons_self)]
    split
    · exact ⟨_, _, rfl⟩
    · split
      · exact ⟨_, _, rfl⟩
      · exact ⟨_, _, rfl⟩

theorem allocAlignAt_reserves (h : UpSound s) (hshift : s.memmgr.align = 12)
    (hrange : bad.InRange s.memmgr) (hlow : bad.errAddr.toNat + 0xfff < 2 ^ 32)
    (hmemory : ¬bad.env.noMemory) (hnumbers : Numbers s)
    (hclear : ∀ mem ∈ s.memmgr.allocs, ¬Overlaps mem bad.errAddr gpuPageSize)
    (hempty : ∀ mem ∈ s.memmgr.allocs, mem.len = 0 →
      ¬(bad.errAddr < mem.allocOff ∧ mem.allocOff < bad.errAddr + gpuPageSize)) :
    ∃ mems tag before after new,
      s.allocAlignAt bad.env bad.errAddr gpuPageSize memEccBadPage =
          ({ mems, memmgr := s.memmgr.insert before new after, nextMem := s.nextMem + 1 },
            some new) ∧
        s.memmgr.allocs = before ++ after ∧ new.handle = s.nextMem ∧ new.tag = tag ∧
        tag.id = memEccBadPage ∧ new.HasPage bad.errAddr := by
  obtain ⟨mems, tag, hadd⟩ := hnumbers
  obtain ⟨hoffset, hinside⟩ := errAddr_inRange hrange
  have halign : ((1 : Addr) <<< s.memmgr.align).setWidth 32 = (0x1000 : BitVec 32) := by
    rw [hshift]
    decide
  have hsame : alignUp bad.errAddr.toNat (2 ^ 12) = bad.errAddr.toNat :=
    Nat.le_antisymm (alignUp_least (Nat.le_refl _) (pageAddr_dvd bad.retiredPage))
      (le_alignUp _ (by decide))
  have haligned : align32 bad.errAddr 0x1000 = bad.errAddr := by
    apply BitVec.eq_of_toNat_eq
    rw [align32_toNat (show (0x1000 : BitVec 32).toNat = 2 ^ 12 by decide) hlow, hsame]
  have haligned' : align64 bad.errAddr ((0x1000 : BitVec 32).setWidth 64) = bad.errAddr := by
    apply BitVec.eq_of_toNat_eq
    rw [align64_toNat (k := 12) (by decide) (by rw [hsame]; omega), hsame]
  have hexceeds : s.memmgr.exceeds bad.errAddr gpuPageSize = false := by
    have hpage : gpuPageSize.toNat = 0x1000 := by decide
    simp only [Memmgr.exceeds, decide_eq_false_iff_not, gt_iff_lt, BitVec.lt_def]
    rw [BitVec.toNat_add bad.errAddr, Nat.mod_eq_of_lt (by omega)]
    omega
  have hfree : ∀ mem ∈ s.memmgr.allocs,
      ¬(mem.allocOff > bad.errAddr ∧ mem.allocOff - mem.len < bad.errAddr + gpuPageSize) := by
    intro mem hm hover
    by_cases hlen : mem.len = 0
    · apply hempty mem hm hlen
      rw [hlen] at hover
      exact ⟨hover.1, by simpa using hover.2⟩
    · exact hclear mem hm ⟨hlen, hover⟩
  obtain ⟨before, after, hfind⟩ := findSizeAtFrom_isSome hfree
  have hroom : s.memmgr.findSizeAt bad.errAddr gpuPageSize ((0x1000 : BitVec 32).setWidth 64) =
      some (before, after) := by
    unfold Memmgr.findSizeAt
    rw [haligned']
    exact hfind
  have hpage : gpuPageSize.toNat = 0x1000 := by decide
  have hsum : (bad.errAddr + gpuPageSize).toNat = bad.errAddr.toNat + gpuPageSize.toNat := by
    rw [BitVec.toNat_add, Nat.mod_eq_of_lt (by omega)]
  have hhead : s.memmgr.headOff.toNat ≤ bad.errAddr.toNat := by
    rw [h.sound.head]
    exact BitVec.le_def.mp hoffset
  obtain ⟨hsplit, -, -⟩ := findSizeAtFrom_some (by omega) hhead hfind
  refine ⟨mems, tag, before, after, s.newMem (bad.errAddr + gpuPageSize) gpuPageSize
    ((0x1000 : BitVec 32).setWidth 64) tag, ?_, hsplit, rfl, rfl, (memIdAdd_some hadd).1, ?_⟩
  · unfold Adapt.allocAlignAt
    rw [if_neg hmemory]
    simp only [hadd, halign, haligned, hexceeds, hroom, h.up, Bool.false_eq_true, if_false]
    rfl
  · constructor
    · show (bad.errAddr + gpuPageSize - gpuPageSize).toNat ≤ _
      rw [BitVec.add_sub_cancel]
    · show _ ≤ (bad.errAddr + gpuPageSize).toNat
      exact Nat.le_of_eq hsum.symm

end Page

section Turn

variable {bad : BadPage} {new : Mem} {mems : List MemWithBitmap}

theorem mem_insert (hsplit : memmgr.allocs = before ++ after) {m : Mem} :
    m ∈ (memmgr.insert before new after).allocs ↔ m = new ∨ m ∈ memmgr.allocs := by
  rw [hsplit]
  show m ∈ before ++ new :: after ↔ _
  simp only [mem_append, mem_cons]
  tauto

theorem Clearing.insert (h : Clearing s₀ s moved) (hsplit : s.memmgr.allocs = before ++ after)
    (hnew : new.handle = s.nextMem)
    (hsound : UpSound ⟨mems, s.memmgr.insert before new after, s.nextMem + 1⟩) :
    Clearing s₀ ⟨mems, s.memmgr.insert before new after, s.nextMem + 1⟩ moved := by
  have hperm : ((s.memmgr.insert before new after).known ++ moved).Perm
      (new :: (s.memmgr.known ++ moved)) := (insert_known _ _ _ _ hsplit).append_right _
  refine ⟨hsound, h.shift, h.offset, h.size, ?_, h.powers, h.filled, ?_⟩
  · exact (h.handles.add hnew).congr (hperm.map _)
  · intro m hm
    obtain ⟨m', hm', hsame⟩ := h.kept m hm
    refine ⟨m', ?_, hsame⟩
    rcases mem_append.mp hm' with hm' | hm'
    · exact mem_append_left _ ((mem_insert hsplit).mpr (.inr hm'))
    · exact mem_append_right _ hm'

theorem Clearing.reserveTurn (h : Clearing s₀ s moved)
    (hmeets : bad.InRange s.memmgr → PageMeets s bad) :
    Clearing s₀ (Fb.reserveTurn s moved bad).1 (Fb.reserveTurn s moved bad).2.1 ∧
      (∀ errAddr, Reserved s.memmgr errAddr →
        Reserved (Fb.reserveTurn s moved bad).1.memmgr errAddr) ∧
      (bad.InRange s.memmgr → Reserved (Fb.reserveTurn s moved bad).1.memmgr bad.errAddr) := by
  unfold Fb.reserveTurn
  by_cases hturn : bad.InRange s.memmgr ∧ bad.mem = none
  · obtain ⟨hrange, hnone⟩ := hturn
    have hneeds := hmeets hrange
    obtain ⟨hclear, hless, hbads, hfound⟩ := @Clearing.moveOverlapping s s₀ s.memmgr moved
      bad.errAddr (s.memmgr.allocs.length + 1) h (Nat.lt_succ_self _)
    rw [if_pos ⟨hrange, hnone⟩]
    generalize Fb.moveOverlapping bad.errAddr (s.memmgr.allocs.length + 1) s.memmgr moved = result
      at hclear hless hbads hfound
    obtain ⟨memmgr, moved', found⟩ := result
    have hstays : ∀ errAddr, Reserved s.memmgr errAddr → Reserved memmgr errAddr := by
      rintro errAddr ⟨mem, hmem, hid, hpage⟩
      exact ⟨mem, hbads mem hmem hid, hid, hpage⟩
    cases found with
    | some old =>
      obtain ⟨hin, hid, hover⟩ := hfound
      exact ⟨hclear, hstays, fun _ =>
        ⟨old, hbads old hin hid, hid, hneeds.whole hnone old hin hid hover⟩⟩
    | none =>
      obtain ⟨hlow, hmemory, hnumbers, hempty⟩ := hneeds.fresh hnone fun mem hmem hid =>
        hfound mem (hbads mem hmem hid)
      have hrange' : bad.InRange memmgr := by
        have hoffset := hclear.offset.trans h.offset.symm
        have hsize := hclear.size.trans h.size.symm
        unfold BadPage.InRange at hrange ⊢
        rw [show memmgr.offset = s.memmgr.offset from hoffset,
          show memmgr.size = s.memmgr.size from hsize]
        exact hrange
      obtain ⟨hoffset, hinside⟩ := errAddr_inRange hrange'
      have hsame : alignUp bad.errAddr.toNat (2 ^ 12) = bad.errAddr.toNat :=
        Nat.le_antisymm (alignUp_least (Nat.le_refl _) (pageAddr_dvd bad.retiredPage))
          (le_alignUp _ (by decide))
      have hfits : AtFits memmgr bad.errAddr gpuPageSize := by
        have hshift : memmgr.align = 12 := hclear.shift
        have htwelve : memmgr.align.toNat = 12 := by
          rw [hshift]
          rfl
        have hpage : gpuPageSize.toNat = 0x1000 := by decide
        refine ⟨by omega, ?_, ?_⟩
        · rw [htwelve]
          exact hlow
        · rw [htwelve, hsame]
          omega
      obtain ⟨mems, tag, before, after, new, halloc, hsplit, hnew, rfl, hid, hpage⟩ :=
        allocAlignAt_reserves hclear.sound hclear.shift hrange' hlow hmemory hnumbers hfound
          fun mem hmem => hempty mem (hless mem hmem)
      have hsound := hclear.sound.allocatesAt hoffset (fun _ _ _ _ => hfits)
        (@allocAlignAt_allocates { s with memmgr } bad.env gpuPageSize bad.errAddr memEccBadPage)
      rw [halloc] at hsound
      simp only [halloc]
      refine ⟨hclear.insert hsplit hnew hsound, ?_, ?_⟩
      · intro errAddr hres
        obtain ⟨mem, hmem, hid', hpage'⟩ := hstays errAddr hres
        exact ⟨mem, (mem_insert hsplit).mpr (.inr hmem), hid', hpage'⟩
      · exact fun _ => ⟨new, (mem_insert hsplit).mpr (.inl rfl), hid, hpage⟩
  · rw [if_neg hturn]
    refine ⟨h, fun _ hres => hres, fun hrange => (hmeets hrange).known fun hnone => ?_⟩
    exact hturn ⟨hrange, hnone⟩

theorem Clearing.reserveTurns (pages : List BadPage) (h : Clearing s₀ s moved)
    (hmeets : TurnsMeet pages s moved) :
    Clearing s₀ (Fb.reserveTurns pages s moved).1 (Fb.reserveTurns pages s moved).2.1 ∧
      (∀ errAddr, Reserved s.memmgr errAddr →
        Reserved (Fb.reserveTurns pages s moved).1.memmgr errAddr) ∧
      ∀ bad ∈ pages, bad.InRange s₀.memmgr →
        Reserved (Fb.reserveTurns pages s moved).1.memmgr bad.errAddr := by
  induction pages generalizing s moved with
  | nil => exact ⟨h, fun _ hres => hres, nofun⟩
  | cons bad rest ih =>
    obtain ⟨hturn, hrest⟩ := hmeets
    obtain ⟨hnext, hstays, hres⟩ := h.reserveTurn hturn
    obtain ⟨hlast, hstays', hres'⟩ := ih hnext hrest
    unfold Fb.reserveTurns
    refine ⟨hlast, fun errAddr hold => hstays' errAddr (hstays errAddr hold), ?_⟩
    intro page hpage hrange
    rcases mem_cons.mp hpage with rfl | hpage
    · apply hstays' _ (hres _)
      unfold BadPage.InRange at hrange ⊢
      rw [h.offset, h.size]
      exact hrange
    · exact hres' page hpage hrange

end Turn

section Entry

variable {env : Env} {new : Mem} {mems : List MemWithBitmap} {tag : MemTag} {addr : Addr}

theorem allocAlign_placed (hinit : s.memmgr.isInit = true) (hnow : ¬env.Defers)
    (hmemory : ¬env.noMemory) (hadd : memIdAdd s.mems memEccBadPage = (mems, some tag))
    (hplace : s.memmgr.place old.len old.align (align64 · old.align) =
      some (before, addr, after)) :
    s.allocAlign env old.len old.align memEccBadPage =
      (⟨mems, s.memmgr.insert before (s.newMem (addr + old.len) old.len old.align tag) after,
        s.nextMem + 1⟩, some (s.newMem (addr + old.len) old.len old.align tag)) := by
  have hlater : (env.mi350x && env.statusInvalid && !env.skipHwInit) = false := by
    rw [Bool.eq_false_iff]
    intro htrue
    apply hnow
    simpa [Env.Defers, and_assoc] using htrue
  have hnew : alwaysAllocNew memEccBadPage = true := by decide
  unfold Adapt.allocAlign
  rw [hlater, if_neg Bool.false_ne_true]
  unfold Adapt.allocUnifyAlign
  rw [hinit]
  simp only [Bool.not_true, Bool.false_eq_true, if_false, hadd, hnew, Bool.and_false]
  unfold Adapt.allocNew
  rw [if_neg hmemory]
  simp only [hplace]
  rfl

theorem exchange_others {memOld memNew : Mem} {allocs : List Mem}
    (hold : ∀ mem ∈ allocs, mem.handle ≠ memOld.handle)
    (hnew : ∀ mem ∈ allocs, mem.handle ≠ memNew.handle) :
    allocs.map (exchange memOld memNew) = allocs := by
  apply (map_congr_left _).trans (map_id allocs)
  intro mem hm
  unfold exchange
  rw [if_neg (hold mem hm), if_neg (hnew mem hm)]
  rfl

theorem Clearing.replaceMoved (h : Clearing s₀ s (old :: moved)) (hmeets : EntryMeets s env old) :
    (s.replaceMoved env old).2 = true ∧ Clearing s₀ (s.replaceMoved env old).1 moved ∧
      ∀ errAddr, Reserved s.memmgr errAddr →
        Reserved (s.replaceMoved env old).1.memmgr errAddr := by
  obtain ⟨mems, tag, hadd⟩ := hmeets.numbers
  obtain ⟨⟨before, addr, after⟩, hplace⟩ := Option.isSome_iff_exists.mp hmeets.place
  obtain ⟨k, hk⟩ := h.powers old mem_cons_self
  have hwrap := hmeets.noWrap
  have hroom : alignUp s.memmgr.tom.toNat (2 ^ k) + old.len.toNat < 2 ^ 64 := by
    rw [← hk]
    exact hwrap
  have hsplit := (h.sound.sound.place_some hk hroom hplace).1
  have hperm : (s.memmgr.known ++ old :: moved).Perm (old :: (s.memmgr.known ++ moved)) :=
    perm_middle
  have hhandles := h.handles.congr (hperm.map Mem.handle).symm
  let placed : Mem := { old with allocOff := addr + old.len }
  let memNew := s.newMem (addr + old.len) old.len old.align tag
  -- the other blocks have neither handle
  have hold : ∀ mem ∈ s.memmgr.known, mem.handle ≠ old.handle := by
    have hnodup := hhandles.nodup
    rw [map_cons, nodup_cons, map_append] at hnodup
    intro mem hm heq
    apply hnodup.1
    rw [← heq]
    exact mem_append_left _ (mem_map_of_mem hm)
  have hnew : ∀ mem ∈ s.memmgr.known, mem.handle ≠ memNew.handle := by
    intro mem hm heq
    have hlt := h.sound.handles.old mem hm
    rw [heq] at hlt
    exact absurd hlt (Nat.lt_irrefl _)
  have hbefore : ∀ mem ∈ before, mem ∈ s.memmgr.known := by
    intro mem hm
    exact mem_append_left _ (by rw [hsplit]; exact mem_append_left _ hm)
  have hafter : ∀ mem ∈ after, mem ∈ s.memmgr.known := by
    intro mem hm
    exact mem_append_left _ (by rw [hsplit]; exact mem_append_right _ hm)
  have hreserves : ∀ mem ∈ s.memmgr.reserves, mem ∈ s.memmgr.known :=
    fun mem hm => mem_append_right _ hm
  have hput : exchange old memNew memNew = placed := by
    unfold exchange
    have hne : memNew.handle ≠ old.handle := by
      have hlt := h.handles.old old (mem_append_right _ mem_cons_self)
      exact fun heq => absurd hlt (by rw [← heq]; exact Nat.lt_irrefl _)
    rw [if_neg hne, if_pos rfl]
    rfl
  have hallocs : (before ++ memNew :: after).map (exchange old memNew) =
      before ++ placed :: after := by
    rw [map_append, map_cons, hput,
      exchange_others (fun m hm => hold m (hbefore m hm)) fun m hm => hnew m (hbefore m hm),
      exchange_others (fun m hm => hold m (hafter m hm)) fun m hm => hnew m (hafter m hm)]
  have hresult : s.replaceMoved env old =
      (⟨mems, s.memmgr.insert before placed after, s.nextMem + 1⟩, true) := by
    unfold Adapt.replaceMoved
    rw [allocAlign_placed h.sound.inited hmeets.now hmeets.memory hadd hplace]
    have hsame : (s.memmgr.insert before memNew after).reserves.map (exchange old memNew) =
        (s.memmgr.insert before memNew after).reserves :=
      exchange_others (fun m hm => hold m (hreserves m hm)) fun m hm => hnew m (hreserves m hm)
    have hmoved : (s.memmgr.insert before memNew after).allocs.map (exchange old memNew) =
        (s.memmgr.insert before placed after).allocs := hallocs
    simp only [memNew] at hsame hmoved
    simp only [hsame, hmoved]
    rfl
  have hend := alignUp_mono (a := 2 ^ k)
    (show (endOf s.memmgr.headOff before).toNat ≤ s.memmgr.tom.toNat by
      have hlaid := h.sound.sound.laid
      rw [hsplit] at hlaid
      obtain ⟨-, hrow⟩ := laid_split
        (fun m hm => h.sound.sound.sized m (by rw [hsplit]; exact mem_append_left _ hm)) hlaid
      exact hrow.le le_nearness)
  have haligned := align64_toNat (x := endOf s.memmgr.headOff before) hk (by omega)
  obtain ⟨hsound, hdvd⟩ := h.sound.sound.placed_up h.sound.up hk hwrap hplace haligned placed
    rfl rfl
  rw [← hk] at hdvd
  have hlive : Handles (placed :: (s.memmgr.known ++ moved)) (s.nextMem + 1) :=
    ⟨hhandles.nodup, fun m hm => by
      rcases mem_cons.mp hm with rfl | hm
      · exact Nat.lt_succ_of_lt (hhandles.old old mem_cons_self)
      · exact Nat.lt_succ_of_lt (hhandles.old m (mem_cons_of_mem _ hm))⟩
  have hplaced : Handles (placed :: s.memmgr.known) (s.nextMem + 1) := by
    refine ⟨?_, fun m hm => hlive.old m ?_⟩
    · have hnodup := hlive.nodup
      rw [map_cons, map_append, ← cons_append] at hnodup
      exact (nodup_append.mp hnodup).1
    · rcases mem_cons.mp hm with rfl | hm
      · exact mem_cons_self
      · exact mem_cons_of_mem _ (mem_append_left _ hm)
  rw [hresult]
  refine ⟨rfl, ⟨h.sound.insertAs hsplit hsound hdvd ⟨k, hk⟩ hplaced mems, h.shift, h.offset,
    h.size, ?_, fun m hm => h.powers m (mem_cons_of_mem _ hm),
    fun m hm => h.filled m (mem_cons_of_mem _ hm), ?_⟩, ?_⟩
  · have hknown : ((s.memmgr.insert before placed after).known ++ moved).Perm
        (placed :: (s.memmgr.known ++ moved)) := (insert_known _ _ _ _ hsplit).append_right _
    exact hlive.congr (hknown.map _)
  · intro m hm
    obtain ⟨m', hm', hhandle, htag, hlen⟩ := h.kept m hm
    have hcases : m' = old ∨ m' ∈ s.memmgr.allocs ∨ m' ∈ moved := by
      simp only [mem_append, mem_cons] at hm'
      tauto
    rcases hcases with rfl | hlive' | hlater
    · exact ⟨placed, mem_append_left _ ((mem_insert hsplit).mpr (.inl rfl)), hhandle, htag,
        hlen⟩
    · exact ⟨m', mem_append_left _ ((mem_insert hsplit).mpr (.inr hlive')), hhandle, htag,
        hlen⟩
    · exact ⟨m', mem_append_right _ hlater, hhandle, htag, hlen⟩
  · rintro errAddr ⟨m, hm, hid, hpage⟩
    exact ⟨m, (mem_insert hsplit).mpr (.inr hm), hid, hpage⟩

theorem Clearing.replaceTurns {env : Nat → Env} (h : Clearing s₀ s moved)
    (hmeets : EntriesMeet env moved s) :
    (Fb.replaceTurns env moved s).2 = true ∧ Clearing s₀ (Fb.replaceTurns env moved s).1 [] ∧
      ∀ errAddr, Reserved s.memmgr errAddr →
        Reserved (Fb.replaceTurns env moved s).1.memmgr errAddr := by
  induction moved generalizing s with
  | nil => exact ⟨rfl, h, fun _ hres => hres⟩
  | cons alloc rest ih =>
    obtain ⟨hentry, hrest⟩ := hmeets
    obtain ⟨hok, hnext, hstays⟩ := h.replaceMoved hentry
    have hlen := h.filled alloc mem_cons_self
    obtain ⟨hdone, hlast, hstays'⟩ := ih hnext hrest
    unfold Fb.replaceTurns
    rw [if_neg hlen]
    revert hok hnext hstays hdone hlast hstays'
    generalize s.replaceMoved (env alloc.handle) alloc = result
    obtain ⟨s', ok⟩ := result
    rintro rfl hnext hstays hdone hlast hstays'
    exact ⟨hdone, hlast, fun errAddr hres => hstays' errAddr (hstays errAddr hres)⟩

end Entry

section Runs

theorem step_align (h : s.memmgr.isInit = true) (op : Op) :
    (s.step op).memmgr.align = s.memmgr.align := by
  cases op with
  | allocAlign env len align id =>
    have hall := allocAlign_allocates (s := s) env len align id h
    show (s.allocAlign env len align id).1.memmgr.align = _
    revert hall
    generalize (s.allocAlign env len align id).1 = after
    generalize (s.allocAlign env len align id).2 = found
    intro hall
    cases hall <;> rfl
  | allocAlignAt env offset len id =>
    have hall := @allocAlignAt_allocates s env len offset id
    show (s.allocAlignAt env offset len id).1.memmgr.align = _
    revert hall
    generalize (s.allocAlignAt env offset len id).1 = after
    intro hall
    cases hall <;> rfl
  | deferredTurn =>
    rcases deferredTurn_step s with hsame | ⟨first, rest, -, hturn⟩
    · rw [hsame]
    · revert hturn
      generalize s.step .deferredTurn = after
      intro hturn
      cases hturn <;> rfl
  | allocAndReplace env handle replaceType =>
    have hrep := @allocAndReplace_replaces s env handle replaceType h
    show (s.allocAndReplace env handle replaceType).1.memmgr.align = _
    revert hrep
    generalize (s.allocAndReplace env handle replaceType).1 = after
    intro hrep
    cases hrep with
    | unknown => rfl
    | failed memOld after found hall => cases hall <;> rfl
    | swapped memOld memNew after found hall => cases hall <;> rfl
  | free handle =>
    have hfree := @free_frees s handle
    show (s.free handle).memmgr.align = _
    revert hfree
    generalize s.free handle = after
    intro hfree
    cases hfree <;> rfl

theorem run_pf (run : Run StartsPf Calls (fun s op => PfCall s op ∧ KeepsRow s op) s) :
    UpSound s ∧ s.memmgr.align = 12 := by
  have hall : (UpSound s ∧ s.Tagged) ∧ s.memmgr.align = 12 := by
    apply run.invariant fun s => (UpSound s ∧ s.Tagged) ∧ s.memmgr.align = 12
    · rintro _ ⟨mems, nextMem, offset, size, rfl⟩
      exact ⟨⟨init_upSound mems nextMem offset size 0, .nil, fun _ h => nomatch h⟩, rfl⟩
    · rintro before op _ ⟨⟨hsound, htags⟩, hshift⟩ ⟨hcall, hkeeps⟩ rfl
      exact ⟨⟨hsound.step hcall hkeeps (htags.renews op), htags.step hsound hcall hkeeps⟩,
        (step_align hsound.inited op).trans hshift⟩
  exact ⟨hall.1.1, hall.2⟩

theorem Reserved.apart (h : UpSound s) (hres : Reserved s.memmgr errAddr)
    (hmem : mem ∈ s.memmgr.allocs) (hid : mem.tag.id ≠ memEccBadPage) {x : Nat}
    (hlow : errAddr.toNat ≤ x) (hhigh : x < errAddr.toNat + gpuPageSize.toNat) :
    ¬mem.Covers x := by
  obtain ⟨block, hblock, hbad, hstart, hend⟩ := hres
  have hne : mem ≠ block := by
    rintro rfl
    exact hid hbad
  have hsized := (h.sound.sized block hblock).start_add
  intro hcovers
  have hsymm : Std.Symm fun a b : Mem => ∀ y, ¬(a.Covers y ∧ b.Covers y) :=
    ⟨fun _ _ hab y hy => hab y ⟨hy.2, hy.1⟩⟩
  have hdisjoint := h.sound.ranges.disjoint.forall hmem hblock hne x
  apply hdisjoint
  refine ⟨hcovers, ?_⟩
  unfold Mem.Covers
  omega

/-- Under its condition the call returns 0, the bad pages are in blocks of their own, every
allocation from before is live with its id and its length, and the manager is in order. -/
theorem replaceBadPages_sound
    (run : Run StartsPf Calls (fun s op => PfCall s op ∧ KeepsRow s op) s) {call : Replacing}
    (meets : ReplaceMeets s call) :
    (s.replaceBadPages call).2 = true ∧ ReplaceSound s call := by
  obtain ⟨hsound, hshift⟩ := run_pf run
  obtain ⟨hclear, hstays, hpages⟩ := (Clearing.start hsound hshift).reserveTurns _ meets.turns
  obtain ⟨hok, hlast, hstays'⟩ := hclear.replaceTurns meets.entries
  have hresult : s.replaceBadPages call =
      replaceTurns call.env (reserveTurns call.reserved s []).2.1
        (reserveTurns call.reserved s []).1 := rfl
  rw [← hresult] at hok hlast hstays'
  have hreserved : ∀ bad ∈ call.pages, bad.InRange s.memmgr →
      Reserved (s.replaceBadPages call).1.memmgr bad.errAddr := by
    intro bad hbad hrange
    rcases meets.others bad hbad hrange with ⟨same, hsame, hpage⟩ | hold
    · have haddr : same.errAddr = bad.errAddr := by
        unfold BadPage.errAddr
        rw [hpage]
      have hrange' : same.InRange s.memmgr := by
        unfold BadPage.InRange at hrange ⊢
        rwa [haddr]
      rw [← haddr]
      exact hstays' _ (hpages same hsame hrange')
    · exact hstays' _ (hstays _ hold)
  refine ⟨hok, ?_⟩
  unfold ReplaceSound
  rw [if_pos hok]
  refine ⟨hreserved, ?_, ?_, hlast.sound.row⟩
  · intro bad hbad hrange mem hmem hid x hlow hhigh
    exact (hreserved bad hbad hrange).apart hlast.sound hmem hid hlow hhigh
  · intro mem hmem
    obtain ⟨mem', hmem', hsame⟩ := hlast.kept mem hmem
    rw [append_nil] at hmem'
    exact ⟨mem', hmem', hsame⟩

def onePage : Adapt := (init [] 0 0 0x10000000 0 false).step pageCall

theorem onePage_run :
    Run StartsPf Calls (fun s op => PfCall s op ∧ KeepsRow s op) onePage :=
  .next pageCall (.start ⟨[], 0, 0, 0x10000000, rfl⟩) ⟨⟨12, by decide⟩, fun _ _ _ => by
    show alignUp 0 0x1000 + 0x1000 < 2 ^ 64
    decide⟩ rfl

/-- That page is bad; `env` is what finding other memory for its owner meets. -/
def pageGoesBad (env : Env) : Replacing :=
  ⟨false, 10, [⟨0, none, plainEnv⟩], fun _ => env⟩

/-- Its owner gets the next page. -/
theorem replaceBadPages_sound_page :
    (onePage.replaceBadPages (pageGoesBad plainEnv)).2 = true ∧
      ReplaceSound onePage (pageGoesBad plainEnv) := by
  have hallocs : onePage.memmgr.allocs = [⟨0, 0x1000, 0x1000, 0x1000, ⟨0, 0⟩⟩] := by
    decide +kernel
  apply replaceBadPages_sound onePage_run
  refine ⟨⟨fun _ => ⟨nofun, ?_, ?_⟩, trivial⟩, ?_, ?_, trivial⟩
  · intro _ mem hmem hid
    rw [hallocs] at hmem
    rw [mem_singleton.mp hmem] at hid
    cases hid
  · intro _ _
    refine ⟨by decide, by decide, ⟨_, _, rfl⟩, ?_⟩
    rw [hallocs]
    decide
  · intro bad hbad _
    exact .inl ⟨bad, hbad, rfl⟩
  · refine ⟨?_, by decide +kernel, ⟨_, _, rfl⟩, ?_, by decide +kernel⟩
    · simp [Env.Defers, pageGoesBad, plainEnv]
    · unfold NoWrap
      decide +kernel

/-- Without memory for the new node the call fails, and the block of the owner is gone. -/
theorem replaceBadPages_loses : ¬ ∀ s,
    Run StartsPf Calls (fun s op => PfCall s op ∧ KeepsRow s op) s → ∀ call, ReplaceSound s call := by
  intro h
  have hsound := h onePage onePage_run (pageGoesBad { plainEnv with noMemory := true })
  have hfails : (onePage.replaceBadPages (pageGoesBad { plainEnv with noMemory := true })).2 =
      false := by
    decide +kernel
  unfold ReplaceSound at hsound
  rw [hfails, if_neg Bool.false_ne_true] at hsound
  have hallocs : onePage.memmgr.allocs = [⟨0, 0x1000, 0x1000, 0x1000, ⟨0, 0⟩⟩] := by
    decide +kernel
  have hhandles : (onePage.replaceBadPages
      (pageGoesBad { plainEnv with noMemory := true })).1.memmgr.allocs.map Mem.handle = [1] := by
    decide +kernel
  obtain ⟨mem', hmem', hhandle⟩ := hsound.live _ (by rw [hallocs]; exact mem_singleton_self _)
  have hin := mem_map_of_mem (f := Mem.handle) hmem'
  rw [hhandles, hhandle] at hin
  revert hin
  decide

end Runs

end MxGpu.Fb
