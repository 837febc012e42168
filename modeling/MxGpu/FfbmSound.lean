import MxGpu.FfbmCuts
import MxGpu.Tiling

/- The physical list: a ring of blocks laid out one after another. How near they
have to be is left open, since some calls leave gaps. -/
namespace MxGpu.Ffbm.Table

open RingList Tiling Function List

def span (s : Table) (i : Nat) : Span := ((s.block i).spa.toNat, (s.block i).size.toNat)

/-- The physical list holds the blocks `ids` in this order. -/
structure Sound (near : Nat → Nat → Prop) (s : Table) (ids : List Nat) : Prop where
  ring : Rings s.spaLinks spaHead (ids.map .block)
  laid : Laid near (ids.map s.span) 0 s.totalPhysicalSize.toNat
  used : ∀ i ∈ ids, s.used i = true
  bounded : ∀ i, s.used i = true → i < memoryAllocationCount
  vf : ∀ i, (s.block i).type = .vf → i ∈ ids
  fragment : ∀ i ∈ ids, (s.block i).fragment = s.defaultFragment
  small : s.defaultFragment + 12 < 64

variable {near : Nat → Nat → Prop} {s s' : Table} {ids pre post : List Nat} {i n : Nat}

theorem block_mem {list : List Nat} : Node.block i ∈ list.map .block ↔ i ∈ list := by
  simp

theorem Sound.nodup (sound : Sound near s ids) : ids.Nodup :=
  (nodup_cons.mp sound.ring.nodup).2.of_map

theorem Sound.length (sound : Sound near s ids) : ids.length ≤ memoryAllocationCount := by
  have within : ids.toFinset ⊆ Finset.range memoryAllocationCount := fun i member =>
    Finset.mem_range.mpr (sound.bounded i (sound.used i (mem_toFinset.mp member)))
  have card := Finset.card_le_card within
  rwa [toFinset_card_of_nodup sound.nodup, Finset.card_range] at card

theorem findBlock_ring {links : Links Node} {head : Node} {list : List Nat}
    (ring : Rings links head (list.map .block)) (length : list.length ≤ memoryAllocationCount)
    (isHead : ∃ k, head = .head k) (stop : Nat → Bool) :
    findBlock links head stop = some (list.find? stop) := by
  obtain ⟨k, rfl⟩ := isHead
  rw [findBlock, walkList, ring.walk_eq _ (by simpa [walkFuel] using Nat.lt_succ_of_le length),
    find?_map]
  have same : stopAt stop ∘ Node.block = stop := rfl
  rw [same]
  cases list.find? stop with
  | none => simp
  | some i => simp

theorem Sound.find (sound : Sound near s ids) (stop : Nat → Bool) :
    findBlock s.spaLinks spaHead stop = some (ids.find? stop) :=
  findBlock_ring sound.ring sound.length ⟨0, rfl⟩ stop

theorem Sound.found (sound : Sound near s ids) {stop : Nat → Bool}
    (found : findBlock s.spaLinks spaHead stop = some (some i)) : i ∈ ids ∧ stop i = true := by
  have same := Option.some.inj ((sound.find stop).symm.trans found)
  exact ⟨mem_of_find?_eq_some same, find?_some same⟩

theorem Sound.end_le (nearness : Nearness near) (sound : Sound near s ids) (member : i ∈ ids) :
    (s.block i).spa.toNat + (s.block i).size.toNat ≤ s.totalPhysicalSize.toNat :=
  (sound.laid.bounds nearness (mem_map_of_mem member)).2

theorem Sound.keep (sound : Sound near s ids) (links : s'.spaLinks = s.spaLinks)
    (total : s'.totalPhysicalSize = s.totalPhysicalSize)
    (fragment : s'.defaultFragment = s.defaultFragment)
    (layout : ∀ i ∈ ids, s'.span i = s.span i ∧ (s'.block i).fragment = (s.block i).fragment)
    (used : ∀ i ∈ ids, s'.used i = true)
    (bounded : ∀ i, s'.used i = true → i < memoryAllocationCount)
    (vf : ∀ i, (s'.block i).type = .vf → i ∈ ids) : Sound near s' ids where
  ring := links ▸ sound.ring
  laid := by
    rw [total, map_congr_left fun i member => (layout i member).1]
    exact sound.laid
  used := used
  bounded := bounded
  vf := vf
  fragment i member := by rw [(layout i member).2, sound.fragment i member, fragment]
  small := fragment ▸ sound.small

theorem ptebUpdate_same (pteb : PteBlock) : (s.ptebUpdate i pteb).block i = pteb :=
  update_self ..

theorem ptebUpdate_other {j : Nat} (pteb : PteBlock) (apart : j ≠ i) :
    (s.ptebUpdate i pteb).block j = s.block j := update_of_ne apart ..

theorem Sound.write (nearness : Nearness near) (sound : Sound near s ids) (member : i ∈ ids)
    {pteb : PteBlock} (spa : pteb.spa = (s.block i).spa)
    (end_ : near (pteb.spa.toNat + pteb.size.toNat)
      ((s.block i).spa.toNat + (s.block i).size.toNat))
    (fragment : pteb.fragment = s.defaultFragment) : Sound near (s.ptebUpdate i pteb) ids where
  ring := sound.ring
  laid := by
    obtain ⟨pre, post, rfl⟩ := append_of_mem member
    have nodup := nodup_middle.mp sound.nodup
    have others : ∀ j ∈ pre ++ post, (s.ptebUpdate i pteb).span j = s.span j := by
      intro j there
      have apart : j ≠ i := fun same => (nodup_cons.mp nodup).1 (same ▸ there)
      rw [span, ptebUpdate_other pteb apart]
      rfl
    have laid := sound.laid
    rw [map_append, map_cons] at laid ⊢
    rw [map_congr_left fun j there => others j (mem_append_left _ there),
      map_congr_left fun j there => others j (mem_append_right _ there),
      span, ptebUpdate_same, spa]
    rw [spa] at end_
    exact laid.resize nearness end_
  used := sound.used
  bounded := sound.bounded
  vf j isVf := by
    by_cases same : j = i
    · exact same ▸ member
    · rw [ptebUpdate_other pteb same] at isVf
      exact sound.vf j isVf
  fragment j there := by
    by_cases same : j = i
    · subst same
      rw [ptebUpdate_same]
      exact fragment
    · rw [ptebUpdate_other pteb same]
      exact sound.fragment j there
  small := sound.small

theorem Sound.write_off (sound : Sound near s ids) (off : i ∉ ids) {pteb : PteBlock}
    (type : pteb.type ≠ .vf) : Sound near (s.ptebUpdate i pteb) ids := by
  refine sound.keep rfl rfl rfl (fun j member => ?_) sound.used sound.bounded fun j isVf => ?_
  · have apart : j ≠ i := fun same => off (same ▸ member)
    rw [span, ptebUpdate_other pteb apart]
    exact ⟨rfl, rfl⟩
  · by_cases same : j = i
    · subst same
      rw [ptebUpdate_same] at isVf
      exact absurd isVf type
    · rw [ptebUpdate_other pteb same] at isVf
      exact sound.vf j isVf

theorem Sound.links (sound : Sound near s ids) (links : Links Node) :
    Sound near { s with gpaLinks := links } ids :=
  sound.keep rfl rfl rfl (fun _ _ => ⟨rfl, rfl⟩) sound.used sound.bounded sound.vf

theorem mem_free : n ∈ s.free ↔ n < memoryAllocationCount ∧ s.used n = false := by
  rw [free, Finset.mem_filter, Finset.mem_range]

theorem Sound.fresh (sound : Sound near s ids) (unused : n ∈ s.free) : n ∉ ids := fun member =>
  ne_of_free (sound.used n member) unused rfl

theorem Sound.cut (nearness : Nearness near) {size : Addr}
    (sound : Sound near s (pre ++ i :: post)) (within : size < (s.block i).size)
    (unused : n ∈ s.free) : Sound near (s.cut i n size) (pre ++ i :: n :: post) := by
  have member : i ∈ pre ++ i :: post := by simp
  have fresh := sound.fresh unused
  have apart : i ≠ n := ne_of_free (sound.used i member) unused
  have nodup := nodup_cons.mp (nodup_middle.mp sound.nodup)
  have others : ∀ j ∈ pre ++ post, (s.cut i n size).block j = s.block j := by
    intro j there
    refine cut_block_other (fun same => nodup.1 (same ▸ there)) fun same => fresh (same ▸ ?_)
    rcases mem_append.mp there with early | late
    · exact mem_append_left _ early
    · exact mem_append_right _ (mem_cons_of_mem _ late)
  refine ⟨?_, ?_, fun j there => ?_, fun j isUsed => ?_, fun j isVf => ?_, fun j there => ?_,
    sound.small⟩
  · have outside : Node.block n ∉ spaHead :: (pre ++ i :: post).map Node.block := by
      intro there
      rcases mem_cons.mp there with isHead | inside
      · cases isHead
      · exact fresh (block_mem.mp inside)
    have ring := sound.ring.frame_init outside
    rw [map_append, map_cons] at ring outside
    have added := ring.add_after outside
    rw [cut_spaLinks]
    simpa using added
  · have end_ := sound.end_le nearness member
    have laid := sound.laid
    rw [map_append, map_cons, span] at laid
    have split := laid.split nearness (Nat.le_of_lt (BitVec.lt_def.mp within))
    have total : (s.cut i n size).totalPhysicalSize = s.totalPhysicalSize := rfl
    rw [map_append, map_cons, map_cons, total,
      map_congr_left (f := (s.cut i n size).span) (g := s.span) (l := pre) fun j there => by
        rw [span, others j (mem_append_left _ there)]; rfl,
      map_congr_left (f := (s.cut i n size).span) (g := s.span) (l := post) fun j there => by
        rw [span, others j (mem_append_right _ there)]; rfl,
      span, cut_block_old apart, span, cut_block_new apart]
    have start : ((s.block i).spa + size).toNat = (s.block i).spa.toNat + size.toNat := by
      bv_omega
    have rest : ((s.block i).size - size).toNat = (s.block i).size.toNat - size.toNat := by
      bv_omega
    simpa [rightPart, start, rest] using split
  · rw [cut_used]
    by_cases same : j = n
    · subst same
      exact update_self ..
    · rw [update_of_ne same]
      refine sound.used j ?_
      simp only [mem_append, mem_cons] at there ⊢
      tauto
  · rw [cut_used] at isUsed
    by_cases same : j = n
    · exact same ▸ (mem_free.mp unused).1
    · rw [update_of_ne same] at isUsed
      exact sound.bounded j isUsed
  · by_cases same : j = n
    · simp [same]
    · by_cases old : j = i
      · simp [old]
      · rw [cut_block_other old same] at isVf
        have there := sound.vf j isVf
        simp only [mem_append, mem_cons] at there ⊢
        tauto
  · rw [cut_defaultFragment]
    by_cases same : j = n
    · rw [same, cut_block_new apart]
      exact sound.fragment i member
    · by_cases old : j = i
      · rw [old, cut_block_old apart]
        exact sound.fragment i member
      · rw [cut_block_other old same]
        refine sound.fragment j ?_
        simp only [mem_append, mem_cons] at there ⊢
        tauto

theorem Sound.absorb (nearness : Nearness near) {j : Nat}
    (sound : Sound near s (pre ++ i :: j :: post)) (type : (s.block j).type ≠ .vf) :
    Sound near (s.absorb i j) (pre ++ i :: post) := by
  have memberI : i ∈ pre ++ i :: j :: post := by simp
  have memberJ : j ∈ pre ++ i :: j :: post := by simp
  have nodup := sound.nodup
  have split : (pre ++ i :: j :: post) = (pre ++ [i]) ++ j :: post := by simp
  have apart : j ∉ pre ++ i :: post := by
    rw [split] at nodup
    have outside := (nodup_cons.mp (nodup_middle.mp nodup)).1
    simpa using outside
  have outside : i ∉ pre ++ post := by
    have outside := (nodup_cons.mp (nodup_middle.mp nodup)).1
    simp only [mem_append, mem_cons] at outside ⊢
    tauto
  have others : ∀ k ∈ pre ++ post, (s.absorb i j).block k = s.block k := fun k there =>
    ptebUpdate_other _ fun same => outside (same ▸ there)
  have merged : (s.absorb i j).block i =
      { s.block i with size := (s.block i).size + (s.block j).size } := ptebUpdate_same _
  refine ⟨?_, ?_, fun k there => ?_, fun k isUsed => ?_, fun k isVf => ?_, fun k there => ?_,
    sound.small⟩
  · have ring := sound.ring
    rw [split, map_append, map_cons] at ring
    have unlinked := ring.unlink
    have links : (s.absorb i j).spaLinks =
      s.spaLinks.unlink (s.spaLinks.prev (.block j)) (s.spaLinks.next (.block j)) := rfl
    rw [links]
    simpa using unlinked
  · have endJ := sound.end_le nearness memberJ
    have laid := sound.laid
    rw [map_append, map_cons, map_cons, span, span] at laid
    have joined := laid.merge nearness
    have end_ := joined.bounds nearness (mem_append_right _ (mem_cons_self ..))
    have total : (s.absorb i j).totalPhysicalSize = s.totalPhysicalSize := rfl
    rw [map_append, map_cons, total,
      map_congr_left (f := (s.absorb i j).span) (g := s.span) (l := pre) fun k there => by
        rw [span, others k (mem_append_left _ there)]; rfl,
      map_congr_left (f := (s.absorb i j).span) (g := s.span) (l := post) fun k there => by
        rw [span, others k (mem_append_right _ there)]; rfl,
      span, merged]
    have sum : ((s.block i).size + (s.block j).size).toNat =
        (s.block i).size.toNat + (s.block j).size.toNat := by
      simp only at end_
      bv_omega
    simpa [sum] using joined
  · have used : s.used k = true := sound.used k (by
      simp only [mem_append, mem_cons] at there ⊢
      tauto)
    have notJ : k ≠ j := fun same => apart (same ▸ there)
    exact (update_of_ne notJ ..).trans used
  · refine sound.bounded k ?_
    by_cases same : k = j
    · rw [same, show (s.absorb i j).used j = false from update_self ..] at isUsed
      cases isUsed
    · rwa [show (s.absorb i j).used k = s.used k from update_of_ne same ..] at isUsed
  · by_cases same : k = i
    · simp [same]
    · rw [show (s.absorb i j).block k = s.block k from ptebUpdate_other _ same] at isVf
      have there := sound.vf k isVf
      have notJ : k ≠ j := by
        rintro rfl
        exact type isVf
      simp only [mem_append, mem_cons] at there ⊢
      tauto
  · have default_ : (s.absorb i j).defaultFragment = s.defaultFragment := rfl
    rw [default_]
    by_cases same : k = i
    · rw [same, merged]
      exact sound.fragment i memberI
    · rw [show (s.absorb i j).block k = s.block k from ptebUpdate_other _ same]
      refine sound.fragment k ?_
      simp only [mem_append, mem_cons] at there ⊢
      tauto

end MxGpu.Ffbm.Table
