import MxGpu.FfbmSound

/- What each operation does to the layout of the physical list. -/
namespace MxGpu.Ffbm.Table

open RingList Tiling Function

variable {near : Nat → Nat → Prop} {s s₁ s₂ s' : Table} {ids pre post : List Nat} {i j n : Nat}
  {spa size : Addr}

def Lax (near : Nat → Nat → Prop) : Prop := ∀ a b, a ≤ b → near a b

/-- The cut behind `size` bytes from `spa` on finds a descriptor, if there is one to
make and the cut before `spa` is of whole pages. -/
def Enough (s : Table) (i : Nat) (spa size : Addr) : Prop :=
  spa.toNat + size.toNat < (s.block i).spa.toNat + (s.block i).size.toNat →
    mapSizeValid (spa - (s.block i).spa) (s.block i).fragment = 0 →
      s.free.card ≠ if (s.block i).spa < spa then 1 else 0

theorem toNat_addrInRange {start size addr : Addr} (inside : addrInRange start size addr = true) :
    start.toNat ≤ addr.toNat ∧ addr.toNat < start.toNat + size.toNat := by
  obtain ⟨low, high⟩ := addrInRange_iff.mp inside
  bv_omega

theorem toNat_addrSizeInRange {start length addr size : Addr}
    (inside : addrSizeInRange start length addr size = true)
    (wraps : addr.toNat + size.toNat ≤ 2 ^ 64) :
    start.toNat ≤ addr.toNat ∧ addr.toNat < start.toNat + length.toNat ∧
      addr.toNat + size.toNat ≤ start.toNat + length.toNat := by
  rw [addrSizeInRange, Bool.and_eq_true] at inside
  obtain ⟨low, high⟩ := toNat_addrInRange inside.1
  obtain ⟨_, last⟩ := toNat_addrInRange inside.2
  refine ⟨low, high, ?_⟩
  by_cases empty : size = 0
  · subst empty
    simpa using Nat.le_of_lt high
  · have positive : 0 < size.toNat := Nat.pos_of_ne_zero fun zero => empty (by bv_omega)
    have sum : (addr + size - 1).toNat = addr.toNat + size.toNat - 1 := by bv_omega
    omega

theorem Sound.memory (nearness : Nearness near) (sound : Sound near s ids) (member : i ∈ ids) :
    (s.block i).spa.toNat + (s.block i).size.toNat < 2 ^ 64 :=
  (sound.end_le nearness member).trans_lt s.totalPhysicalSize.isLt

theorem Sound.leftCut (nearness : Nearness near) (sound : Sound near s ids) (member : i ∈ ids)
    (left : LeftCut s i spa s₁ j) : ∃ ids₁, Sound near s₁ ids₁ ∧ j ∈ ids₁ ∧
      (s₁.block j).spa = spa ∧ (s₁.block j).spa.toNat + (s₁.block j).size.toNat =
        (s.block i).spa.toNat + (s.block i).size.toNat := by
  cases left with
  | at_ same => exact ⟨ids, sound, member, same, rfl⟩
  | cut n before within unused =>
    have apart : i ≠ j := ne_of_free (sound.used i member) unused
    have end_ := sound.memory nearness member
    obtain ⟨pre, post, rfl⟩ := List.append_of_mem member
    refine ⟨_, sound.cut nearness within unused, by simp, ?_, ?_⟩
    · rw [cut_block_new apart]
      simp only [rightPart]
      bv_omega
    · rw [cut_block_new apart]
      simp only [rightPart]
      bv_omega

theorem Sound.rightCut (nearness : Nearness near) (sound : Sound near s ids) (member : j ∈ ids)
    (right : RightCut s j size s') : ∃ ids', Sound near s' ids' ∧ j ∈ ids' ∧
      (s'.block j).spa = (s.block j).spa := by
  cases right with
  | whole => exact ⟨ids, sound, member, rfl⟩
  | exhausted => exact ⟨ids, sound, member, rfl⟩
  | cut n within unused =>
    have apart : j ≠ n := ne_of_free (sound.used j member) unused
    obtain ⟨pre, post, rfl⟩ := List.append_of_mem member
    refine ⟨_, sound.cut nearness within unused, by simp, ?_⟩
    rw [cut_block_old apart]

theorem RightCut.sized (used : s.used j = true) (right : RightCut s j size s') :
    (s'.block j).size = size ∨ s' = s ∧ (s.block j).size ≤ size ∨
      s' = s ∧ size < (s.block j).size ∧ s.free = ∅ := by
  cases right with
  | whole beyond => exact .inr (.inl ⟨rfl, beyond⟩)
  | exhausted within none_ => exact .inr (.inr ⟨rfl, within, none_⟩)
  | cut n _ unused =>
    rw [cut_block_old (ne_of_free used unused)]
    exact .inl rfl

theorem LeftCut.valid (left : LeftCut s i spa s₁ j) :
    mapSizeValid (spa - (s.block i).spa) (s.block i).fragment = 0 := by
  cases left with
  | at_ same =>
    rw [same, BitVec.sub_self]
    exact BitVec.zero_and
  | cut _ _ _ _ valid => exact valid

theorem LeftCut.free_card (left : LeftCut s i spa s₁ j) (none_ : s₁.free = ∅) :
    s.free.card = if (s.block i).spa < spa then 1 else 0 := by
  cases left with
  | at_ same => rw [none_, if_neg (by rw [same]; exact BitVec.lt_irrefl _)]; rfl
  | cut n before _ unused =>
    rw [cut_free] at none_
    rw [if_pos before, ← Finset.insert_erase unused, none_]
    rfl

theorem Sound.hole (nearness : Nearness near) (sound : Sound near s ids) (member : i ∈ ids)
    (holed : Holed s i spa size (s', some j)) (wraps : spa.toNat + size.toNat ≤ 2 ^ 64)
    (enough : Lax near ∨ Enough s i spa size) : ∃ ids', Sound near s' ids' ∧ j ∈ ids' ∧
      (s'.block j).spa = spa ∧ near (spa.toNat + size.toNat)
        (spa.toNat + (s'.block j).size.toNat) := by
  cases holed with
  | @holed s₁ _ _ within left right =>
    obtain ⟨low, high, beyond⟩ := toNat_addrSizeInRange within wraps
    obtain ⟨ids₁, sound₁, member₁, start₁, end₁⟩ := sound.leftCut nearness member left
    obtain ⟨ids', sound', member', start'⟩ := sound₁.rightCut nearness member₁ right
    refine ⟨ids', sound', member', start'.trans start₁, ?_⟩
    rw [start₁] at end₁
    rcases right.sized (sound₁.used j member₁) with same | ⟨rfl, short⟩ | ⟨rfl, long, none_⟩
    · rw [same]
      exact nearness.refl _
    · have short := BitVec.le_def.mp short
      have same : spa.toNat + size.toNat = spa.toNat + (s'.block j).size.toNat := by omega
      rw [same]
      exact nearness.refl _
    · have long := BitVec.lt_def.mp long
      rcases enough with lax | enough
      · exact lax _ _ (by omega)
      · exact absurd (left.free_card none_) (enough (by omega) left.valid)

theorem insertNewFfbmNode_eq (inserted : s.insertNewFfbmNode i = some s') :
    ∃ links, s' = { s with gpaLinks := links } := by
  rw [insertNewFfbmNode] at inserted
  split at inserted
  · cases inserted
  · exact ⟨_, (Option.some.inj inserted).symm⟩

theorem Sound.insert (sound : Sound near s ids) (inserted : s.insertNewFfbmNode i = some s') :
    Sound near s' ids := by
  obtain ⟨links, rfl⟩ := insertNewFfbmNode_eq inserted
  exact sound.links links

def withNew (s : Table) (n : Nat) (pteb : PteBlock) : Table :=
  { s with
    used := update s.used n true
    block := update s.block n zeroBlock : Table }.ptebInit n pteb

theorem withNew_same (pteb : PteBlock) : (s.withNew n pteb).block n = pteb :=
  update_self ..

theorem withNew_other (pteb : PteBlock) (apart : j ≠ n) :
    (s.withNew n pteb).block j = s.block j := by
  simp [withNew, ptebInit, ptebUpdate, apart]

theorem Sound.descriptor (sound : Sound near s ids) (unused : n ∈ s.free) {pteb : PteBlock}
    (type : pteb.type ≠ .vf) : Sound near (s.withNew n pteb) ids := by
  have fresh := sound.fresh unused
  have apart : ∀ j ∈ ids, j ≠ n := fun j member same => fresh (same ▸ member)
  refine ⟨sound.ring.frame_init ?_, ?_, fun j member => ?_, fun j isUsed => ?_, fun j isVf => ?_,
    fun j member => ?_, sound.small⟩
  · intro there
    rcases List.mem_cons.mp there with isHead | inside
    · cases isHead
    · exact fresh (block_mem.mp inside)
  · rw [List.map_congr_left (g := s.span) fun j member => by
      rw [span, withNew_other pteb (apart j member)]; rfl]
    exact sound.laid
  · exact (update_of_ne (apart j member) ..).trans (sound.used j member)
  · by_cases same : j = n
    · exact same ▸ (mem_free.mp unused).1
    · exact sound.bounded j ((update_of_ne same ..).symm.trans isUsed)
  · by_cases same : j = n
    · subst same
      rw [withNew_same] at isVf
      exact absurd isVf type
    · rw [withNew_other pteb same] at isVf
      exact sound.vf j isVf
  · rw [withNew_other pteb (apart j member)]
    exact sound.fragment j member

/-- A request that passes the checks and finds the block `i`. -/
structure Reaches (s : Table) (request : MapRequest) (i : Nat) : Prop where
  size : mapSizeValid request.size s.defaultFragment = 0
  guest : s.guestValid request = some true
  found : s.findPtebByPhy request.spa = some (some i)
  suits : s.suits request i = true

theorem manualMap_cases {request : MapRequest} {resp : Resp}
    (mapped : s.manualMap request = some (s', resp)) :
    s' = s ∧ resp ≠ .success ∨
      ∃ i, s.Reaches request i ∧ s.manualMapAt request i = some (s', resp) := by
  have refused : ∀ code, code ≠ .success → some (s, code) = some (s', resp) →
      s' = s ∧ resp ≠ .success := by
    rintro code failed same
    obtain ⟨rfl, rfl⟩ := Prod.mk.inj (Option.some.inj same)
    exact ⟨rfl, failed⟩
  rw [manualMap] at mapped
  split at mapped
  · exact .inl (refused _ (by decide) mapped)
  next size =>
    split at mapped
    · cases mapped
    · exact .inl (refused _ (by decide) mapped)
    next valid =>
      split at mapped
      · cases mapped
      · exact .inl (refused _ (by decide) mapped)
      next i found =>
        split at mapped
        · next suits => exact .inr ⟨i, ⟨not_not.mp size, valid, found, suits⟩, mapped⟩
        · exact .inl (refused _ (by decide) mapped)

inductive MappedAt (s : Table) (request : MapRequest) (i : Nat) : Table → Resp → Prop
  | refused (resp : Resp) (failed : resp ≠ .success) : MappedAt s request i s resp
  | descriptor {s' : Table} (n fragment : Nat) (type : (s.block i).type = .tmr)
    (asked : request.type = .tmr)
    (valid : tmrAddrValid request.gpa request.spa request.size s.tmrSize = true)
    (unused : n ∈ s.free)
    (enlisted : (s.withNew n { s.tmrBlock request with fragment := fragment }).enlist
      (request.vfIdx ≠ pfIdx) n = some s') : MappedAt s request i s' .success
  | hole {s₁ s' : Table} {j : Nat} (type : (s.block i).type ≠ .tmr)
    (holed : Holed s i request.spa request.size (s₁, some j))
    (enlisted : (s₁.ptebUpdate j (s₁.mappedBlock request)).enlist
      (request.type = .vf || request.type = .tmr && request.vfIdx ≠ pfIdx) j = some s') :
    MappedAt s request i s' .success

theorem Reaches.mapped {request : MapRequest} {resp : Resp} (reaches : s.Reaches request i)
    (used : s.used i = true) (fragment : (s.block i).fragment = s.defaultFragment)
    (made : s.manualMapAt request i = some (s', resp)) : MappedAt s request i s' resp := by
  unfold manualMapAt at made
  split at made
  · next type =>
    have asked : request.type = .tmr := by
      have fits : s.suits request i = true := reaches.suits
      simp only [Table.suits, type, Bool.and_eq_true, Bool.or_eq_true, decide_eq_true_eq] at fits
      simpa using fits.1
    split at made
    · obtain ⟨rfl, rfl⟩ := Prod.mk.inj (Option.some.inj made)
      exact .refused _ (by decide)
    next valid =>
      rw [createNewPteb] at made
      cases first : s.allocateBlock with
      | none => simp [first] at made
      | some pair =>
        obtain ⟨allocated, n⟩ := pair
        obtain ⟨unused, rfl⟩ := allocateBlock_some first
        rw [first] at made
        obtain ⟨after, enlisted, pair⟩ := Option.map_eq_some_iff.mp made
        obtain ⟨rfl, rfl⟩ := Prod.mk.inj pair
        have notVf : decide (request.type = .vf) = false := by rw [asked]; decide
        rw [notVf, Bool.false_or] at enlisted
        exact .descriptor n _ type asked (by simpa using valid) unused enlisted
  · next type =>
    have holed := ptebHoleByPhy_holed request.spa used (fragment ▸ reaches.size)
    generalize s.ptebHoleByPhy i request.spa request.size = outcome at holed made
    obtain ⟨s₁, pteb⟩ := outcome
    cases pteb with
    | none =>
      cases holed
      obtain ⟨rfl, rfl⟩ := Prod.mk.inj (Option.some.inj made)
      exact .refused _ (by decide)
    | some j =>
      obtain ⟨after, enlisted, pair⟩ := Option.map_eq_some_iff.mp made
      obtain ⟨rfl, rfl⟩ := Prod.mk.inj pair
      exact .hole type holed enlisted

inductive Trimmed (s : Table) (i : Nat) (size : Addr) : Table → Prop
  | kept (whole : (s.block i).size ≤ size ∨ mapSizeValid size (s.block i).fragment ≠ 0 ∨
      s.free = ∅) : Trimmed s i size s
  | cut (n : Nat) (within : size < (s.block i).size) (unused : n ∈ s.free) :
    Trimmed s i size (s.cut i n size)

theorem trimmed (s : Table) (i : Nat) (size : Addr) : Trimmed s i size
    (if size < (s.block i).size then (s.ptebDivideSize i size).1 else s) := by
  split
  · next within =>
    have divided := ptebDivideSize_divided s i size
    generalize s.ptebDivideSize i size = outcome at divided ⊢
    cases divided with
    | misaligned left => exact .kept (.inr (.inl left))
    | exhausted _ none_ => exact .kept (.inr (.inr none_))
    | whole beyond => exact .kept (.inl beyond)
    | cut n _ unused => exact .cut n within unused
  · next beyond => exact .kept (.inl (BitVec.not_lt.mp beyond))

def guestBlock (pteb : PteBlock) (vfIdx : Nat) (gpa : Addr) (permission : BitVec 8) : PteBlock :=
  { pteb with
    gpa := gpa
    vfIdx := vfIdx
    permission := permission
    type := .vf
    applied := false }

theorem mapEmpty_cases {vfIdx : Nat} {gpaStart sizeLeft : Addr} {permission : BitVec 8}
    {mapped : Option Addr}
    (made : s.mapEmpty vfIdx gpaStart sizeLeft permission = some (s', mapped)) :
    s' = s ∨ ∃ i s₁, s.findEmptyPteb 0 = some (some i) ∧ Trimmed s i sizeLeft s₁ ∧
      (s₁.ptebUpdate i (guestBlock (s₁.block i) vfIdx gpaStart permission)).insertNewFfbmNode i =
        some s' ∧ mapped = some (s₁.block i).size := by
  rw [mapEmpty] at made
  split at made
  · cases made
  · exact .inl (Prod.mk.inj (Option.some.inj made)).1.symm
  next i found =>
    obtain ⟨after, inserted, pair⟩ := Option.map_eq_some_iff.mp made
    obtain ⟨rfl, rfl⟩ := Prod.mk.inj pair
    exact .inr ⟨i, _, found, trimmed s i sizeLeft, inserted, rfl⟩

theorem Sound.enlist {listed : Bool} (sound : Sound near s ids)
    (enlisted : s.enlist listed i = some s') : Sound near s' ids := by
  rw [Table.enlist] at enlisted
  cases listed with
  | true => exact sound.insert enlisted
  | false => exact Option.some.inj enlisted ▸ sound

theorem Sound.manualMap (nearness : Nearness near) (sound : Sound near s ids)
    {request : MapRequest} {resp : Resp}
    (mapped : s.manualMap request = some (s', resp))
    (fits : ∀ i, s.Reaches request i → (s.block i).type ≠ .tmr →
      request.spa.toNat + request.size.toNat ≤ 2 ^ 64 ∧
        (Lax near ∨ Enough s i request.spa request.size)) : ∃ ids', Sound near s' ids' := by
  rcases manualMap_cases mapped with ⟨rfl, _⟩ | ⟨i, reaches, made⟩
  · exact ⟨ids, sound⟩
  obtain ⟨member, _⟩ := sound.found reaches.found
  cases reaches.mapped (sound.used i member) (sound.fragment i member) made with
  | refused => exact ⟨ids, sound⟩
  | descriptor n fragment _ _ _ unused enlisted =>
    exact ⟨ids, (sound.descriptor unused (fun isVf => by cases isVf)).enlist enlisted⟩
  | @hole s₁ _ j type holed enlisted =>
    obtain ⟨wraps, enough⟩ := fits i reaches type
    obtain ⟨ids', sound', member', start, end_⟩ := sound.hole nearness member holed wraps enough
    refine ⟨ids', (sound'.write nearness member' start.symm ?_ rfl).enlist enlisted⟩
    rw [start]
    exact end_

theorem Sound.mapEmpty (nearness : Nearness near) (sound : Sound near s ids) {vfIdx : Nat}
    {gpaStart sizeLeft : Addr} {permission : BitVec 8} {mapped : Option Addr}
    (made : s.mapEmpty vfIdx gpaStart sizeLeft permission = some (s', mapped)) :
    ∃ ids', Sound near s' ids' := by
  rcases mapEmpty_cases made with rfl | ⟨i, s₁, found, trimmed, inserted, _⟩
  · exact ⟨ids, sound⟩
  obtain ⟨member, _⟩ := sound.found found
  have layout : ∃ ids₁, Sound near s₁ ids₁ ∧ i ∈ ids₁ := by
    cases trimmed with
    | kept => exact ⟨ids, sound, member⟩
    | cut n within unused =>
      obtain ⟨pre, post, rfl⟩ := List.append_of_mem member
      exact ⟨_, sound.cut nearness within unused, by simp⟩
  obtain ⟨ids₁, sound₁, member₁⟩ := layout
  have written : Sound near
      (s₁.ptebUpdate i (guestBlock (s₁.block i) vfIdx gpaStart permission)) ids₁ :=
    sound₁.write nearness member₁ rfl (nearness.refl _) (sound₁.fragment i member₁)
  exact ⟨ids₁, written.insert inserted⟩

/-- Blocks are marked applied or not, and nothing else of the table changes that is
looked at before the next call. -/
structure Marked (s s' : Table) : Prop where
  block : ∀ j, ∃ applied, s'.block j = { s.block j with applied := applied }
  used : s'.used = s.used
  gpaLinks : s'.gpaLinks = s.gpaLinks
  spaLinks : s'.spaLinks = s.spaLinks
  totalPhysicalSize : s'.totalPhysicalSize = s.totalPhysicalSize
  defaultFragment : s'.defaultFragment = s.defaultFragment
  shareTmr : s'.shareTmr = s.shareTmr
  tmrSize : s'.tmrSize = s.tmrSize
  numVf : s'.numVf = s.numVf
  maxNumVf : s'.maxNumVf = s.maxNumVf

theorem Marked.refl (s : Table) : Marked s s :=
  ⟨fun j => ⟨(s.block j).applied, rfl⟩, rfl, rfl, rfl, rfl, rfl, rfl, rfl, rfl, rfl⟩

theorem applyPteb_marked (s : Table) (i : Nat) (valid : Bool) :
    Marked s (s.applyPteb i valid).1 := by
  rw [applyPteb]
  split
  · refine ⟨fun j => ?_, rfl, rfl, rfl, rfl, rfl, rfl, rfl, rfl, rfl⟩
    by_cases at_ : j = i
    · subst at_
      exact ⟨valid, ptebUpdate_same _⟩
    · exact ⟨(s.block j).applied, ptebUpdate_other _ at_⟩
  · exact ⟨fun j => ⟨(s.block j).applied, rfl⟩, rfl, rfl, rfl, rfl, rfl, rfl, rfl, rfl, rfl⟩

theorem invalidateAndUnapplyPteb_marked (s : Table) (i : Nat) :
    Marked s (s.invalidateAndUnapplyPteb i) := by
  rw [invalidateAndUnapplyPteb]
  split
  · exact .refl s
  split
  · exact .refl s
  split
  · exact .refl s
  split
  · exact applyPteb_marked s i false
  · exact .refl s

theorem Sound.marked (sound : Sound near s ids) (marked : Marked s s') : Sound near s' ids := by
  refine sound.keep marked.spaLinks marked.totalPhysicalSize marked.defaultFragment
    (fun j _ => ?_) (marked.used ▸ sound.used) (marked.used ▸ sound.bounded) fun j isVf => ?_
  · obtain ⟨applied, same⟩ := marked.block j
    rw [span, same]
    exact ⟨rfl, rfl⟩
  · obtain ⟨applied, same⟩ := marked.block j
    rw [same] at isVf
    exact sound.vf j isVf

theorem unassignedAt_some {node : Node} (free : s.unassignedAt node = some j) :
    node = .block j ∧ (s.block j).type = .notAssigned := by
  cases node with
  | head => cases free
  | block k =>
    simp only [unassignedAt] at free
    split at free
    · next type =>
      obtain rfl := Option.some.inj free
      exact ⟨rfl, type⟩
    · cases free

theorem Sound.before (sound : Sound near s ids) (member : i ∈ ids)
    (back : s.spaLinks.prev (.block i) = .block j) : ∃ pre post, ids = pre ++ j :: i :: post := by
  obtain ⟨pre, post, same⟩ := sound.ring.split_prev (block_mem.mpr member) back nofun
  obtain ⟨early, rest, rfl, rfl, tail⟩ := List.map_eq_append_iff.mp same
  obtain ⟨k, rest, rfl, isBlock, tail⟩ := List.map_eq_cons_iff.mp tail
  obtain ⟨k', late, rfl, isBlock', rfl⟩ := List.map_eq_cons_iff.mp tail
  cases isBlock
  cases isBlock'
  exact ⟨early, late, rfl⟩

theorem Sound.after (sound : Sound near s ids) (member : i ∈ ids)
    (onward : s.spaLinks.next (.block i) = .block j) :
    ∃ pre post, ids = pre ++ i :: j :: post := by
  obtain ⟨pre, post, same⟩ := sound.ring.split_next (block_mem.mpr member) onward nofun
  obtain ⟨early, rest, rfl, rfl, tail⟩ := List.map_eq_append_iff.mp same
  obtain ⟨k, rest, rfl, isBlock, tail⟩ := List.map_eq_cons_iff.mp tail
  obtain ⟨k', late, rfl, isBlock', rfl⟩ := List.map_eq_cons_iff.mp tail
  cases isBlock
  cases isBlock'
  exact ⟨early, late, rfl⟩

def FreeBefore (s : Table) (ids : List Nat) (i : Nat) : Prop :=
  ∃ p pre post, ids = pre ++ p :: i :: post ∧ (s.block p).type = .notAssigned

def FreeAfter (s : Table) (ids : List Nat) (i : Nat) : Prop :=
  ∃ q pre post, ids = pre ++ i :: q :: post ∧ (s.block q).type = .notAssigned

theorem Sound.next_eq (sound : Sound near s (pre ++ i :: j :: post)) :
    s.spaLinks.next (.block i) = .block j ∧ s.spaLinks.prev (.block j) = .block i := by
  have ring := sound.ring
  rw [List.map_append, List.map_cons, List.map_cons] at ring
  exact ring.next_eq

theorem Sound.freeBefore_iff (sound : Sound near s ids) (member : i ∈ ids) :
    FreeBefore s ids i ↔ s.unassignedAt (s.spaLinks.prev (.block i)) ≠ none := by
  constructor
  · rintro ⟨p, pre, post, rfl, free⟩
    rw [sound.next_eq.2]
    simp [unassignedAt, free]
  · intro some_
    obtain ⟨p, before⟩ := Option.ne_none_iff_exists'.mp some_
    obtain ⟨node, free⟩ := unassignedAt_some before
    obtain ⟨pre, post, there⟩ := sound.before member node
    exact ⟨p, pre, post, there, free⟩

theorem Sound.freeAfter_iff (sound : Sound near s ids) (member : i ∈ ids) :
    FreeAfter s ids i ↔ s.unassignedAt (s.spaLinks.next (.block i)) ≠ none := by
  constructor
  · rintro ⟨q, pre, post, rfl, free⟩
    rw [sound.next_eq.1]
    simp [unassignedAt, free]
  · intro some_
    obtain ⟨q, after⟩ := Option.ne_none_iff_exists'.mp some_
    obtain ⟨node, free⟩ := unassignedAt_some after
    obtain ⟨pre, post, there⟩ := sound.after member node
    exact ⟨q, pre, post, there, free⟩

inductive Merged (s : Table) (i : Nat) : List Nat → Table → List Nat → Prop
  | alone (ids : List Nat) (before : s.unassignedAt (s.spaLinks.prev (.block i)) = none)
    (after : s.unassignedAt (s.spaLinks.next (.block i)) = none) : Merged s i ids s ids
  | back (q : Nat) (pre post : List Nat) (free : (s.block q).type = .notAssigned)
    (before : s.unassignedAt (s.spaLinks.prev (.block i)) = none) :
    Merged s i (pre ++ i :: q :: post) (s.absorb i q) (pre ++ i :: post)
  | front (p : Nat) (pre post : List Nat) (free : (s.block p).type = .notAssigned) :
    Merged s i (pre ++ p :: i :: post) (s.absorb p i) (pre ++ p :: post)
  | both (p q : Nat) (pre post : List Nat) (free : (s.block p).type = .notAssigned)
    (free' : (s.block q).type = .notAssigned) :
    Merged s i (pre ++ p :: i :: q :: post) ((s.absorb p i).absorb p q) (pre ++ p :: post)

theorem Sound.ne_next (sound : Sound near s (pre ++ i :: j :: post)) : i ≠ j := by
  rintro rfl
  have twice := (List.nodup_append.mp sound.nodup).2.1
  exact (List.nodup_cons.mp twice).1 (List.mem_cons_self ..)

theorem absorb_other (s : Table) {k : Nat} (apart : k ≠ i) :
    (s.absorb i j).block k = s.block k := ptebUpdate_other _ apart

theorem absorb_same (s : Table) (i j : Nat) : (s.absorb i j).block i =
    { s.block i with size := (s.block i).size + (s.block j).size } := ptebUpdate_same _

theorem Sound.merged (nearness : Nearness near) (sound : Sound near s ids) (member : i ∈ ids)
    (type : (s.block i).type ≠ .vf) : ∃ ids', Sound near
      ((s.mergeFront i).1.mergeBack (s.mergeFront i).2) ids' ∧
        Merged s i ids ((s.mergeFront i).1.mergeBack (s.mergeFront i).2) ids' := by
  cases before : s.unassignedAt (s.spaLinks.prev (.block i)) with
  | none =>
    have front : s.mergeFront i = (s, i) := by rw [mergeFront, before]
    rw [front]
    cases after : s.unassignedAt (s.spaLinks.next (.block i)) with
    | none =>
      have back : s.mergeBack i = s := by rw [mergeBack, after]
      rw [back]
      exact ⟨ids, sound, .alone ids before after⟩
    | some q =>
      have back : s.mergeBack i = s.absorb i q := by rw [mergeBack, after]
      rw [back]
      obtain ⟨node, free⟩ := unassignedAt_some after
      obtain ⟨pre, post, rfl⟩ := sound.after member node
      exact ⟨_, sound.absorb nearness (by rw [free]; decide), .back q pre post free before⟩
  | some p =>
    have front : s.mergeFront i = (s.absorb p i, p) := by rw [mergeFront, before]
    rw [front]
    obtain ⟨node, free⟩ := unassignedAt_some before
    obtain ⟨pre, post, rfl⟩ := sound.before member node
    have first := sound.absorb nearness type
    cases after : (s.absorb p i).unassignedAt ((s.absorb p i).spaLinks.next (.block p)) with
    | none =>
      have back : (s.absorb p i).mergeBack p = s.absorb p i := by rw [mergeBack, after]
      rw [back]
      exact ⟨_, first, .front p pre post free⟩
    | some q =>
      have back : (s.absorb p i).mergeBack p = (s.absorb p i).absorb p q := by
        rw [mergeBack, after]
      rw [back]
      obtain ⟨node', free'⟩ := unassignedAt_some after
      cases post with
      | nil =>
        have ring := first.ring
        rw [List.map_append, List.map_cons] at ring
        obtain ⟨_, last, _⟩ := linked_append.mp ring.linked
        rw [node'] at last
        cases last
      | cons r post =>
        obtain ⟨onward, _⟩ := first.next_eq
        rw [node'] at onward
        cases onward
        have notP : q ≠ p := first.ne_next.symm
        rw [absorb_other s notP] at free'
        have shape : (s.absorb p i).block q = s.block q := absorb_other s notP
        exact ⟨_, first.absorb nearness (by rw [shape, free']; decide),
          .both p q pre post free free'⟩

theorem leaveGpaList_eq (s : Table) (i : Nat) :
    ∃ links, s.leaveGpaList i = { s with gpaLinks := links } := by
  rw [leaveGpaList]
  split
  · exact ⟨s.gpaLinks, rfl⟩
  · exact ⟨_, rfl⟩

theorem freeBlock_used (s : Table) (i : Nat) :
    (s.freeBlock i).used = update s.used i false := rfl

theorem Sound.freeBlock (sound : Sound near s ids) (off : i ∉ ids) :
    Sound near (s.freeBlock i) ids := by
  refine sound.keep rfl rfl rfl (fun _ _ => ⟨rfl, rfl⟩) (fun j member => ?_) (fun j isUsed => ?_)
    sound.vf
  · have apart : j ≠ i := fun same => off (same ▸ member)
    rw [freeBlock_used, update_of_ne apart]
    exact sound.used j member
  · rw [freeBlock_used] at isUsed
    by_cases same : j = i
    · rw [same, update_self] at isUsed
      cases isUsed
    · rw [update_of_ne same] at isUsed
      exact sound.bounded j isUsed

theorem Sound.unassigned (nearness : Nearness near) (sound : Sound near s ids) (member : i ∈ ids) :
    Sound near (s.ptebUpdate i (s.unassigned (s.block i))) ids :=
  sound.write nearness member rfl (nearness.refl _) rfl

theorem Sound.returnBack (nearness : Nearness near) (sound : Sound near s ids)
    (off : (s.block i).type = .tmr → i ∉ ids) : ∃ ids', Sound near (s.returnBack i) ids' := by
  rw [Table.returnBack]
  split
  · next type => exact ⟨ids, sound.freeBlock (off type)⟩
  · next type =>
    have member := sound.vf i type
    have first := sound.unassigned nearness member
    obtain ⟨ids', sound', _⟩ := first.merged nearness member (by rw [ptebUpdate_same]; exact nofun)
    exact ⟨ids', sound'⟩
  · exact ⟨ids, sound⟩

theorem Sound.unmapPteb (nearness : Nearness near) (sound : Sound near s ids)
    (off : (s.block i).type = .tmr → i ∉ ids) : ∃ ids', Sound near (s.unmapPteb i) ids' := by
  rw [Table.unmapPteb]
  split
  · exact ⟨ids, sound⟩
  · have marked := invalidateAndUnapplyPteb_marked s i
    obtain ⟨links, left⟩ := leaveGpaList_eq (s.invalidateAndUnapplyPteb i) i
    rw [left]
    refine ((sound.marked marked).links links).returnBack nearness fun type => off ?_
    obtain ⟨applied, same⟩ := marked.block i
    have type : ((s.invalidateAndUnapplyPteb i).block i).type = .tmr := type
    rwa [same] at type

theorem Sound.unmapBySpa (nearness : Nearness near) (sound : Sound near s ids)
    (off : ∀ i, s.findPtebByPhy spa = some (some i) → (s.block i).type ≠ .tmr)
    (unmapped : s.unmapBySpa spa = some s') : ∃ ids', Sound near s' ids' := by
  obtain ⟨found, search, rfl⟩ := Option.map_eq_some_iff.mp unmapped
  cases found with
  | none => exact ⟨ids, sound⟩
  | some i => exact sound.unmapPteb nearness fun type => absurd type (off i search)

structure Freed (s : Table) (i : Nat) (s₀ : Table) : Prop where
  block : ∃ applied, s₀.block i = { s.unassigned (s.block i) with applied := applied }
  other : ∀ j, j ≠ i → ∃ applied, s₀.block j = { s.block j with applied := applied }
  used : s₀.used = s.used
  gpaLinks : s₀.gpaLinks = (s.leaveGpaList i).gpaLinks
  spaLinks : s₀.spaLinks = s.spaLinks
  totalPhysicalSize : s₀.totalPhysicalSize = s.totalPhysicalSize
  defaultFragment : s₀.defaultFragment = s.defaultFragment

theorem unmapPteb_vf (type : (s.block i).type = .vf) : ∃ s₀, Freed s i s₀ ∧
    s.unmapPteb i = (s₀.mergeFront i).1.mergeBack (s₀.mergeFront i).2 := by
  have marked := invalidateAndUnapplyPteb_marked s i
  obtain ⟨applied, same⟩ := marked.block i
  have left : (s.invalidateAndUnapplyPteb i).leaveGpaList i =
      { s.invalidateAndUnapplyPteb i with gpaLinks := (s.leaveGpaList i).gpaLinks } := by
    rw [leaveGpaList, leaveGpaList, gpaListEmpty, gpaListEmpty, marked.gpaLinks]
    split
    · rw [← marked.gpaLinks]
    · rfl
  have type' : ((s.invalidateAndUnapplyPteb i).block i).type = .vf := by rw [same]; exact type
  have notFree : (s.block i).type ≠ .notAssigned := by rw [type]; decide
  generalize alone_ : ({ s.invalidateAndUnapplyPteb i with
    gpaLinks := (s.leaveGpaList i).gpaLinks } : Table) = s₁ at left
  have typeAlone : (s₁.block i).type = .vf := by rw [← alone_]; exact type'
  refine ⟨s₁.ptebUpdate i (s₁.unassigned (s₁.block i)), ?_, ?_⟩
  · subst alone_
    refine ⟨⟨applied, ?_⟩, fun j apart => ?_, marked.used, rfl, marked.spaLinks,
      marked.totalPhysicalSize, marked.defaultFragment⟩
    · rw [ptebUpdate_same, unassigned, same, unassigned]
      simp only [invalidIdxVf, marked.maxNumVf, marked.defaultFragment]
    · rw [ptebUpdate_other _ apart]
      exact marked.block j
  · rw [unmapPteb, if_neg notFree, left, returnBack]
    simp only [typeAlone]

theorem Freed.sound {s₀ : Table} (freed : Freed s i s₀)
    (sound : Sound near s ids) (member : i ∈ ids) : Sound near s₀ ids := by
  have same : ∀ j ∈ ids, s₀.span j = s.span j ∧ (s₀.block j).fragment = (s.block j).fragment := by
    intro j there
    by_cases at_ : j = i
    · obtain ⟨applied, block⟩ := freed.block
      rw [at_, span, block]
      exact ⟨rfl, (sound.fragment i member).symm⟩
    · obtain ⟨applied, block⟩ := freed.other j at_
      rw [span, block]
      exact ⟨rfl, rfl⟩
  refine sound.keep freed.spaLinks freed.totalPhysicalSize freed.defaultFragment same
    (freed.used ▸ sound.used) (freed.used ▸ sound.bounded) fun j isVf => ?_
  by_cases at_ : j = i
  · exact at_ ▸ member
  · obtain ⟨applied, block⟩ := freed.other j at_
    rw [block] at isVf
    exact sound.vf j isVf

/-- Where an unmapped VF block is afterwards: gone into the block before it, or still in
its place, with the block after it if that was unassigned. -/
theorem Sound.unmapVf (nearness : Nearness near) (sound : Sound near s ids)
    (type : (s.block i).type = .vf) : ∃ ids', Sound near (s.unmapPteb i) ids' ∧
      (FreeBefore s ids i → i ∉ ids') ∧
      (¬ FreeBefore s ids i → i ∈ ids' ∧
        ((s.unmapPteb i).block i).spa = (s.block i).spa ∧
        (s.block i).size.toNat ≤ ((s.unmapPteb i).block i).size.toNat ∧
        (¬ FreeAfter s ids i → ((s.unmapPteb i).block i).size = (s.block i).size)) := by
  have member := sound.vf i type
  obtain ⟨s₀, freed, same⟩ := unmapPteb_vf type
  rw [same]
  have first := freed.sound sound member
  have atI : (s₀.block i).spa = (s.block i).spa ∧ (s₀.block i).size = (s.block i).size ∧
      (s₀.block i).type = .notAssigned := by
    obtain ⟨applied, block⟩ := freed.block
    rw [block]
    exact ⟨rfl, rfl, rfl⟩
  have others : ∀ j, j ≠ i → (s₀.block j).type = (s.block j).type := by
    intro j apart
    obtain ⟨applied, block⟩ := freed.other j apart
    rw [block]
  obtain ⟨ids', sound', merged⟩ := first.merged nearness member (by rw [atI.2.2]; decide)
  refine ⟨ids', sound', ?_⟩
  generalize (s₀.mergeFront i).1.mergeBack (s₀.mergeFront i).2 = s' at sound' merged ⊢
  cases merged with
  | alone _ before =>
    have notBefore : ¬ FreeBefore s ids i := by
      rintro ⟨p, pre, post, rfl, free⟩
      refine (first.freeBefore_iff member).mp ⟨p, pre, post, rfl, ?_⟩ before
      rw [others p first.ne_next]
      exact free
    exact ⟨fun is => absurd is notBefore, fun _ => ⟨member, atI.1, by rw [atI.2.1],
      fun _ => atI.2.1⟩⟩
  | back q pre post free before =>
    have notBefore : ¬ FreeBefore s (pre ++ i :: q :: post) i := by
      rintro ⟨p, pre', post', shape, free'⟩
      refine (first.freeBefore_iff member).mp ⟨p, pre', post', shape, ?_⟩ before
      rw [others p (shape ▸ first).ne_next]
      exact free'
    have after : FreeAfter s (pre ++ i :: q :: post) i :=
      ⟨q, pre, post, rfl, by rw [← others q first.ne_next.symm]; exact free⟩
    refine ⟨fun is => absurd is notBefore, fun _ => ⟨by simp, ?_, ?_, fun not => absurd after not⟩⟩
    · rw [absorb_same]
      exact atI.1
    · have laid := first.laid
      rw [List.map_append, List.map_cons, List.map_cons, span, span] at laid
      have within := (laid.merge nearness).bounds nearness
        (List.mem_append_right _ (List.mem_cons_self ..))
      rw [absorb_same, ← atI.2.1]
      simp only at within ⊢
      bv_omega
  | front p pre post free =>
    have before : FreeBefore s (pre ++ p :: i :: post) i :=
      ⟨p, pre, post, rfl, by rw [← others p first.ne_next]; exact free⟩
    refine ⟨fun _ inside => ?_, fun not => absurd before not⟩
    have nodup := sound.nodup
    have shape : pre ++ p :: i :: post = (pre ++ [p]) ++ i :: post := by simp
    rw [shape] at nodup
    exact (List.nodup_cons.mp (List.nodup_middle.mp nodup)).1 (by simpa using inside)
  | both p q pre post free =>
    have before : FreeBefore s (pre ++ p :: i :: q :: post) i :=
      ⟨p, pre, q :: post, rfl, by rw [← others p first.ne_next]; exact free⟩
    refine ⟨fun _ inside => ?_, fun not => absurd before not⟩
    have nodup := sound.nodup
    have shape : pre ++ p :: i :: q :: post = (pre ++ [p]) ++ i :: q :: post := by simp
    rw [shape] at nodup
    refine (List.nodup_cons.mp (List.nodup_middle.mp nodup)).1 ?_
    simp only [List.mem_append, List.mem_cons] at inside ⊢
    tauto

end MxGpu.Ffbm.Table
