import MxGpu.FfbmKeeps
import MxGpu.Transition

/- The physical list as a partition of the memory. -/
namespace MxGpu.Ffbm.Table

open RingList Tiling Scripts Transition Function

variable {near : Nat → Nat → Prop} {s s₁ s₂ s' : Table} {ids pre post : List Nat} {i j n : Nat}
  {spa size : Addr}

theorem takePlace_same (s : Table) {new : Nat} (size : Addr) :
    (s.takePlace new i size).block new = { s.block i with
      spa := (s.block new).spa, size := size, applied := false } := ptebUpdate_same _

theorem takePlace_other (s : Table) {new : Nat} (size : Addr) (apart : j ≠ new) :
    (s.takePlace new i size).block j = s.block j := ptebUpdate_other _ apart

theorem Sound.takePlace (nearness : Nearness near) (sound : Sound near s ids) {new : Nat}
    (memberI : i ∈ ids) (member : new ∈ ids)
    (room : near ((s.block new).spa.toNat + size.toNat)
      ((s.block new).spa.toNat + (s.block new).size.toNat)) :
    Sound near (s.takePlace new i size) ids := by
  have first : Sound near (s.ptebUpdate new { s.block i with
      spa := (s.block new).spa, size := size, applied := false }) ids :=
    sound.write nearness member rfl room (sound.fragment i memberI)
  exact first.keep rfl rfl rfl (fun _ _ => ⟨rfl, rfl⟩) first.used first.bounded first.vf

theorem Sound.markBad (nearness : Nearness near) (sound : Sound near s ids)
    (end_ : i ∈ ids → near ((s.block i).spa.toNat + size.toNat)
      ((s.block i).spa.toNat + (s.block i).size.toNat)) :
    Sound near (s.markBad i size) ids := by
  have first : Sound near (s.ptebUpdate i { s.block i with
      gpa := invalidAddr, size := size, vfIdx := s.invalidIdxVf, permission := 0,
      type := .badPage }) ids := by
    by_cases member : i ∈ ids
    · exact sound.write nearness member rfl (end_ member) (sound.fragment i member)
    · exact sound.write_off member (by exact nofun)
  exact first.keep rfl rfl rfl (fun _ _ => ⟨rfl, rfl⟩) first.used first.bounded first.vf

/-- The swap keeps the layout if the reserved block has room for the page and what the
unmap leaves of the bad block is cut back without a gap that matters. -/
theorem Sound.swapPages (nearness : Nearness near) (sound : Sound near s ids) {new : Nat}
    (type : (s.block i).type = .vf) (member : new ∈ ids)
    (reserved : (s.block new).type = .reserved)
    (room : near ((s.block new).spa.toNat + size.toNat)
      ((s.block new).spa.toNat + (s.block new).size.toNat))
    (long : size.toNat ≤ (s.block i).size.toNat)
    (tight : Lax near ∨ FreeBefore s ids i ∨ ¬ FreeAfter s ids i ∧ (s.block i).size = size) :
    ∃ ids', Sound near (s.swapPages i new size) ids' := by
  have memberI := sound.vf i type
  have apart : i ≠ new := by
    rintro rfl
    rw [type] at reserved
    cases reserved
  have placed := sound.takePlace nearness memberI member room
  have sameI : (s.takePlace new i size).block i = s.block i := takePlace_other s size apart
  have free : ∀ k, ((s.takePlace new i size).block k).type = .notAssigned ↔
      (s.block k).type = .notAssigned := by
    intro k
    by_cases at_ : k = new
    · rw [at_, takePlace_same, reserved]
      simp [type]
    · rw [takePlace_other s size at_]
  have before : FreeBefore (s.takePlace new i size) ids i ↔ FreeBefore s ids i := by
    simp only [FreeBefore, free]
  have after : FreeAfter (s.takePlace new i size) ids i ↔ FreeAfter s ids i := by
    simp only [FreeAfter, free]
  obtain ⟨ids', sound', gone, stays⟩ := placed.unmapVf nearness (by rw [sameI]; exact type)
  rw [before] at gone stays
  rw [after, sameI] at stays
  refine ⟨ids', sound'.markBad nearness fun inside => ?_⟩
  have notBefore : ¬ FreeBefore s ids i := fun is => gone is inside
  obtain ⟨_, start, longer, exact_⟩ := stays notBefore
  rcases tight with lax | is | ⟨notAfter, whole⟩
  · exact lax _ _ (by omega)
  · exact absurd is notBefore
  · rw [exact_ notAfter, whole]
    exact nearness.refl _

theorem Sound.freeAfter_cons (sound : Sound near s (pre ++ i :: post))
    (after : FreeAfter s (pre ++ i :: post) i) :
    ∃ q rest, post = q :: rest ∧ (s.block q).type = .notAssigned := by
  obtain ⟨q, pre', post', shape, free⟩ := after
  have onward := (shape ▸ sound).next_eq.1
  cases post with
  | nil =>
    have ring := sound.ring
    rw [List.map_append, List.map_cons] at ring
    obtain ⟨_, last, _⟩ := linked_append.mp ring.linked
    rw [onward] at last
    cases last
  | cons r rest =>
    rw [sound.next_eq.1] at onward
    cases onward
    exact ⟨q, rest, rfl, free⟩

theorem cut_type (apart : i ≠ n) (j : Nat) : ((s.cut i n size).block j).type =
    if j = n then (s.block i).type else (s.block j).type := by
  split
  · next same =>
    rw [same, cut_block_new apart]
    rfl
  · next other =>
    by_cases old : j = i
    · rw [old, cut_block_old apart]
    · rw [cut_block_other old other]

theorem Sound.leftCut_around (nearness : Nearness near) (sound : Sound near s ids)
    (member : i ∈ ids) (type : (s.block i).type ≠ .notAssigned) (left : LeftCut s i spa s₁ j) :
    ∃ ids₁, Sound near s₁ ids₁ ∧ j ∈ ids₁ ∧ (s₁.block j).type = (s.block i).type ∧
      (∀ r ∈ ids, r ≠ i → r ∈ ids₁ ∧ s₁.block r = s.block r) ∧
      (FreeAfter s₁ ids₁ j → FreeAfter s ids i) ∧
      ((s.block i).spa = spa → FreeBefore s ids i → FreeBefore s₁ ids₁ j) := by
  cases left with
  | at_ same => exact ⟨ids, sound, member, rfl, fun _ there _ => ⟨there, rfl⟩, id, fun _ => id⟩
  | cut n before within unused =>
    have apart : i ≠ j := ne_of_free (sound.used i member) unused
    obtain ⟨pre, post, rfl⟩ := List.append_of_mem member
    have cutSound := sound.cut nearness within unused
    refine ⟨_, cutSound, by simp, by rw [cut_type apart, if_pos rfl], fun r there other => ⟨?_,
      cut_block_other other fun same => sound.fresh unused (same ▸ there)⟩, fun after => ?_,
      fun same => ?_⟩
    · simp only [List.mem_append, List.mem_cons] at there ⊢
      tauto
    · have shape : pre ++ i :: j :: post = (pre ++ [i]) ++ j :: post := by simp
      rw [shape] at after cutSound
      obtain ⟨q, rest, rfl, free⟩ := cutSound.freeAfter_cons after
      refine ⟨q, pre, rest, rfl, ?_⟩
      rw [cut_type apart] at free
      split at free
      · exact absurd free type
      · exact free
    · rw [same] at before
      exact absurd before (BitVec.lt_irrefl _)

theorem Sound.rightCut_around (nearness : Nearness near) (sound : Sound near s ids)
    (member : j ∈ ids) (type : (s.block j).type ≠ .notAssigned) (right : RightCut s j size s') :
    ∃ ids', Sound near s' ids' ∧ j ∈ ids' ∧ (s'.block j).type = (s.block j).type ∧
      (∀ r ∈ ids, r ≠ j → r ∈ ids' ∧ s'.block r = s.block r) ∧
      (FreeAfter s' ids' j → s' = s ∧ ids' = ids) ∧
      (FreeBefore s ids j → FreeBefore s' ids' j) := by
  cases right with
  | whole =>
    exact ⟨ids, sound, member, rfl, fun _ there _ => ⟨there, rfl⟩, fun _ => ⟨rfl, rfl⟩, id⟩
  | exhausted =>
    exact ⟨ids, sound, member, rfl, fun _ there _ => ⟨there, rfl⟩, fun _ => ⟨rfl, rfl⟩, id⟩
  | cut n within unused =>
    have apart : j ≠ n := ne_of_free (sound.used j member) unused
    obtain ⟨pre, post, rfl⟩ := List.append_of_mem member
    have cutSound := sound.cut nearness within unused
    refine ⟨_, cutSound, by simp, by rw [cut_type apart, if_neg apart], fun r there other => ⟨?_,
      cut_block_other other fun same => sound.fresh unused (same ▸ there)⟩, fun after => ?_, ?_⟩
    · simp only [List.mem_append, List.mem_cons] at there ⊢
      tauto
    · obtain ⟨q, rest, shape, free⟩ := cutSound.freeAfter_cons after
      cases shape
      rw [cut_type apart, if_pos rfl] at free
      exact absurd free type
    · rintro ⟨p, pre', post', shape, free⟩
      have back := (shape ▸ sound).next_eq.2
      have notNew : p ≠ n := by
        rintro rfl
        refine sound.fresh unused ?_
        rw [shape]
        simp
      rcases List.eq_nil_or_concat pre with rfl | ⟨early, last, rfl⟩
      · have ring := sound.ring
        rw [List.map_append, List.map_cons] at ring
        obtain ⟨⟨_, first⟩, _⟩ := linked_append.mp ring.linked
        rw [back] at first
        cases first
      · have shape' : early.concat last ++ j :: post = early ++ last :: j :: post := by simp
        rw [shape'] at sound
        rw [sound.next_eq.2] at back
        cases back
        refine ⟨p, early, n :: post, by simp, ?_⟩
        rw [cut_type apart, if_neg notNew]
        exact free

theorem Sound.findReserved_eq (sound : Sound near s ids) :
    s.findReserved = some (ids.find? fun i => (s.block i).type = .reserved) := sound.find _

theorem Sound.findReserved_cut (nearness : Nearness near) (sound : Sound near s ids)
    (member : i ∈ ids) (type : (s.block i).type ≠ .reserved) (within : size < (s.block i).size)
    (unused : n ∈ s.free) : (s.cut i n size).findReserved = s.findReserved := by
  have apart : i ≠ n := ne_of_free (sound.used i member) unused
  obtain ⟨pre, post, rfl⟩ := List.append_of_mem member
  have fresh := sound.fresh unused
  have cutSound := sound.cut nearness within unused
  have same : ∀ list : List Nat, n ∉ list →
      (list.find? fun j => decide (((s.cut i n size).block j).type = .reserved)) =
        list.find? fun j => decide ((s.block j).type = .reserved) := by
    intro list outside
    induction list with
    | nil => rfl
    | cons j rest ih =>
      obtain ⟨other, outside⟩ := List.ne_and_not_mem_of_not_mem_cons outside
      rw [List.find?_cons, List.find?_cons, cut_type apart, if_neg (Ne.symm other), ih outside]
  have outPre : n ∉ pre := fun there => fresh (List.mem_append_left _ there)
  have outPost : n ∉ post := fun there =>
    fresh (List.mem_append_right _ (List.mem_cons_of_mem _ there))
  rw [cutSound.findReserved_eq, sound.findReserved_eq, List.find?_append, List.find?_append,
    same pre outPre]
  congr 2
  rw [List.find?_cons, List.find?_cons, List.find?_cons, cut_type apart, if_neg apart,
    cut_type apart, if_pos rfl, same post outPost]
  simp [type]

/-- The page of an address in a block that is cut and swapped, as seen before the cuts:
what becomes a gap unless the block before the page is unassigned. -/
def Neat (s : Table) (i : Nat) (spa size : Addr) : Prop :=
  (s.block i).spa = spa ∧ s.unassignedAt (s.spaLinks.prev (.block i)) ≠ none ∨
    ¬ ((s.block i).spa.toNat + (s.block i).size.toNat = spa.toNat + size.toNat ∧
      s.unassignedAt (s.spaLinks.next (.block i)) ≠ none) ∧ Enough s i spa size

theorem LeftCut.findReserved (nearness : Nearness near) (sound : Sound near s ids)
    (member : i ∈ ids) (type : (s.block i).type ≠ .reserved) (left : LeftCut s i spa s₁ j) :
    s₁.findReserved = s.findReserved := by
  cases left with
  | at_ => rfl
  | cut n _ within unused => exact sound.findReserved_cut nearness member type within unused

theorem RightCut.findReserved (nearness : Nearness near) (sound : Sound near s ids)
    (member : j ∈ ids) (type : (s.block j).type ≠ .reserved) (right : RightCut s j size s') :
    s'.findReserved = s.findReserved := by
  cases right with
  | whole => rfl
  | exhausted => rfl
  | cut n within unused => exact sound.findReserved_cut nearness member type within unused

theorem Sound.holePage (nearness : Nearness near) (sound : Sound near s ids) (member : i ∈ ids)
    (type : (s.block i).type = .vf) (holed : Holed s i spa size (s', some j))
    (wraps : spa.toNat + size.toNat ≤ 2 ^ 64) : ∃ ids', Sound near s' ids' ∧
      (s'.block j).type = .vf ∧ (s'.block j).spa = spa ∧
      size.toNat ≤ (s'.block j).size.toNat ∧ s'.findReserved = s.findReserved ∧
      (∀ r ∈ ids, (s.block r).type = .reserved → r ∈ ids' ∧ s'.block r = s.block r) ∧
      (Neat s i spa size →
        FreeBefore s' ids' j ∨ ¬ FreeAfter s' ids' j ∧ (s'.block j).size = size) := by
  cases holed with
  | @holed s₁ _ _ within left right =>
    have notFree : (s.block i).type ≠ .notAssigned := by rw [type]; decide
    have notReserved : (s.block i).type ≠ .reserved := by rw [type]; decide
    obtain ⟨low, high, beyond⟩ := toNat_addrSizeInRange within wraps
    obtain ⟨ids₁, sound₁, member₁, type₁, kept₁, after₁, before₁⟩ :=
      sound.leftCut_around nearness member notFree left
    obtain ⟨_, _, _, start₁, end₁⟩ := sound.leftCut nearness member left
    have notFree₁ : (s₁.block j).type ≠ .notAssigned := by rw [type₁]; exact notFree
    have notReserved₁ : (s₁.block j).type ≠ .reserved := by rw [type₁]; exact notReserved
    obtain ⟨ids', sound', member', type', kept', after', before'⟩ :=
      sound₁.rightCut_around nearness member₁ notFree₁ right
    obtain ⟨_, _, _, start'⟩ := sound₁.rightCut nearness member₁ right
    rw [start₁] at end₁
    have sized := right.sized (sound₁.used j member₁)
    refine ⟨ids', sound', type'.trans (type₁.trans type), start'.trans start₁, ?_,
      (right.findReserved nearness sound₁ member₁ notReserved₁).trans
        (left.findReserved nearness sound member notReserved), fun r there isReserved => ?_,
      fun neat => ?_⟩
    · rcases sized with same | ⟨rfl, _⟩ | ⟨rfl, long, _⟩
      · rw [same]
      · omega
      · exact Nat.le_of_lt (BitVec.lt_def.mp long)
    · obtain ⟨there₁, same₁⟩ := kept₁ r there fun same => notReserved (same ▸ isReserved)
      have isReserved₁ : (s₁.block r).type = .reserved := by rw [same₁]; exact isReserved
      obtain ⟨there', same'⟩ := kept' r there₁ fun same => notReserved₁ (same ▸ isReserved₁)
      exact ⟨there', same'.trans same₁⟩
    · rcases neat with ⟨starts, free⟩ | ⟨apart, enough⟩
      · exact .inl (before' (before₁ starts ((sound.freeBefore_iff member).mpr free)))
      have whole : s' = s₁ → (s₁.block j).size = size := by
        intro same
        rcases sized with exact_ | ⟨_, short⟩ | ⟨_, long, none_⟩
        · exact same ▸ exact_
        · have short := BitVec.le_def.mp short
          exact BitVec.eq_of_toNat_eq (by omega)
        · have long := BitVec.lt_def.mp long
          exact absurd (left.free_card none_) (enough (by omega) left.valid)
      refine .inr ⟨fun after => ?_, ?_⟩
      · obtain ⟨same, sameIds⟩ := after' after
        subst same
        subst sameIds
        refine apart ⟨?_, (sound.freeAfter_iff member).mp (after₁ after)⟩
        have size_ := whole rfl
        rw [size_] at end₁
        exact end₁.symm
      · rcases sized with exact_ | ⟨same, _⟩ | ⟨same, _⟩
        · exact exact_
        · rw [same]
          exact whole same
        · rw [same]
          exact whole same

/-- What a page swap needs to keep the layout: room for the page in the reserved block,
and no gap that matters around the bad page. -/
def SwapFits (near : Nat → Nat → Prop) (s : Table) (spa : Addr) (i new : Nat) : Prop :=
  let page := pageSize (s.block i).fragment
  near ((s.block new).spa.toNat + page.toNat)
      ((s.block new).spa.toNat + (s.block new).size.toNat) ∧
    (Lax near ∨ Neat s i (pageAlign spa (s.block i).fragment) page)

theorem Sound.replacePage (nearness : Nearness near) (sound : Sound near s ids) {resp : Resp}
    (replaced : s.replacePage spa = some (s', resp))
    (fits : ∀ i new, s.findPtebByPhy spa = some (some i) → (s.block i).type = .vf →
      s.findReserved = some (some new) → SwapFits near s spa i new) :
    ∃ ids', Sound near s' ids' := by
  have unchanged : ∀ {code : Resp}, some (s, code) = some (s', resp) →
      ∃ ids', Sound near s' ids' := fun same => (Prod.mk.inj (Option.some.inj same)).1 ▸ ⟨ids, sound⟩
  rw [Table.replacePage] at replaced
  split at replaced
  · cases replaced
  · exact unchanged replaced
  next i found =>
    obtain ⟨member, _⟩ := sound.found found
    have fragment := sound.fragment i member
    split at replaced
    · exact unchanged replaced
    next type =>
      have type := not_not.mp type
      have small : (s.block i).fragment + 12 < 64 := fragment ▸ sound.small
      have holed := ptebHoleByPhy_holed (pageAlign spa (s.block i).fragment)
        (sound.used i member) (mapSizeValid_pageSize small)
      obtain ⟨_, _, wraps⟩ := pageAlign_page spa small
      simp only at replaced
      generalize s.ptebHoleByPhy i (pageAlign spa (s.block i).fragment)
        (pageSize (s.block i).fragment) = outcome at holed replaced
      obtain ⟨s₁, pteb⟩ := outcome
      cases pteb with
      | none =>
        cases holed
        exact unchanged replaced
      | some j =>
        obtain ⟨ids₁, sound₁, type₁, start, long, reserved, kept, neat⟩ :=
          sound.holePage nearness member type holed wraps
        simp only at replaced
        split at replaced
        · cases replaced
        · exact (Prod.mk.inj (Option.some.inj replaced)).1 ▸ ⟨ids₁, sound₁⟩
        next new search =>
          obtain ⟨room, tight⟩ := fits i new found type (reserved ▸ search)
          obtain ⟨memberNew, isReserved⟩ := sound.found (reserved ▸ search)
          obtain ⟨memberNew₁, sameNew⟩ := kept new memberNew (by simpa using isReserved)
          obtain ⟨rfl, _⟩ := Prod.mk.inj (Option.some.inj replaced)
          refine sound₁.swapPages nearness type₁ memberNew₁ ?_ ?_ long (tight.imp id neat)
          · rw [sameNew]
            simpa using isReserved
          · rw [sameNew]
            exact room

theorem collect_linked {links : Links Node} {head a : Node} {list : List Nat}
    (linked : Linked links a (list.map .block) head) (isHead : ∃ k, head = .head k) {fuel : Nat}
    (enough : list.length < fuel) : collect links head fuel (links.next a) = some list := by
  obtain ⟨k, rfl⟩ := isHead
  induction list generalizing a fuel with
  | nil =>
    obtain ⟨toEnd, _⟩ := linked
    cases fuel with
    | zero => exact absurd enough (Nat.not_lt_zero _)
    | succ fuel => simp [collect, toEnd]
  | cons i rest ih =>
    obtain ⟨toFirst, _, tail⟩ := linked
    cases fuel with
    | zero => exact absurd enough (Nat.not_lt_zero _)
    | succ fuel =>
      have later := ih (Nat.lt_of_succ_lt_succ enough) tail
      rw [toFirst, collect, if_neg (by exact nofun)]
      simp only [later, Option.map_some]

theorem Sound.entries (sound : Sound near s ids) : entries s.spaLinks spaHead = some ids :=
  collect_linked sound.ring.linked ⟨0, rfl⟩ (Nat.lt_succ_of_le sound.length)

/-- What `page_table_destroy` leaves alone. -/
structure Destroyed (s s' : Table) : Prop where
  defaultFragment : s'.defaultFragment = s.defaultFragment
  numVf : s'.numVf = s.numVf
  maxNumVf : s'.maxNumVf = s.maxNumVf
  totalFbAvail : s'.totalFbAvail = s.totalFbAvail

theorem Destroyed.trans (first : Destroyed s s₁) (second : Destroyed s₁ s₂) : Destroyed s s₂ where
  defaultFragment := second.defaultFragment.trans first.defaultFragment
  numVf := second.numVf.trans first.numVf
  maxNumVf := second.maxNumVf.trans first.maxNumVf
  totalFbAvail := second.totalFbAvail.trans first.totalFbAvail

theorem destroyList_destroyed {next : Table → Node → Node} {free : Table → Nat → Table}
    (frees : ∀ s i, Destroyed s (free s i)) {head node : Node} {fuel : Nat}
    (done : s.destroyList next free head fuel node = some s') : Destroyed s s' := by
  induction fuel generalizing s node with
  | zero => cases done
  | succ fuel ih =>
    cases node with
    | head list =>
      rw [destroyList] at done
      split at done
      · cases done
        exact ⟨rfl, rfl, rfl, rfl⟩
      · cases done
    | block i =>
      rw [destroyList] at done
      split at done
      · cases done
        exact ⟨rfl, rfl, rfl, rfl⟩
      · exact (frees s i).trans (ih done)

theorem destroyGpaLists_destroyed {count : Nat}
    (done : s.destroyGpaLists count = some s') : Destroyed s s' := by
  induction count generalizing s' with
  | zero =>
    cases done
    exact ⟨rfl, rfl, rfl, rfl⟩
  | succ count ih =>
    rw [destroyGpaLists] at done
    split at done
    · cases done
    · next first before =>
      obtain ⟨listed, destroyed, rfl⟩ := Option.map_eq_some_iff.mp done
      have frees : ∀ s i, Destroyed s (destroyGpaBlock s i) := fun _ _ => ⟨rfl, rfl, rfl, rfl⟩
      have one := destroyList_destroyed frees destroyed
      exact (ih before).trans (one.trans ⟨rfl, rfl, rfl, rfl⟩)

theorem pageTableDestroy_destroyed (done : s.pageTableDestroy = some s') : Destroyed s s' := by
  rw [pageTableDestroy] at done
  split at done
  · cases done
  · next first before =>
    obtain ⟨listed, destroyed, rfl⟩ := Option.map_eq_some_iff.mp done
    have frees : ∀ s i, Destroyed s (destroySpaBlock s i) := fun _ _ => ⟨rfl, rfl, rfl, rfl⟩
    have one := destroyList_destroyed frees destroyed
    exact (destroyGpaLists_destroyed before).trans (one.trans ⟨rfl, rfl, rfl, rfl⟩)

theorem setup_sound (nearness : Nearness near) (small : s.defaultFragment + 12 < 64)
    (done : s.setup = some s') : Sound near s' [0] := by
  obtain ⟨cleared, destroyed, rfl⟩ := Option.map_eq_some_iff.mp done
  have kept := pageTableDestroy_destroyed destroyed
  refine ⟨?_, ?_, fun i member => ?_, fun i isUsed => ?_, fun i isVf => ?_, fun i member => ?_, ?_⟩
  · have headRing : Rings cleared.spaLinks spaHead [] := by
      rw [pageTableDestroy] at destroyed
      split at destroyed
      · cases destroyed
      · obtain ⟨listed, _, rfl⟩ := Option.map_eq_some_iff.mp destroyed
        exact rings_init _ _
    have outside : Node.block 0 ∉ spaHead :: ([] : List Node) := by decide
    exact (headRing.frame_init outside).add_head outside
  · simpa [Laid, span, ptebInit, ptebUpdate] using
      And.intro (nearness.refl 0) (nearness.refl cleared.alignedSize.toNat)
  · obtain rfl := List.mem_singleton.mp member
    simp [ptebInit, ptebUpdate]
  · by_cases zero : i = 0
    · subst zero
      decide
    · have unused : (update cleared.freeAllBlock.used 0 true) i = true := isUsed
      rw [update_of_ne zero] at unused
      cases unused
  · by_cases zero : i = 0
    · subst zero
      simp [ptebInit, ptebUpdate] at isVf
    · simp [ptebInit, ptebUpdate, freeAllBlock, zero, zeroBlock] at isVf
  · obtain rfl := List.mem_singleton.mp member
    simp [ptebInit, ptebUpdate, freeAllBlock]
  · have same : cleared.defaultFragment + 12 < 64 := by rw [kept.defaultFragment]; exact small
    exact same

def OnSpaList (s : Table) (i : Nat) : Prop :=
  ∃ list, entries s.spaLinks spaHead = some list ∧ i ∈ list

def Keeps (near : Nat → Nat → Prop) (s : Table) : Op → Prop
  | .manualMap request => ∀ i, s.Reaches request i → (s.block i).type ≠ .tmr →
      request.spa.toNat + request.size.toNat ≤ 2 ^ 64 ∧
        (Lax near ∨ Enough s i request.spa request.size)
  | .unmapPteb i => (s.block i).type = .tmr → ¬ s.OnSpaList i
  | .unmapBySpa spa => ∀ i, s.findPtebByPhy spa = some (some i) → (s.block i).type ≠ .tmr
  | .replacePage spa => ∀ i new, s.findPtebByPhy spa = some (some i) →
      (s.block i).type = .vf → s.findReserved = some (some new) → SwapFits near s spa i new
  | _ => True

theorem Sound.step (nearness : Nearness near) (sound : Sound near s ids) {op : Op} {reply : Reply}
    (keeps : Keeps near s op) (done : s.step op = some (s', reply)) :
    ∃ ids', Sound near s' ids' := by
  cases op with
  | setup =>
    obtain ⟨_, made, same⟩ := Option.map_eq_some_iff.mp done
    cases same
    exact ⟨_, setup_sound nearness sound.small made⟩
  | manualMap request =>
    obtain ⟨⟨_, resp⟩, made, same⟩ := Option.map_eq_some_iff.mp done
    cases same
    exact sound.manualMap nearness made keeps
  | mapEmpty vfIdx gpaStart sizeLeft permission =>
    obtain ⟨⟨_, mapped⟩, made, same⟩ := Option.map_eq_some_iff.mp done
    cases same
    exact sound.mapEmpty nearness made
  | unmapPteb i =>
    cases done
    exact sound.unmapPteb nearness fun type inside => keeps type ⟨ids, sound.entries, inside⟩
  | unmapBySpa spa =>
    obtain ⟨_, made, same⟩ := Option.map_eq_some_iff.mp done
    cases same
    exact sound.unmapBySpa nearness keeps made
  | invalidateAndUnapplyPteb i =>
    cases done
    exact ⟨ids, sound.marked (invalidateAndUnapplyPteb_marked s i)⟩
  | applyPteb i =>
    cases done
    exact ⟨ids, sound.marked (applyPteb_marked s i true)⟩
  | replacePage spa =>
    obtain ⟨⟨_, resp⟩, made, same⟩ := Option.map_eq_some_iff.mp done
    cases same
    exact sound.replacePage nearness made keeps
  | takeUsable megabytes =>
    cases done
    exact ⟨ids, sound.keep rfl rfl rfl (fun _ _ => ⟨rfl, rfl⟩) sound.used sound.bounded sound.vf⟩

/-- The blocks of the physical list tile the memory: in order, without gap or overlap,
and none of them is back in the pool. -/
def Partition (s : Table) : Prop :=
  ∃ list, entries s.spaLinks spaHead = some list ∧
    (list.Pairwise fun i j => (s.block i).spa.toNat ≤ (s.block j).spa.toNat) ∧
    (list.Pairwise fun i j =>
      (s.block i).spa.toNat + (s.block i).size.toNat ≤ (s.block j).spa.toNat) ∧
    (∀ addr, addr < s.totalPhysicalSize.toNat ↔ ∃ i ∈ list, (s.block i).spa.toNat ≤ addr ∧
      addr < (s.block i).spa.toNat + (s.block i).size.toNat) ∧
    ∀ i ∈ list, s.used i = true

theorem Sound.partition (sound : Sound (· = ·) s ids) : s.Partition := by
  have apart := List.pairwise_map.mp (sound.laid.ordered eq_nearness)
  refine ⟨ids, sound.entries, apart.imp fun {i j} before => ?_, apart, fun addr => ?_, sound.used⟩
  · exact (Nat.le_add_right _ _).trans before
  · have covers := laid_eq_covers sound.laid addr
    constructor
    · intro below
      obtain ⟨_, member, within⟩ := covers.mp ⟨Nat.zero_le addr, below⟩
      obtain ⟨i, there, rfl⟩ := List.mem_map.mp member
      exact ⟨i, there, within⟩
    · rintro ⟨i, there, within⟩
      exact (covers.mpr ⟨_, List.mem_map_of_mem there, within⟩).2

/-- What each operation may do for the memory to stay tiled: a mapping does not wrap and
has a descriptor for the cut behind it; a TMR block that is unmapped is not on the
physical list; and a bad page is swapped for a reserved page, where the block before it
is unassigned, or no unassigned block and no missing cut comes behind it. -/
def KeepsTiling (s : Table) : Op → Prop
  | .manualMap request => ∀ i, s.Reaches request i → (s.block i).type ≠ .tmr →
      request.spa.toNat + request.size.toNat ≤ 2 ^ 64 ∧ Enough s i request.spa request.size
  | .unmapPteb i => (s.block i).type = .tmr → ¬ s.OnSpaList i
  | .unmapBySpa spa => ∀ i, s.findPtebByPhy spa = some (some i) → (s.block i).type ≠ .tmr
  | .replacePage spa => ∀ i new, s.findPtebByPhy spa = some (some i) →
      (s.block i).type = .vf → s.findReserved = some (some new) →
        (s.block new).size = pageSize (s.block i).fragment ∧
          Neat s i (pageAlign spa (s.block i).fragment) (pageSize (s.block i).fragment)
  | _ => True

theorem KeepsTiling.keeps {op : Op} (tiling : KeepsTiling s op) : Keeps (· = ·) s op := by
  cases op with
  | manualMap request =>
    intro i reaches type
    obtain ⟨wraps, enough⟩ := tiling i reaches type
    exact ⟨wraps, .inr enough⟩
  | unmapPteb i => exact tiling
  | unmapBySpa spa => exact tiling
  | replacePage spa =>
    intro i new found type reserved
    obtain ⟨page, neat⟩ := tiling i new found type reserved
    exact ⟨by rw [page], .inr neat⟩
  | _ => trivial

theorem sound_of_initialised (nearness : Nearness near) {ok : Table → Op → Prop}
    (keeps : ∀ s op, ok s op → Keeps near s op) (init : Initialised ok s) :
    ∃ ids, Sound near s ids := by
  obtain ⟨s₀, allocatedTmrSize, resp, ran, meets⟩ := init
  rw [pageTableInit, Script.exec] at ran
  obtain ⟨_, meets⟩ := meets
  cases done : s₀.swInit.step .setup with
  | none => simp [done] at ran
  | some pair =>
    obtain ⟨s₁, reply⟩ := pair
    rw [done] at ran
    obtain ⟨_, made, same⟩ := Option.map_eq_some_iff.mp done
    cases same
    have small : s₀.swInit.defaultFragment + 12 < 64 := by simp [swInit]
    refine Script.exec_preserves (fun s => ∃ ids, Sound near s ids) ?_ _
      ⟨_, setup_sound nearness small made⟩ (meets _ _ done) ran
    rintro before op after reply ⟨ids, sound⟩ met stepped
    exact sound.step nearness (keeps _ _ met) stepped

theorem sound_of_run (nearness : Nearness near) {ok : Table → Op → Prop}
    (keeps : ∀ s op, ok s op → Keeps near s op)
    (run : Run (Initialised ok) Call.Returns (Call.Meets ok) s) : ∃ ids, Sound near s ids := by
  refine run.invariant (fun s => ∃ ids, Sound near s ids)
    (fun s init => sound_of_initialised nearness keeps init) ?_
  rintro before call after sound met ⟨resp, ran⟩
  refine Script.exec_preserves (fun s => ∃ ids, Sound near s ids) ?_ _ sound met ran
  rintro before op after reply ⟨ids, sound⟩ met stepped
  exact sound.step nearness (keeps _ _ met) stepped

def afterCalls (s : Table) : List Call → Option Table
  | [] => some s
  | call :: rest =>
    match call.prog.exec Table.step s with
    | none => none
    | some (s', _) => s'.afterCalls rest

def CallsMeet (ok : Table → Op → Prop) (s : Table) : List Call → Prop
  | [] => True
  | call :: rest => call.Meets ok s ∧
    match call.prog.exec Table.step s with
    | none => True
    | some (s', _) => s'.CallsMeet ok rest

theorem run_afterCalls {start : Table → Prop} {ok : Table → Op → Prop} {calls : List Call}
    (run : Run start Call.Returns (Call.Meets ok) s) (meets : s.CallsMeet ok calls)
    (done : s.afterCalls calls = some s') : Run start Call.Returns (Call.Meets ok) s' := by
  induction calls generalizing s with
  | nil =>
    cases done
    exact run
  | cons call rest ih =>
    obtain ⟨first, later⟩ := meets
    rw [afterCalls] at done
    cases ran : call.prog.exec Table.step s with
    | none => simp [ran] at done
    | some pair =>
      obtain ⟨middle, resp⟩ := pair
      rw [ran] at done later
      exact ih (.next call run first ⟨resp, ran⟩) later done

instance (ok : Table → Op → Prop) [∀ s op, Decidable (ok s op)] (s : Table) (call : Call) :
    Decidable (call.Meets ok s) := inferInstanceAs (Decidable (call.prog.Meets Table.step ok s))

instance decidableCallsMeet (ok : Table → Op → Prop) [∀ s op, Decidable (ok s op)] :
    (s : Table) → (calls : List Call) → Decidable (s.CallsMeet ok calls)
  | _, [] => isTrue trivial
  | s, call :: rest =>
    match ran : call.prog.exec Table.step s with
    | none => decidable_of_iff (call.Meets ok s) (by simp [CallsMeet, ran])
    | some (s', _) =>
      have := decidableCallsMeet ok s' rest
      decidable_of_iff (call.Meets ok s ∧ s'.CallsMeet ok rest) (by simp [CallsMeet, ran])

instance decidableFound {found : Option (Option Nat)} {condition : Nat → Prop}
    [∀ i, Decidable (condition i)] : Decidable (∀ i, found = some (some i) → condition i) :=
  match found with
  | some (some i) => decidable_of_iff (condition i)
      ⟨fun met _ same => by cases same; exact met, fun all => all i rfl⟩
  | some none => isTrue (fun _ same => by cases same)
  | none => isTrue (fun _ same => by cases same)

instance {i : Nat} {spa size : Addr} : Decidable (Enough s i spa size) :=
  inferInstanceAs (Decidable (_ → _ → _))

instance {i : Nat} {spa size : Addr} : Decidable (Neat s i spa size) :=
  inferInstanceAs (Decidable (_ ∨ _))

theorem reaches_iff {request : MapRequest} : s.Reaches request i ↔
    s.findPtebByPhy request.spa = some (some i) ∧ mapSizeValid request.size s.defaultFragment = 0 ∧
      s.guestValid request = some true ∧ s.suits request i = true :=
  ⟨fun ⟨size, guest, found, suits⟩ => ⟨found, size, guest, suits⟩,
    fun ⟨found, size, guest, suits⟩ => ⟨size, guest, found, suits⟩⟩

instance : Decidable (s.OnSpaList i) :=
  match list : entries s.spaLinks spaHead with
  | none => isFalse fun ⟨_, same, _⟩ => by rw [list] at same; cases same
  | some ids => decidable_of_iff (i ∈ ids)
      ⟨fun member => ⟨ids, list, member⟩, fun ⟨_, same, member⟩ => by
        rw [list] at same; cases same; exact member⟩

instance decidableKeepsTiling (s : Table) : (op : Op) → Decidable (KeepsTiling s op)
  | .manualMap request => decidable_of_iff
      (∀ i, s.findPtebByPhy request.spa = some (some i) →
        (mapSizeValid request.size s.defaultFragment = 0 ∧ s.guestValid request = some true ∧
          s.suits request i = true) → (s.block i).type ≠ .tmr →
        request.spa.toNat + request.size.toNat ≤ 2 ^ 64 ∧ Enough s i request.spa request.size)
      ⟨fun all i reaches => all i (reaches_iff.mp reaches).1 (reaches_iff.mp reaches).2,
        fun all i found checks => all i (reaches_iff.mpr ⟨found, checks⟩)⟩
  | .unmapPteb i => inferInstanceAs (Decidable ((s.block i).type = .tmr → ¬ s.OnSpaList i))
  | .unmapBySpa spa => inferInstanceAs
      (Decidable (∀ i, s.findPtebByPhy spa = some (some i) → (s.block i).type ≠ .tmr))
  | .replacePage spa => decidable_of_iff
      (∀ i, s.findPtebByPhy spa = some (some i) → ∀ new, s.findReserved = some (some new) →
        (s.block i).type = .vf → (s.block new).size = pageSize (s.block i).fragment ∧
          Neat s i (pageAlign spa (s.block i).fragment) (pageSize (s.block i).fragment))
      ⟨fun all i new found type reserved => all i found new reserved type,
        fun all i found new reserved type => all i new found type reserved⟩
  | .setup => isTrue trivial
  | .mapEmpty .. => isTrue trivial
  | .invalidateAndUnapplyPteb _ => isTrue trivial
  | .applyPteb _ => isTrue trivial
  | .takeUsable _ => isTrue trivial

def smallAdapter : Table where
  block _ := zeroBlock
  used _ := false
  gpaLinks := ⟨id, id⟩
  spaLinks := ⟨id, id⟩
  badBlockCount := 0
  reservedBlockCount := 0
  totalPhysicalSize := 0
  enabled := true
  defaultFragment := 9
  maxReservedBlock := 1
  shareTmr := true
  tmrSize := 2
  numVf := 2
  maxNumVf := 12
  totalFbAvail := 10
  totalFbUsable := 10
  access _ := true

def smallMap : Call := .manualMap
  { vfIdx := 0
    size := mbytesToBytes 2
    gpa := 0
    spa := mbytesToBytes 4
    permission := permRw
    type := .vf }

/-- The small adapter after `page_table_init` with a TMR of two megabytes. -/
def smallTable : Table :=
  ((pageTableInit 0x200000).exec Table.step smallAdapter.swInit).elim smallAdapter (·.1)

theorem smallTable_initialised {ok : Table → Op → Prop}
    (meets : (pageTableInit 0x200000).Meets Table.step ok smallAdapter.swInit) :
    Initialised ok smallTable := by
  have returns : ((pageTableInit 0x200000).exec Table.step smallAdapter.swInit).isSome := by
    decide +kernel
  obtain ⟨⟨s, resp⟩, ran⟩ := Option.isSome_iff_exists.mp returns
  refine ⟨smallAdapter, 0x200000, resp, ?_, meets⟩
  rw [smallTable, ran]
  rfl

def tableAfter (calls : List Call) : Table := (smallTable.afterCalls calls).getD smallTable

theorem afterCalls_tableAfter {calls : List Call} (returns : (smallTable.afterCalls calls).isSome) :
    smallTable.afterCalls calls = some (tableAfter calls) := by
  obtain ⟨s, done⟩ := Option.isSome_iff_exists.mp returns
  rw [tableAfter, done]
  rfl

theorem tableAfter_run {ok : Table → Op → Prop} {calls : List Call}
    (meets : (pageTableInit 0x200000).Meets Table.step ok smallAdapter.swInit)
    (callsMeet : smallTable.CallsMeet ok calls)
    (returns : (smallTable.afterCalls calls).isSome) :
    Run (Initialised ok) Call.Returns (Call.Meets ok) (tableAfter calls) :=
  run_afterCalls (.start (smallTable_initialised meets)) callsMeet (afterCalls_tableAfter returns)

/-- After any calls whose operations keep the tiling, the physical list is a partition of
the memory. -/
theorem spaList_partition
    (run : Run (Initialised KeepsTiling) Call.Returns (Call.Meets KeepsTiling) s) :
    s.Partition := by
  obtain ⟨ids, sound⟩ := sound_of_run eq_nearness (fun _ _ => KeepsTiling.keeps) run
  exact sound.partition

theorem spaList_partition_small : (tableAfter [smallMap, .unmapByFcn 0 false 3]).Partition :=
  spaList_partition (tableAfter_run (by decide +kernel) (by decide +kernel) (by decide +kernel))

theorem callsMeet_of_forall {ok : Table → Op → Prop} (all : ∀ s op, ok s op) (s : Table)
    (calls : List Call) : s.CallsMeet ok calls := by
  induction calls generalizing s with
  | nil => trivial
  | cons call rest ih =>
    refine ⟨Script.meets_of_forall all call.prog s, ?_⟩
    split
    · trivial
    · exact ih _

theorem tableAfter_always {calls : List Call} (returns : (smallTable.afterCalls calls).isSome) :
    Run (Initialised always) Call.Returns (Call.Meets always) (tableAfter calls) :=
  tableAfter_run (Script.meets_of_forall (fun _ _ => trivial) _ _)
    (callsMeet_of_forall (fun _ _ => trivial) _ _) returns

/-- The page before unassigned memory goes bad: the unmap takes that memory in, and marking
the page bad drops it. -/
theorem replacePage_gap : ∃ s, Run (Initialised always) Call.Returns (Call.Meets always) s ∧
    ¬ s.Partition := by
  refine ⟨tableAfter [smallMap, .replaceBadPages [mbytesToBytes 4]],
    tableAfter_always (by decide +kernel), ?_⟩
  rintro ⟨list, walk, _, _, covers, _⟩
  have blocks : entries (tableAfter [smallMap, .replaceBadPages [mbytesToBytes 4]]).spaLinks
      spaHead = some [0, 2, 3, 1] := by decide +kernel
  rw [blocks] at walk
  cases walk
  have dropped := (covers 0x600000).mp (by decide +kernel)
  revert dropped
  decide +kernel

end MxGpu.Ffbm.Table
