import MxGpu.FfbmPartition

/- Translating guest addresses to physical ones and back, over the two lists of one page table. -/
namespace MxGpu.Ffbm

open RingList Tiling Scripts Transition

namespace Table

/-- `amdgv_ffbm_spa_to_gpa`: the address, and the owner that `*vf_idx` gets if there is one. -/
def spaToGpa (s : Table) (spa : Addr) : Option (Addr × Option Nat) :=
  (s.findPtebByPhy spa).map fun
    | some i => ((s.block i).gpa + (spa - (s.block i).spa), some (s.block i).vfIdx)
    | none => (invalidAddr, none)

/-- What each operation may do for the blocks of the physical list to stay apart: a mapping does
not wrap, a TMR block that is unmapped is not on the physical list, and a bad page is swapped for a
reserved block that has room for it. -/
def KeepsApart (s : Table) : Op → Prop
  | .manualMap request => ∀ i, s.Reaches request i → (s.block i).type ≠ .tmr →
      request.spa.toNat + request.size.toNat ≤ 2 ^ 64
  | .unmapPteb i => (s.block i).type = .tmr → ¬ s.OnSpaList i
  | .unmapBySpa spa => ∀ i, s.findPtebByPhy spa = some (some i) → (s.block i).type ≠ .tmr
  | .replacePage spa => ∀ i new, s.findPtebByPhy spa = some (some i) →
      (s.block i).type = .vf → s.findReserved = some (some new) →
        pageSize (s.block i).fragment ≤ (s.block new).size
  | _ => True

section apart

variable {s : Table} {ids : List Nat} {i j : Nat}

theorem KeepsApart.keeps {op : Op} (apart : KeepsApart s op) : Keeps (· ≤ ·) s op := by
  cases op with
  | manualMap request =>
    intro i reaches type
    exact ⟨apart i reaches type, .inl fun _ _ => id⟩
  | unmapPteb i => exact apart
  | unmapBySpa spa => exact apart
  | replacePage spa =>
    intro i new found type reserved
    have room := BitVec.le_def.mp (apart i new found type reserved)
    exact ⟨Nat.add_le_add_left room _, .inl fun _ _ => id⟩
  | _ => trivial

theorem KeepsTiling.apart {op : Op} (tiling : KeepsTiling s op) : KeepsApart s op := by
  cases op with
  | manualMap request => exact fun i reaches type => (tiling i reaches type).1
  | unmapPteb i => exact tiling
  | unmapBySpa spa => exact tiling
  | replacePage spa =>
    intro i new found type reserved
    rw [(tiling i new found type reserved).1]
    exact Nat.le_refl _
  | _ => trivial

theorem run_weaken {ok ok' : Table → Op → Prop} (weaker : ∀ s op, ok s op → ok' s op)
    (run : Run (Initialised ok) Call.Returns (Call.Meets ok) s) :
    Run (Initialised ok') Call.Returns (Call.Meets ok') s := by
  induction run with
  | start init =>
    obtain ⟨s₀, allocatedTmrSize, resp, ran, meets⟩ := init
    exact .start ⟨s₀, allocatedTmrSize, resp, ran, Script.meets_weaken weaker _ _ meets⟩
  | next call _ met fired ih =>
    exact .next call ih (Script.meets_weaken weaker _ _ met) fired

theorem Sound.only {addr : Addr} (sound : Sound (· ≤ ·) s ids) (memberI : i ∈ ids)
    (memberJ : j ∈ ids) (inI : addrInRange (s.block i).spa (s.block i).size addr = true)
    (inJ : addrInRange (s.block j).spa (s.block j).size addr = true) : i = j := by
  obtain ⟨lowI, highI⟩ := toNat_addrInRange inI
  obtain ⟨lowJ, highJ⟩ := toNat_addrInRange inJ
  have ordered := List.pairwise_map.mp (sound.laid.ordered le_nearness)
  have together : ∀ a ∈ ids, ∀ b ∈ ids, a = b ∨
      (s.block a).spa.toNat + (s.block a).size.toNat ≤ (s.block b).spa.toNat ∨
        (s.block b).spa.toNat + (s.block b).size.toNat ≤ (s.block a).spa.toNat := by
    apply List.Pairwise.forall_of_forall_of_flip
    · exact fun _ _ => .inl rfl
    · exact ordered.imp fun before => .inr (.inl before)
    · exact ordered.imp fun before => .inr (.inr before)
  rcases together i memberI j memberJ with same | before | before
  · exact same
  · omega
  · omega

theorem Sound.findPtebByPhy_eq {addr : Addr} (sound : Sound (· ≤ ·) s ids) (member : i ∈ ids)
    (inside : addrInRange (s.block i).spa (s.block i).size addr = true) :
    s.findPtebByPhy addr = some (some i) := by
  rw [Table.findPtebByPhy, sound.find]
  cases search : ids.find? fun i => addrInRange (s.block i).spa (s.block i).size addr with
  | none => exact absurd inside (List.find?_eq_none.mp search i member)
  | some j =>
    have insideJ : addrInRange (s.block j).spa (s.block j).size addr = true := by
      simpa using List.find?_some search
    rw [sound.only member (List.mem_of_find?_eq_some search) inside insideJ]

theorem addrInRange_offset {start size addr start' : Addr}
    (inside : addrInRange start size addr = true)
    (wraps : start'.toNat + size.toNat < 2 ^ 64) :
    addrInRange start' size (start' + (addr - start)) = true := by
  obtain ⟨low, high⟩ := toNat_addrInRange inside
  rw [addrInRange_iff]
  bv_omega

theorem Sound.spaToGpa_gpaToSpa {v : Nat} {gpa : Addr} (sound : Sound (· ≤ ·) s ids)
    (found : s.findPtebByFfbm gpa v = some (some i)) (type : (s.block i).type = .vf)
    (inside : addrInRange (s.block i).gpa (s.block i).size gpa = true) :
    (s.gpaToSpa gpa v).bind s.spaToGpa = some (gpa, some (s.block i).vfIdx) := by
  have member := sound.vf i type
  have wraps := sound.memory le_nearness member
  rw [gpaToSpa, found, Option.map_some, Option.bind_some, spaToGpa,
    sound.findPtebByPhy_eq member (addrInRange_offset inside wraps), Option.map_some]
  have back : (s.block i).gpa + ((s.block i).spa + (gpa - (s.block i).gpa) - (s.block i).spa) =
      gpa := by
    generalize (s.block i).gpa = a
    generalize (s.block i).spa = b
    bv_omega
  dsimp only
  rw [back]

theorem walk_stops {links : Links Node} {stop : Node → Bool} {head node last : Node} {fuel : Nat}
    (walked : links.walk stop head fuel node = some last) : last = head ∨ stop last = true := by
  induction fuel generalizing node with
  | zero => cases walked
  | succ fuel ih =>
    rw [Links.walk] at walked
    split at walked
    · cases walked
      exact .inl rfl
    · split at walked
      next stops =>
        cases walked
        exact .inr stops
      · exact ih walked

theorem findPtebByFfbm_inside {v : Nat} {gpa : Addr}
    (found : s.findPtebByFfbm gpa v = some (some i)) :
    addrInRange (s.block i).gpa (s.block i).size gpa = true := by
  rw [findPtebByFfbm, findBlock] at found
  split at found
  next k walked =>
    cases found
    rw [walkList] at walked
    split at walked
    next m reached =>
      cases walked
      rcases walk_stops reached with same | stops
      · cases same
      · exact stops
    next m reached =>
      split at walked
      · cases walked
      · cases walked
    · cases walked
  · cases found
  · cases found

end apart

end Table

end MxGpu.Ffbm
