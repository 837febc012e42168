import MxGpu.MemmgrDown
import MxGpu.MemmgrTags

/- A manager that grows up, as the one of the frame buffer of the host: its blocks
start aligned. -/
namespace MxGpu.Fb

open AlignUp Tiling Transition

/-- The list is sorted, its ranges are disjoint, aligned and in the manager's range,
and the top of memory is the end of the last one. -/
structure Row (memmgr : Memmgr) : Prop where
  sorted : memmgr.allocs.Pairwise fun a b => a.allocOff ≤ b.allocOff
  ranges : Ranges memmgr
  aligned : ∀ mem ∈ memmgr.allocs, mem.align.toNat ∣ mem.allocOff.toNat - mem.len.toNat
  empty : memmgr.allocs = [] → memmgr.tom = memmgr.offset
  attained : memmgr.allocs ≠ [] → ∃ mem ∈ memmgr.allocs, mem.allocOff = memmgr.tom
  largest : ∀ mem ∈ memmgr.allocs, mem.allocOff ≤ memmgr.tom

def PfCall (s : Adapt) : Op → Prop
  | .allocAlign _ _ align _ => ∃ k, align.toNat = 2 ^ k
  | .allocAlignAt _ offset _ _ => s.memmgr.offset ≤ offset
  | _ => True

/-- No sum wraps in looking for `len` bytes. -/
def NoWrap (memmgr : Memmgr) (len align : Addr) : Prop :=
  alignUp memmgr.tom.toNat align.toNat + len.toNat < 2 ^ 64

/-- What a fixed place has to meet: it is below 4 GiB, where the 32-bit alignment of
`amdgv_memmgr_alloc_align_at` rounds it. -/
structure AtFits (memmgr : Memmgr) (offset len : Addr) : Prop where
  shift : memmgr.align.toNat < 32
  low : offset.toNat + (2 ^ memmgr.align.toNat - 1) < 2 ^ 32
  noWrap : alignUp offset.toNat (2 ^ memmgr.align.toNat) + len.toNat < 2 ^ 64

/-- What the place of a deferred allocation has to meet: its alignment and the gap it is
put into are below 4 GiB, where the 32-bit alignment of
`amdgv_memmgr_assign_reserved_region` rounds it. -/
structure TurnFits (memmgr : Memmgr) (reserved : Mem) : Prop where
  align : reserved.align.toNat < 2 ^ 32
  noWrap : NoWrap memmgr reserved.len reserved.align
  low : ∀ before after, memmgr.allocs = before ++ after →
    FirstFit reserved.len.toNat reserved.align.toNat memmgr.headOff before after →
      (endOf memmgr.headOff before).toNat + (reserved.align.toNat - 1) < 2 ^ 32

def KeepsRow (s : Adapt) : Op → Prop
  | .allocAlign env len align id =>
    ∀ mems tag, s.Searches env id mems tag → NoWrap s.memmgr len align
  | .allocAlignAt env offset len id =>
    ¬env.noMemory → ∀ mems tag, memIdAdd s.mems id = (mems, some tag) →
      AtFits s.memmgr offset len
  | .deferredTurn => ∀ first rest, s.memmgr.reserves = first :: rest → TurnFits s.memmgr first
  | .allocAndReplace env handle replaceType =>
    ∀ memOld, s.mem? handle = some memOld →
      ∀ mems tag, s.Searches env replaceType mems tag → NoWrap s.memmgr memOld.len memOld.align
  | .free handle => TopFits s.memmgr handle

def Renews (s : Adapt) : Op → Prop
  | .allocAndReplace env _ replaceType => env.skipHwInit → ¬alwaysAllocNew replaceType →
    ∀ mems tag, memIdAdd s.mems replaceType = (mems, some tag) →
      findMemId s.memmgr.allocs tag = none
  | _ => True

structure UpSound (s : Adapt) : Prop where
  sound : Sound s.memmgr
  aligned : ∀ mem ∈ s.memmgr.allocs, mem.align.toNat ∣ mem.start
  powers : ∀ mem ∈ s.memmgr.known, ∃ k, mem.align.toNat = 2 ^ k
  parked : Parked s.memmgr
  up : s.memmgr.down = false
  inited : s.memmgr.isInit = true
  handles : Handles s.memmgr.known s.nextMem

variable {s : Adapt} {memmgr : Memmgr} {len align addr offset : Addr} {before after : List Mem}
  {k : Nat} {new : Mem} {aligned : Addr → Addr}

theorem endOf_mem {first : Addr} {allocs : List Mem} (h : allocs ≠ []) :
    ∃ mem ∈ allocs, mem.allocOff = endOf first allocs := by
  induction allocs generalizing first with
  | nil => exact absurd rfl h
  | cons alloc rest ih =>
    cases rest with
    | nil => exact ⟨alloc, List.mem_cons_self .., rfl⟩
    | cons next others =>
      have hrest : ∃ mem ∈ next :: others, mem.allocOff = endOf alloc.allocOff (next :: others) :=
        ih (List.cons_ne_nil _ _)
      obtain ⟨mem, hmem, heq⟩ := hrest
      exact ⟨mem, List.mem_cons_of_mem _ hmem, heq⟩

theorem UpSound.row (h : UpSound s) : Row s.memmgr := by
  have hsound := h.sound
  refine ⟨?_, hsound.ranges, ?_, ?_, ?_, ?_⟩
  · have hordered := hsound.laid.ordered le_nearness
    rw [List.pairwise_map] at hordered
    apply hordered.imp_of_mem
    intro a b ha hb hab
    have hsa := (hsound.sized a ha).start_add
    have hsb := (hsound.sized b hb).start_add
    have hle : a.start + a.len.toNat ≤ b.start := hab
    rw [BitVec.le_def]
    omega
  · intro mem hmem
    have hsz := (hsound.sized mem hmem).start_add
    have hdvd := h.aligned mem hmem
    rwa [show mem.allocOff.toNat - mem.len.toNat = mem.start by omega]
  · intro hnil
    rw [← hsound.top, hnil, ← hsound.head]
    rfl
  · intro hne
    rw [← hsound.top]
    exact endOf_mem hne
  · intro mem hmem
    have hsz := (hsound.sized mem hmem).start_add
    have hspan := (hsound.laid.bounds le_nearness (List.mem_map_of_mem hmem)).2
    have hle : mem.start + mem.len.toNat ≤ s.memmgr.tom.toNat := hspan
    rw [BitVec.le_def]
    omega

theorem FirstFit.room {first : Addr} {a n : Nat} {alloc : Mem} {rest : List Mem}
    (h : FirstFit n a first before (alloc :: rest)) :
    alignUp (endOf first before).toNat a + n < alloc.start := by
  generalize hafter : alloc :: rest = after at h
  induction h with
  | last first => cases hafter
  | here first alloc rest room =>
    cases hafter
    exact room
  | later first alloc before after full rest ih => exact ih hafter

theorem Sound.reserves (h : Sound memmgr) (reserves : List Mem) (count : Int) :
    Sound { memmgr with reserves := reserves, reserveCount := count } :=
  ⟨h.sized, h.laid, h.top, h.head, h.bounded⟩

theorem place_reserves (reserves : List Mem) (count : Int) :
    Memmgr.place { memmgr with reserves := reserves, reserveCount := count } len align aligned =
      memmgr.place len align aligned := rfl

theorem Sound.placed_up (h : Sound memmgr) (hup : memmgr.down = false)
    (ha : align.toNat = 2 ^ k) (hwrap : NoWrap memmgr len align)
    (hplace : memmgr.place len align aligned = some (before, addr, after))
    (haligned : (aligned (endOf memmgr.headOff before)).toNat =
      alignUp (endOf memmgr.headOff before).toNat (2 ^ k))
    (new : Mem) (hoff : new.allocOff = addr + len) (hlen : new.len = len) :
    Sound (memmgr.insert before new after) ∧ 2 ^ k ∣ new.start := by
  unfold NoWrap at hwrap
  rw [ha] at hwrap
  obtain ⟨hsplit, hfirst, hcheck, haddr⟩ := h.place_some ha hwrap hplace
  rw [hup, if_neg (by decide)] at haddr
  have hpos := Nat.two_pow_pos k
  have hlaid := h.laid
  rw [hsplit] at hlaid
  obtain ⟨-, hafter⟩ := laid_split (fun m hm => h.sized m (by simp [hsplit, hm])) hlaid
  have hbelow := hafter.le le_nearness
  generalize hprev : endOf memmgr.headOff before = q at hcheck haddr haligned hbelow
  have hq := alignUp_mono (a := 2 ^ k) hbelow
  have hle := le_alignUp q.toNat hpos
  have haddr' : addr.toNat = alignUp q.toNat (2 ^ k) := by
    rw [haddr, haligned]
  have hend : new.allocOff.toNat = alignUp q.toNat (2 ^ k) + len.toNat := by
    rw [hoff, BitVec.toNat_add, haddr', Nat.mod_eq_of_lt (by omega)]
  have hnew : new.Sized := by
    unfold Mem.Sized
    rw [hend, hlen]
    omega
  have hstart := hnew.start_add
  rw [hend, hlen] at hstart
  refine ⟨h.insert hsplit hnew ?_ ?_ ?_, ?_⟩
  · rw [hprev]
    omega
  · intro alloc rest hcons
    rw [hcons] at hfirst
    have hroom := hfirst.room
    rw [hprev] at hroom
    omega
  · intro hnil
    have hc := hcheck hnil
    have hwrapped := Nat.mod_le (memmgr.offset.toNat + memmgr.size.toNat) (2 ^ 64)
    rw [← BitVec.toNat_add] at hwrapped
    rw [BitVec.toNat_add, haligned, Nat.mod_eq_of_lt (by omega)] at hc
    omega
  · rw [show new.start = alignUp q.toNat (2 ^ k) by omega]
    exact dvd_alignUp _ _

theorem passed_some {alloc : Mem} {found : Option (List Mem × List Mem)}
    (h : found.map (passed alloc) = some (before, after)) :
    ∃ front, found = some (front, after) ∧ before = alloc :: front := by
  obtain ⟨⟨front, back⟩, hfound, heq⟩ := Option.map_eq_some_iff.mp h
  cases heq
  exact ⟨front, hfound, rfl⟩

theorem findSizeAtFrom_some {size tom first : Addr} {allocs : List Mem}
    (hwrap : tom.toNat + size.toNat < 2 ^ 64) (hfirst : first.toNat ≤ tom.toNat)
    (h : findSizeAtFrom size tom allocs = some (before, after)) :
    allocs = before ++ after ∧ (endOf first before).toNat ≤ tom.toNat ∧
      ∀ alloc rest, after = alloc :: rest → tom.toNat + size.toNat ≤ alloc.start := by
  have hsum : (tom + size).toNat = tom.toNat + size.toNat := by
    rw [BitVec.toNat_add, Nat.mod_eq_of_lt hwrap]
  induction allocs generalizing first before with
  | nil =>
    cases h
    exact ⟨rfl, hfirst, nofun⟩
  | cons alloc rest ih =>
    unfold findSizeAtFrom at h
    simp only [gt_iff_lt, ge_iff_le, BitVec.lt_def, BitVec.le_def, hsum] at h
    split at h
    · next hskip =>
      obtain ⟨front, hrest, rfl⟩ := passed_some h
      obtain ⟨hsplit, hlow, hhigh⟩ := ih hskip.le hrest
      exact ⟨congrArg (alloc :: ·) hsplit, hlow, hhigh⟩
    · split at h
      · cases h
      · next hclear =>
        split at h
        · next hroom =>
          cases h
          refine ⟨rfl, hfirst, ?_⟩
          intro other others hcons
          cases hcons
          exact hroom
        · next hshort =>
          -- the entry ends where the block starts
          obtain ⟨front, hrest, rfl⟩ := passed_some h
          have hends : alloc.allocOff.toNat ≤ tom.toNat := by omega
          obtain ⟨hsplit, hlow, hhigh⟩ := ih hends hrest
          exact ⟨congrArg (alloc :: ·) hsplit, hlow, hhigh⟩

theorem Sound.placed_at (h : Sound memmgr) {align : BitVec 32}
    (halign : align = ((1 : Addr) <<< memmgr.align).setWidth 32)
    (hfits : AtFits memmgr offset len) (hoffset : memmgr.offset ≤ offset)
    (hinside : memmgr.exceeds (align32 offset align) len = false)
    (hroom : memmgr.findSizeAt offset len (align.setWidth 64) = some (before, after))
    (new : Mem) (hoff : new.allocOff = align32 offset align + len) (hlen : new.len = len)
    (hnewAlign : new.align = align.setWidth 64) :
    Sound (memmgr.insert before new after) ∧ memmgr.allocs = before ++ after ∧
      new.align.toNat = 2 ^ memmgr.align.toNat ∧ new.align.toNat ∣ new.start := by
  obtain ⟨hshift, hlow, hwrap⟩ := hfits
  have hpos := Nat.two_pow_pos memmgr.align.toNat
  have hpow : 2 ^ memmgr.align.toNat < 2 ^ 32 := Nat.pow_lt_pow_right (by decide) hshift
  have ha : align.toNat = 2 ^ memmgr.align.toNat := by
    rw [halign, BitVec.toNat_setWidth, BitVec.shiftLeft_eq', BitVec.toNat_shiftLeft,
      Nat.shiftLeft_eq]
    show 1 * 2 ^ memmgr.align.toNat % 2 ^ 64 % 2 ^ 32 = _
    rw [Nat.one_mul]
    omega
  have hwide : (align.setWidth 64).toNat = 2 ^ memmgr.align.toNat := by
    rw [BitVec.toNat_setWidth, ha, Nat.mod_eq_of_lt (by omega)]
  have hplace := align32_toNat ha hlow
  have htom : (align64 offset (align.setWidth 64)).toNat =
      alignUp offset.toNat (2 ^ memmgr.align.toNat) := align64_toNat hwide (by omega)
  have hle := le_alignUp offset.toNat hpos
  have hhead : memmgr.headOff.toNat ≤ (align64 offset (align.setWidth 64)).toNat := by
    rw [htom, h.head]
    exact (BitVec.le_def.mp hoffset).trans hle
  obtain ⟨hsplit, hbefore, hafter⟩ := findSizeAtFrom_some (by rw [htom]; exact hwrap) hhead hroom
  have hend : new.allocOff.toNat =
      alignUp offset.toNat (2 ^ memmgr.align.toNat) + len.toNat := by
    rw [hoff, BitVec.toNat_add, hplace, Nat.mod_eq_of_lt hwrap]
  have hnew : new.Sized := by
    unfold Mem.Sized
    rw [hend, hlen]
    omega
  have hstart := hnew.start_add
  rw [hend, hlen] at hstart
  rw [htom] at hbefore hafter
  refine ⟨h.insert hsplit hnew ?_ ?_ ?_, hsplit, ?_, ?_⟩
  · omega
  · intro alloc rest hcons
    have := hafter alloc rest hcons
    omega
  · intro _
    have hin : ¬memmgr.offset + memmgr.size < align32 offset align + len := by
      simpa [Memmgr.exceeds] using hinside
    have hwrapped := Nat.mod_le (memmgr.offset.toNat + memmgr.size.toNat) (2 ^ 64)
    rw [← BitVec.toNat_add] at hwrapped
    rw [BitVec.lt_def, BitVec.toNat_add (align32 offset align), hplace,
      Nat.mod_eq_of_lt hwrap] at hin
    omega
  · rw [hnewAlign, hwide]
  · rw [hnewAlign, hwide, show new.start = alignUp offset.toNat (2 ^ memmgr.align.toNat) by omega]
    exact dvd_alignUp _ _

theorem UpSound.unchanged (h : UpSound s) (mems : List MemWithBitmap) :
    UpSound { s with mems } :=
  ⟨h.sound, h.aligned, h.powers, h.parked, h.up, h.inited, h.handles⟩

theorem UpSound.insertAs (h : UpSound s) (hsplit : s.memmgr.allocs = before ++ after)
    (hsound : Sound (s.memmgr.insert before new after)) (hdvd : new.align.toNat ∣ new.start)
    (hpow : ∃ k, new.align.toNat = 2 ^ k) {nextMem : Nat}
    (hhandles : Handles (new :: s.memmgr.known) nextMem) (mems : List MemWithBitmap) :
    UpSound { mems, memmgr := s.memmgr.insert before new after, nextMem } := by
  have hperm := insert_known s.memmgr before new after hsplit
  refine ⟨hsound, ?_, ?_, h.parked, h.up, h.inited, hhandles.congr (hperm.map _)⟩
  · intro m hm
    rcases List.mem_append.mp hm with hm | hm
    · exact h.aligned m (by simp [hsplit, hm])
    · rcases List.mem_cons.mp hm with rfl | hm
      · exact hdvd
      · exact h.aligned m (by simp [hsplit, hm])
  · intro m hm
    rcases List.mem_cons.mp (hperm.mem_iff.mp hm) with rfl | hm
    · exact hpow
    · exact h.powers m hm

theorem UpSound.insert (h : UpSound s) (hsplit : s.memmgr.allocs = before ++ after)
    (hsound : Sound (s.memmgr.insert before new after)) (hdvd : new.align.toNat ∣ new.start)
    (hpow : ∃ k, new.align.toNat = 2 ^ k) (hhandle : new.handle = s.nextMem)
    (mems : List MemWithBitmap) :
    UpSound { mems, memmgr := s.memmgr.insert before new after, nextMem := s.nextMem + 1 } :=
  h.insertAs hsplit hsound hdvd hpow (h.handles.add hhandle) mems

theorem UpSound.allocates (h : UpSound s) {env : Env} {id : MemId} {s' : Adapt}
    {mem : Option Mem} (ha : ∃ k, align.toNat = 2 ^ k)
    (hfits : ∀ mems tag, s.Searches env id mems tag → NoWrap s.memmgr len align)
    (hall : Allocates s env len align id s' mem) : UpSound s' := by
  cases hall with
  | refused mems _ => exact h.unchanged mems
  | failed mems tag _ => exact h.unchanged mems
  | known mems tag mem _ _ _ => exact h.unchanged mems
  | deferred mems tag _ _ =>
    have hperm := known_deferred s.memmgr (s.newMem 0 len align tag)
    refine ⟨h.sound.reserves _ _, h.aligned, ?_, ?_, h.up, h.inited, ?_⟩
    · intro m hm
      rcases List.mem_cons.mp (hperm.mem_iff.mp hm) with rfl | hm
      · exact ha
      · exact h.powers m hm
    · intro m hm
      rcases List.mem_cons.mp ((insertReserve_perm _ _).mem_iff.mp hm) with rfl | hm
      · rfl
      · exact h.parked m hm
    · exact (h.handles.add rfl).congr (hperm.map _)
  | placed mems tag before addr after searches place =>
    obtain ⟨k, hk⟩ := ha
    have hwrap := hfits mems tag searches
    have hroom : alignUp s.memmgr.tom.toNat (2 ^ k) + len.toNat < 2 ^ 64 := by
      rw [← hk]
      exact hwrap
    have hsplit := (h.sound.place_some hk hroom place).1
    have hlaid := h.sound.laid
    rw [hsplit] at hlaid
    obtain ⟨-, hafter⟩ := laid_split (fun m hm => h.sound.sized m (by simp [hsplit, hm])) hlaid
    have hmono := alignUp_mono (a := 2 ^ k) (hafter.le le_nearness)
    have haligned := align64_toNat (x := endOf s.memmgr.headOff before) hk (by omega)
    have hnew := h.sound.placed_up h.up hk hwrap place haligned
      (s.newMem (addr + len) len align tag) rfl rfl
    obtain ⟨hsound, hdvd⟩ := hnew
    exact h.insert hsplit hsound (by rw [← hk] at hdvd; exact hdvd) ⟨k, hk⟩ rfl mems

theorem UpSound.allocatesAt (h : UpSound s) {env : Env} {id : MemId} {s' : Adapt}
    (hoffset : s.memmgr.offset ≤ offset)
    (hfits : ¬env.noMemory → ∀ mems tag, memIdAdd s.mems id = (mems, some tag) →
      AtFits s.memmgr offset len)
    (hall : AllocatesAt s env offset len id s') : UpSound s' := by
  cases hall with
  | refused mems _ => exact h.unchanged mems
  | failed mems tag _ => exact h.unchanged mems
  | placed mems tag align addr before after memory shift numbered inside room start =>
    have hfit := hfits memory mems tag numbered
    rw [h.up, if_neg (by decide)] at start
    have hoff : addr + len = align32 offset align + len := by rw [start]
    obtain ⟨hsound, hsplit, hpow, hdvd⟩ := h.sound.placed_at shift hfit hoffset inside room
      (s.newMem (addr + len) len (align.setWidth 64) tag) hoff rfl rfl
    exact h.insert hsplit hsound hdvd ⟨_, hpow⟩ rfl mems

theorem UpSound.frees (h : UpSound s) {handle : Nat} {s' : Adapt}
    (htop : TopFits s.memmgr handle) (hfree : Frees s handle s') : UpSound s' := by
  have hsound := hfree.sound h.sound h.parked htop
  cases hfree with
  | unknown => exact h
  | live before mem after split _ =>
    have hperm := known_live split
    refine ⟨hsound, ?_, ?_, h.parked, h.up, h.inited, ?_⟩
    · intro m hm
      apply h.aligned m
      rw [split]
      rcases List.mem_append.mp hm with hm | hm <;> simp [hm]
    · intro m hm
      exact h.powers m (hperm.mem_iff.mpr (List.mem_cons_of_mem _ hm))
    · exact (h.handles.congr (hperm.map _).symm).tail
  | reserved before mem after split _ =>
    have hperm := known_reserved split
    refine ⟨hsound, h.aligned, ?_, ?_, h.up, h.inited, ?_⟩
    · intro m hm
      exact h.powers m (hperm.mem_iff.mpr (List.mem_cons_of_mem _ hm))
    · intro m hm
      apply h.parked m
      rw [split]
      rcases List.mem_append.mp hm with hm | hm <;> simp [hm]
    · exact (h.handles.congr (hperm.map _).symm).tail

theorem UpSound.turn_search (h : UpSound s) {first : Mem} {rest : List Mem}
    (hfirst : s.memmgr.reserves = first :: rest) (hfits : TurnFits s.memmgr first) :
    ∃ k, first.align.toNat = 2 ^ k ∧ (first.align.setWidth 32).toNat = 2 ^ k ∧
      ((first.align.setWidth 32).setWidth 64).toNat = 2 ^ k ∧
      alignUp s.memmgr.tom.toNat (2 ^ k) + first.len.toNat < 2 ^ 64 := by
  obtain ⟨k, hk⟩ := h.powers first (by simp [Memmgr.known, hfirst])
  have hshort : (first.align.setWidth 32).toNat = 2 ^ k := by
    rw [BitVec.toNat_setWidth, Nat.mod_eq_of_lt hfits.align, hk]
  refine ⟨k, hk, hshort, ?_, ?_⟩
  · rw [BitVec.toNat_setWidth, hshort]
    omega
  · rw [← hk]
    exact hfits.noWrap

theorem UpSound.turns (h : UpSound s) {first : Mem} {rest : List Mem} {s' : Adapt}
    (hfirst : s.memmgr.reserves = first :: rest) (hfits : TurnFits s.memmgr first)
    (hturn : Turns s first s') : UpSound s' := by
  cases hturn with
  | failed => exact h
  | placed before addr after place =>
    obtain ⟨k, hk, hshort, hwide, hroom⟩ := h.turn_search hfirst hfits
    obtain ⟨hsplit, hfit, -, -⟩ := h.sound.place_some hwide hroom place
    have hq := hfits.low before after hsplit (by rw [hk]; exact hfit)
    rw [hk] at hq
    rw [filter_first h.handles hfirst]
    have hbase := h.sound.reserves rest (s.memmgr.reserveCount - 1)
    have hwrap' : NoWrap { s.memmgr with reserves := rest, reserveCount := s.memmgr.reserveCount - 1 }
        first.len
        ((first.align.setWidth 32).setWidth 64) := by
      unfold NoWrap
      rw [hwide]
      exact hroom
    rw [← place_reserves rest (s.memmgr.reserveCount - 1)] at place
    have hnew := hbase.placed_up h.up hwide hwrap' place (align32_toNat hshort hq)
      { first with allocOff := addr + first.len } rfl rfl
    obtain ⟨hsound, hdvd⟩ := hnew
    have hperm := known_placed Mem.handle hsplit hfirst
      (show Mem.handle { first with allocOff := addr + first.len } = first.handle from rfl)
    refine ⟨hsound, ?_, ?_, ?_, h.up, h.inited, h.handles.congr hperm⟩
    · intro m hm
      rcases List.mem_append.mp hm with hm | hm
      · exact h.aligned m (by simp [hsplit, hm])
      · rcases List.mem_cons.mp hm with rfl | hm
        · show first.align.toNat ∣ _
          rw [hk]
          exact hdvd
        · exact h.aligned m (by simp [hsplit, hm])
    · intro m hm
      rcases List.mem_append.mp hm with hm | hm
      · rcases List.mem_append.mp hm with hm | hm
        · exact h.powers m (by simp [Memmgr.known, hsplit, hm])
        · rcases List.mem_cons.mp hm with rfl | hm
          · exact ⟨k, hk⟩
          · exact h.powers m (by simp [Memmgr.known, hsplit, hm])
      · exact h.powers m (by simp [Memmgr.known, hfirst, show m ∈ rest from hm])
    · intro m hm
      exact h.parked m (by simp [hfirst, show m ∈ rest from hm])

theorem UpSound.exchange (h : UpSound s) {memOld memNew : Mem} (hold : memOld ∈ s.memmgr.known)
    (hnew : memNew ∈ s.memmgr.known) (hlen : memNew.len = memOld.len)
    (halign : memNew.align = memOld.align) :
    UpSound { s with memmgr := { s.memmgr with
      allocs := s.memmgr.allocs.map (exchange memOld memNew)
      reserves := s.memmgr.reserves.map (exchange memOld memNew) } } := by
  have hsame : ∀ m ∈ s.memmgr.known, _ := fun m hm =>
    exchange_same h.handles hold hnew hlen halign hm
  have hstart : ∀ m ∈ s.memmgr.known, (Fb.exchange memOld memNew m).start = m.start := by
    intro m hm
    unfold Mem.start
    rw [(hsame m hm).1, (hsame m hm).2.1]
  have halloc : ∀ m ∈ s.memmgr.allocs, m ∈ s.memmgr.known := fun m hm =>
    List.mem_append_left _ hm
  have hspans : (s.memmgr.allocs.map (Fb.exchange memOld memNew)).map Mem.span =
      s.memmgr.allocs.map Mem.span := by
    rw [List.map_map]
    apply List.map_congr_left
    intro m hm
    simp only [Function.comp_apply, Mem.span, hstart m (halloc m hm), (hsame m (halloc m hm)).2.1]
  have hend : ∀ (allocs : List Mem) (first : Addr), (∀ m ∈ allocs, m ∈ s.memmgr.known) →
      endOf first (allocs.map (Fb.exchange memOld memNew)) = endOf first allocs := by
    intro allocs
    induction allocs with
    | nil => intros; rfl
    | cons alloc rest ih =>
      intro first hin
      rw [List.map_cons, endOf, endOf, (hsame alloc (hin alloc (List.mem_cons_self ..))).1]
      exact ih _ fun m hm => hin m (List.mem_cons_of_mem _ hm)
  have hsound := h.sound
  refine ⟨⟨?_, ?_, ?_, hsound.head, ?_⟩, ?_, ?_, ?_, h.up, h.inited, ?_⟩
  · intro m hm
    obtain ⟨e, he, rfl⟩ := List.mem_map.mp hm
    have hsz := hsound.sized e he
    unfold Mem.Sized at hsz ⊢
    rw [(hsame e (halloc e he)).1, (hsame e (halloc e he)).2.1]
    exact hsz
  · show Laid _ ((s.memmgr.allocs.map _).map Mem.span) _ _
    rw [hspans]
    exact hsound.laid
  · exact (hend _ _ halloc).trans hsound.top
  · intro hne
    exact hsound.bounded fun hnil => hne (by simp [hnil])
  · intro m hm
    obtain ⟨e, he, rfl⟩ := List.mem_map.mp hm
    rw [hstart e (halloc e he), (hsame e (halloc e he)).2.2]
    exact h.aligned e he
  · intro m hm
    have hm' : m ∈ s.memmgr.known.map (Fb.exchange memOld memNew) := by
      rw [Memmgr.known, List.map_append]
      exact hm
    obtain ⟨e, he, rfl⟩ := List.mem_map.mp hm'
    rw [(hsame e he).2.2]
    exact h.powers e he
  · intro m hm
    obtain ⟨e, he, rfl⟩ := List.mem_map.mp hm
    rw [(hsame e (List.mem_append_right _ he)).1]
    exact h.parked e he
  · have hmap : s.memmgr.allocs.map (Fb.exchange memOld memNew) ++
        s.memmgr.reserves.map (Fb.exchange memOld memNew) =
          s.memmgr.known.map (Fb.exchange memOld memNew) := by
      rw [Memmgr.known, List.map_append]
    show Handles (s.memmgr.allocs.map _ ++ s.memmgr.reserves.map _) _
    rw [hmap]
    exact h.handles.exchange hold hnew

theorem Allocates.fresh {env : Env} {id : MemId} {s' : Adapt} {mem : Mem} (h : UpSound s)
    (ha : ∃ k, align.toNat = 2 ^ k)
    (hfits : ∀ mems tag, s.Searches env id mems tag → NoWrap s.memmgr len align)
    (hrenews : env.skipHwInit → ¬alwaysAllocNew id → ∀ mems tag,
      memIdAdd s.mems id = (mems, some tag) → findMemId s.memmgr.allocs tag = none)
    (hall : Allocates s env len align id s' (some mem)) :
    mem.len = len ∧ mem.align = align ∧ mem.handle = s.nextMem ∧ s'.nextMem = s.nextMem + 1 ∧
      memIdAdd s.mems id = (s'.mems, some mem.tag) ∧
        s'.memmgr.known.Perm (mem :: s.memmgr.known) := by
  cases hall with
  | deferred mems tag _ numbered =>
    exact ⟨rfl, rfl, rfl, rfl, numbered, known_deferred s.memmgr _⟩
  | known mems tag mem numbered update found =>
    have hnone := hrenews update.1 update.2 mems tag numbered
    rw [hnone] at found
    cases found
  | placed mems tag before addr after searches place =>
    obtain ⟨k, hk⟩ := ha
    have hroom : alignUp s.memmgr.tom.toNat (2 ^ k) + len.toNat < 2 ^ 64 := by
      rw [← hk]
      exact hfits mems tag searches
    have hsplit := (h.sound.place_some hk hroom place).1
    exact ⟨rfl, rfl, rfl, rfl, searches.numbered, insert_known _ _ _ _ hsplit⟩

theorem UpSound.step (h : UpSound s) {op : Op} (hcall : PfCall s op) (hkeeps : KeepsRow s op)
    (hrenews : Renews s op) : UpSound (s.step op) := by
  cases op with
  | allocAlign env len align id =>
    exact h.allocates hcall hkeeps (allocAlign_allocates env len align id h.inited)
  | allocAlignAt env offset len id => exact h.allocatesAt hcall hkeeps allocAlignAt_allocates
  | deferredTurn =>
    rcases deferredTurn_step s with hsame | ⟨first, rest, hfirst, hturn⟩
    · rw [hsame]
      exact h
    · exact h.turns hfirst (hkeeps first rest hfirst) hturn
  | allocAndReplace env handle replaceType =>
    have hrep : Replaces s env handle replaceType (s.step (.allocAndReplace env handle _)) :=
      allocAndReplace_replaces h.inited
    generalize s.step (.allocAndReplace env handle replaceType) = after at hrep
    cases hrep with
    | unknown => exact h
    | failed memOld after found hall =>
      exact h.allocates (h.powers memOld (mem?_some found)) (hkeeps memOld found) hall
    | swapped memOld memNew after found hall =>
      have hin := mem?_some found
      have hpow := h.powers memOld hin
      have hnext := h.allocates hpow (hkeeps memOld found) hall
      obtain ⟨hlen, halign, -, -, -, hperm⟩ := hall.fresh h hpow (hkeeps memOld found) hrenews
      exact hnext.exchange (hperm.mem_iff.mpr (List.mem_cons_of_mem _ hin))
        (hperm.mem_iff.mpr (List.mem_cons_self ..)) hlen halign
  | free handle => exact h.frees hkeeps free_frees

def Adapt.Tagged (s : Adapt) : Prop := Fb.Tagged s.memmgr.known s.mems

theorem Adapt.Tagged.allocates (htags : s.Tagged) (h : UpSound s) {env : Env} {id : MemId}
    {s' : Adapt} {mem : Option Mem} (ha : ∃ k, align.toNat = 2 ^ k)
    (hfits : ∀ mems tag, s.Searches env id mems tag → NoWrap s.memmgr len align)
    (hall : Allocates s env len align id s' mem) : s'.Tagged := by
  cases hall with
  | refused mems same => exact htags.weaken fun tag hset => (same tag).trans hset
  | failed mems tag numbered => exact htags.numberedMore numbered
  | known mems tag mem numbered _ _ => exact htags.numberedMore numbered
  | deferred mems tag later numbered =>
    exact (htags.add numbered (s.newMem 0 len align tag) rfl).congr ((known_deferred s.memmgr _).map _)
  | placed mems tag before addr after searches place =>
    obtain ⟨k, hk⟩ := ha
    have hroom : alignUp s.memmgr.tom.toNat (2 ^ k) + len.toNat < 2 ^ 64 := by
      rw [← hk]
      exact hfits mems tag searches
    have hsplit := (h.sound.place_some hk hroom place).1
    exact (htags.add searches.numbered (s.newMem (addr + len) len align tag) rfl).congr
      ((insert_known _ _ _ _ hsplit).map _)

theorem Adapt.Tagged.renews (htags : s.Tagged) (op : Op) : Renews s op := by
  cases op with
  | allocAndReplace env handle replaceType =>
    intro _ _ mems tag hadd
    apply List.find?_eq_none.mpr
    intro m hm
    simpa using htags.fresh hadd m (List.mem_append_left _ hm)
  | _ => trivial

theorem Adapt.Tagged.step (htags : s.Tagged) (h : UpSound s) {op : Op} (hcall : PfCall s op)
    (hkeeps : KeepsRow s op) : (s.step op).Tagged := by
  cases op with
  | allocAlign env len align id =>
    exact htags.allocates h hcall hkeeps (allocAlign_allocates env len align id h.inited)
  | allocAlignAt env offset len id =>
    have hall : AllocatesAt s env offset len id (s.step (.allocAlignAt env offset len id)) :=
      allocAlignAt_allocates
    generalize s.step (.allocAlignAt env offset len id) = after at hall
    cases hall with
    | refused mems same => exact htags.weaken fun tag hset => (same tag).trans hset
    | failed mems tag numbered => exact htags.numberedMore numbered
    | placed mems tag align addr before after memory shift numbered inside room start =>
      have hfit := hkeeps memory mems tag numbered
      rw [h.up, if_neg (by decide)] at start
      have hoff : addr + len = align32 offset align + len := by rw [start]
      have hnew := h.sound.placed_at shift hfit hcall inside room
        (s.newMem (addr + len) len (align.setWidth 64) tag) hoff rfl rfl
      have hadd := htags.add numbered (s.newMem (addr + len) len (align.setWidth 64) tag) rfl
      exact hadd.congr ((insert_known _ _ _ _ hnew.2.1).map _)
  | deferredTurn =>
    rcases deferredTurn_step s with hsame | ⟨first, rest, hfirst, hturn⟩
    · rw [hsame]
      exact htags
    · have hnext := h.turns hfirst (hkeeps first rest hfirst) hturn
      generalize s.step .deferredTurn = after at hturn hnext
      cases hturn with
      | failed => exact htags
      | placed before addr after place =>
        obtain ⟨k, -, -, hwide, hroom⟩ := h.turn_search hfirst (hkeeps first rest hfirst)
        have hsplit := (h.sound.place_some hwide hroom place).1
        rw [filter_first h.handles hfirst]
        exact Tagged.congr htags (known_placed Mem.tag hsplit hfirst rfl)
  | allocAndReplace env handle replaceType =>
    have hrep : Replaces s env handle replaceType (s.step (.allocAndReplace env handle _)) :=
      allocAndReplace_replaces h.inited
    generalize s.step (.allocAndReplace env handle replaceType) = after at hrep
    have hrenews := htags.renews (.allocAndReplace env handle replaceType)
    cases hrep with
    | unknown => exact htags
    | failed memOld after found hall =>
      exact htags.allocates h (h.powers memOld (mem?_some found)) (hkeeps memOld found) hall
    | swapped memOld memNew after found hall =>
      have hin := mem?_some found
      have hpow := h.powers memOld hin
      have hnext := h.allocates hpow (hkeeps memOld found) hall
      have htags' := htags.allocates h hpow (hkeeps memOld found) hall
      obtain ⟨-, -, -, -, -, hperm⟩ := hall.fresh h hpow (hkeeps memOld found) hrenews
      have hexchange := htags'.exchange hnext.handles
        (hperm.mem_iff.mpr (List.mem_cons_of_mem _ hin)) (hperm.mem_iff.mpr (List.mem_cons_self ..))
      rw [Memmgr.known, List.map_append] at hexchange
      exact hexchange
  | free handle =>
    have hfree : Frees s handle (s.step (.free handle)) := free_frees
    generalize s.step (.free handle) = after at hfree
    cases hfree with
    | unknown => exact htags
    | live before mem after split _ =>
      exact (Tagged.congr htags ((known_live split).map _).symm).remove
    | reserved before mem after split _ =>
      exact (Tagged.congr htags ((known_reserved split).map _).symm).remove

def StartsUp (s : Adapt) : Prop :=
  ∃ mems nextMem offset size align, s = init mems nextMem offset size align false

theorem init_upSound (mems : List MemWithBitmap) (nextMem : Nat) (offset size : Addr)
    (shift : BitVec 32) : UpSound (init mems nextMem offset size shift false) where
  sound := init_sound mems nextMem offset size shift false
  aligned _ h := nomatch h
  powers _ h := nomatch h
  parked _ h := nomatch h
  up := rfl
  inited := rfl
  handles := ⟨.nil, fun _ h => nomatch h⟩

theorem run_upSound
    (run : Run StartsUp Calls (fun s op => PfCall s op ∧ KeepsRow s op) s) :
    UpSound s ∧ s.Tagged := by
  apply run.invariant fun s => UpSound s ∧ s.Tagged
  · rintro _ ⟨mems, nextMem, offset, size, shift, rfl⟩
    exact ⟨init_upSound mems nextMem offset size shift, .nil, fun _ h => nomatch h⟩
  · rintro before op _ ⟨hsound, htags⟩ ⟨hcall, hkeeps⟩ rfl
    exact ⟨hsound.step hcall hkeeps (htags.renews op), htags.step hsound hcall hkeeps⟩

/-- As long as no sum wraps, what goes through 32-bit alignments is below 4 GiB and no
block is freed under one without length, the allocations of a manager that grows up
are a row up to its top of memory. -/
theorem row_of_pfCalls
    (run : Run StartsUp Calls (fun s op => PfCall s op ∧ KeepsRow s op) s) : Row s.memmgr :=
  (run_upSound run).1.row

def pfManager : Adapt := init [] 0 0 0x10000000 0 false

theorem pfManager_starts : StartsUp pfManager := ⟨[], 0, 0, 0x10000000, 0, rfl⟩

def pageCall : Op := .allocAlign plainEnv 0x1000 0x1000 0

/-- A page, and one at a fixed place behind it. -/
theorem row_of_pfCalls_page :
    Row ((pfManager.step pageCall).step (.allocAlignAt plainEnv 0x8000 0x1000 0)).memmgr := by
  have hpage : Run StartsUp Calls (fun s op => PfCall s op ∧ KeepsRow s op)
      (pfManager.step pageCall) :=
    .next pageCall (.start pfManager_starts) ⟨⟨12, by decide⟩, fun _ _ _ => by
      show alignUp 0 0x1000 + 0x1000 < 2 ^ 64
      decide⟩ rfl
  refine row_of_pfCalls (.next (.allocAlignAt plainEnv 0x8000 0x1000 0) hpage
    ⟨?_, fun _ _ _ _ => ⟨?_, ?_, ?_⟩⟩ rfl)
  · show (pfManager.step pageCall).memmgr.offset ≤ (0x8000 : Addr)
    decide +kernel
  all_goals decide +kernel

/-- A page at 4 GiB is put at zero, on top of the first page. -/
theorem pfCalls_overlap : ¬∀ s, Run StartsUp Calls PfCall s → Row s.memmgr := by
  intro h
  have hpage : Run StartsUp Calls PfCall (pfManager.step pageCall) :=
    .next pageCall (.start pfManager_starts) ⟨12, by decide⟩ rfl
  have hrun : Run StartsUp Calls PfCall
      ((pfManager.step pageCall).step (.allocAlignAt plainEnv 0x100000000 0x1000 0)) :=
    .next (.allocAlignAt plainEnv 0x100000000 0x1000 0) hpage (by
      show pfManager.memmgr.offset ≤ (0x100000000 : Addr)
      decide) rfl
  have hallocs : ((pfManager.step pageCall).step
      (.allocAlignAt plainEnv 0x100000000 0x1000 0)).memmgr.allocs =
        [⟨0, 0x1000, 0x1000, 0x1000, ⟨0, 0⟩⟩, ⟨1, 0x1000, 0x1000, 0x1000, ⟨0, 1⟩⟩] := by
    decide +kernel
  have hdisjoint := (h _ hrun).ranges.disjoint
  rw [hallocs] at hdisjoint
  have hapart := (List.pairwise_cons.mp hdisjoint).1 _ (List.mem_singleton_self _) 0
  apply hapart
  simp [Mem.Covers]

end MxGpu.Fb
