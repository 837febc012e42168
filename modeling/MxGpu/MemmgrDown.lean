import MxGpu.MemmgrCalls

/- A manager that grows down, as the one of the whole frame buffer: it searches for
room from an aligned start on, and puts the block where its end is aligned. -/
namespace MxGpu.Fb

open AlignUp Tiling Transition

/-- The byte `x` is in the range `[alloc_off - len, alloc_off)` of an allocation. -/
def Mem.Covers (mem : Mem) (x : Nat) : Prop :=
  mem.allocOff.toNat - mem.len.toNat ≤ x ∧ x < mem.allocOff.toNat

/-- The ranges of the live allocations are disjoint and in the manager's range. -/
structure Ranges (memmgr : Memmgr) : Prop where
  disjoint : memmgr.allocs.Pairwise fun a b => ∀ x, ¬(a.Covers x ∧ b.Covers x)
  inside : ∀ mem ∈ memmgr.allocs,
    memmgr.offset.toNat + mem.len.toNat ≤ mem.allocOff.toNat ∧
      mem.allocOff.toNat ≤ memmgr.offset.toNat + memmgr.size.toNat

theorem Sound.ranges {memmgr : Memmgr} (h : Sound memmgr) : Ranges memmgr := by
  constructor
  · have hordered := h.laid.ordered le_nearness
    rw [List.pairwise_map] at hordered
    apply hordered.imp_of_mem
    intro a b ha hb hab x hx
    have hsa := (h.sized a ha).start_add
    have hsb := (h.sized b hb).start_add
    have hle : a.start + a.len.toNat ≤ b.start := hab
    unfold Mem.Covers at hx
    omega
  · intro mem hmem
    have hsized := (h.sized mem hmem).start_add
    have hspan := h.laid.bounds le_nearness (List.mem_map_of_mem hmem)
    have hlow : memmgr.headOff.toNat ≤ mem.start := hspan.1
    have hhigh : mem.start + mem.len.toNat ≤ memmgr.tom.toNat := hspan.2
    have hbound := h.bounded (List.ne_nil_of_mem hmem)
    rw [h.head] at hlow
    omega

/-- The aligned end of a block is in the gap behind `before` too. -/
def EndFits (memmgr : Memmgr) (len align : Nat) (before : List Mem) : List Mem → Prop
  | [] =>
    alignUp (endOf memmgr.headOff before).toNat align + len ≤
        (memmgr.offset + memmgr.size).toNat →
      alignUp ((endOf memmgr.headOff before).toNat + len) align ≤
        (memmgr.offset + memmgr.size).toNat
  | alloc :: _ => alignUp ((endOf memmgr.headOff before).toNat + len) align ≤ alloc.start

instance FirstFit.decide (len align : Nat) : ∀ (first : Addr) (before after : List Mem),
    Decidable (FirstFit len align first before after)
  | first, [], [] => .isTrue (.last first)
  | first, [], alloc :: rest =>
    decidable_of_iff (alignUp first.toNat align + len < alloc.start)
      ⟨.here first alloc rest, fun | .here _ _ _ room => room⟩
  | first, alloc :: before, after =>
    have := FirstFit.decide len align alloc.allocOff before after
    decidable_of_iff (¬alignUp first.toNat align + len < alloc.start ∧
        FirstFit len align alloc.allocOff before after)
      ⟨fun h => .later first alloc before after h.1 h.2,
        fun | .later _ _ _ _ full rest => ⟨full, rest⟩⟩

instance (memmgr : Memmgr) (len align : Nat) (before after : List Mem) :
    Decidable (EndFits memmgr len align before after) :=
  match after with
  | [] => inferInstanceAs (Decidable (_ → _))
  | _ :: _ => inferInstanceAs (Decidable (_ ≤ _))

/-- What a call of `amdgv_memmgr_alloc_align` has to meet when it searches: no sum wraps,
and the first gap with room for an aligned start has room for an aligned end. -/
structure DownFits (memmgr : Memmgr) (len align : Nat) : Prop where
  noWrap : alignUp memmgr.tom.toNat align + len < 2 ^ 64
  endFits : ∀ before after, memmgr.allocs = before ++ after →
    FirstFit len align memmgr.headOff before after → EndFits memmgr len align before after

/-- Calls of `amdgv_memmgr_alloc_align` and `amdgv_memmgr_free`. -/
def GpuCall (_ : Adapt) : Op → Prop
  | .allocAlign _ len align _ => len ≠ 0 ∧ ∃ k, align.toNat = 2 ^ k
  | .free _ => True
  | _ => False

def KeepsEnd (s : Adapt) : Op → Prop
  | .allocAlign env len align id =>
    ∀ mems tag, s.Searches env id mems tag → DownFits s.memmgr len.toNat align.toNat
  | _ => True

def StartsDown (s : Adapt) : Prop :=
  ∃ mems nextMem offset size align, s = init mems nextMem offset size align true

structure DownSound (s : Adapt) : Prop where
  sound : Sound s.memmgr
  positive : ∀ mem ∈ s.memmgr.allocs, mem.len ≠ 0
  parked : Parked s.memmgr
  down : s.memmgr.down = true
  inited : s.memmgr.isInit = true

variable {s : Adapt} {memmgr : Memmgr} {len align addr : Addr} {before after : List Mem}

theorem init_sound (mems : List MemWithBitmap) (nextMem : Nat) (offset size : Addr)
    (shift : BitVec 32) (down : Bool) : Sound (init mems nextMem offset size shift down).memmgr where
  sized := fun _ h => nomatch h
  laid := Nat.le_refl _
  top := rfl
  head := rfl
  bounded := fun h => absurd rfl h

theorem Sound.placed_down (h : Sound memmgr) (hdown : memmgr.down = true) {k : Nat}
    (ha : align.toNat = 2 ^ k) (hfits : DownFits memmgr len.toNat align.toNat)
    (hplace : memmgr.place len align (align64 · align) = some (before, addr, after))
    {new : Mem} (hnewOff : new.allocOff = addr + len) (hnewLen : new.len = len) :
    Sound (memmgr.insert before new after) := by
  obtain ⟨hwrap, hend⟩ := hfits
  rw [ha] at hwrap hend
  obtain ⟨hsplit, hfirst, hcheck, haddr⟩ := h.place_some ha hwrap hplace
  rw [hdown, if_pos rfl] at haddr
  have hpos := Nat.two_pow_pos k
  have hlaid := h.laid
  rw [hsplit] at hlaid
  have hsized : ∀ m ∈ before, m.Sized := fun m hm => h.sized m (by simp [hsplit, hm])
  obtain ⟨-, hafter⟩ := laid_split hsized hlaid
  have hbelow := hafter.le le_nearness
  generalize hq : endOf memmgr.headOff before = q at hcheck haddr hbelow
  -- the aligned end is a number below 2 ^ 64, so nothing wraps in computing it
  have hgap : alignUp (q.toNat + len.toNat) (2 ^ k) < 2 ^ 64 := by
    have hfit := hend before after hsplit hfirst
    cases after with
    | nil =>
      simp only [EndFits, hq] at hfit
      have hq64 : alignUp q.toNat (2 ^ k) ≤ alignUp memmgr.tom.toNat (2 ^ k) := alignUp_mono hbelow
      have hc := hcheck rfl
      rw [BitVec.toNat_add, align64_toNat ha (by omega), Nat.mod_eq_of_lt (by omega)] at hc
      have := (memmgr.offset + memmgr.size).isLt
      omega
    | cons alloc rest =>
      simp only [EndFits, hq] at hfit
      have : alloc.start < 2 ^ 64 := (alloc.allocOff - alloc.len).isLt
      omega
  have hle := le_alignUp (q.toNat + len.toNat) hpos
  have hsum : (q + len).toNat = q.toNat + len.toNat := by
    rw [BitVec.toNat_add, Nat.mod_eq_of_lt (by omega)]
  have hoff : new.allocOff.toNat = alignUp (q.toNat + len.toNat) (2 ^ k) := by
    rw [hnewOff, haddr, BitVec.sub_add_cancel, align64_toNat ha (by rw [hsum]; exact hgap), hsum]
  have hnew : new.Sized := by
    unfold Mem.Sized
    rw [hoff, hnewLen]
    omega
  have hstart := hnew.start_add
  rw [hoff, hnewLen] at hstart
  apply h.insert hsplit hnew
  · rw [hq]
    omega
  · intro alloc rest hcons
    have hfit := hend before after hsplit hfirst
    rw [hcons] at hfit
    simp only [EndFits, hq] at hfit
    rw [hoff]
    exact hfit
  · intro hnil
    have hfit := hend before after hsplit hfirst
    have hq64 : alignUp q.toNat (2 ^ k) ≤ alignUp memmgr.tom.toNat (2 ^ k) := alignUp_mono hbelow
    have hc := hcheck hnil
    rw [BitVec.toNat_add, align64_toNat ha (by omega), Nat.mod_eq_of_lt (by omega)] at hc
    rw [hnil] at hfit
    simp only [EndFits, hq] at hfit
    have hwrapped := Nat.mod_le (memmgr.offset.toNat + memmgr.size.toNat) (2 ^ 64)
    rw [← BitVec.toNat_add] at hwrapped
    rw [hoff]
    exact (hfit hc).trans hwrapped

theorem Sound.topFits (h : Sound memmgr) (hpos : ∀ mem ∈ memmgr.allocs, mem.len ≠ 0)
    (handle : Nat) : TopFits memmgr handle := by
  intro before mem after hsplit _ htop
  cases after with
  | nil => exact .inl rfl
  | cons alloc rest =>
    have hlaid := h.laid
    rw [hsplit] at hlaid
    obtain ⟨-, -, hfrom⟩ := laid_split (fun m hm => h.sized m (by simp [hsplit, hm])) hlaid
    have hmem := (h.sized mem (by simp [hsplit])).start_add
    have halloc := (h.sized alloc (by simp [hsplit])).start_add
    have hlen := hpos alloc (by simp [hsplit])
    have hstart : mem.start + mem.len.toNat ≤ alloc.start := hfrom.1
    have hend : alloc.start + alloc.len.toNat ≤ memmgr.tom.toNat := hfrom.2.le le_nearness
    rw [← htop] at hend
    have hzero : alloc.len.toNat ≠ 0 := fun hz => hlen (BitVec.eq_of_toNat_eq hz)
    omega

theorem mem_insertReserve {new mem : Mem} {reserves : List Mem}
    (h : mem ∈ insertReserve new reserves) : mem = new ∨ mem ∈ reserves := by
  induction reserves with
  | nil => simpa [insertReserve] using h
  | cons iter rest ih =>
    unfold insertReserve at h
    split at h
    · exact List.mem_cons.mp h
    · rcases List.mem_cons.mp h with rfl | hrest
      · simp
      · rcases ih hrest with rfl | hin
        · simp
        · simp [hin]

theorem DownSound.allocates (h : DownSound s) {env : Env} {id : MemId} {s' : Adapt}
    {mem : Option Mem} (hlen : len ≠ 0) (ha : ∃ k, align.toNat = 2 ^ k)
    (hfits : ∀ mems tag, s.Searches env id mems tag → DownFits s.memmgr len.toNat align.toNat)
    (hall : Allocates s env len align id s' mem) : DownSound s' := by
  cases hall with
  | refused mems _ => exact ⟨h.sound, h.positive, h.parked, h.down, h.inited⟩
  | failed mems tag _ => exact ⟨h.sound, h.positive, h.parked, h.down, h.inited⟩
  | known mems tag mem _ _ _ => exact ⟨h.sound, h.positive, h.parked, h.down, h.inited⟩
  | deferred mems tag _ _ =>
    have hsound := h.sound
    refine ⟨⟨hsound.sized, hsound.laid, hsound.top, hsound.head, hsound.bounded⟩, h.positive, ?_,
      h.down, h.inited⟩
    intro m hm
    rcases mem_insertReserve hm with rfl | hold
    · rfl
    · exact h.parked m hold
  | placed mems tag before addr after searches place =>
    obtain ⟨k, ha⟩ := ha
    have hfit := hfits mems tag searches
    refine ⟨h.sound.placed_down h.down ha hfit place rfl rfl, ?_, h.parked, h.down, h.inited⟩
    intro m hm
    have hsplit : s.memmgr.allocs = before ++ after :=
      (h.sound.place_some ha (ha ▸ hfit.noWrap) place).1
    rcases List.mem_append.mp hm with hm | hm
    · exact h.positive m (by simp [hsplit, hm])
    · rcases List.mem_cons.mp hm with rfl | hm
      · exact hlen
      · exact h.positive m (by simp [hsplit, hm])

theorem DownSound.frees (h : DownSound s) {handle : Nat} {s' : Adapt}
    (hfree : Frees s handle s') : DownSound s' := by
  have hsound := hfree.sound h.sound h.parked (h.sound.topFits h.positive handle)
  cases hfree with
  | unknown => exact h
  | live before mem after split _ =>
    refine ⟨hsound, fun m hm => h.positive m ?_, h.parked, h.down, h.inited⟩
    rw [split]
    rcases List.mem_append.mp hm with hm | hm <;> simp [hm]
  | reserved before mem after split _ =>
    refine ⟨hsound, h.positive, fun m hm => h.parked m ?_, h.down, h.inited⟩
    rw [split]
    rcases List.mem_append.mp hm with hm | hm <;> simp [hm]

theorem DownSound.step (h : DownSound s) {op : Op} (hcall : GpuCall s op)
    (hkeeps : KeepsEnd s op) : DownSound (s.step op) := by
  cases op with
  | allocAlign env len align id =>
    exact h.allocates hcall.1 hcall.2 hkeeps (allocAlign_allocates env len align id h.inited)
  | free handle => exact h.frees free_frees
  | allocAlignAt env offset len id => exact absurd hcall not_false
  | deferredTurn => exact absurd hcall not_false
  | allocAndReplace env handle replaceType => exact absurd hcall not_false

/-- As long as the first gap with room for an aligned start has room for an aligned end,
the live allocations of a manager that grows down are disjoint and in its range. -/
theorem ranges_of_gpuCalls
    (run : Run StartsDown Calls (fun s op => GpuCall s op ∧ KeepsEnd s op) s) :
    Ranges s.memmgr := by
  have hsound : DownSound s := by
    apply run.invariant DownSound
    · rintro _ ⟨mems, nextMem, offset, size, shift, rfl⟩
      exact ⟨init_sound _ _ _ _ _ _, fun _ hm => (nomatch hm), fun _ hm => (nomatch hm), rfl, rfl⟩
    · rintro before op _ hsound ⟨hcall, hkeeps⟩ rfl
      exact hsound.step hcall hkeeps
  exact hsound.sound.ranges

theorem downFits_of_splits {memmgr : Memmgr} {len align : Nat}
    (noWrap : alignUp memmgr.tom.toNat align + len < 2 ^ 64)
    (ends : ∀ k ≤ memmgr.allocs.length,
      FirstFit len align memmgr.headOff (memmgr.allocs.take k) (memmgr.allocs.drop k) →
        EndFits memmgr len align (memmgr.allocs.take k) (memmgr.allocs.drop k)) :
    DownFits memmgr len align := by
  refine ⟨noWrap, fun before after split first => ?_⟩
  have fits := ends before.length (by simp [split])
  rw [split, List.take_left, List.drop_left] at fits
  exact fits first

def plainEnv : Env :=
  { mi350x := false, statusInvalid := false, skipHwInit := false, noMemory := false }

def gpuManager : Adapt := init [] 0 0 0x10000000 0 true

theorem gpuManager_starts : StartsDown gpuManager := ⟨[], 0, 0, 0x10000000, 0, rfl⟩

/-- A page and two pages, of which the first is freed; half a page goes into its hole. -/
def refilled : List Op :=
  [.allocAlign plainEnv 0x1000 0x1000 0, .allocAlign plainEnv 0x2000 0x1000 0, .free 0,
    .allocAlign plainEnv 0x800 0x800 0]

theorem ranges_of_gpuCalls_refilled :
    (gpuManager.steps refilled).memmgr.allocs.map (fun mem => (mem.allocOff, mem.len)) =
      [(0x800, 0x800), (0x3000, 0x2000)] ∧ Ranges (gpuManager.steps refilled).memmgr := by
  refine ⟨by decide +kernel, ranges_of_gpuCalls ?_⟩
  have next (s : Adapt) (op : Op) (run : Run StartsDown Calls
      (fun s op => GpuCall s op ∧ KeepsEnd s op) s) (call : GpuCall s op) (keeps : KeepsEnd s op) :
      Run StartsDown Calls (fun s op => GpuCall s op ∧ KeepsEnd s op) (s.step op) :=
    .next op run ⟨call, keeps⟩ rfl
  simp only [refilled, Adapt.steps, List.foldl_cons, List.foldl_nil]
  refine next _ _ (next _ _ (next _ _ (next _ _ (.start gpuManager_starts) ?_ ?_) ?_ ?_) ?_ ?_) ?_ ?_
  · exact ⟨by decide, 12, by decide⟩
  · exact fun _ _ _ => downFits_of_splits (by decide +kernel) (by decide +kernel)
  · exact ⟨by decide, 12, by decide⟩
  · exact fun _ _ _ => downFits_of_splits (by decide +kernel) (by decide +kernel)
  · trivial
  · trivial
  · exact ⟨by decide, 11, by decide⟩
  · exact fun _ _ _ => downFits_of_splits (by decide +kernel) (by decide +kernel)

/-- Two blocks of half a page, of which the first is freed, and a byte that has to end
with a page. -/
def overlapping : List Op :=
  [.allocAlign plainEnv 0x800 0x800 0, .allocAlign plainEnv 0x800 0x800 0, .free 0,
    .allocAlign plainEnv 1 0x1000 0]

/-- The byte is put into the hole of half a page, so that its end is in the next block. -/
theorem gpuCalls_overlap : ¬∀ s, Run StartsDown Calls GpuCall s → Ranges s.memmgr := by
  intro h
  have hrun : Run StartsDown Calls GpuCall (gpuManager.steps overlapping) := by
    apply run_steps (.start gpuManager_starts)
    intro op hop _
    simp only [overlapping, List.mem_cons, List.not_mem_nil, or_false] at hop
    rcases hop with rfl | rfl | rfl | rfl
    · exact ⟨by decide, 11, by decide⟩
    · exact ⟨by decide, 11, by decide⟩
    · trivial
    · exact ⟨by decide, 12, by decide⟩
  have hallocs : (gpuManager.steps overlapping).memmgr.allocs =
      [⟨2, 0x1000, 1, 0x1000, ⟨0, 0⟩⟩, ⟨1, 0x1000, 0x800, 0x800, ⟨0, 1⟩⟩] := by
    decide +kernel
  have hdisjoint := (h _ hrun).disjoint
  rw [hallocs] at hdisjoint
  have hapart := (List.pairwise_cons.mp hdisjoint).1 _ (List.mem_singleton_self _) 0xfff
  apply hapart
  simp [Mem.Covers]

end MxGpu.Fb
