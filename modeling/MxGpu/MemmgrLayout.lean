import MxGpu.AlignUp
import MxGpu.MemmgrOps
import MxGpu.Tiling

/- How the allocations of a manager lie in its range, and what the search for a
place finds there. -/
namespace MxGpu.Fb

open AlignUp Tiling

def Mem.start (mem : Mem) : Nat := (mem.allocOff - mem.len).toNat

def Mem.span (mem : Mem) : Span := (mem.start, mem.len.toNat)

def Mem.Sized (mem : Mem) : Prop := mem.len.toNat ≤ mem.allocOff.toNat

theorem Mem.Sized.start_add {mem : Mem} (h : mem.Sized) :
    mem.start + mem.len.toNat = mem.allocOff.toNat := by
  unfold Mem.Sized at h
  unfold Mem.start
  bv_omega

/-- The gaps of a list of allocations, up to the first one in which `len` bytes have
room from an aligned start on, or the one after the last. -/
inductive FirstFit (len align : Nat) : Addr → List Mem → List Mem → Prop
  | last (first : Addr) : FirstFit len align first [] []
  | here (first : Addr) (alloc : Mem) (rest : List Mem)
      (room : alignUp first.toNat align + len < alloc.start) :
      FirstFit len align first [] (alloc :: rest)
  | later (first : Addr) (alloc : Mem) (before after : List Mem)
      (full : ¬alignUp first.toNat align + len < alloc.start)
      (rest : FirstFit len align alloc.allocOff before after) :
      FirstFit len align first (alloc :: before) after

/-- The allocations of a manager follow one another from its offset to its top of
memory, which is in its range as soon as there are any. -/
structure Sound (memmgr : Memmgr) : Prop where
  sized : ∀ mem ∈ memmgr.allocs, mem.Sized
  laid : Laid (· ≤ ·) (memmgr.allocs.map Mem.span) memmgr.headOff.toNat memmgr.tom.toNat
  top : endOf memmgr.headOff memmgr.allocs = memmgr.tom
  head : memmgr.headOff = memmgr.offset
  bounded : memmgr.allocs ≠ [] → memmgr.tom.toNat ≤ memmgr.offset.toNat + memmgr.size.toNat

section Align

variable {k : Nat} {x a : Addr}

theorem align64_toNat (ha : a.toNat = 2 ^ k) (hfit : alignUp x.toNat (2 ^ k) < 2 ^ 64) :
    (align64 x a).toNat = alignUp x.toNat (2 ^ k) := toNat_alignUp ha hfit

theorem align32_toNat {a : BitVec 32} (ha : a.toNat = 2 ^ k)
    (hfit : x.toNat + (2 ^ k - 1) < 2 ^ 32) :
    (align32 x a).toNat = alignUp x.toNat (2 ^ k) := by
  have hpos := Nat.two_pow_pos k
  have hwide : (a.setWidth 64).toNat = 2 ^ k := by
    rw [BitVec.toNat_setWidth, ha]
    omega
  have hsum : (x + a.setWidth 64 - 1).toNat = x.toNat + (2 ^ k - 1) := by
    bv_omega
  have hmask : (align32 x a).toNat = ((x + a.setWidth 64 - 1).setWidth 32 &&& ~~~(a - 1)).toNat := by
    unfold align32
    rw [BitVec.toNat_and, BitVec.toNat_and, BitVec.toNat_setWidth, BitVec.toNat_setWidth, hsum,
      Nat.mod_eq_of_lt hfit]
    rw [Nat.mod_eq_of_lt (show (~~~(a - 1)).toNat < 2 ^ 64 by bv_omega)]
  have hlow := toNat_and_not ((x + a.setWidth 64 - 1).setWidth 32) ha
  have hdiv := Nat.div_add_mod' (x.toNat + (2 ^ k - 1)) (2 ^ k)
  rw [BitVec.toNat_setWidth, hsum, Nat.mod_eq_of_lt hfit, ← hmask] at hlow
  unfold alignUp
  omega

end Align

section Lists

variable {first : Addr} {before after allocs : List Mem} {top : Nat}

theorem endOf_append :
    endOf first (before ++ after) = endOf (endOf first before) after := by
  induction before generalizing first with
  | nil => rfl
  | cons alloc rest ih => exact ih

theorem endOf_le (hsized : ∀ mem ∈ allocs, mem.Sized)
    (hlaid : Laid (· ≤ ·) (allocs.map Mem.span) first.toNat top) :
    Laid (· ≤ ·) (allocs.map Mem.span) first.toNat (endOf first allocs).toNat ∧
      (endOf first allocs).toNat ≤ top := by
  induction allocs generalizing first with
  | nil => exact ⟨Nat.le_refl _, hlaid⟩
  | cons alloc rest ih =>
    have hsz := (hsized alloc (List.mem_cons_self ..)).start_add
    have hstart : first.toNat ≤ alloc.start := hlaid.1
    have hrest : Laid (· ≤ ·) (rest.map Mem.span) (alloc.start + alloc.len.toNat) top := hlaid.2
    rw [hsz] at hrest
    have hih := ih (fun mem h => hsized mem (List.mem_cons_of_mem _ h)) hrest
    refine ⟨⟨hstart, ?_⟩, hih.2⟩
    show Laid (· ≤ ·) (rest.map Mem.span) (alloc.start + alloc.len.toNat) _
    rw [hsz]
    exact hih.1

theorem laid_split (hsized : ∀ mem ∈ before, mem.Sized)
    (hlaid : Laid (· ≤ ·) ((before ++ after).map Mem.span) first.toNat top) :
    Laid (· ≤ ·) (before.map Mem.span) first.toNat (endOf first before).toNat ∧
      Laid (· ≤ ·) (after.map Mem.span) (endOf first before).toNat top := by
  rw [List.map_append] at hlaid
  obtain ⟨middle, hbefore, hafter⟩ := (laid_append le_nearness).mp hlaid
  have hend := endOf_le hsized hbefore
  exact ⟨hend.1, hafter.weaken le_nearness hend.2⟩

end Lists

section Search

variable {size align : Addr} {k : Nat}

theorem findSizeFrom_firstFit (ha : align.toNat = 2 ^ k) {allocs : List Mem} {first tom : Addr}
    {top : Nat} (hsized : ∀ mem ∈ allocs, mem.Sized)
    (hlaid : Laid (· ≤ ·) (allocs.map Mem.span) first.toNat top)
    (hroom : alignUp top (2 ^ k) + size.toNat < 2 ^ 64)
    (htom : tom.toNat = alignUp first.toNat (2 ^ k)) :
    (findSizeFrom size align tom allocs).1 ++ (findSizeFrom size align tom allocs).2 = allocs ∧
      FirstFit size.toNat (2 ^ k) first (findSizeFrom size align tom allocs).1
        (findSizeFrom size align tom allocs).2 := by
  induction allocs generalizing first tom with
  | nil => exact ⟨rfl, .last first⟩
  | cons alloc rest ih =>
    have hsz := (hsized alloc (List.mem_cons_self ..)).start_add
    have hstart : first.toNat ≤ alloc.start := hlaid.1
    have hrest : Laid (· ≤ ·) (rest.map Mem.span) (alloc.start + alloc.len.toNat) top := hlaid.2
    have hothers : ∀ mem ∈ rest, mem.Sized := fun mem h => hsized mem (List.mem_cons_of_mem _ h)
    rw [hsz] at hrest
    have htop := hrest.le le_nearness
    have hfirst : alignUp first.toNat (2 ^ k) ≤ alignUp top (2 ^ k) := alignUp_mono (by omega)
    unfold findSizeFrom
    split
    · next hskip =>
      -- the entry ends before the aligned start, so there is no room in front of it
      have hbelow : alloc.allocOff.toNat < alignUp first.toNat (2 ^ k) := by
        rw [← htom]
        exact hskip
      have hsame := alignUp_between (a := 2 ^ k) (show first.toNat ≤ alloc.allocOff.toNat by omega)
        hbelow.le
      have hih := ih hothers hrest (htom.trans hsame.symm)
      exact ⟨congrArg (alloc :: ·) hih.1, .later first alloc _ _ (by omega) hih.2⟩
    · split
      · next hwide =>
        have hlt : alignUp first.toNat (2 ^ k) + size.toNat < alloc.start := by
          unfold Mem.start
          rw [gt_iff_lt, BitVec.lt_def, BitVec.toNat_add, htom, Nat.mod_eq_of_lt (by omega)]
            at hwide
          exact hwide
        exact ⟨rfl, .here first alloc rest hlt⟩
      · next hnarrow =>
        have hfull : ¬alignUp first.toNat (2 ^ k) + size.toNat < alloc.start := by
          intro hlt
          apply hnarrow
          rw [gt_iff_lt, BitVec.lt_def, BitVec.toNat_add, htom, Nat.mod_eq_of_lt (by omega)]
          exact hlt
        have hnext : alignUp alloc.allocOff.toNat (2 ^ k) < 2 ^ 64 := by
          have := alignUp_mono (a := 2 ^ k) htop
          omega
        have hih := ih hothers hrest (align64_toNat ha hnext)
        exact ⟨congrArg (alloc :: ·) hih.1, .later first alloc _ _ hfull hih.2⟩

end Search

section Edit

variable {memmgr : Memmgr} {before after : List Mem} {new mem : Mem}

theorem Sound.insert (hsound : Sound memmgr) (hsplit : memmgr.allocs = before ++ after)
    (hnew : new.Sized) (hlow : (endOf memmgr.headOff before).toNat ≤ new.start)
    (hinner : ∀ alloc rest, after = alloc :: rest → new.allocOff.toNat ≤ alloc.start)
    (hlast : after = [] → new.allocOff.toNat ≤ memmgr.offset.toNat + memmgr.size.toNat) :
    Sound (memmgr.insert before new after) := by
  have hsized := hsound.sized
  have hlaid := hsound.laid
  have htop := hsound.top
  rw [hsplit] at hsized hlaid htop
  obtain ⟨hbefore, hafter⟩ := laid_split (fun m h => hsized m (List.mem_append_left _ h)) hlaid
  have hend := hnew.start_add
  -- behind the last entry the new block is the top, elsewhere the top stays
  have htom : Laid (· ≤ ·) (after.map Mem.span) new.allocOff.toNat
      (memmgr.insert before new after).tom.toNat ∧
        endOf new.allocOff after = (memmgr.insert before new after).tom := by
    cases after with
    | nil =>
      rw [List.append_nil] at htop
      simp only [Memmgr.insert, htop, if_true]
      exact ⟨Nat.le_refl _, rfl⟩
    | cons alloc rest =>
      have hfit := hinner alloc rest rfl
      have hrest : Laid (· ≤ ·) (rest.map Mem.span) (alloc.start + alloc.len.toNat)
        memmgr.tom.toNat := hafter.2
      have hle := hrest.le le_nearness
      have hsame : (memmgr.insert before new (alloc :: rest)).tom = memmgr.tom := by
        simp only [Memmgr.insert]
        split
        · next heq =>
          apply BitVec.eq_of_toNat_eq
          rw [heq] at hlow
          omega
        · rfl
      rw [hsame]
      rw [endOf_append] at htop
      exact ⟨⟨hfit, hrest⟩, htop⟩
  constructor
  · intro m hm
    rcases List.mem_append.mp hm with h | h
    · exact hsized m (List.mem_append_left _ h)
    · rcases List.mem_cons.mp h with rfl | h
      · exact hnew
      · exact hsized m (List.mem_append_right _ h)
  · show Laid _ ((before ++ new :: after).map Mem.span) _ _
    rw [List.map_append, List.map_cons]
    apply (laid_append le_nearness).mpr
    refine ⟨_, hbefore, hlow, ?_⟩
    show Laid _ _ (new.start + new.len.toNat) _
    rw [hend]
    exact htom.1
  · show endOf _ (before ++ new :: after) = _
    rw [endOf_append]
    exact htom.2
  · exact hsound.head
  · intro _
    show (memmgr.insert before new after).tom.toNat ≤ memmgr.offset.toNat + memmgr.size.toNat
    cases after with
    | nil =>
      rw [← htom.2]
      exact hlast rfl
    | cons alloc rest =>
      have hold : endOf new.allocOff (alloc :: rest) = memmgr.tom := by
        rw [endOf_append] at htop
        exact htop
      rw [← htom.2, hold]
      apply hsound.bounded
      rw [hsplit]
      simp

theorem Sound.remove (hsound : Sound memmgr) (hsplit : memmgr.allocs = before ++ mem :: after)
    (hlast : mem.allocOff = memmgr.tom →
      after = [] ∨ endOf memmgr.headOff before = memmgr.tom) (count : Int) :
    Sound { memmgr with
      allocs := before ++ after
      reserveCount := count
      tom := if mem.allocOff ≥ memmgr.tom then endOf memmgr.headOff before
        else memmgr.tom } := by
  have hsized := hsound.sized
  have hlaid := hsound.laid
  have htop := hsound.top
  rw [hsplit] at hsized hlaid htop
  obtain ⟨hbefore, hrow⟩ := laid_split (fun m h => hsized m (List.mem_append_left _ h)) hlaid
  have hmem := (hsized mem (by simp)).start_add
  have hstart : (endOf memmgr.headOff before).toNat ≤ mem.start := hrow.1
  have hafter : Laid (· ≤ ·) (after.map Mem.span) (mem.start + mem.len.toNat) memmgr.tom.toNat :=
    hrow.2
  rw [hmem] at hafter
  have hle := hafter.le le_nearness
  rw [endOf_append, endOf] at htop
  have htom : Laid (· ≤ ·) (after.map Mem.span) (endOf memmgr.headOff before).toNat
      (if mem.allocOff ≥ memmgr.tom then endOf memmgr.headOff before else memmgr.tom).toNat ∧
        endOf (endOf memmgr.headOff before) after =
          if mem.allocOff ≥ memmgr.tom then endOf memmgr.headOff before else memmgr.tom := by
    split
    · next hge =>
      have hsame : mem.allocOff = memmgr.tom := by
        apply BitVec.eq_of_toNat_eq
        rw [ge_iff_le, BitVec.le_def] at hge
        omega
      rcases hlast hsame with rfl | hold
      · exact ⟨Nat.le_refl _, rfl⟩
      · rw [hold]
        refine ⟨?_, ?_⟩
        · rwa [hsame] at hafter
        · rwa [hsame] at htop
    · next hlt =>
      refine ⟨hafter.weaken le_nearness (by omega), ?_⟩
      cases after with
      | nil => exact absurd (by simp [htop.symm, endOf]) hlt
      | cons alloc rest => exact htop
  constructor
  · intro m hm
    rcases List.mem_append.mp hm with h | h
    · exact hsized m (List.mem_append_left _ h)
    · exact hsized m (List.mem_append_right _ (List.mem_cons_of_mem _ h))
  · show Laid _ ((before ++ after).map Mem.span) _ _
    rw [List.map_append]
    exact (laid_append le_nearness).mpr ⟨_, hbefore, htom.1⟩
  · show endOf _ (before ++ after) = _
    rw [endOf_append]
    exact htom.2
  · exact hsound.head
  · intro hne
    have hbound := hsound.bounded (by rw [hsplit]; simp)
    show (if mem.allocOff ≥ memmgr.tom then endOf memmgr.headOff before
      else memmgr.tom).toNat ≤ _
    split
    · show _ ≤ memmgr.offset.toNat + memmgr.size.toNat
      omega
    · exact hbound

end Edit

section Place

variable {memmgr : Memmgr} {len align addr : Addr} {aligned : Addr → Addr} {k : Nat}
  {before after : List Mem}

theorem Sound.place_some (hsound : Sound memmgr) (ha : align.toNat = 2 ^ k)
    (hroom : alignUp memmgr.tom.toNat (2 ^ k) + len.toNat < 2 ^ 64)
    (h : memmgr.place len align aligned = some (before, addr, after)) :
    memmgr.allocs = before ++ after ∧
      FirstFit len.toNat (2 ^ k) memmgr.headOff before after ∧
      (after = [] → (aligned (endOf memmgr.headOff before) + len).toNat ≤
        (memmgr.offset + memmgr.size).toNat) ∧
      addr = if memmgr.down then aligned (endOf memmgr.headOff before + len) - len
        else aligned (endOf memmgr.headOff before) := by
  have hle := hsound.laid.le le_nearness
  have hfirst : alignUp memmgr.offset.toNat (2 ^ k) < 2 ^ 64 := by
    rw [← hsound.head]
    have := alignUp_mono (a := 2 ^ k) hle
    omega
  have hstart : (align64 memmgr.offset align).toNat = alignUp memmgr.headOff.toNat (2 ^ k) := by
    rw [hsound.head]
    exact align64_toNat ha hfirst
  have hsearch := findSizeFrom_firstFit ha hsound.sized hsound.laid hroom hstart
  unfold Memmgr.place Memmgr.findSize at h
  generalize findSizeFrom len align (align64 memmgr.offset align) memmgr.allocs = split
    at h hsearch
  obtain ⟨front, back⟩ := split
  simp only at h
  split at h
  · cases h
  · next hchecked =>
    cases h
    refine ⟨hsearch.1.symm, hsearch.2, fun hlast => ?_, rfl⟩
    have htop : endOf memmgr.headOff before = memmgr.tom := by
      rw [← hsound.top, ← hsearch.1, hlast, List.append_nil]
    have hin : ¬memmgr.exceeds (aligned memmgr.tom) len = true := by
      intro hout
      apply hchecked
      simp [htop, hout]
    rw [htop]
    simpa [Memmgr.exceeds, BitVec.le_def] using hin

end Place

end MxGpu.Fb
