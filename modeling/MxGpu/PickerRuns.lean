import MxGpu.SwitchPicker

/- The world switches that the picker meets: what initialization sets up, and what adding, removing
and reconfiguring functions make of it. -/
namespace MxGpu.Switch

open Transition (Run)
open WorldSwitch List

/-- `max_num_vf`, for which the arrays have room. -/
structure Slots where
  maxNumVf : Nat
  le_pf : maxNumVf ≤ pfIdx

/-- The enabled functions of a world switch, as its loops over `allowed_vf_assignment` meet
them. -/
def allowedVfs (numVf : Nat) (allowedVfAssignment : BitVec 32) : List Nat :=
  (range numVf).filter (allowedVfAssignment.getLsbD ·)

namespace WorldSwitch

def freshEntry (entry : Entry) (timeSlice : BitVec 32) : Entry :=
  { entry with
    timeSlice := timeSlice.setWidth 64
    startTs := 0
    beyondTimeCycle := 0
    dummyVf := true
    totalTime := 0
    skipNextPunish := false }

def joinGroup (c : SliceSource) (ws : WorldSwitch) (idxVf : Nat) : WorldSwitch :=
  { ws.setEntry idxVf
      (freshEntry (ws.arrayVf idxVf) (c.defaultGfxTimeSlice ws.pfActive idxVf)) with
    activeVfList := ws.activeVfList ++ [idxVf] }

/-- `amdgv_sched_manual_switch_init`. -/
def init (ws : WorldSwitch) (fairnessMode : Bool) (c : SliceSource) (numVf : Nat)
    (allowedVfAssignment : BitVec 32) : WorldSwitch :=
  let ws := { ws with
    activeVfList := []
    fairnessMode := fairnessMode
    vfInited := 0
    vfBusyStatus := 0
    vfTimeout := 0 }
  if fairnessMode then
    let ws := (allowedVfs numVf allowedVfAssignment).foldl (joinGroup c) ws
    ws.setEntry pfIdx { freshEntry (ws.arrayVf pfIdx)
      (c.defaultGfxTimeSlice ws.pfActive pfIdx) with dummyVf := false }
  else ws

/-- `amdgv_sched_manual_switch_update_time_slice`. Only the functions in the list, and the physical
one, have a valid `idx_vf`. -/
def updateTimeSlice (ws : WorldSwitch) (idxVf : Nat) (timeSlice : BitVec 32) : WorldSwitch :=
  if idxVf ≠ pfIdx ∧ idxVf ∉ ws.activeVfList then ws
  else ws.setEntry idxVf { ws.arrayVf idxVf with timeSlice := timeSlice.setWidth 64 }

def clearGroup (slots : Slots) (ws : WorldSwitch) : WorldSwitch :=
  { ws with activeVfList := ws.activeVfList.filter (slots.maxNumVf ≤ ·) }

def setVfNum (slots : Slots) (ws : WorldSwitch) (c : SliceSource) (numVf : Nat)
    (allowedVfAssignment : BitVec 32) : WorldSwitch :=
  if ws.fairnessMode then
    (allowedVfs numVf allowedVfAssignment).foldl (joinGroup c) (ws.clearGroup slots)
  else ws

end WorldSwitch

inductive Request
  | addVf (idxVf : Nat) (timeSlice : BitVec 32) (gfx : Bool)
  | removeVf (idxVf : Nat) (suspended : Bool)
  | updateTimeSlice (idxVf : Nat) (timeSlice : BitVec 32)
  | setVfNum (c : SliceSource) (numVf : Nat) (allowedVfAssignment : BitVec 32)
  | setPfState (active : Bool)
  | moveTail (idxVf : Nat)

/-- One request. The callers add a function that is not in the list, move one that is, and ask for
no more functions than there may be. -/
def WorldSwitch.serve (slots : Slots) (ws : WorldSwitch) : Request → Option WorldSwitch
  | .addVf idxVf timeSlice gfx =>
    if (ws.fairnessMode → idxVf = pfIdx) ∧ idxVf ∈ ws.activeVfList then none
    else some (ws.addVf idxVf timeSlice gfx)
  | .removeVf idxVf suspended => some (ws.removeVf idxVf suspended)
  | .updateTimeSlice idxVf timeSlice => some (ws.updateTimeSlice idxVf timeSlice)
  | .setVfNum c numVf allowedVfAssignment =>
    if numVf ≤ slots.maxNumVf then some (ws.setVfNum slots c numVf allowedVfAssignment) else none
  | .setPfState active => some { ws with pfActive := active }
  | .moveTail idxVf => if idxVf ∈ ws.activeVfList then some (ws.moveTail idxVf) else none

def Serves (slots : Slots) (before : WorldSwitch) (req : Request) (after : WorldSwitch) : Prop :=
  before.serve slots req = some after

def Inits (slots : Slots) (ws : WorldSwitch) : Prop :=
  ∃ (old : WorldSwitch) (fairnessMode : Bool) (c : SliceSource) (numVf : Nat)
    (allowedVfAssignment : BitVec 32), numVf ≤ slots.maxNumVf ∧
      ws = old.init fairnessMode c numVf allowedVfAssignment

def StoresSlice (_ : WorldSwitch) : Request → Prop
  | .updateTimeSlice _ timeSlice => timeSlice ≠ 0
  | _ => True

/-- The physical function is removed only while its entry is linked. -/
def RemovesLinked (ws : WorldSwitch) : Request → Prop
  | .removeVf idxVf _ => idxVf = pfIdx → pfIdx ∈ ws.activeVfList
  | _ => True

instance (ws : WorldSwitch) : (req : Request) → Decidable (RemovesLinked ws req)
  | .removeVf _ _ => inferInstanceAs (Decidable (_ → _))
  | .addVf .. | .updateTimeSlice .. | .setVfNum .. | .setPfState _ | .moveTail _ => isTrue trivial

instance (ws : WorldSwitch) : (req : Request) → Decidable (StoresSlice ws req)
  | .updateTimeSlice _ _ => inferInstanceAs (Decidable (_ ≠ _))
  | .addVf .. | .removeVf .. | .setVfNum .. | .setPfState _ | .moveTail _ => isTrue trivial

structure Listed (slots : Slots) (ws : WorldSwitch) : Prop where
  nodup : ws.activeVfList.Nodup
  words : ∀ i ∈ ws.activeVfList, (ws.arrayVf i).timeSlice.toNat < 2 ^ 32
  group : ws.fairnessMode = true → ∀ i ∈ ws.activeVfList, i < slots.maxNumVf ∨ i = pfIdx
  real : ws.fairnessMode = false → ∀ i ∈ ws.activeVfList, (ws.arrayVf i).dummyVf = false

def Funded (ws : WorldSwitch) : Prop :=
  ∀ i ∈ ws.activeVfList, (ws.arrayVf i).timeSlice ≠ 0

section requests

variable {slots : Slots} {ws ws' : WorldSwitch}

theorem setWidth_ne_zero {x : BitVec 32} (h : x ≠ 0) : x.setWidth 64 ≠ 0 := by
  intro hzero
  apply h
  have hnat := congrArg BitVec.toNat hzero
  rw [BitVec.toNat_setWidth_of_le (by decide)] at hnat
  exact BitVec.eq_of_toNat_eq hnat

theorem setWidth_lt (x : BitVec 32) : (x.setWidth 64).toNat < 2 ^ 32 := by
  rw [BitVec.toNat_setWidth_of_le (by decide)]
  exact x.isLt

theorem mem_allowedVfs {numVf i : Nat} {allowed : BitVec 32} (h : i ∈ allowedVfs numVf allowed) :
    i < numVf := mem_range.mp (mem_of_mem_filter h)

theorem allowedVfs_nodup (numVf : Nat) (allowed : BitVec 32) :
    (allowedVfs numVf allowed).Nodup := nodup_range.filter _

theorem foldl_joinGroup (c : SliceSource) (vfs : List Nat) (ws : WorldSwitch) :
    (vfs.foldl (joinGroup c) ws).activeVfList = ws.activeVfList ++ vfs ∧
      (vfs.foldl (joinGroup c) ws).fairnessMode = ws.fairnessMode ∧
      ∀ i, (((vfs.foldl (joinGroup c) ws).arrayVf i).timeSlice.toNat < 2 ^ 32 ∧
          ((vfs.foldl (joinGroup c) ws).arrayVf i).timeSlice ≠ 0) ∨
        (i ∉ vfs ∧
          ((vfs.foldl (joinGroup c) ws).arrayVf i).timeSlice = (ws.arrayVf i).timeSlice) := by
  induction vfs generalizing ws with
  | nil => exact ⟨(append_nil _).symm, rfl, fun i => .inr ⟨not_mem_nil, rfl⟩⟩
  | cons v vfs ih =>
    obtain ⟨hlist, hmode, hentries⟩ := ih (joinGroup c ws v)
    refine ⟨?_, hmode, ?_⟩
    · rw [foldl_cons, hlist, joinGroup, append_assoc, singleton_append]
    · intro i
      rw [foldl_cons]
      rcases hentries i with hdefault | ⟨hnot, hsame⟩
      · exact .inl hdefault
      · by_cases hi : i = v
        · apply Or.inl
          have hslice : ((joinGroup c ws v).arrayVf i).timeSlice =
              (c.defaultGfxTimeSlice ws.pfActive v).setWidth 64 := by
            unfold joinGroup
            dsimp only
            rw [hi, setEntry_self]
            rfl
          rw [hsame, hslice]
          exact ⟨setWidth_lt _, setWidth_ne_zero (c.defaultGfxTimeSlice_ne_zero _ _)⟩
        · apply Or.inr
          refine ⟨fun hmem => (mem_cons.mp hmem).elim hi hnot, ?_⟩
          rw [hsame]
          unfold joinGroup
          dsimp only
          rw [setEntry_of_ne ws _ hi]

theorem listed_foldl_joinGroup (c : SliceSource) {numVf : Nat} (allowed : BitVec 32)
    (hnum : numVf ≤ slots.maxNumVf) (hmode : ws.fairnessMode = true) (hlisted : Listed slots ws)
    (hout : ∀ i ∈ ws.activeVfList, ¬i < slots.maxNumVf) :
    Listed slots ((allowedVfs numVf allowed).foldl (joinGroup c) ws) ∧
      (Funded ws → Funded ((allowedVfs numVf allowed).foldl (joinGroup c) ws)) := by
  obtain ⟨hlist, hmode', hentries⟩ := foldl_joinGroup c (allowedVfs numVf allowed) ws
  refine ⟨⟨?_, ?_, ?_, ?_⟩, ?_⟩
  · rw [hlist]
    apply nodup_append.mpr
    refine ⟨hlisted.nodup, allowedVfs_nodup numVf allowed, ?_⟩
    intro a ha b hb hab
    subst hab
    have := mem_allowedVfs hb
    exact hout a ha (by omega)
  · intro i hi
    rw [hlist] at hi
    rcases hentries i with hdefault | ⟨hnot, hsame⟩
    · exact hdefault.1
    · rw [hsame]
      exact hlisted.words i ((mem_append.mp hi).resolve_right hnot)
  · intro _ i hi
    rw [hlist] at hi
    rcases mem_append.mp hi with hold | hnew
    · exact hlisted.group hmode i hold
    · have := mem_allowedVfs hnew
      omega
  · intro hfalse
    rw [hmode', hmode] at hfalse
    cases hfalse
  · intro hfunded i hi
    rw [hlist] at hi
    rcases hentries i with hdefault | ⟨hnot, hsame⟩
    · exact hdefault.2
    · rw [hsame]
      exact hfunded i ((mem_append.mp hi).resolve_right hnot)

theorem Listed.relist (h : Listed slots ws) {list : List Nat} (hnodup : list.Nodup)
    (hsub : ∀ i ∈ list, i ∈ ws.activeVfList) :
    Listed slots { ws with activeVfList := list } where
  nodup := hnodup
  words := fun i hi => h.words i (hsub i hi)
  group := fun hmode i hi => h.group hmode i (hsub i hi)
  real := fun hmode i hi => h.real hmode i (hsub i hi)

theorem Listed.setEntry (h : Listed slots ws) {i : Nat} {e : Entry}
    (hword : i ∈ ws.activeVfList → e.timeSlice.toNat < 2 ^ 32)
    (hreal : i ∈ ws.activeVfList → ws.fairnessMode = false → e.dummyVf = false) :
    Listed slots (ws.setEntry i e) where
  nodup := h.nodup
  words := by
    intro j hj
    by_cases hij : j = i
    · subst hij
      rw [setEntry_self]
      exact hword hj
    · rw [setEntry_of_ne ws e hij]
      exact h.words j hj
  group := h.group
  real := by
    intro hmode j hj
    by_cases hij : j = i
    · subst hij
      rw [setEntry_self]
      exact hreal hj hmode
    · rw [setEntry_of_ne ws e hij]
      exact h.real hmode j hj

theorem Funded.setEntry (h : Funded ws) {i : Nat} {e : Entry}
    (he : i ∈ ws.activeVfList → e.timeSlice ≠ 0) : Funded (ws.setEntry i e) := by
  intro j hj
  by_cases hij : j = i
  · subst hij
    rw [setEntry_self]
    exact he hj
  · rw [setEntry_of_ne ws e hij]
    exact h j hj

theorem Listed.append (h : Listed slots ws) {i : Nat} {e : Entry} (hi : i ∉ ws.activeVfList)
    (hword : e.timeSlice.toNat < 2 ^ 32) (hreal : e.dummyVf = false)
    (hgroup : ws.fairnessMode = true → i = pfIdx) :
    Listed slots { ws.setEntry i e with activeVfList := ws.activeVfList ++ [i] } := by
  have hkept : Listed slots (ws.setEntry i e) :=
    h.setEntry (fun hmem => absurd hmem hi) (fun hmem => absurd hmem hi)
  have hself : (ws.setEntry i e).arrayVf i = e := setEntry_self ws i e
  refine ⟨?_, ?_, ?_, ?_⟩
  · exact nodup_append.mpr ⟨h.nodup, nodup_singleton i,
      fun a ha b hb hab => hi (mem_singleton.mp hb ▸ hab ▸ ha)⟩
  · intro j hj
    rcases mem_append.mp hj with hold | hnew
    · exact hkept.words j hold
    · rw [mem_singleton.mp hnew]
      show ((ws.setEntry i e).arrayVf i).timeSlice.toNat < 2 ^ 32
      rw [hself]
      exact hword
  · intro hmode j hj
    rcases mem_append.mp hj with hold | hnew
    · exact h.group hmode j hold
    · rw [mem_singleton.mp hnew]
      exact .inr (hgroup hmode)
  · intro hmode j hj
    rcases mem_append.mp hj with hold | hnew
    · exact hkept.real hmode j hold
    · rw [mem_singleton.mp hnew]
      show ((ws.setEntry i e).arrayVf i).dummyVf = false
      rw [hself]
      exact hreal

theorem Funded.append (h : Funded ws) {i : Nat} {e : Entry} (he : e.timeSlice ≠ 0) :
    Funded { ws.setEntry i e with activeVfList := ws.activeVfList ++ [i] } := by
  intro j hj
  show ((ws.setEntry i e).arrayVf j).timeSlice ≠ 0
  by_cases hij : j = i
  · rw [hij, setEntry_self]
    exact he
  · rw [setEntry_of_ne ws e hij]
    apply h j
    rcases mem_append.mp hj with hold | hnew
    · exact hold
    · exact absurd (mem_singleton.mp hnew) hij

theorem addVf_keeps {idxVf : Nat} {timeSlice : BitVec 32} {gfx : Bool}
    (hguard : ¬((ws.fairnessMode = true → idxVf = pfIdx) ∧ idxVf ∈ ws.activeVfList))
    (h : Listed slots ws) :
    Listed slots (ws.addVf idxVf timeSlice gfx) ∧
      (Funded ws → Funded (ws.addVf idxVf timeSlice gfx)) := by
  unfold addVf
  split
  · exact ⟨h, id⟩
  · rename_i hslice
    have hne := setWidth_ne_zero hslice
    have hlt := setWidth_lt timeSlice
    dsimp only
    generalize hws : (if idxVf = pfIdx then { ws with pfActive := true } else ws) = mid
    have hmid : Listed slots mid ∧ (Funded ws → Funded mid) ∧
        mid.fairnessMode = ws.fairnessMode ∧ mid.activeVfList = ws.activeVfList := by
      rw [← hws]
      split
      · exact ⟨⟨h.nodup, h.words, h.group, h.real⟩, id, rfl, rfl⟩
      · exact ⟨h, id, rfl, rfl⟩
    obtain ⟨hlisted, hfunded, hmode, hlist⟩ := hmid
    split
    · exact ⟨hlisted.setEntry (fun _ => hlt) (fun _ _ => rfl),
        fun hf => (hfunded hf).setEntry (fun _ => hne)⟩
    · rename_i hgroup
      have hpf : ws.fairnessMode = true → idxVf = pfIdx := by
        intro hfair
        apply Decidable.byContradiction
        intro hpf
        exact hgroup ⟨hmode.trans hfair, hpf⟩
      have hnot : idxVf ∉ mid.activeVfList := fun hmem => hguard ⟨hpf, hlist ▸ hmem⟩
      exact ⟨hlisted.append hnot hlt rfl (fun hfair => hpf (hmode ▸ hfair)),
        fun hf => (hfunded hf).append hne⟩

theorem removeVf_keeps (idxVf : Nat) (suspended : Bool) (h : Listed slots ws) :
    Listed slots (ws.removeVf idxVf suspended) ∧
      (Funded ws → Funded (ws.removeVf idxVf suspended)) := by
  unfold removeVf
  split
  · exact ⟨h, id⟩
  · dsimp only
    generalize hws : (if ws.currIdxVf = idxVf then { ws with loaded := false } else ws) = mid
    have hmid : Listed slots mid ∧ (Funded ws → Funded mid) := by
      rw [← hws]
      split
      · exact ⟨⟨h.nodup, h.words, h.group, h.real⟩, id⟩
      · exact ⟨h, id⟩
    obtain ⟨hlisted, hfunded⟩ := hmid
    split
    · rename_i hfair
      refine ⟨hlisted.setEntry (hlisted.words idxVf) ?_,
        fun hf => (hfunded hf).setEntry (hfunded hf idxVf)⟩
      intro _ hmode
      rw [hfair.1] at hmode
      cases hmode
    · have hrest := hlisted.relist (hlisted.nodup.erase idxVf)
        (fun i hi => mem_of_mem_erase hi)
      exact ⟨⟨hrest.nodup, hrest.words, hrest.group, hrest.real⟩,
        fun hf i hi => hfunded hf i (mem_of_mem_erase hi)⟩

theorem updateTimeSlice_keeps (idxVf : Nat) (timeSlice : BitVec 32) (h : Listed slots ws) :
    Listed slots (ws.updateTimeSlice idxVf timeSlice) ∧
      (timeSlice ≠ 0 → Funded ws → Funded (ws.updateTimeSlice idxVf timeSlice)) := by
  unfold updateTimeSlice
  split
  · exact ⟨h, fun _ => id⟩
  · exact ⟨h.setEntry (fun _ => setWidth_lt timeSlice) (fun hi hmode => h.real hmode idxVf hi),
      fun hne hf => hf.setEntry (fun _ => setWidth_ne_zero hne)⟩

theorem setVfNum_keeps (c : SliceSource) {numVf : Nat} (allowed : BitVec 32)
    (hnum : numVf ≤ slots.maxNumVf) (h : Listed slots ws) :
    Listed slots (ws.setVfNum slots c numVf allowed) ∧
      (Funded ws → Funded (ws.setVfNum slots c numVf allowed)) := by
  unfold setVfNum
  split
  · rename_i hmode
    have hcleared : Listed slots (ws.clearGroup slots) :=
      h.relist (h.nodup.filter _) (fun i hi => mem_of_mem_filter hi)
    have hfair : (ws.clearGroup slots).fairnessMode = true := hmode
    obtain ⟨hlisted, hfunded⟩ := listed_foldl_joinGroup c allowed hnum hfair hcleared (by
      intro i hi
      have hle : slots.maxNumVf ≤ i := by simpa using (mem_filter.mp hi).2
      omega)
    exact ⟨hlisted, fun hf => hfunded (fun i hi => hf i (mem_of_mem_filter hi))⟩
  · exact ⟨h, id⟩

theorem init_keeps (slots : Slots) (old : WorldSwitch) (fairnessMode : Bool) (c : SliceSource)
    {numVf : Nat} (allowed : BitVec 32) (hnum : numVf ≤ slots.maxNumVf) :
    Listed slots (old.init fairnessMode c numVf allowed) ∧
      Funded (old.init fairnessMode c numVf allowed) := by
  unfold init
  dsimp only
  generalize hws : ({ old with
    activeVfList := []
    fairnessMode := fairnessMode
    vfInited := 0
    vfBusyStatus := 0
    vfTimeout := 0 } : WorldSwitch) = empty
  have hlist : empty.activeVfList = [] := by rw [← hws]
  have hmode : empty.fairnessMode = fairnessMode := by rw [← hws]
  have hnone : ∀ i, i ∉ empty.activeVfList := by
    intro i
    rw [hlist]
    exact not_mem_nil
  have hempty : Listed slots empty := by
    refine ⟨?_, fun i hi => absurd hi (hnone i), fun _ i hi => absurd hi (hnone i),
      fun _ i hi => absurd hi (hnone i)⟩
    rw [hlist]
    exact nodup_nil
  have hfunded : Funded empty := fun i hi => absurd hi (hnone i)
  split
  · rename_i hfair
    have hgroup := listed_foldl_joinGroup c allowed hnum (hmode.trans hfair) hempty
      (fun i hi => absurd hi (hnone i))
    have hpf : pfIdx ∉ ((allowedVfs numVf allowed).foldl (joinGroup c) empty).activeVfList := by
      rw [(foldl_joinGroup c _ empty).1, hlist, nil_append]
      intro hmem
      have := mem_allowedVfs hmem
      have := slots.le_pf
      omega
    exact ⟨hgroup.1.setEntry (fun hi => absurd hi hpf) (fun hi => absurd hi hpf),
      (hgroup.2 hfunded).setEntry (fun hi => absurd hi hpf)⟩
  · exact ⟨hempty, hfunded⟩

theorem serve_keeps {req : Request} (h : Listed slots ws) (hserves : Serves slots ws req ws') :
    Listed slots ws' ∧ (StoresSlice ws req → Funded ws → Funded ws') := by
  unfold Serves at hserves
  cases req with
  | addVf idxVf timeSlice gfx =>
    simp only [serve] at hserves
    split at hserves
    · cases hserves
    · rename_i hguard
      cases hserves
      obtain ⟨hlisted, hfunded⟩ := addVf_keeps hguard h
      exact ⟨hlisted, fun _ => hfunded⟩
  | removeVf idxVf suspended =>
    simp only [serve] at hserves
    cases hserves
    obtain ⟨hlisted, hfunded⟩ := removeVf_keeps idxVf suspended h
    exact ⟨hlisted, fun _ => hfunded⟩
  | updateTimeSlice idxVf timeSlice =>
    simp only [serve] at hserves
    cases hserves
    exact updateTimeSlice_keeps idxVf timeSlice h
  | setVfNum c numVf allowed =>
    simp only [serve] at hserves
    split at hserves
    · rename_i hnum
      cases hserves
      obtain ⟨hlisted, hfunded⟩ := setVfNum_keeps c allowed hnum h
      exact ⟨hlisted, fun _ => hfunded⟩
    · cases hserves
  | setPfState active =>
    simp only [serve] at hserves
    cases hserves
    exact ⟨⟨h.nodup, h.words, h.group, h.real⟩, fun _ => id⟩
  | moveTail idxVf =>
    simp only [serve] at hserves
    split at hserves
    · rename_i hmem
      cases hserves
      have hperm := (moveTail_alike hmem).list
      exact ⟨h.relist (hperm.nodup_iff.mpr h.nodup) (fun i hi => hperm.mem_iff.mp hi),
        fun _ hf i hi => hf i (hperm.mem_iff.mp hi)⟩
    · cases hserves

theorem run_listed (hrun : Run (Inits slots) (Serves slots) Transition.always ws) :
    Listed slots ws := by
  apply hrun.invariant (Listed slots)
  · rintro ws ⟨old, fairnessMode, c, numVf, allowed, hnum, rfl⟩
    exact (init_keeps slots old fairnessMode c allowed hnum).1
  · intro before req after hlisted _ hserves
    exact (serve_keeps hlisted hserves).1

theorem run_funded (hrun : Run (Inits slots) (Serves slots) StoresSlice ws) :
    Listed slots ws ∧ Funded ws := by
  apply hrun.invariant (fun ws => Listed slots ws ∧ Funded ws)
  · rintro ws ⟨old, fairnessMode, c, numVf, allowed, hnum, rfl⟩
    exact init_keeps slots old fairnessMode c allowed hnum
  · intro before req after hkeeps hstores hserves
    obtain ⟨hlisted, hfunded⟩ := serve_keeps hkeeps.1 hserves
    exact ⟨hlisted, hfunded hstores hkeeps.2⟩

end requests

section picker

variable {slots : Slots} {ws : WorldSwitch}

theorem Listed.ready (h : Listed slots ws) (c : SliceSource) (debts : Nat → Time) :
    Ready (ws.owing c debts) where
  nodup := h.nodup
  words := h.words
  granted := fun i => setWidth_ne_zero (c.getGfxTimeSlice_ne_zero ws.pfActive i)

theorem Listed.alwaysEnds_iff (h : Listed slots ws) :
    AlwaysEnds ws ↔ ∃ i, Runnable ws i ∧ Pays ws i := by
  constructor
  · intro hends
    apply Classical.byContradiction
    intro hnone
    let c : SliceSource := ⟨.absent, 0, false, false⟩
    obtain ⟨fuel, next, idxVf, ts, hsome, -⟩ := hends c (fun _ => 0)
    have hgoes := not_ends_of_unpaid fuel (ws.owing c (fun _ => 0)) (h.ready c _)
      (fun i hrun hpays => hnone ⟨i, hrun, hpays⟩) (fun _ => rfl)
    rw [hgoes] at hsome
    cases hsome
  · rintro ⟨i, hrun, hpays⟩ c debts
    exact ends_of_pays _ _ (ws.owing c debts) (h.ready c debts) hrun hpays (Nat.le_refl _)
      (Nat.le_refl _)

theorem Listed.exists_runnable (h : Listed slots ws) (hne : ws.activeVfList ≠ []) :
    ∃ i, Runnable ws i := by
  cases hlist : ws.activeVfList with
  | nil => exact absurd hlist hne
  | cons i rest =>
    by_cases hi : i = pfIdx
    · cases rest with
      | nil => exact ⟨i, by rw [hlist]; exact mem_cons_self, fun _ => .inr (by rw [hlist, hi])⟩
      | cons j more =>
        refine ⟨j, by rw [hlist]; simp, ?_⟩
        intro hj
        have hnodup := h.nodup
        rw [hlist, hi, hj] at hnodup
        exact absurd mem_cons_self (nodup_cons.mp hnodup).1
    · exact ⟨i, by rw [hlist]; exact mem_cons_self, fun hpf => absurd hpf hi⟩

theorem Funded.pays (hlisted : Listed slots ws) (h : Funded ws) {i : Nat}
    (hrun : Runnable ws i) : Pays ws i := by
  unfold Pays
  split
  · exact .inr (h i hrun.1)
  · rename_i hmode
    have htarget : ws.target i = i := by
      unfold target
      rw [hlisted.real (by simpa using hmode) i hrun.1]
      rfl
    rw [htarget]
    exact h i hrun.1

def noSource : SliceSource := ⟨.generic, 4, false, false⟩

def zeroSwitch : WorldSwitch where
  fairnessMode := false
  vfBusyStatus := 0
  vfTimeout := 0
  vfInited := 0
  currIdxVf := pfIdx
  loaded := false
  activeVfList := []
  arrayVf := fun _ => ⟨0, 0, false, 0, 0, 0, false, 0⟩
  pfActive := false
  usePf := false
  bpMode := false
  gfxTimeSlice := fun _ => 0

def allSlots : Slots := ⟨31, by decide⟩

def oneAdded : WorldSwitch :=
  (zeroSwitch.init false noSource 4 0xf).addVf 0 6000 true

theorem oneAdded_run : Run (Inits allSlots) (Serves allSlots) StoresSlice oneAdded := by
  have hfirst : Run (Inits allSlots) (Serves allSlots) StoresSlice
      (zeroSwitch.init false noSource 4 0xf) :=
    .start ⟨zeroSwitch, false, noSource, 4, 0xf, by decide, rfl⟩
  exact .next (.addVf 0 6000 true) hfirst trivial (by rfl)

/-- Three functions are added, the physical one is removed again, and a slice is changed. -/
def twoLeft : List Request :=
  [.addVf pfIdx 1000 true, .addVf 0 6000 true, .addVf 1 3000 true, .removeVf pfIdx false,
    .updateTimeSlice 0 2000]

end picker

end MxGpu.Switch
