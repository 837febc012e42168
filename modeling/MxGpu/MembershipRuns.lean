import MxGpu.ManualMembership

/- The active list over whole runs of a manual world switch: the functions in it, in order, are
carried through every action. -/
namespace MxGpu.Switch

open RingList Function List
open Transition (Run)

namespace ManualSwitch

variable {s s' s'' : ManualSwitch} {nodes nodes' : List Nat} {idxVf : Nat}

structure SameVfs (s s' : ManualSwitch) : Prop where
  idxVf : s'.idxVf = s.idxVf
  numVf : s'.numVf = s.numVf
  maxNumVf : s'.maxNumVf = s.maxNumVf
  fairnessMode : s'.ws.fairnessMode = s.ws.fairnessMode

def Shuffles (s : ManualSwitch) (nodes : List Nat) (s' : ManualSwitch) : Prop :=
  SameVfs s s' ∧ ∃ nodes' : List Nat, nodes'.Perm nodes ∧ Rings s'.links none (nodes'.map some)

theorem SameVfs.trans (first : SameVfs s s') (second : SameVfs s' s'') : SameVfs s s'' where
  idxVf := second.idxVf.trans first.idxVf
  numVf := second.numVf.trans first.numVf
  maxNumVf := second.maxNumVf.trans first.maxNumVf
  fairnessMode := second.fairnessMode.trans first.fairnessMode

theorem shuffles_refl (rings : Rings s.links none (nodes.map some)) : Shuffles s nodes s :=
  ⟨⟨rfl, rfl, rfl, rfl⟩, nodes, List.Perm.refl _, rings⟩

theorem Shuffles.trans (first : Shuffles s nodes s')
    (second : ∀ nodes', nodes'.Perm nodes → Rings s'.links none (nodes'.map some) →
      Shuffles s' nodes' s'') : Shuffles s nodes s'' := by
  obtain ⟨same, between, perm, rings⟩ := first
  obtain ⟨same', last, perm', rings'⟩ := second between perm rings
  exact ⟨same.trans same', last, perm'.trans perm, rings'⟩

theorem Shuffles.withWs (first : Shuffles s nodes s') (ws : WorldSwitch)
    (mode : ws.fairnessMode = s'.ws.fairnessMode) : Shuffles s nodes { s' with ws := ws } := by
  obtain ⟨same, between, perm, rings⟩ := first
  exact ⟨⟨same.idxVf, same.numVf, same.maxNumVf, mode.trans same.fairnessMode⟩, between, perm,
    rings⟩

theorem moveTail_shuffles (rings : Rings s.links none (nodes.map some))
    (member : idxVf ∈ nodes) : Shuffles s nodes (s.moveTail idxVf) := by
  obtain ⟨pre, post, rfl⟩ := append_of_mem member
  rw [map_append, map_cons] at rings
  have moved := rings.moveTail
  refine ⟨⟨rfl, rfl, rfl, rfl⟩, pre ++ post ++ [idxVf], ?_, ?_⟩
  · have ends : (pre ++ post ++ [idxVf]).Perm (idxVf :: (pre ++ post)) :=
      perm_append_singleton ..
    exact ends.trans perm_middle.symm
  · rw [map_append, map_append, map_singleton]
    exact moved

theorem first_mem (rings : Rings s.links none (nodes.map some))
    (first : s.links.next none = some idxVf) : idxVf ∈ nodes := by
  have follows := (rings.next_mem (mem_cons_self ..)).1
  rw [first] at follows
  have member : some idxVf ∈ nodes.map some := by
    rcases mem_cons.mp follows with atHead | inside
    · exact absurd atHead (Option.some_ne_none idxVf)
    · exact inside
  obtain ⟨i, listed, same⟩ := mem_map.mp member
  exact Option.some.inj same ▸ listed

theorem turn_shuffles (rings : Rings s.links none (nodes.map some))
    (first : s.links.next none = some idxVf) : Shuffles s nodes (s.turn idxVf) := by
  unfold turn
  split
  · exact moveTail_shuffles rings (first_mem rings first)
  · exact shuffles_refl rings

theorem scheduleVfsDefault_shuffles (fuel : Nat) {picked : ManualSwitch × Nat × Time}
    (rings : Rings s.links none (nodes.map some))
    (picks : scheduleVfsDefault fuel s = some picked) : Shuffles s nodes picked.1 := by
  induction fuel generalizing s nodes with
  | zero => cases picks
  | succ fuel ih =>
    cases atFirst : s.links.next none with
    | none =>
      simp only [scheduleVfsDefault, atFirst] at picks
      cases picks
    | some head =>
      refine (turn_shuffles rings atFirst).trans fun turned _ rings' => ?_
      simp only [scheduleVfsDefault, atFirst] at picks
      cases atEntry : (s.turn head).links.next none with
      | none =>
        simp only [atEntry] at picks
        cases picks
      | some entry =>
        simp only [atEntry] at picks
        have member := first_mem rings' atEntry
        have priced := (shuffles_refl rings').withWs
          ((s.turn head).ws.calculateTimeSlice ((s.turn head).idxVf entry)).2 rfl
        split at picks
        · -- the entry pays a debt: it is moved and the loop goes on
          refine (priced.trans fun again perm rings'' =>
            moveTail_shuffles rings'' (perm.mem_iff.mpr member)).trans
              fun last _ rings'' => ih rings'' picks
        · split at picks
          · cases picks
            exact priced.trans fun again perm rings'' =>
              moveTail_shuffles rings'' (perm.mem_iff.mpr member)
          · cases picks
            exact priced

theorem scheduleVfsLiquid_shuffles {picked : ManualSwitch × Nat × Time}
    (rings : Rings s.links none (nodes.map some))
    (picks : s.scheduleVfsLiquid = some picked) : Shuffles s nodes picked.1 := by
  unfold scheduleVfsLiquid at picks
  split at picks
  · cases picks
  · next head atFirst =>
    dsimp only at picks
    split at picks
    · cases picks
    · cases picks
      exact (turn_shuffles rings atFirst).withWs _ rfl

@[simp] theorem stopRecordVfTime_fairnessMode (ws : WorldSwitch) (idxVf : Nat) (now : Time) :
    (ws.stopRecordVfTime idxVf now).fairnessMode = ws.fairnessMode := by
  unfold WorldSwitch.stopRecordVfTime
  dsimp only
  split <;> rfl

theorem stopRecordVfTime_frame (ws : WorldSwitch) (idxVf : Nat) (now : Time) :
    (ws.stopRecordVfTime idxVf now).currIdxVf = ws.currIdxVf ∧
      (ws.stopRecordVfTime idxVf now).usePf = ws.usePf ∧
      (ws.stopRecordVfTime idxVf now).pfActive = ws.pfActive := by
  unfold WorldSwitch.stopRecordVfTime
  dsimp only
  split <;> exact ⟨rfl, rfl, rfl⟩

theorem saveCurrent_shuffles (rings : Rings s.links none (nodes.map some))
    {saved : Bool} (listed : saved = true → s.Moves → s.ws.currIdxVf ∈ nodes) (now : Time) :
    Shuffles s nodes (s.saveCurrent saved now) := by
  have stopped := (shuffles_refl rings).withWs
    { s.ws.stopRecordVfTime s.ws.currIdxVf now with loaded := false }
    (stopRecordVfTime_fairnessMode s.ws s.ws.currIdxVf now)
  obtain ⟨curr, use, active⟩ := stopRecordVfTime_frame s.ws s.ws.currIdxVf now
  unfold saveCurrent
  dsimp only
  split
  · next moves =>
    have before : s.Moves := by
      have later := moves.2
      unfold Moves IsInvalid at later ⊢
      simpa only [curr, use, active] using later
    exact stopped.trans fun between perm rings' =>
      moveTail_shuffles rings' (perm.mem_iff.mpr (listed moves.1 before))
  · exact stopped

theorem load_shuffles (rings : Rings s.links none (nodes.map some)) (idxVf : Nat)
    (started liquid : Bool) (now : Time) :
    Shuffles s nodes (s.load idxVf started liquid now) :=
  (shuffles_refl rings).withWs _ rfl

theorem switchOut_shuffles (rings : Rings s.links none (nodes.map some))
    {saved : Bool} (listed : saved = true → s.ws.loaded = true → s.Moves → s.ws.currIdxVf ∈ nodes)
    (now : Time) : Shuffles s nodes (s.switchOut saved now) := by
  unfold switchOut
  split
  · next loaded => exact saveCurrent_shuffles rings (fun done => listed done loaded) now
  · split
    · exact shuffles_refl rings
    · split
      · exact (shuffles_refl rings).withWs _ (stopRecordVfTime_fairnessMode ..)
      · exact shuffles_refl rings

theorem process_shuffles {fuel : Nat} {liquid saved started : Bool} {now : Time}
    (rings : Rings s.links none (nodes.map some))
    (listed : s.activeListEmpty = some false → saved = true → s.ws.loaded = true → s.Moves →
      s.ws.currIdxVf ∈ nodes)
    (runs : s.process fuel liquid saved started now = some s') : Shuffles s nodes s' := by
  unfold process at runs
  split at runs
  · cases runs
  · split at runs
    · cases runs
      exact shuffles_refl rings
    · cases runs
      exact load_shuffles rings pfIdx started liquid now
  · next filled =>
    have out := switchOut_shuffles rings (listed filled) now
    dsimp only at runs
    split at runs
    · cases runs
      exact out
    · obtain ⟨picked, picks, rfl⟩ := Option.map_eq_some_iff.mp runs
      refine out.trans fun between _ rings' => ?_
      have chosen : Shuffles (s.switchOut saved now) between picked.1 := by
        cases liquid with
        | true => exact scheduleVfsLiquid_shuffles rings' picks
        | false => exact scheduleVfsDefault_shuffles fuel rings' picks
      exact chosen.trans fun last _ rings'' =>
        load_shuffles rings'' picked.2.1 started liquid now

end ManualSwitch

open ManualSwitch

/-- The functions of the list, in order: each holds its own index, every other entry but the
physical one is marked as invalid, and those that were added are the ones in the list. -/
structure WellFormed (h : History) (nodes : List Nat) : Prop where
  rings : Rings h.s.links none (nodes.map some)
  exist : ∀ i ∈ nodes, i = pfIdx ∨ i < h.s.numVf
  holds : ∀ i ∈ nodes, h.s.idxVf i = i
  marked : ∀ i, i ≠ pfIdx → i ∉ nodes → h.s.idxVf i = h.s.invalidIdxVf
  pf : h.s.idxVf pfIdx = pfIdx
  added : ∀ i, (h.s.ws.fairnessMode = true → i = pfIdx) → (i ∈ nodes ↔ h.added i = true)
  num : h.s.numVf ≤ h.s.maxNumVf
  max : h.s.maxNumVf ≤ pfIdx

section steps

variable {h : History} {nodes : List Nat} {s' : ManualSwitch} {idxVf : Nat}

theorem WellFormed.valid (formed : WellFormed h nodes) (member : idxVf ∈ nodes) :
    ¬ h.s.IsInvalid (h.s.idxVf idxVf) := by
  rw [formed.holds idxVf member]
  rintro ⟨notPf, beyond⟩
  rcases formed.exist idxVf member with pf | below
  · exact notPf pf
  · omega

theorem WellFormed.mem_of_owns (formed : WellFormed h nodes)
    (valid : ¬ h.s.IsInvalid (h.s.idxVf idxVf)) (owns : Owns h idxVf) : idxVf ∈ nodes := by
  obtain ⟨holds, added⟩ := owns
  by_cases isPf : idxVf = pfIdx
  · rw [isPf]
    exact (formed.added pfIdx fun _ => rfl).mpr (added isPf)
  · by_contra outside
    have mark := formed.marked idxVf isPf outside
    have num := formed.num
    apply valid
    refine ⟨?_, ?_⟩
    · rw [holds]
      exact isPf
    · rw [mark, invalidIdxVf]
      omega

theorem WellFormed.shuffled (formed : WellFormed h nodes) (shuffles : Shuffles h.s nodes s') :
    ∃ nodes', WellFormed ⟨s', h.added⟩ nodes' := by
  obtain ⟨same, nodes', perm, rings⟩ := shuffles
  have mem (i : Nat) : i ∈ nodes' ↔ i ∈ nodes := perm.mem_iff
  refine ⟨nodes', rings, ?_, ?_, ?_, ?_, ?_, ?_, ?_⟩
  · intro i member
    rw [same.numVf]
    exact formed.exist i ((mem i).mp member)
  · intro i member
    rw [same.idxVf]
    exact formed.holds i ((mem i).mp member)
  · intro i notPf outside
    rw [same.idxVf, invalidIdxVf, same.maxNumVf]
    exact formed.marked i notPf fun member => outside ((mem i).mpr member)
  · rw [same.idxVf]
    exact formed.pf
  · intro i mode
    rw [mem i]
    exact formed.added i (same.fairnessMode ▸ mode)
  · rw [same.numVf, same.maxNumVf]
    exact formed.num
  · rw [same.maxNumVf]
    exact formed.max

theorem WellFormed.grouped (formed : WellFormed h nodes) {ws : WorldSwitch} {added : Nat → Bool}
    (mode : ws.fairnessMode = h.s.ws.fairnessMode)
    (same : ∀ i, (h.s.ws.fairnessMode = true → i = pfIdx) → added i = h.added i) :
    WellFormed ⟨{ h.s with ws := ws }, added⟩ nodes where
  rings := formed.rings
  exist := formed.exist
  holds := formed.holds
  marked := formed.marked
  pf := formed.pf
  added i fits := by
    have fits' : h.s.ws.fairnessMode = true → i = pfIdx := fun fair => fits (mode.trans fair)
    have kept := same i fits'
    exact (formed.added i fits').trans (by rw [← kept])
  num := formed.num
  max := formed.max

theorem addVf_fairnessMode (ws : WorldSwitch) (idxVf : Nat) (timeSlice : BitVec 32)
    (gfx : Bool) : (ws.addVf idxVf timeSlice gfx).fairnessMode = ws.fairnessMode := by
  unfold WorldSwitch.addVf
  dsimp only
  split
  · rfl
  · split <;> split <;> rfl

theorem WellFormed.addTail (formed : WellFormed h nodes) (outside : idxVf ∉ nodes)
    (exists' : idxVf = pfIdx ∨ idxVf < h.s.numVf) {ws : WorldSwitch}
    (mode : ws.fairnessMode = h.s.ws.fairnessMode) :
    WellFormed ⟨({ h.s with ws := ws }).addTail idxVf, update h.added idxVf true⟩
      (nodes ++ [idxVf]) := by
  have fresh : some idxVf ∉ none :: nodes.map some := by
    intro member
    rcases mem_cons.mp member with atHead | inside
    · exact Option.some_ne_none idxVf atHead
    · obtain ⟨i, listed, same⟩ := mem_map.mp inside
      exact outside (Option.some.inj same ▸ listed)
  refine ⟨?_, ?_, ?_, ?_, ?_, ?_, formed.num, formed.max⟩
  · rw [map_append, map_singleton]
    exact formed.rings.join fresh
  · intro i member
    rcases mem_append.mp member with before | last
    · exact formed.exist i before
    · rw [mem_singleton.mp last]
      exact exists'
  · intro i member
    by_cases atNew : i = idxVf
    · rw [atNew]
      exact update_self ..
    · have before : i ∈ nodes := (mem_append.mp member).resolve_right
        fun last => atNew (mem_singleton.mp last)
      exact (update_of_ne atNew ..).trans (formed.holds i before)
  · intro i notPf notIn
    have atOther : i ≠ idxVf := fun same =>
      notIn (mem_append.mpr (.inr (mem_singleton.mpr same)))
    have before : i ∉ nodes := fun member => notIn (mem_append_left _ member)
    exact (update_of_ne atOther ..).trans (formed.marked i notPf before)
  · by_cases isPf : pfIdx = idxVf
    · rw [← isPf]
      exact update_self pfIdx pfIdx h.s.idxVf
    · exact (update_of_ne isPf ..).trans formed.pf
  · intro i fits
    have fits' : h.s.ws.fairnessMode = true → i = pfIdx := fun fair => fits (mode.trans fair)
    have before := formed.added i fits'
    by_cases atNew : i = idxVf
    · simp [atNew]
    · simp [atNew, before]

theorem WellFormed.unlink {pre post : List Nat} (formed : WellFormed h (pre ++ idxVf :: post))
    {ws : WorldSwitch} (mode : ws.fairnessMode = h.s.ws.fairnessMode) :
    WellFormed
      ⟨{ h.s with
          ws := ws
          links := h.s.links.unlink (h.s.links.prev (some idxVf)) (h.s.links.next (some idxVf))
          idxVf :=
            if h.s.idxVf idxVf ≠ pfIdx then update h.s.idxVf idxVf h.s.invalidIdxVf
            else h.s.idxVf }, update h.added idxVf false⟩ (pre ++ post) := by
  have rings := formed.rings
  rw [map_append, map_cons] at rings
  have away : idxVf ∉ pre ++ post := by
    intro member
    apply rings.not_mem_others
    rw [← map_append]
    exact mem_cons_of_mem _ (mem_map_of_mem member)
  have own : h.s.idxVf idxVf = idxVf :=
    formed.holds idxVf (mem_append_right _ (mem_cons_self ..))
  have sub (i : Nat) (atOther : i ≠ idxVf) : i ∈ pre ++ idxVf :: post ↔ i ∈ pre ++ post := by
    simp [atOther]
  have others (i : Nat) (atOther : i ≠ idxVf) :
      (if h.s.idxVf idxVf ≠ pfIdx then update h.s.idxVf idxVf h.s.invalidIdxVf
        else h.s.idxVf) i = h.s.idxVf i := by
    split
    · exact update_of_ne atOther ..
    · rfl
  have apart (i : Nat) (member : i ∈ pre ++ post) : i ≠ idxVf := fun same => away (same ▸ member)
  refine ⟨?_, ?_, ?_, ?_, ?_, ?_, formed.num, formed.max⟩
  · rw [map_append]
    exact rings.unlink
  · intro i member
    exact formed.exist i ((sub i (apart i member)).mpr member)
  · intro i member
    exact (others i (apart i member)).trans
      (formed.holds i ((sub i (apart i member)).mpr member))
  · intro i notPf outside
    by_cases atOld : i = idxVf
    · rw [atOld] at notPf ⊢
      dsimp only
      rw [own, if_pos notPf]
      exact update_self ..
    · exact (others i atOld).trans
        (formed.marked i notPf fun member => outside ((sub i atOld).mp member))
  · by_cases isPf : pfIdx = idxVf
    · dsimp only
      rw [own, ← isPf, if_neg (not_not.mpr rfl)]
      exact formed.pf
    · exact (others pfIdx isPf).trans formed.pf
  · intro i fits
    have fits' : h.s.ws.fairnessMode = true → i = pfIdx := fun fair => fits (mode.trans fair)
    have before := formed.added i fits'
    by_cases atOld : i = idxVf
    · rw [atOld]
      simpa using away
    · rw [← sub i atOld, before]
      simp [atOld]

theorem foldl_addTail {s : ManualSwitch} (vfs : List Nat)
    (rings : Rings s.links none (nodes.map some)) (nodup : (nodes ++ vfs).Nodup) :
    Rings (vfs.foldl ManualSwitch.addTail s).links none ((nodes ++ vfs).map some) ∧
      (∀ i, (vfs.foldl ManualSwitch.addTail s).idxVf i = if i ∈ vfs then i else s.idxVf i) ∧
      (vfs.foldl ManualSwitch.addTail s).ws = s.ws ∧
      (vfs.foldl ManualSwitch.addTail s).numVf = s.numVf ∧
      (vfs.foldl ManualSwitch.addTail s).maxNumVf = s.maxNumVf := by
  induction vfs generalizing s nodes with
  | nil => exact ⟨by rwa [append_nil], fun i => (if_neg not_mem_nil).symm, rfl, rfl, rfl⟩
  | cons v vfs ih =>
    have apart : v ∉ nodes := fun member =>
      (nodup_append.mp nodup).2.2 v member v (mem_cons_self ..) rfl
    have fresh : some v ∉ none :: nodes.map some := by
      intro member
      rcases mem_cons.mp member with atHead | inside
      · exact Option.some_ne_none v atHead
      · obtain ⟨i, listed, same⟩ := mem_map.mp inside
        exact apart (Option.some.inj same ▸ listed)
    have joined : Rings (s.addTail v).links none ((nodes ++ [v]).map some) := by
      rw [map_append, map_singleton]
      exact rings.join fresh
    have split : nodes ++ v :: vfs = (nodes ++ [v]) ++ vfs := by
      rw [append_assoc, singleton_append]
    obtain ⟨rings', idx, ws, num, max⟩ := ih joined (split ▸ nodup)
    refine ⟨?_, ?_, ws, num, max⟩
    · rw [split]
      exact rings'
    · intro i
      rw [foldl_cons, idx i]
      by_cases later : i ∈ vfs
      · rw [if_pos later, if_pos (mem_cons_of_mem v later)]
      · rw [if_neg later]
        by_cases now : i = v
        · rw [if_pos (now ▸ mem_cons_self ..), now]
          exact update_self v v s.idxVf
        · have neither : i ∉ v :: vfs := fun member =>
            (mem_cons.mp member).elim now later
          rw [if_neg neither]
          exact update_of_ne now ..

theorem wellFormed_pf {s : ManualSwitch} (rings : Rings s.links none (nodes.map some))
    (below : ∀ i ∈ nodes, i < s.numVf) (holds : ∀ i ∈ nodes, s.idxVf i = i)
    (marked : ∀ i, i ∉ nodes → s.idxVf i = s.invalidIdxVf)
    (group : s.ws.fairnessMode = false → nodes = []) (num : s.numVf ≤ s.maxNumVf)
    (max : s.maxNumVf ≤ pfIdx) :
    WellFormed ⟨{ s with
      links := s.links.init (some pfIdx)
      idxVf := update s.idxVf pfIdx pfIdx }, fun _ => false⟩ nodes := by
  have apart (i : Nat) (member : i ∈ nodes) : i ≠ pfIdx := by
    have := below i member
    omega
  refine ⟨?_, ?_, ?_, ?_, ?_, ?_, num, max⟩
  · apply rings.frame_init
    intro member
    rcases mem_cons.mp member with atHead | inside
    · exact Option.some_ne_none pfIdx atHead
    · obtain ⟨i, listed, same⟩ := mem_map.mp inside
      exact apart i listed (Option.some.inj same)
  · intro i member
    exact .inr (below i member)
  · intro i member
    exact (update_of_ne (apart i member) ..).trans (holds i member)
  · intro i notPf outside
    exact (update_of_ne notPf ..).trans (marked i outside)
  · exact update_self pfIdx pfIdx s.idxVf
  · intro i fits
    have outside : i ∉ nodes := by
      intro member
      cases mode : s.ws.fairnessMode with
      | true => exact apart i member (fits mode)
      | false =>
        rw [group mode] at member
        exact not_mem_nil member
    exact iff_of_false outside Bool.false_ne_true

theorem init_fairnessMode (ws : WorldSwitch) (fairnessMode : Bool) (c : SliceSource)
    (numVf : Nat) (allowedVfAssignment : BitVec 32) :
    (ws.init fairnessMode c numVf allowedVfAssignment).fairnessMode = fairnessMode := by
  unfold WorldSwitch.init
  cases fairnessMode with
  | true => exact (foldl_joinGroup c _ _).2.1
  | false => rfl

theorem wellFormed_init {old : ManualSwitch} (fairnessMode : Bool) (c : SliceSource)
    (allowedVfAssignment : BitVec 32) (num : old.numVf ≤ old.maxNumVf)
    (max : old.maxNumVf ≤ pfIdx) :
    ∃ nodes, WellFormed ⟨old.init fairnessMode c allowedVfAssignment, fun _ => false⟩ nodes := by
  let start : ManualSwitch := { old with
    ws := old.ws.init fairnessMode c old.numVf allowedVfAssignment
    links := old.links.init none
    idxVf := fun _ => old.invalidIdxVf }
  have empty : Rings start.links none (([] : List Nat).map some) := rings_init ..
  have mode : start.ws.fairnessMode = fairnessMode := init_fairnessMode ..
  cases fairnessMode with
  | false =>
    exact ⟨[], wellFormed_pf empty (fun _ member => absurd member not_mem_nil)
      (fun _ member => absurd member not_mem_nil) (fun _ _ => rfl) (fun _ => rfl) num max⟩
  | true =>
    let vfs := allowedVfs old.numVf allowedVfAssignment
    obtain ⟨rings, idx, ws, sameNum, sameMax⟩ :=
      foldl_addTail vfs empty (allowedVfs_nodup old.numVf allowedVfAssignment)
    let group := vfs.foldl ManualSwitch.addTail start
    have below (i : Nat) (member : i ∈ vfs) : i < group.numVf := by
      rw [sameNum]
      exact mem_allowedVfs member
    have holds (i : Nat) (member : i ∈ vfs) : group.idxVf i = i := by
      rw [idx i, if_pos member]
    have marked (i : Nat) (outside : i ∉ vfs) : group.idxVf i = group.invalidIdxVf := by
      rw [idx i, if_neg outside, invalidIdxVf, sameMax]
      rfl
    have fair (unfair : group.ws.fairnessMode = false) : vfs = [] := by
      rw [ws, mode] at unfair
      cases unfair
    have num' : group.numVf ≤ group.maxNumVf := by
      rw [sameNum, sameMax]
      exact num
    have max' : group.maxNumVf ≤ pfIdx := by
      rw [sameMax]
      exact max
    exact ⟨vfs, wellFormed_pf rings below holds marked fair num' max'⟩

theorem WellFormed.addVf (formed : WellFormed h nodes) {timeSlice : BitVec 32} {gfx : Bool}
    (asked : idxVf = pfIdx ∨ idxVf < h.s.numVf) (suits : Suits h (.addVf idxVf timeSlice gfx)) :
    ∃ nodes', WellFormed ⟨h.s.addVf idxVf timeSlice gfx,
      noteAction h.added (.addVf idxVf timeSlice gfx)⟩ nodes' := by
  unfold ManualSwitch.addVf noteAction
  by_cases zero : timeSlice = 0
  · simp only [if_pos zero]
    exact ⟨nodes, formed⟩
  · simp only [if_neg zero]
    have mode := addVf_fairnessMode h.s.ws idxVf timeSlice gfx
    by_cases grouped : h.s.ws.fairnessMode = true ∧ idxVf ≠ pfIdx
    · -- a function of the group stays where it is
      rw [if_pos grouped]
      refine ⟨nodes, formed.grouped mode fun i fits => ?_⟩
      have atOther : i ≠ idxVf := fits grouped.1 ▸ grouped.2.symm
      exact update_of_ne atOther ..
    · rw [if_neg grouped]
      have fits (fair : h.s.ws.fairnessMode = true) : idxVf = pfIdx := by
        by_contra notPf
        exact grouped ⟨fair, notPf⟩
      have outside : idxVf ∉ nodes := by
        intro member
        have added := (formed.added idxVf fits).mp member
        rw [suits zero fits] at added
        cases added
      exact ⟨nodes ++ [idxVf], formed.addTail outside asked mode⟩

theorem WellFormed.removeVf (formed : WellFormed h nodes) {suspended : Bool} {now : Time}
    (suits : Suits h (.removeVf idxVf suspended now)) :
    ∃ nodes', WellFormed ⟨h.s.removeVf idxVf suspended now,
      noteAction h.added (.removeVf idxVf suspended now)⟩ nodes' := by
  unfold ManualSwitch.removeVf noteAction
  by_cases invalid : h.s.IsInvalid (h.s.idxVf idxVf)
  · -- nothing was added under this index
    simp only [if_pos invalid]
    refine ⟨nodes, formed.grouped rfl fun i fits => ?_⟩
    by_cases atIdx : i = idxVf
    · have outside : i ∉ nodes := fun member => formed.valid (atIdx ▸ member) invalid
      have out : h.added i = false := by
        rw [← Bool.not_eq_true]
        exact fun added => outside ((formed.added i fits).mpr added)
      rw [out, atIdx]
      exact update_self idxVf false h.added
    · exact update_of_ne atIdx ..
  · simp only [if_neg invalid]
    have mode : (if h.s.ws.currIdxVf = h.s.idxVf idxVf ∧ h.s.ws.loaded = true then
        { h.s.ws.stopRecordVfTime h.s.ws.currIdxVf now with loaded := false }
        else h.s.ws).fairnessMode = h.s.ws.fairnessMode := by
      split
      · exact stopRecordVfTime_fairnessMode ..
      · rfl
    by_cases grouped : h.s.ws.fairnessMode = true ∧ idxVf ≠ pfIdx
    · rw [if_pos grouped]
      refine ⟨nodes, formed.grouped mode fun i fits => ?_⟩
      have atOther : i ≠ idxVf := fits grouped.1 ▸ grouped.2.symm
      exact update_of_ne atOther ..
    · rw [if_neg grouped]
      have fits (fair : h.s.ws.fairnessMode = true) : idxVf = pfIdx := by
        by_contra notPf
        exact grouped ⟨fair, notPf⟩
      have member := formed.mem_of_owns invalid (suits ⟨invalid, fits⟩)
      obtain ⟨pre, post, split⟩ := append_of_mem member
      subst split
      exact ⟨pre ++ post, formed.unlink mode⟩

theorem WellFormed.act {action : Action} {after : History} (formed : WellFormed h nodes)
    (suits : Suits h action) (acts : Acts h action after) :
    ∃ nodes', WellFormed after nodes' := by
  obtain ⟨fired, noted⟩ := acts
  obtain ⟨s', added'⟩ := after
  dsimp only at fired noted
  subst noted
  cases action with
  | addVf idxVf timeSlice gfx =>
    obtain ⟨asked, fired⟩ := Option.ite_none_right_eq_some.mp fired
    cases fired
    exact formed.addVf asked suits
  | removeVf idxVf suspended now =>
    obtain ⟨_, fired⟩ := Option.ite_none_right_eq_some.mp fired
    cases fired
    exact formed.removeVf suits
  | updateTimeSlice idxVf timeSlice =>
    obtain ⟨_, fired⟩ := Option.ite_none_right_eq_some.mp fired
    cases fired
    unfold ManualSwitch.updateTimeSlice
    split
    · exact ⟨nodes, formed⟩
    · exact ⟨nodes, formed.grouped rfl fun _ _ => rfl⟩
  | process fuel liquid saved started now =>
    exact formed.shuffled (process_shuffles formed.rings
      (fun filled done loaded moves =>
        formed.mem_of_owns moves.1 (suits filled done loaded moves)) fired)
  | stop saved now =>
    cases fired
    apply formed.shuffled
    unfold ManualSwitch.stop
    split
    · next loaded =>
      exact saveCurrent_shuffles formed.rings
        (fun done moves => formed.mem_of_owns moves.1 (suits done loaded moves)) now
    · exact shuffles_refl formed.rings
  | load idxVf started liquid now =>
    obtain ⟨_, fired⟩ := Option.ite_none_right_eq_some.mp fired
    cases fired
    exact formed.shuffled (load_shuffles formed.rings idxVf started liquid now)
  | setPfState active =>
    cases fired
    exact ⟨nodes, formed.grouped rfl fun _ _ => rfl⟩
  | clearTimeSlice idxVf =>
    cases fired
    exact ⟨nodes, formed.grouped rfl fun _ _ => rfl⟩
  | setStatus vfBusyStatus vfTimeout vfInited =>
    cases fired
    exact ⟨nodes, formed.grouped rfl fun _ _ => rfl⟩

end steps

/-- In every run whose actions suit the state they meet, the active list is a ring of entries that
are valid, without fairness those of the functions that were added and not removed since, and what
a removal takes out is in it. -/
theorem manual_membership {h : History} (run : Run InitsManual Acts Suits h) :
    ∃ nodes : List Nat, Rings h.s.links none (nodes.map some) ∧
      (∀ i ∈ nodes, ¬ h.s.IsInvalid (h.s.idxVf i)) ∧
      (h.s.ws.fairnessMode = false → ∀ i, i ∈ nodes ↔ h.added i = true) ∧
      ∀ idxVf suspended now, Suits h (.removeVf idxVf suspended now) → h.s.Unlinks idxVf →
        idxVf ∈ nodes := by
  have keeps : ∃ nodes, WellFormed h nodes := by
    apply run.invariant fun h => ∃ nodes, WellFormed h nodes
    · rintro ⟨s, added⟩ ⟨old, fairnessMode, c, allowed, num, max, begins, nothing⟩
      dsimp only at begins nothing
      subst begins nothing
      exact wellFormed_init fairnessMode c allowed num max
    · rintro before action after ⟨nodes, formed⟩ suits acts
      exact formed.act suits acts
  obtain ⟨nodes, formed⟩ := keeps
  refine ⟨nodes, formed.rings, fun i member => formed.valid member, ?_, ?_⟩
  · intro unfair i
    exact formed.added i fun fair => absurd (unfair.symm.trans fair) Bool.false_ne_true
  · intro idxVf suspended now suits unlinks
    exact formed.mem_of_owns unlinks.1 (suits unlinks)

theorem run_actions {s last : ManualSwitch} {added : Nat → Bool} (actions : List Action)
    (run : Run InitsManual Acts Transition.always ⟨s, added⟩)
    (acts : actions.foldlM ManualSwitch.act s = some last) :
    Run InitsManual Acts Transition.always ⟨last, actions.foldl noteAction added⟩ := by
  induction actions generalizing s added with
  | nil =>
    cases acts
    exact run
  | cons action rest ih =>
    obtain ⟨between, fired, later⟩ := Option.bind_eq_some_iff.mp acts
    exact ih (.next action run trivial ⟨fired, rfl⟩) later

def twoFunctions : ManualSwitch where
  ws :=
    { fairnessMode := false, vfBusyStatus := 0, vfTimeout := 0, vfInited := 0, currIdxVf := 0,
      loaded := false, activeVfList := [], pfActive := false, usePf := true, bpMode := false,
      arrayVf := fun _ => ⟨0, 0, false, 0, 0, 0, false, 0⟩, gfxTimeSlice := fun _ => 1000 }
  links := ⟨id, id⟩
  idxVf := fun _ => 0
  numVf := 2
  maxNumVf := 16

def twoManual : ManualSwitch := twoFunctions.init false ⟨.generic, 2, false, false⟩ 3

theorem inits_twoManual : InitsManual ⟨twoManual, fun _ => false⟩ :=
  ⟨twoFunctions, false, ⟨.generic, 2, false, false⟩, 3, by decide, by decide, rfl, rfl⟩

/-- The physical function and another one come and go; the first is added again without a slice,
and removed. -/
def comeAndGo : List Action :=
  [.addVf pfIdx 1000 true, .addVf 0 1000 true, .removeVf pfIdx false 0, .removeVf 0 false 0,
    .addVf pfIdx 0 true, .removeVf pfIdx false 0]

/-- The second removal uses the links of the first time in the list, which lead to a function that
has left since, and puts that one in the list. -/
theorem pf_removed_twice :
    ∃ h, Run InitsManual Acts Transition.always h ∧ h.s.ws.fairnessMode = false ∧
      h.s.links.next none = some 0 ∧ h.added 0 = false ∧ h.s.IsInvalid (h.s.idxVf 0) ∧
      ¬ ∃ nodes : List Nat, Rings h.s.links none (nodes.map some) := by
  have run := run_actions comeAndGo (.start inits_twoManual) rfl
  refine ⟨_, run, rfl, rfl, rfl, by decide, ?_⟩
  rintro ⟨nodes, rings⟩
  have inverse := (rings.prev_mem (mem_cons_self ..)).2
  cases inverse

/-- Two functions are added and one is removed. -/
theorem manual_membership_two :
    ∃ h, Run InitsManual Acts Suits h ∧
      ∃ nodes : List Nat, Rings h.s.links none (nodes.map some) ∧
        ∀ i, i ∈ nodes ↔ h.added i = true := by
  have first : Run InitsManual Acts Suits ⟨twoManual, fun _ => false⟩ := .start inits_twoManual
  have second : Run InitsManual Acts Suits
      ⟨twoManual.addVf 0 1000 true, update (fun _ => false) 0 true⟩ :=
    .next (.addVf 0 1000 true) first (fun _ _ => rfl) ⟨rfl, rfl⟩
  have third : Run InitsManual Acts Suits
      ⟨(twoManual.addVf 0 1000 true).addVf pfIdx 1000 true,
        update (update (fun _ => false) 0 true) pfIdx true⟩ :=
    .next (.addVf pfIdx 1000 true) second (fun _ _ => rfl) ⟨rfl, rfl⟩
  have last : Run InitsManual Acts Suits
      ⟨((twoManual.addVf 0 1000 true).addVf pfIdx 1000 true).removeVf pfIdx false 0,
        update (update (update (fun _ => false) 0 true) pfIdx true)
          pfIdx false⟩ :=
    .next (.removeVf pfIdx false 0) third (fun _ => ⟨rfl, fun _ => rfl⟩) ⟨rfl, rfl⟩
  obtain ⟨nodes, rings, -, added, -⟩ := manual_membership last
  exact ⟨_, last, nodes, rings, added rfl⟩

end MxGpu.Switch
