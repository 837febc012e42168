import MxGpu.GuardWindow

/- Guards whose thresholds are changed while events are active. -/
namespace MxGpu.Guard

open Function

open Transition (Run)

/-- What a call does that can go wrong: a division, an access to the record array, and the
test of a time stamp while `active` events are active. -/
inductive Access
  | divide (n : Nat)
  | slot (idx : Nat)
  | test (active : Nat) (stamp : Time)
  deriving DecidableEq

inductive Command
  | call (op : Op)
  | reset (idxVf : Nat)
  | setInfo (idxVf type : Nat) (generalState state : BitVec 32) (interval : Time) (threshold : Nat)

def Command.idxVf : Command → Nat
  | .call (.add idxVf _) => idxVf
  | .call (.dec idxVf _) => idxVf
  | .call (.isFull idxVf _) => idxVf
  | .call (.getInfo idxVf _) => idxVf
  | .reset idxVf => idxVf
  | .setInfo idxVf _ _ _ _ _ => idxVf

section accesses

variable (clock : Nat → Time)

/-- The accesses of the inner loop of `amdgv_guard_delete_expired_event`. -/
def expireAccesses : Nat → MonitorEvent → Nat → List Access
  | 0, _, _ => []
  | fuel + 1, e, k =>
    if 0 < e.active then
      [.slot e.originIdx, .test e.active (e.recordArray e.originIdx)] ++
        if clock k - e.recordArray e.originIdx < e.interval then []
        else
          .divide e.threshold :: expireAccesses fuel { e with
            active := e.active - 1
            state := eventNormal
            originIdx := (e.originIdx + 1) % e.threshold } (k + 1)
    else []

def deleteAccesses : List EventId → VfGuard × Nat → List (EventId × Access)
  | [], _ => []
  | id :: ids, gk =>
    (expireAccesses clock (gk.1.event id).active (gk.1.event id) gk.2).map (id, ·) ++
      deleteAccesses ids (expireEvent clock gk id)

/-- Those of `amdgv_guard_add_active_event` from the test of the threshold on. -/
def addAccesses (g : VfGuard) (id : EventId) : List (EventId × Access) :=
  let e := g.event id
  if e.threshold ≤ e.active then []
  else [(id, .divide e.threshold), (id, .slot ((e.originIdx + e.active) % e.threshold))]

/-- Those of `amdgv_guard_vf_reset`, which clears as many entries as the threshold says. -/
def resetAccesses (g : VfGuard) : List (EventId × Access) :=
  EventId.all.flatMap fun id => (List.range (g.event id).threshold).map fun idx => (id, .slot idx)

def accesses (s : Adapt) : Command → List (EventId × Access)
  | .call (.add idxVf id) =>
    if s.idxInvalid idxVf then []
    else
      match s.guard idxVf with
      | none => []
      | some g =>
        if g.state = guardDisabled then []
        else
          deleteAccesses clock EventId.all (g, s.ticks) ++
            addAccesses (deleteExpiredEvent clock g s.ticks).1 id
  | .call (.getInfo idxVf type) =>
    if guardAll < type || s.idxInvalid idxVf || idxVf = pfIdx then []
    else
      match s.guard idxVf with
      | none => []
      | some g => deleteAccesses clock EventId.all (g, s.ticks)
  | .reset idxVf =>
    match s.guard idxVf with
    | none => []
    | some g => resetAccesses g
  | _ => []

def command (s : Adapt) : Command → Option Adapt
  | .call op => step clock s op
  | .reset idxVf => some (vfReset s idxVf).2
  | .setInfo idxVf type generalState state interval threshold =>
    (setVfInfo s idxVf type generalState state interval threshold).map (·.2)

def Commands (before : Watched) (op : Command) (after : Watched) : Prop :=
  command clock before.adapt op = some after.adapt ∧
    after.log = match op with
      | .call op => record clock before.adapt after.adapt before.log op
      | _ => before.log

end accesses

def oldest (times : List Nat) (active : Nat) : Option Nat :=
  if active ≤ times.length then times[times.length - active]? else none

/-- A division is not by zero, an index is below the size that was allocated, and a test is of
the time of the oldest active event. -/
def Access.Safe (max : Nat) (times : List Nat) : Access → Prop
  | .divide n => n ≠ 0
  | .slot idx => idx < max
  | .test active stamp => oldest times active = some stamp.toNat

/-- A threshold that leaves the ring of an event as it is: the old one, or any when no event is
active and the next one goes where it will be looked for, or one that the active events, which
do not reach around the end of the ring, fit below. -/
def Resizes (e : MonitorEvent) (threshold : Nat) : Prop :=
  threshold = e.threshold ∨ e.active = 0 ∧ threshold = 0 ∨
    e.originIdx < threshold ∧ e.originIdx + e.active ≤ threshold ∧
      (e.active = 0 ∨ e.originIdx + e.active ≤ e.threshold)

def Watched.Meets (w : Watched) : Command → Prop
  | .setInfo idxVf type _ _ _ threshold =>
    w.adapt.idxInvalid idxVf = false → ∀ g id, w.adapt.guard idxVf = some g →
      EventId.all[type]? = some id → threshold ≤ getMaxThreshold id →
        Resizes (g.event id) threshold
  | _ => True

/-- The guards are as `amdgv_guard_vf_init` leaves them, but for their thresholds. -/
def Adapt.Booted (s : Adapt) : Prop :=
  ∀ idxVf g, s.guard idxVf = some g → ∀ id, (g.event id).active = 0 ∧
    (g.event id).originIdx = 0 ∧ (g.event id).threshold ≤ getMaxThreshold id

/-- The record array has the active events in it, which are the last ones of the log. -/
structure Ring (max : Nat) (e : MonitorEvent) (times : List Nat) (recent : List Time) : Prop where
  threshold : e.threshold ≤ max
  slot_lt : e.originIdx < max
  origin : e.threshold = 0 ∨ e.originIdx < e.threshold
  active : recent.length = e.active
  holds : CircularBuffer.Holds e.threshold e.originIdx e.recordArray recent
  newest : recent.map BitVec.toNat <:+ times

def Rings (g : VfGuard) (log : EventId → List Nat) : Prop :=
  ∀ id, ∃ recent, Ring (getMaxThreshold id) (g.event id) (log id) recent

def Watched.Sound (w : Watched) : Prop :=
  ∀ idxVf g, w.adapt.guard idxVf = some g → Rings g (w.log idxVf)

section ring

variable {max : Nat} {e : MonitorEvent} {times : List Nat} {recent : List Time} {t : Time}
  {state amount : BitVec 32} {interval : Time} {n : Nat}

theorem oldest_of_suffix (h : (t :: recent).map BitVec.toNat <:+ times) :
    oldest times (recent.length + 1) = some t.toNat := by
  obtain ⟨old, rfl⟩ := h
  unfold oldest
  simp

theorem Ring.threshold_pos (h : Ring max e times recent) (hactive : 0 < e.active) :
    0 < e.threshold := by
  have hfits := h.holds.fits
  have hlength := h.active
  omega

theorem Ring.active_le (h : Ring max e times recent) : e.active ≤ e.threshold := by
  have hfits := h.holds.fits
  have hlength := h.active
  omega

theorem Ring.tested (h : Ring max e times recent) (hactive : 0 < e.active) :
    (Access.test e.active (e.recordArray e.originIdx)).Safe max times := by
  have hpos := h.threshold_pos hactive
  have horigin := h.origin.resolve_left (by omega)
  cases recent with
  | nil =>
    have hlength := h.active
    rw [List.length_nil] at hlength
    omega
  | cons t recent =>
    unfold Access.Safe
    rw [h.holds.front horigin, ← h.active]
    exact oldest_of_suffix h.newest

theorem Ring.popFront (h : Ring max e times recent) (hactive : 0 < e.active) :
    Ring max
      { e with
        active := e.active - 1
        state := state
        originIdx := (e.originIdx + 1) % e.threshold } times recent.tail := by
  have hpos := h.threshold_pos hactive
  have hlt := Nat.mod_lt (e.originIdx + 1) hpos
  have hmax := h.threshold
  cases recent with
  | nil =>
    have hlength := h.active
    rw [List.length_nil] at hlength
    omega
  | cons t recent =>
    have hlength := h.active
    rw [List.length_cons] at hlength
    constructor
    · exact h.threshold
    · show (e.originIdx + 1) % e.threshold < max
      omega
    · exact Or.inr hlt
    · show recent.length = e.active - 1
      omega
    · exact h.holds.popFront
    · apply List.IsSuffix.trans _ h.newest
      exact List.suffix_cons _ _

theorem Ring.popBack (h : Ring max e times recent) (hactive : 0 < e.active) :
    Ring max { e with active := e.active - 1 } times.dropLast recent.dropLast := by
  obtain ⟨old, hold⟩ := h.newest
  have hne : recent.map BitVec.toNat ≠ [] := by
    intro hnil
    have hlength := h.active
    rw [List.map_eq_nil_iff.mp hnil, List.length_nil] at hlength
    omega
  constructor
  · exact h.threshold
  · exact h.slot_lt
  · exact h.origin
  · show recent.dropLast.length = e.active - 1
    rw [List.length_dropLast, h.active]
  · exact h.holds.popBack
  · refine ⟨old, ?_⟩
    rw [← hold, List.dropLast_append_of_ne_nil hne, List.map_dropLast]

theorem Ring.push (h : Ring max e times recent) (hroom : e.active < e.threshold) :
    Ring max
      { e with
        recordArray := update e.recordArray ((e.originIdx + e.active) % e.threshold) t
        active := e.active + 1
        amount := amount
        state := state } (times ++ [t.toNat]) (recent ++ [t]) := by
  obtain ⟨old, hold⟩ := h.newest
  constructor
  · exact h.threshold
  · exact h.slot_lt
  · exact h.origin
  · simp [h.active]
  · have hlength := h.active
    rw [← hlength] at hroom ⊢
    exact h.holds.push hroom
  · refine ⟨old, ?_⟩
    rw [← hold, List.map_append, List.append_assoc]
    rfl

theorem Ring.resize (h : Ring max e times recent) (hn : n ≤ max) (hresizes : Resizes e n) :
    Ring max { e with state := state, interval := interval, threshold := n } times recent := by
  have hlength := h.active
  rcases hresizes with rfl | ⟨hnone, rfl⟩ | ⟨horigin, hfits, hold⟩
  · exact ⟨h.threshold, h.slot_lt, h.origin, h.active, h.holds, h.newest⟩
  · have hnil : recent = [] := List.eq_nil_of_length_eq_zero (by omega)
    subst hnil
    exact ⟨hn, h.slot_lt, Or.inl rfl, h.active, CircularBuffer.holds_nil, h.newest⟩
  · refine ⟨hn, h.slot_lt, Or.inr horigin, h.active, ?_, h.newest⟩
    rcases hold with hnone | hold
    · have hnil : recent = [] := List.eq_nil_of_length_eq_zero (by omega)
      subst hnil
      exact CircularBuffer.holds_nil
    · show CircularBuffer.Holds n e.originIdx e.recordArray recent
      exact h.holds.resize (by omega) (by omega)

theorem ring_empty (hactive : e.active = 0) (horigin : e.originIdx = 0) (hmax : 0 < max)
    (hthreshold : e.threshold ≤ max) : Ring max e times [] := by
  constructor
  · exact hthreshold
  · omega
  · omega
  · rw [hactive]
    rfl
  · exact CircularBuffer.holds_nil
  · exact List.nil_suffix

end ring

theorem getMaxThreshold_pos (id : EventId) : 0 < getMaxThreshold id := by
  cases id <;> decide

section loops

variable {clock : Nat → Time} {g : VfGuard} {log : EventId → List Nat} {id : EventId} {k : Nat}
  {max : Nat} {e : MonitorEvent} {times : List Nat}

theorem expireLoop_ring (fuel : Nat) (h : ∃ recent, Ring max e times recent) :
    ∃ recent, Ring max (expireLoop clock fuel e k).1 times recent := by
  induction fuel generalizing e k with
  | zero => exact h
  | succ fuel ih =>
    unfold expireLoop
    split
    · next hactive =>
      dsimp only
      split
      · exact h
      · obtain ⟨recent, hring⟩ := h
        exact ih ⟨recent.tail, hring.popFront hactive⟩
    · exact h

theorem expireAccesses_safe (fuel : Nat) (h : ∃ recent, Ring max e times recent) :
    ∀ access ∈ expireAccesses clock fuel e k, access.Safe max times := by
  induction fuel generalizing e k with
  | zero => exact fun access haccess => absurd haccess List.not_mem_nil
  | succ fuel ih =>
    obtain ⟨recent, hring⟩ := h
    unfold expireAccesses
    split
    · next hactive =>
      have hpos := hring.threshold_pos hactive
      intro access haccess
      rcases List.mem_append.mp haccess with haccess | haccess
      · simp only [List.mem_cons, List.not_mem_nil, or_false] at haccess
        rcases haccess with rfl | rfl
        · exact hring.slot_lt
        · exact hring.tested hactive
      · split at haccess
        · exact absurd haccess List.not_mem_nil
        · rcases List.mem_cons.mp haccess with rfl | haccess
          · show e.threshold ≠ 0
            omega
          · exact ih ⟨recent.tail, hring.popFront hactive⟩ access haccess
    · exact fun access haccess => absurd haccess List.not_mem_nil

theorem expireEvent_rings (h : Rings g log) (id : EventId) :
    Rings (expireEvent clock (g, k) id).1 log := by
  intro id'
  show ∃ recent, Ring _ ((g.setEvent id _).event id') _ recent
  by_cases hid : id' = id
  · subst hid
    rw [VfGuard.setEvent_self]
    exact expireLoop_ring _ (h id')
  · rw [VfGuard.setEvent_of_ne _ _ hid]
    exact h id'

theorem foldl_expireEvent_rings (ids : List EventId) (h : Rings g log) :
    Rings (ids.foldl (expireEvent clock) (g, k)).1 log := by
  induction ids generalizing g k with
  | nil => exact h
  | cons id rest ih => exact ih (expireEvent_rings h id)

theorem deleteExpiredEvent_rings (k : Nat) (h : Rings g log) :
    Rings (deleteExpiredEvent clock g k).1 log :=
  foldl_expireEvent_rings EventId.all h

theorem deleteAccesses_safe (ids : List EventId) (h : Rings g log) :
    ∀ access ∈ deleteAccesses clock ids (g, k),
      access.2.Safe (getMaxThreshold access.1) (log access.1) := by
  induction ids generalizing g k with
  | nil => exact fun access haccess => absurd haccess List.not_mem_nil
  | cons id rest ih =>
    intro access haccess
    rcases List.mem_append.mp haccess with haccess | haccess
    · obtain ⟨own, hown, rfl⟩ := List.mem_map.mp haccess
      exact expireAccesses_safe _ (h id) own hown
    · exact ih (expireEvent_rings h id) access haccess

theorem addAccesses_safe (h : Rings g log) (id : EventId) :
    ∀ access ∈ addAccesses g id, access.2.Safe (getMaxThreshold access.1) (log access.1) := by
  obtain ⟨recent, hring⟩ := h id
  have hmax := hring.threshold
  intro access haccess
  unfold addAccesses at haccess
  dsimp only at haccess
  split at haccess
  · exact absurd haccess List.not_mem_nil
  · next hroom =>
    have hlt := Nat.mod_lt ((g.event id).originIdx + (g.event id).active)
      (show 0 < (g.event id).threshold by omega)
    simp only [List.mem_cons, List.not_mem_nil, or_false] at haccess
    rcases haccess with rfl | rfl
    · show (g.event id).threshold ≠ 0
      omega
    · show _ % (g.event id).threshold < getMaxThreshold id
      omega

theorem resetAccesses_safe (h : Rings g log) :
    ∀ access ∈ resetAccesses g, access.2.Safe (getMaxThreshold access.1) (log access.1) := by
  intro access haccess
  obtain ⟨id, -, haccess⟩ := List.mem_flatMap.mp haccess
  obtain ⟨idx, hidx, rfl⟩ := List.mem_map.mp haccess
  obtain ⟨recent, hring⟩ := h id
  have hmax := hring.threshold
  rw [List.mem_range] at hidx
  show idx < getMaxThreshold id
  omega

theorem addToEvent_rings (clock : Nat → Time) (k : Nat) (h : Rings g log) (id : EventId) :
    (addToEvent clock g k id).1 ≠ 0 ∧ Rings (addToEvent clock g k id).2.1 log ∨
      (addToEvent clock g k id).1 = 0 ∧ (addToEvent clock g k id).2.2 = k + 1 ∧
        Rings (addToEvent clock g k id).2.1
          (update log id (log id ++ [(clock k).toNat])) := by
  obtain ⟨recent, hring⟩ := h id
  unfold addToEvent
  dsimp only
  split
  · apply Or.inl
    refine ⟨show amdgvEventOverflow ≠ 0 by decide, fun id' => ?_⟩
    by_cases hid : id' = id
    · subst hid
      rw [VfGuard.setEvent_self]
      exact ⟨recent, { hring with }⟩
    · rw [VfGuard.setEvent_of_ne _ _ hid]
      exact h id'
  · next hroom =>
    apply Or.inr
    refine ⟨rfl, rfl, fun id' => ?_⟩
    by_cases hid : id' = id
    · subst hid
      rw [VfGuard.setEvent_self, update_self]
      exact ⟨recent ++ [clock k], hring.push (by omega)⟩
    · rw [VfGuard.setEvent_of_ne _ _ hid, update_of_ne hid]
      exact h id'

end loops

section commands

variable {clock : Nat → Time} {s0 : Adapt} {w : Watched}

theorem Watched.Sound.setGuard (h : w.Sound) {idxVf : Nat} {g' : VfGuard} {log : Log}
    (ticks : Nat) (hlog : ∀ idx, idx ≠ idxVf → log idx = w.log idx)
    (hrings : Rings g' (log idxVf)) :
    Watched.Sound ⟨{ w.adapt.setGuard idxVf g' with ticks := ticks }, log⟩ := by
  intro idx g hg
  by_cases hidx : idx = idxVf
  · subst hidx
    have hsame : g' = g := by simpa [Adapt.setGuard] using hg
    subst hsame
    exact hrings
  · have hold : w.adapt.guard idx = some g := by
      simpa [Adapt.setGuard, update_of_ne hidx] using hg
    have hrings' := h idx g hold
    rw [← hlog idx hidx] at hrings'
    exact hrings'

theorem Watched.Sound.add (h : w.Sound) (idxVf : Nat) (id : EventId) :
    Watched.Sound ⟨(addActiveEvent clock w.adapt idxVf id).2,
      record clock w.adapt (addActiveEvent clock w.adapt idxVf id).2 w.log (.add idxVf id)⟩ := by
  rcases addActiveEvent_cases clock w.adapt idxVf id with ⟨heq, _⟩ | ⟨g, hg, heq⟩
  · rw [record, heq, if_neg (show amdgvFailure ≠ 0 by decide)]
    exact h
  · rw [record, heq]
    have hexpired : Rings (deleteExpiredEvent clock g w.adapt.ticks).1 (w.log idxVf) :=
      deleteExpiredEvent_rings w.adapt.ticks (h idxVf g hg)
    dsimp only
    rcases addToEvent_rings clock (deleteExpiredEvent clock g w.adapt.ticks).2 hexpired id with
      ⟨hret, hrings⟩ | ⟨hret, hk, hrings⟩
    · rw [if_neg hret]
      exact h.setGuard _ (fun _ _ => rfl) hrings
    · rw [if_pos hret, hk]
      apply h.setGuard
      · intro idx hidx
        exact update_of_ne hidx ..
      · simpa [Log.modify] using hrings

theorem Watched.Sound.dec (h : w.Sound) (idxVf : Nat) (id : EventId) :
    Watched.Sound ⟨(decActiveEvent w.adapt idxVf id).2,
      record clock w.adapt (decActiveEvent w.adapt idxVf id).2 w.log (.dec idxVf id)⟩ := by
  rcases decActiveEvent_cases clock w.adapt w.log idxVf id with
    ⟨heq, hlog⟩ | ⟨g, hg, hactive, heq, hlog⟩
  · rw [hlog, heq]
    exact h
  · rw [hlog, heq]
    apply h.setGuard w.adapt.ticks
    · intro idx hidx
      exact update_of_ne hidx ..
    · intro id'
      obtain ⟨recent, hring⟩ := h idxVf g hg id'
      by_cases hid : id' = id
      · subst hid
        rw [VfGuard.setEvent_self, Log.modify_self]
        exact ⟨recent.dropLast, hring.popBack hactive⟩
      · rw [VfGuard.setEvent_of_ne _ _ hid, Log.modify_of_ne _ _ (Or.inr hid)]
        exact ⟨recent, hring⟩

theorem getVfInfo_cases {s after : Adapt} {idxVf type : Nat} {ret : Int} {parm : Parm}
    (hget : getVfInfo clock s idxVf type = some (ret, parm, after)) :
    after = s ∨ ∃ g, s.guard idxVf = some g ∧
      after = { s.setGuard idxVf (deleteExpiredEvent clock g s.ticks).1 with
        ticks := (deleteExpiredEvent clock g s.ticks).2 } := by
  unfold getVfInfo at hget
  split at hget
  · cases hget
    exact Or.inl rfl
  · split at hget
    · cases hget
      exact Or.inl rfl
    · split at hget
      · cases hget
      · next g hg =>
        dsimp only at hget
        split at hget
        · cases hget
          exact Or.inr ⟨g, hg, rfl⟩
        · split at hget <;> cases hget <;> exact Or.inr ⟨g, hg, rfl⟩

theorem Watched.Sound.reset (h : w.Sound) (idxVf : Nat) :
    Watched.Sound ⟨(vfReset w.adapt idxVf).2, w.log⟩ := by
  unfold vfReset
  split
  · exact h
  · next g hg =>
    apply h.setGuard w.adapt.ticks (fun _ _ => rfl)
    intro id
    obtain ⟨recent, hring⟩ := h idxVf g hg id
    exact ⟨[], ring_empty rfl rfl (getMaxThreshold_pos id) hring.threshold⟩

theorem Watched.Sound.setInfo (h : w.Sound) {idxVf type : Nat} {generalState state : BitVec 32}
    {interval : Time} {threshold : Nat} {result : Int × Adapt}
    (hmeets : w.Meets (.setInfo idxVf type generalState state interval threshold))
    (hset : setVfInfo w.adapt idxVf type generalState state interval threshold = some result) :
    Watched.Sound ⟨result.2, w.log⟩ := by
  unfold setVfInfo at hset
  split at hset
  · cases hset
    exact h
  · next hvalid =>
    split at hset
    · cases hset
    · next g hg =>
      split at hset
      · cases hset
        exact h.setGuard w.adapt.ticks (fun _ _ => rfl) (h idxVf g hg)
      · split at hset
        · cases hset
          exact h
        · next id hid =>
          split at hset
          · cases hset
            exact h
          · next hfits =>
            cases hset
            apply h.setGuard w.adapt.ticks (fun _ _ => rfl)
            have hresizes : Resizes (g.event id) threshold := by
              apply hmeets _ g id hg hid (by omega)
              simp only [Bool.or_eq_true, not_or, Bool.not_eq_true] at hvalid
              exact hvalid.2
            intro id'
            obtain ⟨recent, hring⟩ := h idxVf g hg id'
            by_cases hid' : id' = id
            · subst hid'
              rw [VfGuard.setEvent_self]
              exact ⟨recent, hring.resize (by omega) hresizes⟩
            · rw [VfGuard.setEvent_of_ne _ _ hid']
              exact ⟨recent, hring⟩

theorem Watched.Sound.command (h : w.Sound) {op : Command} {after : Watched}
    (hmeets : w.Meets op) (hcommand : Commands clock w op after) : after.Sound := by
  obtain ⟨adapt, log⟩ := after
  obtain ⟨hstep, hlog⟩ := hcommand
  dsimp only at hstep hlog
  subst hlog
  cases op with
  | reset idxVf =>
    cases hstep
    exact h.reset idxVf
  | setInfo idxVf type generalState state interval threshold =>
    obtain ⟨result, hset, rfl⟩ := Option.map_eq_some_iff.mp hstep
    exact h.setInfo hmeets hset
  | call op =>
    cases op with
    | add idxVf id =>
      cases hstep
      exact h.add idxVf id
    | dec idxVf id =>
      cases hstep
      exact h.dec idxVf id
    | isFull idxVf id =>
      cases hstep
      exact h
    | getInfo idxVf type =>
      obtain ⟨⟨ret, parm, s⟩, hget, rfl⟩ := Option.map_eq_some_iff.mp hstep
      rcases getVfInfo_cases hget with hsame | ⟨g, hg, hexpired⟩
      · dsimp only
        rw [hsame]
        exact h
      · dsimp only
        rw [hexpired]
        exact h.setGuard _ (fun _ _ => rfl) (deleteExpiredEvent_rings _ (h idxVf g hg))

theorem Watched.Sound.safe (h : w.Sound) (op : Command) :
    ∀ access ∈ accesses clock w.adapt op,
      access.2.Safe (getMaxThreshold access.1) (w.log op.idxVf access.1) := by
  intro access haccess
  unfold accesses at haccess
  split at haccess
  · next idxVf id =>
    split at haccess
    · exact absurd haccess List.not_mem_nil
    · split at haccess
      · exact absurd haccess List.not_mem_nil
      · next g hg =>
        split at haccess
        · exact absurd haccess List.not_mem_nil
        · rcases List.mem_append.mp haccess with haccess | haccess
          · exact deleteAccesses_safe _ (h idxVf g hg) access haccess
          · exact addAccesses_safe (deleteExpiredEvent_rings _ (h idxVf g hg)) id access haccess
  · next idxVf type =>
    split at haccess
    · exact absurd haccess List.not_mem_nil
    · split at haccess
      · exact absurd haccess List.not_mem_nil
      · next g hg => exact deleteAccesses_safe _ (h idxVf g hg) access haccess
  · next idxVf =>
    split at haccess
    · exact absurd haccess List.not_mem_nil
    · next g hg => exact resetAccesses_safe (h idxVf g hg) access haccess
  · exact absurd haccess List.not_mem_nil

theorem run_sound (hbooted : s0.Booted)
    (hrun : Run (Starts s0) (Commands clock) Watched.Meets w) : w.Sound := by
  apply hrun.invariant Watched.Sound
  · rintro ⟨adapt, log⟩ ⟨hadapt, -⟩ idxVf g hg id
    dsimp only at hadapt
    subst hadapt
    obtain ⟨hactive, horigin, hthreshold⟩ := hbooted idxVf g hg id
    exact ⟨[], ring_empty hactive horigin (getMaxThreshold_pos id) hthreshold⟩
  · intro before op after hsound hmeets hcommand
    exact hsound.command hmeets hcommand

/-- As long as each new threshold leaves the ring of its event as it is, no call divides by
zero, leaves a record array or tests another time than that of the oldest active event, and no
event is active more often than its threshold. -/
theorem reconfiguration_safe (hbooted : s0.Booted)
    (hrun : Run (Starts s0) (Commands clock) Watched.Meets w) :
    (∀ op, ∀ access ∈ accesses clock w.adapt op,
      access.2.Safe (getMaxThreshold access.1) (w.log op.idxVf access.1)) ∧
    ∀ idxVf g id, w.adapt.guard idxVf = some g → (g.event id).active ≤ (g.event id).threshold := by
  have hsound := run_sound hbooted hrun
  constructor
  · exact hsound.safe
  · intro idxVf g id hg
    obtain ⟨recent, hring⟩ := hsound idxVf g hg id
    exact hring.active_le

theorem oneVf_booted : oneVf.Booted := by
  intro idxVf g hg id
  have hfresh := oneVf_fresh idxVf g hg id
  refine ⟨hfresh.1, hfresh.2.1, ?_⟩
  by_cases hidx : idxVf = 0
  · subst hidx
    simp only [oneVf, vfInit, Adapt.setGuard, if_true, update_self,
      Option.some.injEq] at hg
    subst hg
    cases id <;> decide
  · simp [oneVf, vfInit, Adapt.setGuard, update_of_ne hidx] at hg

def addedOnce : Watched :=
  ⟨(addActiveEvent secondClock oneVf 0 .flr).2,
    record secondClock oneVf (addActiveEvent secondClock oneVf 0 .flr).2 (fun _ _ => [])
      (.add 0 .flr)⟩

/-- The adapter after another threshold and an interval of half a millisecond for function
resets. -/
def resized (threshold : Nat) : Watched :=
  ⟨((setVfInfo addedOnce.adapt 0 0 0 eventNormal 500 threshold).map (·.2)).getD oneVf,
    addedOnce.log⟩

theorem resized_command {threshold : Nat}
    (h : (setVfInfo addedOnce.adapt 0 0 0 eventNormal 500 threshold).isSome = true) :
    Commands secondClock addedOnce (.setInfo 0 0 0 eventNormal 500 threshold)
      (resized threshold) := by
  obtain ⟨result, hresult⟩ := Option.isSome_iff_exists.mp h
  refine ⟨?_, rfl⟩
  show (setVfInfo addedOnce.adapt 0 0 0 eventNormal 500 threshold).map (·.2) =
    some (((setVfInfo addedOnce.adapt 0 0 0 eventNormal 500 threshold).map (·.2)).getD oneVf)
  rw [hresult]
  rfl

theorem addedOnce_run {ok : Watched → Command → Prop}
    (hok : ok ⟨oneVf, fun _ _ => []⟩ (.call (.add 0 .flr))) :
    Run (Starts oneVf) (Commands secondClock) ok addedOnce := by
  have hstart : Run (Starts oneVf) (Commands secondClock) ok ⟨oneVf, fun _ _ => []⟩ :=
    .start ⟨rfl, rfl⟩
  exact hstart.next _ hok ⟨rfl, rfl⟩

theorem addedOnce_event {g : VfGuard} (hg : addedOnce.adapt.guard 0 = some g) :
    (g.event .flr).active = 1 ∧ (g.event .flr).originIdx = 0 ∧ (g.event .flr).threshold = 3 := by
  have hall : (addedOnce.adapt.guard 0).map (fun g => ((g.event .flr).active,
      (g.event .flr).originIdx, (g.event .flr).threshold)) = some (1, 0, 3) := by
    decide +kernel
  rw [hg] at hall
  simpa using hall

/-- With one reset noted, the threshold is raised to the maximum. -/
theorem reconfiguration_safe_raised :
    (∀ op, ∀ access ∈ accesses secondClock (resized 5).adapt op,
      access.2.Safe (getMaxThreshold access.1) ((resized 5).log op.idxVf access.1)) ∧
    ∀ idxVf g id, (resized 5).adapt.guard idxVf = some g →
      (g.event id).active ≤ (g.event id).threshold := by
  refine reconfiguration_safe oneVf_booted (.next (.setInfo 0 0 0 eventNormal 500 5)
    (addedOnce_run trivial) ?_ (resized_command (by decide +kernel)))
  intro _ g id hg hid _
  cases hid
  have hevent := addedOnce_event hg
  unfold Resizes
  omega

/-- With one reset noted, the threshold is set to zero: when the reset expires, its index is
taken modulo zero. -/
theorem zero_threshold_divides : ¬∀ clock s0 w, Adapt.Booted s0 →
    Run (Starts s0) (Commands clock) Transition.always w →
      ∀ op, ∀ access ∈ accesses clock w.adapt op,
        access.2.Safe (getMaxThreshold access.1) (w.log op.idxVf access.1) := by
  intro h
  have hadded : Run (Starts oneVf) (Commands secondClock) Transition.always addedOnce :=
    addedOnce_run trivial
  have hrun := hadded.next _ trivial (@resized_command 0 (by decide +kernel))
  have hdivides : (EventId.flr, Access.divide 0) ∈
      accesses secondClock (resized 0).adapt (.call (.getInfo 0 0)) := by
    decide +kernel
  exact h secondClock oneVf (resized 0) oneVf_booted hrun (.call (.getInfo 0 0)) _ hdivides rfl

end commands

end MxGpu.Guard
