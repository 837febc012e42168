import MxGpu.CircularBuffer
import MxGpu.Guard
import MxGpu.SlidingWindow
import MxGpu.Transition

namespace MxGpu.Guard

open SlidingWindow Function List
open Transition (Run)

/-- The times at which a function's events were accepted, without the ones taken back. -/
abbrev Log := Nat → EventId → List Nat

def Log.modify (log : Log) (idxVf : Nat) (id : EventId) (f : List Nat → List Nat) : Log :=
  update log idxVf (update (log idxVf) id (f (log idxVf id)))

/-- `active` of an event of a function, `0` without a guard. -/
def Adapt.active (s : Adapt) (idxVf : Nat) (id : EventId) : Nat :=
  match s.guard idxVf with
  | none => 0
  | some g => (g.event id).active

structure Watched where
  adapt : Adapt
  log : Log

section run

variable (clock : Nat → Time)

/-- What a call that led from `s` to `s'` does to the log. An accepted event counts from the last
reading of the clock in its call; a decrement that happened takes back the last one. -/
def record (s s' : Adapt) (log : Log) : Op → Log
  | .add idxVf id =>
    if (addActiveEvent clock s idxVf id).1 = 0 then
      log.modify idxVf id (· ++ [(clock (s'.ticks - 1)).toNat])
    else log
  | .dec idxVf id =>
    if s'.active idxVf id < s.active idxVf id then log.modify idxVf id dropLast else log
  | .isFull _ _ => log
  | .getInfo _ _ => log

def Calls (before : Watched) (op : Op) (after : Watched) : Prop :=
  step clock before.adapt op = some after.adapt ∧
    after.log = record clock before.adapt after.adapt before.log op

def Adapt.Fresh (s : Adapt) : Prop :=
  ∀ idxVf g, s.guard idxVf = some g → ∀ id,
    (g.event id).active = 0 ∧ (g.event id).originIdx = 0 ∧ 0 < (g.event id).threshold

def Starts (s : Adapt) (w : Watched) : Prop := w.adapt = s ∧ w.log = fun _ _ => []

end run

theorem Log.modify_self (log : Log) (idxVf : Nat) (id : EventId) (f : List Nat → List Nat) :
    log.modify idxVf id f idxVf id = f (log idxVf id) := by
  simp [Log.modify]

theorem Log.modify_of_ne (log : Log) {idxVf : Nat} {id : EventId} (f : List Nat → List Nat)
    {idx' : Nat} {id' : EventId} (h : idx' ≠ idxVf ∨ id' ≠ id) :
    log.modify idxVf id f idx' id' = log idx' id' := by
  by_cases hidx : idx' = idxVf
  · subst hidx
    have hid : id' ≠ id := by simpa using h
    simp [Log.modify, update_of_ne hid]
  · simp [Log.modify, update_of_ne hidx]

/-! The guards that initialisation, reset and configuration leave. -/

theorem vfInit_fresh {s : Adapt} (h : s.Fresh) (idxVf : Nat) (alloc sensitive : Bool) :
    (vfInit s idxVf alloc sensitive).2.Fresh := by
  intro idx g hg id
  by_cases hidx : idx = idxVf
  · subst hidx
    cases alloc with
    | false => simp [vfInit] at hg
    | true =>
      simp only [vfInit, Adapt.setGuard, if_true, update_self, Option.some.injEq] at hg
      subst hg
      cases id <;> simp [defaultThreshold]
  · apply h idx g _ id
    cases alloc <;> simpa [vfInit, Adapt.setGuard, update_of_ne hidx] using hg

section tracks

variable {clock : Nat → Time} {n T k : Nat} {e : MonitorEvent}

/-- The accepted times are the expired ones and, in the record array, the active ones. -/
structure Splits (clock : Nat → Time) (n T k : Nat) (e : MonitorEvent) (old : List Nat)
    (recent : List Time) : Prop where
  threshold : e.threshold = n
  interval : e.interval.toNat = T
  origin : e.originIdx < n
  active : recent.length = e.active
  holds : CircularBuffer.Holds n e.originIdx e.recordArray recent
  expired : ∀ t ∈ old, ∀ j, k ≤ j → t + T ≤ (clock j).toNat
  past : ∀ t ∈ old ++ recent.map BitVec.toNat, ∀ j, k ≤ j → t ≤ (clock j).toNat
  sorted : (old ++ recent.map BitVec.toNat).Pairwise (· ≤ ·)
  spaced : Spaced n T (old ++ recent.map BitVec.toNat)

def Tracks (clock : Nat → Time) (n T k : Nat) (e : MonitorEvent) (times : List Nat) : Prop :=
  ∃ old recent, times = old ++ recent.map BitVec.toNat ∧ Splits clock n T k e old recent

variable {old : List Nat} {recent : List Time} {t : Time} {times : List Nat}

theorem Splits.later (h : Splits clock n T k e old recent) {k' : Nat} (hle : k ≤ k') :
    Splits clock n T k' e old recent :=
  { h with
    expired := fun t ht j hj => h.expired t ht j (Nat.le_trans hle hj)
    past := fun t ht j hj => h.past t ht j (Nat.le_trans hle hj) }

theorem Tracks.later (h : Tracks clock n T k e times) {k' : Nat} (hle : k ≤ k') :
    Tracks clock n T k' e times := by
  obtain ⟨old, recent, heq, hsplits⟩ := h
  exact ⟨old, recent, heq, hsplits.later hle⟩

theorem Tracks.past (h : Tracks clock n T k e times) :
    ∀ t ∈ times, ∀ j, k ≤ j → t ≤ (clock j).toNat := by
  obtain ⟨old, recent, rfl, hsplits⟩ := h
  exact hsplits.past

theorem Splits.front_delta (h : Splits clock n T k e old (t :: recent)) {j : Nat}
    (hpast : t.toNat ≤ (clock j).toNat) :
    (clock j - e.recordArray e.originIdx).toNat = (clock j).toNat - t.toNat := by
  rw [h.holds.front h.origin]
  exact BitVec.toNat_sub_of_le hpast

theorem Splits.popFront (h : Splits clock n T k e old (t :: recent))
    (hmono : ∀ i j, i ≤ j → (clock i).toNat ≤ (clock j).toNat)
    (hexpired : t.toNat + T ≤ (clock k).toNat) {state : BitVec 32} :
    Splits clock n T (k + 1)
      { e with
        active := e.active - 1
        state := state
        originIdx := (e.originIdx + 1) % e.threshold } (old ++ [t.toNat]) recent := by
  have hn : 0 < n := Nat.lt_of_le_of_lt (Nat.zero_le _) h.origin
  have hactive := h.active
  rw [length_cons] at hactive
  have happend : old ++ [t.toNat] ++ recent.map BitVec.toNat =
      old ++ (t :: recent).map BitVec.toNat := by simp
  constructor
  · exact h.threshold
  · exact h.interval
  · rw [h.threshold]
    exact Nat.mod_lt _ hn
  · show recent.length = e.active - 1
    omega
  · rw [h.threshold]
    exact h.holds.popFront
  · intro x hx j hj
    rcases mem_append.mp hx with hold | hlast
    · exact h.expired x hold j (by omega)
    · rw [mem_singleton.mp hlast]
      exact Nat.le_trans hexpired (hmono k j (by omega))
  · intro x hx j hj
    rw [happend] at hx
    exact h.past x hx j (by omega)
  · rw [happend]
    exact h.sorted
  · rw [happend]
    exact h.spaced

theorem Splits.popBack (h : Splits clock n T k e old recent) :
    Splits clock n T k { e with active := e.active - 1 } old recent.dropLast := by
  have hsub : (old ++ recent.dropLast.map BitVec.toNat).Sublist
      (old ++ recent.map BitVec.toNat) :=
    (List.Sublist.refl old).append ((dropLast_sublist recent).map _)
  constructor
  · exact h.threshold
  · exact h.interval
  · exact h.origin
  · show recent.dropLast.length = e.active - 1
    rw [length_dropLast, h.active]
  · exact h.holds.popBack
  · exact h.expired
  · intro x hx
    exact h.past x (hsub.subset hx)
  · exact h.sorted.sublist hsub
  · cases hlast : recent with
    | nil => simpa [hlast] using h.spaced
    | cons t rest =>
      have hdrop := h.spaced.dropLast
      rw [hlast, map_cons, dropLast_append_cons, ← map_cons,
        ← map_dropLast] at hdrop
      exact hdrop

theorem Splits.push (h : Splits clock n T k e old recent)
    (hmono : ∀ i j, i ≤ j → (clock i).toNat ≤ (clock j).toNat) (hroom : e.active < n)
    {state amount : BitVec 32} :
    Splits clock n T (k + 1)
      { e with
        recordArray := update e.recordArray ((e.originIdx + e.active) % e.threshold)
          (clock k)
        active := e.active + 1
        amount := amount
        state := state } old (recent ++ [clock k]) := by
  have hlength : recent.length < n := by
    rw [h.active]
    exact hroom
  have hmap : (recent ++ [clock k]).map BitVec.toNat =
      recent.map BitVec.toNat ++ [(clock k).toNat] := by simp
  constructor
  · exact h.threshold
  · exact h.interval
  · exact h.origin
  · simp [h.active]
  · rw [h.threshold, ← h.active]
    exact h.holds.push hlength
  · intro x hx j hj
    exact h.expired x hx j (by omega)
  · intro x hx j hj
    rw [hmap, ← append_assoc] at hx
    rcases mem_append.mp hx with hearlier | hlast
    · exact h.past x hearlier j (by omega)
    · rw [mem_singleton.mp hlast]
      exact hmono k j (by omega)
  · rw [hmap, ← append_assoc, pairwise_append]
    refine ⟨h.sorted, pairwise_singleton _ _, ?_⟩
    intro x hx y hy
    rw [mem_singleton.mp hy]
    exact h.past x hx k (Nat.le_refl k)
  · rw [hmap]
    apply h.spaced.accept
    · intro x hx
      exact h.expired x hx k (Nat.le_refl k)
    · simpa using hlength

/-- After the expiry an event has no entries left, or one of the readings made meanwhile found
its front young enough. -/
def Checked (clock : Nat → Time) (k k' : Nat) (e : MonitorEvent) : Prop :=
  e.active = 0 ∨ ∃ j, k ≤ j ∧ j < k' ∧ clock j - e.recordArray e.originIdx < e.interval

theorem Checked.widen {k' low high : Nat} (h : Checked clock k k' e) (hlow : low ≤ k)
    (hhigh : k' ≤ high) : Checked clock low high e := by
  rcases h with hnone | ⟨j, hge, hlt, hyoung⟩
  · exact .inl hnone
  · exact .inr ⟨j, by omega, by omega, hyoung⟩

theorem expireLoop_ticks (clock : Nat → Time) (fuel : Nat) (e : MonitorEvent) (k : Nat) :
    k ≤ (expireLoop clock fuel e k).2 := by
  induction fuel generalizing e k with
  | zero => exact Nat.le_refl k
  | succ fuel ih =>
    unfold expireLoop
    split
    · dsimp only
      split
      · exact Nat.le_succ k
      · exact Nat.le_trans (Nat.le_succ k) (ih _ (k + 1))
    · exact Nat.le_refl k

theorem expireLoop_checked (clock : Nat → Time) (fuel : Nat) (e : MonitorEvent) (k : Nat)
    (hfuel : e.active ≤ fuel) :
    Checked clock k (expireLoop clock fuel e k).2 (expireLoop clock fuel e k).1 := by
  induction fuel generalizing e k with
  | zero => exact .inl (Nat.le_zero.mp hfuel)
  | succ fuel ih =>
    unfold expireLoop
    split
    · dsimp only
      split
      · rename_i hyoung
        exact .inr ⟨k, Nat.le_refl k, Nat.lt_succ_self k, hyoung⟩
      · apply Checked.widen _ (Nat.le_succ k) (Nat.le_refl _)
        apply ih
        show e.active - 1 ≤ fuel
        omega
    · rename_i hnone
      exact .inl (Nat.eq_zero_of_not_pos hnone)

theorem expireLoop_tracks (hmono : ∀ i j, i ≤ j → (clock i).toNat ≤ (clock j).toNat)
    (fuel : Nat) (h : Tracks clock n T k e times) :
    Tracks clock n T (expireLoop clock fuel e k).2 (expireLoop clock fuel e k).1 times := by
  induction fuel generalizing e k with
  | zero => exact h
  | succ fuel ih =>
    unfold expireLoop
    split
    · rename_i hactive
      dsimp only
      split
      · exact h.later (Nat.le_succ k)
      · rename_i hexpired
        apply ih
        obtain ⟨old, recent, heq, hsplits⟩ := h
        cases recent with
        | nil =>
          have hnone := hsplits.active
          rw [length_nil] at hnone
          omega
        | cons t rest =>
          have hpast : t.toNat ≤ (clock k).toNat := by
            apply hsplits.past t.toNat _ k (Nat.le_refl k)
            simp
          have hdelta := hsplits.front_delta hpast
          have hold : T ≤ (clock k).toNat - t.toNat := by
            rw [← hdelta, ← hsplits.interval]
            exact Nat.le_of_not_lt hexpired
          refine ⟨old ++ [t.toNat], rest, by simpa using heq, hsplits.popFront hmono ?_⟩
          omega
    · exact h

theorem Tracks.full {start k' : Nat} (h : Tracks clock n T k e times) (hn : 0 < n)
    (hpast : ∀ t ∈ times, ∀ j, start ≤ j → t ≤ (clock j).toNat) (hfull : n ≤ e.active)
    (hchecked : Checked clock start k' e) :
    ∃ j, start ≤ j ∧ j < k' ∧ n ≤ times.countP (within (clock j).toNat T) := by
  obtain ⟨old, recent, rfl, hsplits⟩ := h
  rcases hchecked with hnone | ⟨j, hge, hlt, hyoung⟩
  · omega
  · refine ⟨j, hge, hlt, ?_⟩
    cases recent with
    | nil =>
      have hactive := hsplits.active
      rw [length_nil] at hactive
      omega
    | cons t rest =>
      have hfirst : t.toNat ≤ (clock j).toNat := hpast t.toNat (by simp) j hge
      have hnear : (clock j - e.recordArray e.originIdx).toNat < e.interval.toNat := hyoung
      rw [hsplits.front_delta hfirst, hsplits.interval] at hnear
      -- the active entries are between the front and the reading
      have hall : ((t :: rest).map BitVec.toNat).countP (within (clock j).toNat T) =
          ((t :: rest).map BitVec.toNat).length := by
        apply countP_eq_length.mpr
        intro x hx
        have hnow : x ≤ (clock j).toNat := hpast x (mem_append_right _ hx) j hge
        have hge : t.toNat ≤ x := by
          have hsorted := (pairwise_append.mp hsplits.sorted).2.1
          rw [map_cons, pairwise_cons] at hsorted
          rw [map_cons] at hx
          rcases mem_cons.mp hx with heq | hrest
          · exact Nat.le_of_eq heq.symm
          · exact hsorted.1 x hrest
        simp only [within, Bool.and_eq_true, decide_eq_true_eq]
        omega
      rw [countP_append, hall, length_map, hsplits.active]
      omega

theorem Tracks.limited (h : Tracks clock n T k e times) (hn : 0 < n) (w : Nat) :
    times.countP (inWindow w T) ≤ n := by
  obtain ⟨old, recent, rfl, hsplits⟩ := h
  exact hsplits.spaced.count_le hn hsplits.sorted w

end tracks

section guards

variable {clock : Nat → Time} {g : VfGuard} {k : Nat} {n T : EventId → Nat}
  {log : EventId → List Nat}

def TracksAll (clock : Nat → Time) (n T : EventId → Nat) (k : Nat) (g : VfGuard)
    (log : EventId → List Nat) : Prop :=
  ∀ id, Tracks clock (n id) (T id) k (g.event id) (log id)

@[simp] theorem VfGuard.setEvent_self (g : VfGuard) (id : EventId) (e : MonitorEvent) :
    (g.setEvent id e).event id = e := update_self ..

theorem VfGuard.setEvent_of_ne (g : VfGuard) {id id' : EventId} (e : MonitorEvent)
    (h : id' ≠ id) : (g.setEvent id e).event id' = g.event id' := update_of_ne h ..

theorem expireEvent_ticks (clock : Nat → Time) (g : VfGuard) (k : Nat) (id : EventId) :
    k ≤ (expireEvent clock (g, k) id).2 := expireLoop_ticks ..

theorem expireEvent_tracksAll (hmono : ∀ i j, i ≤ j → (clock i).toNat ≤ (clock j).toNat)
    (h : TracksAll clock n T k g log) (id : EventId) :
    TracksAll clock n T (expireEvent clock (g, k) id).2 (expireEvent clock (g, k) id).1 log := by
  intro id'
  by_cases hid : id' = id
  · subst hid
    show Tracks clock _ _ _ ((g.setEvent id' _).event id') _
    rw [VfGuard.setEvent_self]
    exact expireLoop_tracks hmono _ (h id')
  · show Tracks clock _ _ _ ((g.setEvent id _).event id') _
    rw [VfGuard.setEvent_of_ne _ _ hid]
    exact (h id').later (expireEvent_ticks clock g k id)

theorem foldl_expireEvent (hmono : ∀ i j, i ≤ j → (clock i).toNat ≤ (clock j).toNat)
    (ids : List EventId) (h : TracksAll clock n T k g log) :
    k ≤ (ids.foldl (expireEvent clock) (g, k)).2 ∧
      (ids.foldl (expireEvent clock) (g, k)).1.state = g.state ∧
      TracksAll clock n T (ids.foldl (expireEvent clock) (g, k)).2
        (ids.foldl (expireEvent clock) (g, k)).1 log := by
  induction ids generalizing g k with
  | nil => exact ⟨Nat.le_refl k, rfl, h⟩
  | cons id rest ih =>
    have hticks := expireEvent_ticks clock g k id
    obtain ⟨hle, hstate, htracks⟩ := ih (expireEvent_tracksAll hmono h id)
    exact ⟨Nat.le_trans hticks hle, hstate, htracks⟩

theorem foldl_expireEvent_of_notMem {ids : List EventId} {id : EventId} (h : id ∉ ids) :
    (ids.foldl (expireEvent clock) (g, k)).1.event id = g.event id := by
  induction ids generalizing g k with
  | nil => rfl
  | cons id' rest ih =>
    rw [mem_cons, not_or] at h
    rw [foldl_cons, ih h.2]
    exact VfGuard.setEvent_of_ne g _ h.1

theorem foldl_expireEvent_ticks (clock : Nat → Time) (ids : List EventId) (g : VfGuard)
    (k : Nat) : k ≤ (ids.foldl (expireEvent clock) (g, k)).2 := by
  induction ids generalizing g k with
  | nil => exact Nat.le_refl k
  | cons id rest ih =>
    rw [foldl_cons]
    exact Nat.le_trans (expireEvent_ticks clock g k id) (ih _ _)

theorem foldl_expireEvent_checked {ids : List EventId} {id : EventId} (h : id ∈ ids) :
    Checked clock k (ids.foldl (expireEvent clock) (g, k)).2
      ((ids.foldl (expireEvent clock) (g, k)).1.event id) := by
  induction ids generalizing g k with
  | nil => cases h
  | cons id' rest ih =>
    rw [foldl_cons]
    have hticks := expireEvent_ticks clock g k id'
    by_cases hrest : id ∈ rest
    · exact (ih hrest).widen hticks (Nat.le_refl _)
    · have hid : id = id' := by simpa [hrest] using h
      subst hid
      rw [foldl_expireEvent_of_notMem hrest]
      show Checked clock _ _ ((g.setEvent id _).event id)
      rw [VfGuard.setEvent_self]
      apply (expireLoop_checked clock _ (g.event id) k (Nat.le_refl _)).widen (Nat.le_refl k)
      exact foldl_expireEvent_ticks clock rest _ _

theorem EventId.mem_all (id : EventId) : id ∈ EventId.all := by cases id <;> decide

theorem deleteExpiredEvent_spec (hmono : ∀ i j, i ≤ j → (clock i).toNat ≤ (clock j).toNat)
    (h : TracksAll clock n T k g log) :
    k ≤ (deleteExpiredEvent clock g k).2 ∧ (deleteExpiredEvent clock g k).1.state = g.state ∧
      TracksAll clock n T (deleteExpiredEvent clock g k).2 (deleteExpiredEvent clock g k).1 log :=
  foldl_expireEvent hmono EventId.all h

theorem deleteExpiredEvent_checked (clock : Nat → Time) (g : VfGuard) (k : Nat) (id : EventId) :
    Checked clock k (deleteExpiredEvent clock g k).2
      ((deleteExpiredEvent clock g k).1.event id) :=
  foldl_expireEvent_checked (EventId.mem_all id)

theorem TracksAll.later (h : TracksAll clock n T k g log) {k' : Nat} (hle : k ≤ k') :
    TracksAll clock n T k' g log := fun id => (h id).later hle

theorem addToEvent_tracksAll (hmono : ∀ i j, i ≤ j → (clock i).toNat ≤ (clock j).toNat)
    (h : TracksAll clock n T k g log) (id : EventId) :
    (addToEvent clock g k id).1 = amdgvEventOverflow ∧ n id ≤ (g.event id).active ∧
        (addToEvent clock g k id).2.2 = k ∧
        TracksAll clock n T k (addToEvent clock g k id).2.1 log ∨
      (addToEvent clock g k id).1 = 0 ∧ (addToEvent clock g k id).2.2 = k + 1 ∧
        TracksAll clock n T (k + 1) (addToEvent clock g k id).2.1
          (update log id (log id ++ [(clock k).toNat])) := by
  obtain ⟨old, recent, heq, hsplits⟩ := h id
  unfold addToEvent
  dsimp only
  split
  · rename_i hfull
    rw [hsplits.threshold] at hfull
    refine .inl ⟨rfl, hfull, rfl, ?_⟩
    intro id'
    by_cases hid : id' = id
    · subst hid
      rw [VfGuard.setEvent_self]
      exact ⟨old, recent, heq, { hsplits with }⟩
    · rw [VfGuard.setEvent_of_ne _ _ hid]
      exact h id'
  · rename_i hroom
    rw [hsplits.threshold] at hroom
    refine .inr ⟨rfl, rfl, ?_⟩
    intro id'
    by_cases hid : id' = id
    · subst hid
      rw [VfGuard.setEvent_self, update_self]
      refine ⟨old, recent ++ [clock k], ?_, hsplits.push hmono (by omega)⟩
      rw [heq, append_assoc, map_append, map_singleton]
    · rw [VfGuard.setEvent_of_ne _ _ hid, update_of_ne hid]
      exact (h id').later (Nat.le_succ k)

end guards

section calls

variable {clock : Nat → Time} {s s0 : Adapt} {w : Watched} {idxVf : Nat} {id : EventId}

def Adapt.Serves (s : Adapt) (idxVf : Nat) : Prop :=
  s.idxInvalid idxVf = false ∧ ∃ g, s.guard idxVf = some g ∧ g.state ≠ guardDisabled

/-- The guards are those of the start, and every event of theirs is tracked. -/
def Follows (clock : Nat → Time) (s0 : Adapt) (w : Watched) : Prop :=
  ∀ idxVf g0, s0.guard idxVf = some g0 → ∃ g, w.adapt.guard idxVf = some g ∧
    TracksAll clock (fun id => (g0.event id).threshold) (fun id => (g0.event id).interval.toNat)
      w.adapt.ticks g (w.log idxVf)

theorem Follows.setGuard (h : Follows clock s0 w) {g g' : VfGuard} {log : Log} {k : Nat}
    (hg : w.adapt.guard idxVf = some g) (hle : w.adapt.ticks ≤ k)
    (hlog : ∀ idx, idx ≠ idxVf → log idx = w.log idx)
    (htracks : ∀ n T, TracksAll clock n T w.adapt.ticks g (w.log idxVf) →
      TracksAll clock n T k g' (log idxVf)) :
    Follows clock s0 ⟨{ w.adapt.setGuard idxVf g' with ticks := k }, log⟩ := by
  intro idx g0 hg0
  obtain ⟨gx, hgx, hall⟩ := h idx g0 hg0
  by_cases hidx : idx = idxVf
  · subst hidx
    rw [hg] at hgx
    cases hgx
    exact ⟨g', update_self .., htracks _ _ hall⟩
  · refine ⟨gx, ?_, ?_⟩
    · rw [← hgx]
      exact update_of_ne hidx ..
    · show TracksAll clock _ _ k gx (log idx)
      rw [hlog idx hidx]
      exact hall.later hle

theorem addActiveEvent_cases (clock : Nat → Time) (s : Adapt) (idxVf : Nat) (id : EventId) :
    addActiveEvent clock s idxVf id = (amdgvFailure, s) ∧ ¬s.Serves idxVf ∨
      ∃ g, s.guard idxVf = some g ∧
        addActiveEvent clock s idxVf id =
          ((addToEvent clock (deleteExpiredEvent clock g s.ticks).1
              (deleteExpiredEvent clock g s.ticks).2 id).1,
            { s.setGuard idxVf (addToEvent clock (deleteExpiredEvent clock g s.ticks).1
                (deleteExpiredEvent clock g s.ticks).2 id).2.1 with
              ticks := (addToEvent clock (deleteExpiredEvent clock g s.ticks).1
                (deleteExpiredEvent clock g s.ticks).2 id).2.2 }) := by
  unfold addActiveEvent
  split
  · rename_i hinvalid
    exact .inl ⟨rfl, fun ⟨hvalid, _⟩ => by simp [hvalid] at hinvalid⟩
  · split
    · rename_i hnone
      exact .inl ⟨rfl, fun ⟨_, g, hg, _⟩ => by simp [hnone] at hg⟩
    · rename_i g hg
      split
      · rename_i hdisabled
        refine .inl ⟨rfl, fun ⟨_, g', hg', hon⟩ => ?_⟩
        rw [hg] at hg'
        cases hg'
        exact hon hdisabled
      · exact .inr ⟨g, hg, rfl⟩

theorem Follows.add (hmono : ∀ i j, i ≤ j → (clock i).toNat ≤ (clock j).toNat)
    (h : Follows clock s0 w) (idxVf : Nat) (id : EventId) :
    Follows clock s0 ⟨(addActiveEvent clock w.adapt idxVf id).2,
      record clock w.adapt (addActiveEvent clock w.adapt idxVf id).2 w.log (.add idxVf id)⟩ := by
  rcases addActiveEvent_cases clock w.adapt idxVf id with ⟨heq, _⟩ | ⟨g, hg, heq⟩
  · rw [record, heq, if_neg (show amdgvFailure ≠ 0 by decide)]
    exact h
  · rw [record, heq]
    have hticks := foldl_expireEvent_ticks clock EventId.all g w.adapt.ticks
    apply h.setGuard hg
    · apply Nat.le_trans hticks
      unfold addToEvent
      dsimp only
      split
      · exact Nat.le_refl _
      · exact Nat.le_succ _
    · intro idx hidx
      split
      · exact update_of_ne hidx ..
      · rfl
    · intro n T hall
      obtain ⟨_, _, hexpired⟩ := deleteExpiredEvent_spec hmono hall
      rcases addToEvent_tracksAll hmono hexpired id with
        ⟨hret, _, hk, hkept⟩ | ⟨hret, hk, hkept⟩
      · rw [hret, if_neg (by decide), hk]
        exact hkept
      · rw [hret, if_pos rfl, hk]
        simpa [Log.modify] using hkept

theorem decActiveEvent_cases (clock : Nat → Time) (s : Adapt) (log : Log) (idxVf : Nat)
    (id : EventId) :
    (decActiveEvent s idxVf id).2 = s ∧
        record clock s (decActiveEvent s idxVf id).2 log (.dec idxVf id) = log ∨
      ∃ g, s.guard idxVf = some g ∧ 0 < (g.event id).active ∧
        (decActiveEvent s idxVf id).2 = s.setGuard idxVf
          (g.setEvent id { g.event id with active := (g.event id).active - 1 }) ∧
        record clock s (decActiveEvent s idxVf id).2 log (.dec idxVf id) =
          log.modify idxVf id dropLast := by
  have hsame : record clock s s log (.dec idxVf id) = log := if_neg (Nat.lt_irrefl _)
  unfold decActiveEvent
  split
  · exact .inl ⟨rfl, hsame⟩
  · split
    · exact .inl ⟨rfl, hsame⟩
    · rename_i g hg
      split
      · exact .inl ⟨rfl, hsame⟩
      · dsimp only
        split
        · rename_i hdec
          refine .inr ⟨g, hg, hdec.2, rfl, if_pos ?_⟩
          simp only [Adapt.active, Adapt.setGuard, update_self, hg,
            VfGuard.setEvent_self]
          omega
        · exact .inl ⟨rfl, hsame⟩

theorem Follows.dec (h : Follows clock s0 w) (idxVf : Nat) (id : EventId) :
    Follows clock s0 ⟨(decActiveEvent w.adapt idxVf id).2,
      record clock w.adapt (decActiveEvent w.adapt idxVf id).2 w.log (.dec idxVf id)⟩ := by
  rcases decActiveEvent_cases clock w.adapt w.log idxVf id with
    ⟨heq, hlog⟩ | ⟨g, hg, hactive, heq, hlog⟩
  · rw [hlog, heq]
    exact h
  · rw [hlog, heq]
    apply h.setGuard hg (Nat.le_refl _)
    · intro idx hidx
      exact update_of_ne hidx ..
    · intro n T hall id'
      by_cases hid : id' = id
      · subst hid
        rw [VfGuard.setEvent_self, Log.modify_self]
        obtain ⟨old, recent, hlog, hsplits⟩ := hall id'
        refine ⟨old, recent.dropLast, ?_, hsplits.popBack⟩
        have hlength := hsplits.active
        cases recent with
        | nil =>
          rw [length_nil] at hlength
          omega
        | cons t rest =>
          rw [hlog, map_cons, dropLast_append_cons, ← map_cons,
            ← map_dropLast]
      · rw [VfGuard.setEvent_of_ne _ _ hid, Log.modify_of_ne _ _ (.inr hid)]
        exact hall id'

theorem Follows.getInfo (hmono : ∀ i j, i ≤ j → (clock i).toNat ≤ (clock j).toNat)
    (h : Follows clock s0 w) {type : Nat} {ret : Int} {parm : Parm} {after : Adapt}
    (hget : getVfInfo clock w.adapt idxVf type = some (ret, parm, after)) :
    Follows clock s0 ⟨after, w.log⟩ := by
  have hexpire : ∀ g, w.adapt.guard idxVf = some g → Follows clock s0
      ⟨{ w.adapt.setGuard idxVf (deleteExpiredEvent clock g w.adapt.ticks).1 with
        ticks := (deleteExpiredEvent clock g w.adapt.ticks).2 }, w.log⟩ := by
    intro g hg
    apply h.setGuard hg (foldl_expireEvent_ticks clock EventId.all g w.adapt.ticks)
    · exact fun _ _ => rfl
    · exact fun n T hall => (deleteExpiredEvent_spec hmono hall).2.2
  unfold getVfInfo at hget
  split at hget
  · cases hget
    exact h
  · split at hget
    · cases hget
      exact h
    · split at hget
      · cases hget
      · rename_i g hg
        dsimp only at hget
        split at hget
        · cases hget
          exact hexpire g hg
        · split at hget <;> cases hget <;> exact hexpire g hg

theorem Follows.step (hmono : ∀ i j, i ≤ j → (clock i).toNat ≤ (clock j).toNat)
    (h : Follows clock s0 w) {op : Op} {after : Watched} (hcall : Calls clock w op after) :
    Follows clock s0 after := by
  obtain ⟨adapt, log⟩ := after
  obtain ⟨hstep, hlog⟩ := hcall
  dsimp only at hstep hlog
  subst hlog
  cases op with
  | add idxVf id =>
    cases hstep
    exact h.add hmono idxVf id
  | dec idxVf id =>
    cases hstep
    exact h.dec idxVf id
  | isFull idxVf id =>
    cases hstep
    exact h
  | getInfo idxVf type =>
    obtain ⟨r, hget, rfl⟩ := Option.map_eq_some_iff.mp hstep
    exact h.getInfo hmono hget

theorem run_follows (hmono : ∀ i j, i ≤ j → (clock i).toNat ≤ (clock j).toNat)
    (hfresh : s0.Fresh) (hrun : Run (Starts s0) (Calls clock) Transition.always w) :
    Follows clock s0 w := by
  apply hrun.invariant (Follows clock s0)
  · rintro ⟨_, _⟩ ⟨rfl, rfl⟩ idxVf g0 hg0
    refine ⟨g0, hg0, fun id => ⟨[], [], rfl, ?_⟩⟩
    obtain ⟨hactive, horigin, hthreshold⟩ := hfresh idxVf g0 hg0 id
    constructor
    · rfl
    · rfl
    · rw [horigin]
      exact hthreshold
    · rw [hactive]
      rfl
    · exact CircularBuffer.holds_nil
    · simp
    · simp
    · exact .nil
    · exact spaced_nil
  · intro before op after hfollows _ hcall
    exact hfollows.step hmono hcall

/-- The guard is a sliding-window limiter. Of the accepted times not taken back, no window of
the length of the interval has more than the threshold; a call refuses an event only when one of
its readings of the clock has the threshold of such times in the interval before it. -/
theorem window_limited (hmono : ∀ i j, i ≤ j → (clock i).toNat ≤ (clock j).toNat)
    (hfresh : s0.Fresh) (hrun : Run (Starts s0) (Calls clock) Transition.always w)
    {idxVf : Nat} {g0 : VfGuard} (hg0 : s0.guard idxVf = some g0) (id : EventId) :
    (∀ start, (w.log idxVf id).countP (inWindow start (g0.event id).interval.toNat) ≤
      (g0.event id).threshold) ∧
    ((addActiveEvent clock w.adapt idxVf id).1 = amdgvEventOverflow →
      ∃ j, w.adapt.ticks ≤ j ∧ j < (addActiveEvent clock w.adapt idxVf id).2.ticks ∧
        (g0.event id).threshold ≤
          (w.log idxVf id).countP (within (clock j).toNat (g0.event id).interval.toNat)) ∧
    (w.adapt.Serves idxVf → (addActiveEvent clock w.adapt idxVf id).1 = 0 ∨
      (addActiveEvent clock w.adapt idxVf id).1 = amdgvEventOverflow) := by
  obtain ⟨g, hg, hall⟩ := run_follows hmono hfresh hrun idxVf g0 hg0
  have hthreshold := (hfresh idxVf g0 hg0 id).2.2
  refine ⟨(hall id).limited hthreshold, ?_, ?_⟩
  · intro hrefused
    rcases addActiveEvent_cases clock w.adapt idxVf id with ⟨heq, _⟩ | ⟨gx, hgx, heq⟩
    · rw [heq] at hrefused
      exact absurd hrefused (show amdgvFailure ≠ amdgvEventOverflow by decide)
    · rw [hg] at hgx
      cases hgx
      rw [heq] at hrefused ⊢
      obtain ⟨_, _, hexpired⟩ := deleteExpiredEvent_spec hmono hall
      rcases addToEvent_tracksAll hmono hexpired id with ⟨_, hfull, hk, _⟩ | ⟨hret, _, _⟩
      · dsimp only
        rw [hk]
        exact (hexpired id).full hthreshold (hall id).past hfull
          (deleteExpiredEvent_checked clock g w.adapt.ticks id)
      · dsimp only at hrefused
        rw [hret] at hrefused
        exact absurd hrefused (by decide)
  · intro hserves
    rcases addActiveEvent_cases clock w.adapt idxVf id with ⟨_, hnot⟩ | ⟨gx, hgx, heq⟩
    · exact absurd hserves hnot
    · rw [hg] at hgx
      cases hgx
      rw [heq]
      obtain ⟨_, _, hexpired⟩ := deleteExpiredEvent_spec hmono hall
      rcases addToEvent_tracksAll hmono hexpired id with ⟨hret, _⟩ | ⟨hret, _⟩
      · exact .inr hret
      · exact .inl hret

def secondClock (k : Nat) : Time := BitVec.ofNat 64 (min (k * 1000) 1000000)

theorem secondClock_mono (i j : Nat) (h : i ≤ j) :
    (secondClock i).toNat ≤ (secondClock j).toNat := by
  have hfits : ∀ x, min (x * 1000) 1000000 < 2 ^ 64 := fun x => by omega
  rw [secondClock, secondClock, BitVec.toNat_ofNat, BitVec.toNat_ofNat,
    Nat.mod_eq_of_lt (hfits i), Nat.mod_eq_of_lt (hfits j)]
  omega

def oneVf : Adapt := (vfInit ⟨1, fun _ => none, 0⟩ 0 true true).2

theorem oneVf_fresh : oneVf.Fresh := by
  apply vfInit_fresh
  intro idxVf g hg
  cases hg

def Watched.calls (clock : Nat → Time) (w : Watched) : List Op → Option Watched
  | [] => some w
  | op :: rest =>
    (step clock w.adapt op).bind fun s =>
      Watched.calls clock ⟨s, record clock w.adapt s w.log op⟩ rest

theorem Watched.run_calls {start : Watched → Prop} {ops : List Op} {after : Watched}
    (hrun : Run start (Calls clock) Transition.always w)
    (hcalls : w.calls clock ops = some after) :
    Run start (Calls clock) Transition.always after := by
  induction ops generalizing w with
  | nil =>
    cases hcalls
    exact hrun
  | cons op rest ih =>
    obtain ⟨s, hstep, hrest⟩ := Option.bind_eq_some_iff.mp hcalls
    exact ih (hrun.next op trivial ⟨hstep, rfl⟩) hrest

def resets : List Op :=
  [.add 0 .flr, .add 0 .flr, .dec 0 .flr, .add 0 .flr, .isFull 0 .flr, .getInfo 0 0, .add 0 .flr]

/-- The fifth reset finds three in the last minute. -/
theorem window_limited_resets : ∃ w, Watched.calls secondClock ⟨oneVf, fun _ _ => []⟩ resets =
      some w ∧
    (∀ start, (w.log 0 .flr).countP (inWindow start 60000000) ≤ 3) ∧
    (addActiveEvent secondClock w.adapt 0 .flr).1 = amdgvEventOverflow ∧
    ∃ j, w.adapt.ticks ≤ j ∧ j < (addActiveEvent secondClock w.adapt 0 .flr).2.ticks ∧
      3 ≤ (w.log 0 .flr).countP (within (secondClock j).toNat 60000000) := by
  obtain ⟨w, hw⟩ := Option.isSome_iff_exists.mp (show (Watched.calls secondClock
    ⟨oneVf, fun _ _ => []⟩ resets).isSome = true by decide +kernel)
  have hrun : Run (Starts oneVf) (Calls secondClock) Transition.always w :=
    Watched.run_calls (.start ⟨rfl, rfl⟩) hw
  have hret : (Watched.calls secondClock ⟨oneVf, fun _ _ => []⟩ resets).map
      (fun w => (addActiveEvent secondClock w.adapt 0 .flr).1) = some amdgvEventOverflow := by
    decide +kernel
  rw [hw, Option.map_some, Option.some.injEq] at hret
  have hlimited := window_limited secondClock_mono oneVf_fresh hrun
    (show oneVf.guard 0 = some _ from rfl) .flr
  exact ⟨w, hw, hlimited.1, hret, hlimited.2.1 hret⟩

end calls

end MxGpu.Guard
