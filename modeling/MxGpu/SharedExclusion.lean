import MxGpu.Tally
import MxGpu.Transition
import Mathlib.Algebra.BigOperators.Group.Finset.Piecewise

/- The lock that two groups of threads share (`amdgv_task_barrier.c`). -/
namespace MxGpu.SharedExclusion

open Tally Function

/-- Where a thread is in `shared_exclusion_enter` and `shared_exclusion_exit`. -/
inductive Place where
  | outside
  /-- at the first lock of enter -/
  | wantsLock
  | counting
  /-- first of its group, about to drop the mutex -/
  | dropping
  /-- at the main semaphore -/
  | atSem
  /-- past it, at the second lock -/
  | relocking
  | activating
  /-- about to read how many wait -/
  | reading
  /-- with that many still to signal -/
  | signalling (waiters : Nat)
  /-- not the first, about to look at `active` -/
  | testing
  | droppingForGate
  | atGate
  | passing
  /-- back from enter, exit not yet called -/
  | inside
  /-- at the lock of exit -/
  | exiting
  | uncounting
  /-- last of its group -/
  | deactivating
  | releasing
  | unlocking
  deriving DecidableEq

/-- `shared_exclusion_lock`, with the owner of the mutex, and the threads. -/
structure Sys (Thread : Type) where
  sem : Nat
  gate : Fin 2 → Nat
  count : Fin 2 → Int
  active : Fin 2 → Bool
  lock : Option Thread
  place : Thread → Place

section Steps

variable {Thread : Type}

def sharedExclusionInit : Sys Thread :=
  { sem := 1
    gate := fun _ => 0
    count := fun _ => 0
    active := fun _ => false
    lock := none
    place := fun _ => .outside }

variable [DecidableEq Thread]

def Sys.move (s : Sys Thread) (t : Thread) (dest : Place) : Sys Thread :=
  { s with place := update s.place t dest }

/-- `oss_mutex_lock` -/
def Sys.acquire (s : Sys Thread) (t : Thread) (dest : Place) : Option (Sys Thread) :=
  if s.lock = none then some { s.move t dest with lock := some t } else none

/-- `oss_mutex_unlock` -/
def Sys.unlock (s : Sys Thread) (t : Thread) (dest : Place) : Option (Sys Thread) :=
  some { s.move t dest with lock := none }

/-- What a `uint8_t` keeps of a counter. -/
def u8 (count : Int) : Int := count % 256

/-- The next atomic step of a thread of group `g`; none if it has to wait. -/
def advance (group : Thread → Fin 2) (s : Sys Thread) (t : Thread) : Option (Sys Thread) :=
  let g := group t
  match s.place t with
  | .outside => some (s.move t .wantsLock)
  | .wantsLock => s.acquire t .counting
  | .counting =>
    let count := s.count g + 1
    some { s.move t (if u8 count = 1 then .dropping else .testing) with
      count := update s.count g count }
  | .dropping => s.unlock t .atSem
  | .atSem => if 0 < s.sem then some { s.move t .relocking with sem := s.sem - 1 } else none
  | .relocking => s.acquire t .activating
  | .activating => some { s.move t .reading with active := update s.active g true }
  | .reading => some (s.move t (.signalling (u8 (s.count g - 1)).toNat))
  | .signalling 0 => s.unlock t .inside
  | .signalling (waiters + 1) =>
    some { s.move t (.signalling waiters) with gate := update s.gate g (s.gate g + 1) }
  | .testing => some (s.move t (if s.active g = false then .droppingForGate else .passing))
  | .droppingForGate => s.unlock t .atGate
  | .atGate =>
    if 0 < s.gate g then
      some { s.move t .inside with gate := update s.gate g (s.gate g - 1) }
    else none
  | .passing => s.unlock t .inside
  | .inside => some (s.move t .exiting)
  | .exiting => s.acquire t .uncounting
  | .uncounting =>
    let count := s.count g - 1
    some { s.move t (if u8 count = 0 then .deactivating else .unlocking) with
      count := update s.count g count }
  | .deactivating => some { s.move t .releasing with active := update s.active g false }
  | .releasing => some { s.move t .unlocking with sem := s.sem + 1 }
  | .unlocking => s.unlock t .outside

def Step (group : Thread → Fin 2) (s : Sys Thread) (t : Thread) (s' : Sys Thread) : Prop :=
  advance group s t = some s'

def Started (s : Sys Thread) : Prop := s = sharedExclusionInit

def Exclusive (group : Thread → Fin 2) (s : Sys Thread) : Prop :=
  ∀ t u, s.place t = .inside → s.place u = .inside → group t = group u

def Place.member : Place → Bool
  | .outside | .wantsLock | .counting | .deactivating | .releasing | .unlocking => false
  | _ => true

/-- A group without members counts none, and has no permit left at its gate. -/
def Clean (group : Thread → Fin 2) (s : Sys Thread) : Prop :=
  ∀ g, (∀ t, group t = g → (s.place t).member = false) → s.count g = 0 ∧ s.gate g = 0

/-- Whenever some thread is in a call or between the two, such a thread has a step. -/
def Live (group : Thread → Fin 2) (s : Sys Thread) : Prop :=
  ∀ t, s.place t ≠ .outside → ∃ u, s.place u ≠ .outside ∧ (advance group s u).isSome

end Steps

section Invariant

variable {Thread : Type} [Fintype Thread] [DecidableEq Thread] {group : Thread → Fin 2}
  {s s' : Sys Thread} {t : Thread} {g : Fin 2}

def Place.leads : Place → Bool
  | .dropping | .atSem | .relocking | .activating => true
  | _ => false

def Place.holds : Place → Bool
  | .relocking | .activating | .releasing => true
  | _ => false

def Place.waits : Place → Bool
  | .droppingForGate | .atGate => true
  | _ => false

def Place.served : Place → Bool
  | .reading | .signalling _ | .passing | .inside | .exiting | .uncounting | .deactivating => true
  | _ => false

def Place.locked : Place → Bool
  | .outside | .wantsLock | .atSem | .relocking | .atGate | .inside | .exiting => false
  | _ => true

def Place.present (p : Place) : Bool := p.member || p = .deactivating

def Place.owes (count : Int) : Place → Nat
  | .reading => (count - 1).toNat
  | .signalling waiters => waiters
  | _ => 0

def threads (group : Thread → Fin 2) (place : Thread → Place) (g : Fin 2) (kind : Place → Bool) :
    Nat :=
  tally (fun t p => decide (group t = g) && kind p) place

/-- The permits that the owner of the mutex still has to give to the gate of a group. -/
def Sys.owed (group : Thread → Fin 2) (s : Sys Thread) (g : Fin 2) : Nat :=
  match s.lock with
  | none => 0
  | some t => if group t = g then (s.place t).owes (s.count g) else 0

/-- Who has the permit of the main semaphore in a group: its leader, or all of it. -/
def Sys.holders (group : Thread → Fin 2) (s : Sys Thread) (g : Fin 2) : Nat :=
  threads group s.place g Place.holds + (s.active g).toNat

structure Inv (group : Thread → Fin 2) (s : Sys Thread) : Prop where
  owner : ∀ t, (s.place t).locked = true ↔ s.lock = some t
  counted : ∀ g, s.count g = threads group s.place g Place.member
  /-- a group with members is active, or has one leader -/
  session : ∀ g, threads group s.place g Place.leads + (s.active g).toNat =
    min 1 (threads group s.place g Place.present)
  permit : s.sem + (s.holders group 0 + s.holders group 1) = 1
  asleep : ∀ g, s.active g = false → s.gate g = 0 ∧ threads group s.place g Place.served = 0
  /-- who waits at the gate has a permit there, or is owed one -/
  awake : ∀ g, s.active g = true →
    s.gate g + s.owed group g = threads group s.place g Place.waits
  last : ∀ t, s.place t = .deactivating → threads group s.place (group t) Place.member = 0

theorem threads_move (place : Thread → Place) (t : Thread) (dest : Place) (g : Fin 2)
    (kind : Place → Bool) :
    threads group (update place t dest) g kind +
        (if group t = g then (kind (place t)).toNat else 0) =
      threads group place g kind + if group t = g then (kind dest).toNat else 0 := by
  have h := (@tally_update _ _ _ (fun t p => decide (group t = g) && kind p) place _) t dest
  unfold threads
  by_cases hg : group t = g
  · simpa [hg] using h
  · simpa [hg] using h

omit [DecidableEq Thread] in
theorem threads_none {place : Thread → Place} {kind : Place → Bool} :
    threads group place g kind = 0 ↔ ∀ t, group t = g → kind (place t) = false := by
  unfold threads
  rw [tally_eq_zero]
  simp

omit [DecidableEq Thread] in
theorem threads_some {place : Thread → Place} {kind : Place → Bool} :
    0 < threads group place g kind ↔ ∃ t, group t = g ∧ kind (place t) = true := by
  unfold threads
  rw [tally_pos]
  simp

omit [DecidableEq Thread] in
theorem start_inv : Inv group (sharedExclusionInit : Sys Thread) := by
  have hnone : ∀ g kind, kind Place.outside = false →
      threads group (sharedExclusionInit : Sys Thread).place g kind = 0 := by
    intro g kind hkind
    exact threads_none.mpr fun _ _ => hkind
  refine ⟨?_, ?_, ?_, ?_, ?_, ?_, ?_⟩
  · intro t
    simp [sharedExclusionInit, Place.locked]
  · intro g
    rw [hnone g _ rfl]
    rfl
  · intro g
    rw [hnone g _ rfl, hnone g _ rfl]
    rfl
  · unfold Sys.holders
    rw [hnone 0 _ rfl, hnone 1 _ rfl]
    rfl
  · intro g _
    exact ⟨rfl, hnone g _ rfl⟩
  · intro g hactive
    exact absurd hactive (by simp [sharedExclusionInit])
  · intro t ht
    exact absurd ht (by simp [sharedExclusionInit])

/-- What every step of a thread `t` does: it goes on to `dest`, and changes nothing of the group
that it is not in. -/
structure Goes (group : Thread → Fin 2) (s s' : Sys Thread) (t : Thread) (dest : Place) :
    Prop where
  place : s'.place = update s.place t dest
  others : ∀ g, group t ≠ g →
    s'.count g = s.count g ∧ s'.gate g = s.gate g ∧ s'.active g = s.active g
  count : s'.count (group t) + (s.place t).member.toNat = s.count (group t) + dest.member.toNat
  lock : s'.lock = if dest.locked then some t else if (s.place t).locked then none else s.lock
  free : dest.locked = true → (s.place t).locked = true ∨ s.lock = none
  /-- without the mutex it neither joins nor leaves its group -/
  stays : (s.place t).locked = false → dest.member = (s.place t).member
  permit : s'.sem + dest.holds.toNat + (s'.active (group t)).toNat =
    s.sem + (s.place t).holds.toNat + (s.active (group t)).toNat

variable {dest : Place}

theorem Goes.threads_self (h : Goes group s s' t dest) (kind : Place → Bool) :
    threads group s'.place (group t) kind + (kind (s.place t)).toNat =
      threads group s.place (group t) kind + (kind dest).toNat := by
  have := (@threads_move _ _ _ group) s.place t dest (group t) kind
  rw [if_pos rfl, if_pos rfl] at this
  rw [h.place]
  exact this

theorem Goes.threads_other (h : Goes group s s' t dest) (hg : group t ≠ g) (kind : Place → Bool) :
    threads group s'.place g kind = threads group s.place g kind := by
  have := (@threads_move _ _ _ group) s.place t dest g kind
  rw [if_neg hg, if_neg hg] at this
  rw [h.place]
  exact this

omit [Fintype Thread] in
theorem Goes.place_other (h : Goes group s s' t dest) {u : Thread} (hu : u ≠ t) :
    s'.place u = s.place u := by
  rw [h.place, update_of_ne hu]

omit [Fintype Thread] in
theorem Goes.place_self (h : Goes group s s' t dest) : s'.place t = dest := by
  rw [h.place, update_self]

theorem Goes.lock_other (h : Goes group s s' t dest) (hinv : Inv group s) {u : Thread}
    (hu : u ≠ t) : s'.lock = some u ↔ s.lock = some u := by
  have hne : some t ≠ some u := fun heq => hu (Option.some.inj heq).symm
  rw [h.lock]
  cases hsrc : (s.place t).locked with
  | true =>
    have howner := (hinv.owner t).mp hsrc
    cases dest.locked <;> simp [howner, hne]
  | false =>
    cases hdest : dest.locked with
    | true =>
      have hfree : s.lock = none := by
        simpa [hsrc] using h.free hdest
      simp [hfree, hne]
    | false => simp

theorem Goes.owed_other (h : Goes group s s' t dest) (hinv : Inv group s) (hg : group t ≠ g) :
    s'.owed group g = s.owed group g := by
  have hcount := (h.others g hg).1
  have hlock := fun u (hu : u ≠ t) => h.lock_other hinv hu
  unfold Sys.owed
  cases hbefore : s.lock with
  | none =>
    cases hafter : s'.lock with
    | none => rfl
    | some u =>
      by_cases hu : u = t
      · subst hu
        simp only [if_neg hg]
      · have := (hlock u hu).mp hafter
        rw [hbefore] at this
        cases this
  | some u =>
    by_cases hu : u = t
    · subst hu
      cases hafter : s'.lock with
      | none => simp only [if_neg hg]
      | some v =>
        by_cases hv : v = u
        · subst hv
          simp only [if_neg hg]
        · have := (hlock v hv).mp hafter
          rw [hbefore] at this
          exact absurd (Option.some.inj this).symm hv
    · rw [(hlock u hu).mpr hbefore]
      simp only [h.place_other hu, hcount]

theorem Goes.inv (h : Goes group s s' t dest) (hinv : Inv group s)
    (hsession : threads group s'.place (group t) Place.leads + (s'.active (group t)).toNat =
      min 1 (threads group s'.place (group t) Place.present))
    (hasleep : s'.active (group t) = false →
      s'.gate (group t) = 0 ∧ threads group s'.place (group t) Place.served = 0)
    (hawake : s'.active (group t) = true →
      s'.gate (group t) + s'.owed group (group t) = threads group s'.place (group t) Place.waits)
    (hlast : dest = .deactivating → threads group s'.place (group t) Place.member = 0) :
    Inv group s' := by
  refine ⟨?_, ?_, ?_, ?_, ?_, ?_, ?_⟩
  · intro u
    by_cases hu : u = t
    · subst hu
      rw [h.place_self, h.lock]
      have := hinv.owner u
      cases hdest : dest.locked <;> cases hsrc : (s.place u).locked
      all_goals
        rw [hsrc] at this
        simp at this ⊢
      exact this
    · rw [h.place_other hu, hinv.owner u, h.lock_other hinv hu]
  · intro g
    by_cases hg : group t = g
    · subst hg
      have := h.threads_self Place.member
      have := h.count
      have := hinv.counted (group t)
      omega
    · rw [(h.others g hg).1, h.threads_other hg]
      exact hinv.counted g
  · intro g
    by_cases hg : group t = g
    · subst hg
      exact hsession
    · rw [h.threads_other hg, h.threads_other hg, (h.others g hg).2.2]
      exact hinv.session g
  · have hself := h.threads_self Place.holds
    have hpermit := h.permit
    have hbefore := hinv.permit
    unfold Sys.holders at *
    have hgroup : group t = 0 ∨ group t = 1 := by
      have := (group t).isLt
      omega
    rcases hgroup with hg | hg
    · have hother : group t ≠ 1 := by
        rw [hg]
        decide
      have := h.threads_other hother Place.holds
      have := (h.others 1 hother).2.2
      simp only [hg] at *
      rw [this]
      omega
    · have hother : group t ≠ 0 := by
        rw [hg]
        decide
      have := h.threads_other hother Place.holds
      have := (h.others 0 hother).2.2
      simp only [hg] at *
      rw [this]
      omega
  · intro g
    by_cases hg : group t = g
    · subst hg
      exact hasleep
    · rw [(h.others g hg).2.2, (h.others g hg).2.1, h.threads_other hg]
      exact hinv.asleep g
  · intro g
    by_cases hg : group t = g
    · subst hg
      exact hawake
    · rw [(h.others g hg).2.2, (h.others g hg).2.1, h.threads_other hg, h.owed_other hinv hg]
      exact hinv.awake g
  · intro u hu
    by_cases hut : u = t
    · subst hut
      rw [h.place_self] at hu
      exact hlast hu
    · rw [h.place_other hut] at hu
      have hlast := hinv.last u hu
      by_cases hg : group t = group u
      · -- the last one has the mutex, so that nobody joins its group
        have hlock : s.lock = some u := by
          apply (hinv.owner u).mp
          rw [hu]
          rfl
        have hunlocked : (s.place t).locked = false := by
          cases hl : (s.place t).locked with
          | false => rfl
          | true =>
            have := (hinv.owner t).mp hl
            rw [hlock] at this
            exact absurd (Option.some.inj this) hut
        have hself := h.threads_self Place.member
        rw [h.stays hunlocked, hg] at hself
        omega
      · rw [h.threads_other hg]
        exact hlast

theorem Place.owes_unlocked {p : Place} {count : Int} (h : p.locked = false) :
    p.owes count = 0 := by
  cases p <;> simp [Place.locked] at h ⊢ <;> rfl

theorem Goes.owed_self (h : Goes group s s' t dest) (hinv : Inv group s) :
    s'.owed group (group t) + (s.place t).owes (s.count (group t)) =
      s.owed group (group t) + dest.owes (s'.count (group t)) := by
  have hlock := h.lock
  cases hsrc : (s.place t).locked with
  | true =>
    have hbefore : s.owed group (group t) = (s.place t).owes (s.count (group t)) := by
      simp only [Sys.owed, (hinv.owner t).mp hsrc, if_true]
    cases hdest : dest.locked with
    | true =>
      have hafter : s'.owed group (group t) = dest.owes (s'.count (group t)) := by
        rw [hdest, if_pos rfl] at hlock
        simp only [Sys.owed, hlock, h.place_self, if_true]
      omega
    | false =>
      have hafter : s'.owed group (group t) = 0 := by
        rw [hdest, hsrc] at hlock
        simp at hlock
        simp only [Sys.owed, hlock]
      rw [Place.owes_unlocked hdest]
      omega
  | false =>
    rw [Place.owes_unlocked hsrc]
    have hcount := h.count
    rw [h.stays hsrc] at hcount
    have hcount' : s'.count (group t) = s.count (group t) := by omega
    cases hdest : dest.locked with
    | true =>
      have hbefore : s.owed group (group t) = 0 := by
        have hfree : s.lock = none := by
          simpa [hsrc] using h.free hdest
        simp only [Sys.owed, hfree]
      have hafter : s'.owed group (group t) = dest.owes (s'.count (group t)) := by
        rw [hdest, if_pos rfl] at hlock
        simp only [Sys.owed, hlock, h.place_self, if_true]
      omega
    | false =>
      rw [Place.owes_unlocked hdest]
      rw [hdest, hsrc] at hlock
      simp at hlock
      unfold Sys.owed
      rw [hlock]
      cases hu : s.lock with
      | none => rfl
      | some u =>
        have hut : u ≠ t := by
          intro heq
          have := (hinv.owner t).mpr (heq ▸ hu)
          rw [hsrc] at this
          cases this
        simp only [h.place_other hut, hcount']

structure Alike (src dest : Place) : Prop where
  member : dest.member = src.member
  leads : dest.leads = src.leads
  served : dest.served = src.served
  waits : dest.waits = src.waits
  here : src ≠ .deactivating
  there : dest ≠ .deactivating

theorem Goes.idle (h : Goes group s s' t dest) (hinv : Inv group s) (halike : Alike (s.place t) dest)
    (hgate : s'.gate (group t) = s.gate (group t))
    (hactive : s'.active (group t) = s.active (group t))
    (howes : dest.owes (s'.count (group t)) = (s.place t).owes (s.count (group t))) :
    Inv group s' := by
  have hl := h.threads_self Place.leads
  have hp := h.threads_self Place.present
  have hs := h.threads_self Place.served
  have hw := h.threads_self Place.waits
  have ho := h.owed_self hinv
  have hpresent : dest.present = (s.place t).present := by
    unfold Place.present
    rw [halike.member]
    simp [halike.here, halike.there]
  rw [halike.leads] at hl
  rw [hpresent] at hp
  rw [halike.served] at hs
  rw [halike.waits] at hw
  apply h.inv hinv
  · have := hinv.session (group t)
    rw [hactive]
    omega
  · intro hasleep
    have := hinv.asleep (group t) (hactive ▸ hasleep)
    omega
  · intro hawake
    have := hinv.awake (group t) (hactive ▸ hawake)
    omega
  · exact fun heq => absurd heq halike.there

omit [DecidableEq Thread] in
theorem threads_le (group : Thread → Fin 2) (place : Thread → Place) (g : Fin 2)
    (kind : Place → Bool) :
    threads group place g kind ≤ Fintype.card {t // group t = g} := by
  have hle : threads group place g kind ≤ tally (fun t _ => decide (group t = g)) place := by
    apply tally_mono
    intro t ht
    simp only [Bool.and_eq_true] at ht
    exact ht.1
  have hcard : tally (fun t _ => decide (group t = g)) place =
      Fintype.card {t // group t = g} := by
    rw [Fintype.card_subtype, Finset.card_filter]
    unfold tally
    apply Finset.sum_congr rfl
    intro t _
    by_cases ht : group t = g <;> simp [ht]
  omega

/-- Each group is small enough for the copies of its count in a `uint8_t`. -/
def Small (group : Thread → Fin 2) : Prop := ∀ g, Fintype.card {t // group t = g} < 256

end Invariant

end MxGpu.SharedExclusion
