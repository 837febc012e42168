import MxGpu.DirtySurvive

/- Dirty pages by hashes of the frame buffer (`mi300_dirtybit.c`): two buffers of hashes of which one
has the hashes of the last query that cleared, and the other those of now. -/
namespace MxGpu.Dirtybit

open Function

open Transition (Run)

variable {Digest : Type} [DecidableEq Digest] {page : DirtyPage} {vf : VfFb} {zero : Digest}

/-- A query as it came back: its window, whether it was the first one, the pages it reports, the
hashes it found, and those of the last time each page was reported to a clearing query. -/
structure HashReport (Digest : Type) where
  q : DirtyQuery
  first : Bool
  reported : Nat → Bool
  found : Nat → Digest
  base : Nat → Digest

/-- A function with its hashes: those of its pages now, `page_hash_sys`, `prev_idx`, `initialized`
and `is_first_query`. `base` has the hash of each page when it was last covered by a clearing query,
or by the first one. -/
structure HashSys (Digest : Type) where
  now : Nat → Digest
  pageHash : Bool → Nat → Digest
  prevIdx : Bool
  initialized : Bool
  isFirstQuery : Bool
  base : Nat → Digest
  reports : List (HashReport Digest)

def computePageHash (page : DirtyPage) (vf : VfFb) (now old : Nat → Digest) : Nat → Digest :=
  fun p => if p < vfPages page vf then now p else old p

/-- `mi300_dirtybit_fb_hash_diff_to_zero` and `mi300_dirtybit_fb_hash_diff_to_prev` -/
def hashDiff (page : DirtyPage) (q : DirtyQuery) (cur prev : Nat → Digest) : Nat → Bool :=
  fun p => decide (InWindow page q p) && decide (cur p ≠ prev p)

/-- `mi300_dirtybit_fb_hash_query_data`, and the end of the first query of a migration. -/
def fbHashQueryData (page : DirtyPage) (vf : VfFb) (zero : Digest) (s : HashSys Digest)
    (q : DirtyQuery) : HashSys Digest :=
  let curIdx := !s.prevIdx
  let pageHash := update s.pageHash curIdx
    (computePageHash page vf s.now (s.pageHash curIdx))
  let first := !s.initialized || s.isFirstQuery
  let reported :=
    if first then hashDiff page q (pageHash curIdx) fun _ => zero
    else hashDiff page q (pageHash curIdx) (pageHash s.prevIdx)
  { s with
    pageHash
    prevIdx := if first || !q.dbitPreserve then curIdx else s.prevIdx
    initialized := true
    isFirstQuery := false
    base := fun p => if first || cleared page q p then s.now p else s.base p
    reports := s.reports ++ [⟨q, first, reported, s.now, s.base⟩] }

inductive HashEvent (Digest : Type)
  /-- the guest writes to a page, which has a hash afterwards -/
  | write (p : Nat) (hash : Digest)
  | query (q : DirtyQuery)
  /-- a query that fails leaves anything in the buffer for its hashes -/
  | queryFails (left : Nat → Digest)
  /-- a migration begins -/
  | firstQuery

def hashStep (page : DirtyPage) (vf : VfFb) (zero : Digest) (s : HashSys Digest)
    (e : HashEvent Digest) (s' : HashSys Digest) : Prop :=
  match e with
  | .write p hash => s' = { s with now := update s.now p hash }
  | .query q => InsideVf vf q ∧ s' = fbHashQueryData page vf zero s q
  | .queryFails left =>
    s' = { s with pageHash := update s.pageHash (!s.prevIdx) left }
  | .firstQuery => s' = { s with isFirstQuery := true }

/-- No change is missed: a query reports every page it covers whose hash is another one than when
the page was last reported, and the hashes that the next query compares with are those. -/
structure NothingMissed (page : DirtyPage) (vf : VfFb) (s : HashSys Digest) : Prop where
  reported : ∀ r ∈ s.reports, r.first = false → ∀ p, p < vfPages page vf → InWindow page r.q p →
    r.found p ≠ r.base p → r.reported p = true
  compared : s.initialized = true → s.isFirstQuery = false → ∀ p, p < vfPages page vf →
    s.pageHash s.prevIdx p = s.base p

/-- A query that clears covers every page that has changed since the last one that cleared. -/
def Covering (page : DirtyPage) (vf : VfFb) (s : HashSys Digest) : HashEvent Digest → Prop
  | .query q => s.initialized = true → s.isFirstQuery = false → q.dbitPreserve = false →
      ∀ p, p < vfPages page vf → ¬ InWindow page q p → s.now p = s.pageHash s.prevIdx p
  | _ => True

def HashStart (s : HashSys Digest) : Prop := s.initialized = false ∧ s.reports = []

def CoveringRun (page : DirtyPage) (vf : VfFb) (zero : Digest) : HashSys Digest → Prop :=
  Run HashStart (hashStep page vf zero) (Covering page vf)

theorem NothingMissed.query {s : HashSys Digest} {q : DirtyQuery} (h : NothingMissed page vf s)
    (hcovers : Covering page vf s (.query q)) :
    NothingMissed page vf (fbHashQueryData page vf zero s q) := by
  have hcur : ∀ p, p < vfPages page vf → computePageHash page vf s.now
      (s.pageHash (!s.prevIdx)) p = s.now p := by
    intro p hp
    rw [computePageHash, if_pos hp]
  by_cases hfirst : (!s.initialized || s.isFirstQuery) = true
  · refine ⟨fun r hr hnot => ?_, fun _ _ p hp => ?_⟩
    · unfold fbHashQueryData at hr
      simp only [hfirst] at hr
      rcases List.mem_append.mp hr with hr | hr
      · exact h.reported r hr hnot
      · rw [List.mem_singleton.mp hr] at hnot
        exact absurd hnot.symm Bool.false_ne_true
    · unfold fbHashQueryData
      simp only [hfirst, Bool.true_or, if_true]
      rw [update_self]
      exact hcur p hp
  · have hold : s.initialized = true ∧ s.isFirstQuery = false := by simpa using hfirst
    rw [Bool.not_eq_true] at hfirst
    have hcompared := h.compared hold.1 hold.2
    refine ⟨fun r hr hnot p hp hwindow hne => ?_, fun _ _ p hp => ?_⟩
    · unfold fbHashQueryData at hr
      simp only [hfirst, Bool.false_eq_true, if_false] at hr
      rcases List.mem_append.mp hr with hr | hr
      · exact h.reported r hr hnot p hp hwindow hne
      · rw [List.mem_singleton.mp hr] at hwindow hne ⊢
        simp only at hwindow hne ⊢
        unfold hashDiff
        rw [update_self, update_of_ne (by simp), hcur p hp, hcompared p hp]
        simp [hwindow, hne]
    · unfold fbHashQueryData
      simp only [hfirst, Bool.false_or]
      cases hpreserve : q.dbitPreserve with
      | true =>
        -- nothing is cleared, and the old hashes stay
        have hcleared : cleared page q p = false := by
          rw [cleared, hpreserve]
          rfl
        simp only [Bool.not_true, Bool.false_eq_true, if_false, hcleared]
        rw [update_of_ne (by simp)]
        exact hcompared p hp
      | false =>
        simp only [Bool.not_false, if_true]
        rw [update_self, hcur p hp]
        split
        · rfl
        · rename_i hcleared
          have hout : ¬ InWindow page q p := by
            intro hwindow
            apply hcleared
            rw [cleared, hpreserve, decide_eq_true hwindow]
            rfl
          rw [hcovers hold.1 hold.2 hpreserve p hp hout]
          exact hcompared p hp

theorem NothingMissed.step {s s' : HashSys Digest} (h : NothingMissed page vf s)
    (e : HashEvent Digest) (hcovers : Covering page vf s e) (hstep : hashStep page vf zero s e s') :
    NothingMissed page vf s' := by
  cases e with
  | write p hash =>
    obtain rfl := hstep
    exact ⟨h.reported, h.compared⟩
  | query q =>
    obtain ⟨_, rfl⟩ := hstep
    exact h.query hcovers
  | queryFails left =>
    obtain rfl := hstep
    refine ⟨h.reported, fun hinitialized hlater p hp => ?_⟩
    simp only
    rw [update_of_ne (by simp)]
    exact h.compared hinitialized hlater p hp
  | firstQuery =>
    obtain rfl := hstep
    exact ⟨h.reported, fun _ hlater => absurd hlater.symm Bool.false_ne_true⟩

/-- In every run whose clearing queries cover all that has changed, no change is missed. -/
theorem hashChanges_reported (page : DirtyPage) (vf : VfFb) (zero : Digest) (s : HashSys Digest)
    (hrun : CoveringRun page vf zero s) : NothingMissed page vf s := by
  apply hrun.invariant (NothingMissed page vf)
  · intro s hstart
    refine ⟨fun r hr => ?_, fun hinitialized => ?_⟩
    · rw [hstart.2] at hr
      exact absurd hr List.not_mem_nil
    · rw [hstart.1] at hinitialized
      exact absurd hinitialized Bool.false_ne_true
  · intro before e after hinv hcovers hstep
    exact hinv.step e hcovers hstep

def unhashed : HashSys Nat :=
  ⟨fun _ => 0, fun _ _ => 0, false, false, false, fun _ => 0, []⟩

def onePage (p : Nat) : DirtyQuery := ⟨p * 2 ^ 21, 2 ^ 21, 4096, false⟩

/-- A written page is reported by the query that covers it. -/
theorem hashChanges_reported_once : ∃ s : HashSys Nat, CoveringRun .mb2 ⟨0, 16⟩ 0 s ∧
    NothingMissed .mb2 ⟨0, 16⟩ s ∧
    s.reports.map (fun r => (r.first, r.reported 1)) = [(true, false), (false, true)] := by
  have h0 : CoveringRun .mb2 ⟨0, 16⟩ 0 unhashed := .start ⟨rfl, rfl⟩
  have h1 : CoveringRun .mb2 ⟨0, 16⟩ 0 _ := .next (.query (onePage 0)) h0
    (fun hinitialized => absurd hinitialized Bool.false_ne_true) ⟨⟨by decide, by decide⟩, rfl⟩
  have h2 : CoveringRun .mb2 ⟨0, 16⟩ 0 _ := .next (.write 1 7) h1 trivial rfl
  have h3 : CoveringRun .mb2 ⟨0, 16⟩ 0 _ := .next (.query (onePage 1)) h2
    (fun _ _ _ p _ hout => by
      by_cases hp : p = 1
      · subst hp
        exact absurd (by decide +kernel) hout
      · simp [fbHashQueryData, unhashed, computePageHash, update, hp])
    ⟨⟨by decide, by decide⟩, rfl⟩
  exact ⟨_, h3, hashChanges_reported _ _ _ _ h3, by decide +kernel⟩

def HashRun (page : DirtyPage) (vf : VfFb) (zero : Digest) : HashSys Digest → Prop :=
  Run HashStart (hashStep page vf zero) Transition.always

/-- Page 1 is written, page 0 is queried: the query of page 1 does not report it any more. -/
theorem other_window_consumes : ¬ ∀ s : HashSys Nat, HashRun .mb2 ⟨0, 16⟩ 0 s →
    NothingMissed .mb2 ⟨0, 16⟩ s := by
  intro h
  have h0 : HashRun .mb2 ⟨0, 16⟩ 0 unhashed := .start ⟨rfl, rfl⟩
  have h1 : HashRun .mb2 ⟨0, 16⟩ 0 _ :=
    .next (.query (onePage 0)) h0 trivial ⟨⟨by decide, by decide⟩, rfl⟩
  have h2 : HashRun .mb2 ⟨0, 16⟩ 0 _ := .next (.write 1 7) h1 trivial rfl
  have h3 : HashRun .mb2 ⟨0, 16⟩ 0 _ :=
    .next (.query (onePage 0)) h2 trivial ⟨⟨by decide, by decide⟩, rfl⟩
  have h4 : HashRun .mb2 ⟨0, 16⟩ 0 _ :=
    .next (.query (onePage 1)) h3 trivial ⟨⟨by decide, by decide⟩, rfl⟩
  have hlast := (h _ h4).reported _ (List.mem_append_right _ (List.mem_singleton.mpr rfl)) rfl 1
    (by decide) (by decide +kernel) (by decide +kernel)
  revert hlast
  decide +kernel

end MxGpu.Dirtybit
