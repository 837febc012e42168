import Mathlib.Algebra.GroupWithZero.Nat
import Mathlib.Data.List.Range

/- The ring of error records (`struct amdgv_cper`): positions count every record ever
committed, and the ring keeps the last of them. -/
namespace Cper

def maxAllowedCount : Nat := 0x1000

/-- `struct amdgv_cper`, enabled. A slot that was never written holds nothing. -/
structure Ring (Hdr : Type) where
  maxCount : Nat
  maxCount_pos : 0 < maxCount
  maxCount_le : maxCount ≤ maxAllowedCount
  wptr : Nat
  ring : Nat → Option Hdr

/-- The part of `struct amdgv_live_info_cper` about the ring. -/
structure LiveInfo where
  maxCount : Nat
  wptr : Nat

variable {Hdr : Type}

def clampCount (count : Int) : Nat :=
  if 0 < count ∧ count ≤ maxAllowedCount then count.toNat else maxAllowedCount

theorem clampCount_pos (count : Int) : 0 < clampCount count := by
  unfold clampCount
  split
  · omega
  · decide

theorem clampCount_le (count : Int) : clampCount count ≤ maxAllowedCount := by
  unfold clampCount
  split
  · omega
  · exact Nat.le_refl _

@[simp] theorem clampCount_maxCount (c : Ring Hdr) : clampCount c.maxCount = c.maxCount := by
  have positive := c.maxCount_pos
  have bound := c.maxCount_le
  unfold clampCount
  rw [if_pos (by omega), Int.toNat_natCast]

/-- `amdgv_cper_sw_init` with `opt.max_cper_count`; nothing when it disables the ring. -/
def swInit (maxCperCount : Int) : Option (Ring Hdr) :=
  if maxCperCount < 0 then none
  else some
    { maxCount := clampCount maxCperCount
      maxCount_pos := clampCount_pos _
      maxCount_le := clampCount_le _
      wptr := 0
      ring := fun _ => none }

namespace Ring

variable (c : Ring Hdr)

def getRingEntry (rptr : Nat) : Option Hdr := c.ring (rptr % c.maxCount)

def commitEntry (hdr : Hdr) : Ring Hdr :=
  { c with
    ring := Function.update c.ring (c.wptr % c.maxCount) (some hdr)
    wptr := (c.wptr + 1) % 2 ^ 64 }

def moveToFirstValid (rptr : Nat) : Nat :=
  if rptr > c.wptr then c.wptr
  else if c.wptr - rptr > c.maxCount then c.wptr - c.maxCount
  else rptr

def positions (rptr : Nat) : List Nat :=
  List.range' (c.moveToFirstValid rptr) (c.wptr - c.moveToFirstValid rptr)

def exportLiveData : LiveInfo := { maxCount := c.maxCount, wptr := c.wptr }

def importLiveData (cper : LiveInfo) : Ring Hdr :=
  { c with
    maxCount := clampCount cper.maxCount
    maxCount_pos := clampCount_pos _
    maxCount_le := clampCount_le _
    wptr := cper.wptr }

/-- A live update: another driver starts with its own ring and takes over the counts. -/
def liveUpdate (maxCperCount : Int) : Option (Ring Hdr) :=
  (swInit maxCperCount).map fun fresh => fresh.importLiveData c.exportLiveData

def retained (p : Nat) : Option Hdr :=
  if p < c.wptr ∧ c.wptr ≤ p + c.maxCount then c.getRingEntry p else none

theorem moveToFirstValid_le (rptr : Nat) : c.moveToFirstValid rptr ≤ c.wptr := by
  unfold moveToFirstValid
  split
  · exact Nat.le_refl _
  · split <;> omega

theorem moveToFirstValid_window (rptr : Nat) :
    c.wptr ≤ c.moveToFirstValid rptr + c.maxCount := by
  unfold moveToFirstValid
  split
  · omega
  · split <;> omega

theorem le_moveToFirstValid {rptr : Nat} (within : rptr ≤ c.wptr) :
    rptr ≤ c.moveToFirstValid rptr := by
  unfold moveToFirstValid
  split
  · omega
  · split <;> omega

theorem retained_before_first {rptr p : Nat} (below : p < c.moveToFirstValid rptr)
    (above : rptr ≤ p) : c.retained p = none := by
  unfold moveToFirstValid at below
  unfold retained
  rw [if_neg]
  split at below
  · omega
  · split at below <;> omega

theorem getRingEntry_from {rptr p : Nat} (above : c.moveToFirstValid rptr ≤ p)
    (below : p < c.wptr) : c.getRingEntry p = c.retained p := by
  have window := c.moveToFirstValid_window rptr
  rw [retained, if_pos]
  omega

theorem mem_positions {rptr p : Nat} :
    p ∈ c.positions rptr ↔ c.moveToFirstValid rptr ≤ p ∧ p < c.wptr := by
  have bound := c.moveToFirstValid_le rptr
  rw [positions, List.mem_range'_1]
  omega

theorem getRingEntry_positions {rptr p : Nat} (inside : p ∈ c.positions rptr) :
    c.getRingEntry p = c.retained p := by
  obtain ⟨above, below⟩ := c.mem_positions.mp inside
  exact c.getRingEntry_from above below

theorem retained_window {p : Nat} {hdr : Hdr} (held : c.retained p = some hdr) :
    p < c.wptr ∧ c.wptr ≤ p + c.maxCount := by
  by_contra outside
  rw [retained, if_neg outside] at held
  cases held

end Ring

/-- The ring against the history of commits: `history` has the record of every position,
and the first `lost` of them went with an earlier driver. -/
structure Traces (c : Ring Hdr) (history : List Hdr) (lost : Nat) : Prop where
  length : history.length = c.wptr
  lost_le : lost ≤ c.wptr
  window : ∀ p, p < c.wptr → c.wptr ≤ p + c.maxCount →
    c.getRingEntry p = if lost ≤ p then history[p]? else none

namespace Traces

variable {c : Ring Hdr} {history : List Hdr} {lost : Nat}

theorem retained_eq (traces : Traces c history lost) (p : Nat) :
    c.retained p =
      if p < c.wptr ∧ c.wptr ≤ p + c.maxCount ∧ lost ≤ p then history[p]? else none := by
  unfold Ring.retained
  by_cases inside : p < c.wptr ∧ c.wptr ≤ p + c.maxCount
  · rw [if_pos inside, traces.window p inside.1 inside.2]
    by_cases kept : lost ≤ p
    · rw [if_pos kept, if_pos ⟨inside.1, inside.2, kept⟩]
    · rw [if_neg kept, if_neg fun all => kept all.2.2]
  · rw [if_neg inside, if_neg fun all => inside ⟨all.1, all.2.1⟩]

theorem retained_history (traces : Traces c history lost) {p : Nat} {hdr : Hdr}
    (held : c.retained p = some hdr) : history[p]? = some hdr := by
  rw [traces.retained_eq] at held
  by_cases inside : p < c.wptr ∧ c.wptr ≤ p + c.maxCount ∧ lost ≤ p
  · rwa [if_pos inside] at held
  · rw [if_neg inside] at held
    cases held

theorem retained_upward (traces : Traces c history lost) {p q : Nat} {hdr : Hdr}
    (held : c.retained p = some hdr) (above : p ≤ q) (below : q < c.wptr) :
    ∃ later, c.retained q = some later := by
  have window := c.retained_window held
  have kept : lost ≤ p := by
    by_contra gone
    rw [traces.retained_eq, if_neg fun all => gone all.2.2] at held
    cases held
  rw [traces.retained_eq, if_pos (by omega)]
  exact ⟨_, List.getElem?_eq_getElem (by rw [traces.length]; exact below)⟩

theorem swInit {maxCperCount : Int} (started : Cper.swInit maxCperCount = some c) :
    Traces c [] 0 := by
  unfold Cper.swInit at started
  split at started
  · cases started
  · cases started
    refine ⟨rfl, Nat.le_refl _, ?_⟩
    intro p below
    cases below

theorem commitEntry (traces : Traces c history lost) (hdr : Hdr)
    (room : c.wptr + 1 < 2 ^ 64) :
    Traces (c.commitEntry hdr) (history ++ [hdr]) lost := by
  have next : (c.commitEntry hdr).wptr = c.wptr + 1 := Nat.mod_eq_of_lt room
  have older := traces.lost_le
  refine ⟨?_, ?_, ?_⟩
  · rw [next, List.length_append, traces.length]
    rfl
  · omega
  · intro p below window
    rw [next] at below window
    change c.wptr + 1 ≤ p + c.maxCount at window
    show Function.update c.ring (c.wptr % c.maxCount) (some hdr) (p % c.maxCount) = _
    rcases Nat.eq_or_lt_of_le (Nat.le_of_lt_succ below) with rfl | earlier
    · rw [Function.update_self, if_pos older, List.getElem?_append_right (Nat.le_of_eq traces.length),
        traces.length, Nat.sub_self]
      rfl
    · have apart : p % c.maxCount ≠ c.wptr % c.maxCount := by
        intro same
        have multiple := Nat.dvd_of_mod_eq_zero (Nat.sub_mod_eq_zero_of_mod_eq same.symm)
        have large := Nat.le_of_dvd (by omega) multiple
        omega
      have inHistory : p < history.length := by
        rw [traces.length]
        exact earlier
      rw [Function.update_of_ne apart, List.getElem?_append_left inHistory]
      exact traces.window p earlier (by omega)

theorem retained_before_commit (traces : Traces c history lost) (hdr : Hdr)
    (room : c.wptr + 1 < 2 ^ 64) {p : Nat} {record : Hdr} (older : p < c.wptr)
    (held : (c.commitEntry hdr).retained p = some record) : c.retained p = some record := by
  have later := traces.commitEntry hdr room
  have next : (c.commitEntry hdr).wptr = c.wptr + 1 := Nat.mod_eq_of_lt room
  have now := later.retained_history held
  rw [List.getElem?_append_left (by rw [traces.length]; exact older)] at now
  rw [later.retained_eq] at held
  by_cases inside : p < (c.commitEntry hdr).wptr ∧
      (c.commitEntry hdr).wptr ≤ p + (c.commitEntry hdr).maxCount ∧ lost ≤ p
  · obtain ⟨-, window, kept⟩ := inside
    rw [next] at window
    change c.wptr + 1 ≤ p + c.maxCount at window
    rw [traces.retained_eq, if_pos ⟨older, by omega, kept⟩]
    exact now
  · rw [if_neg inside] at held
    cases held

theorem liveUpdate (traces : Traces c history lost) {maxCperCount : Int} {after : Ring Hdr}
    (updated : c.liveUpdate maxCperCount = some after) :
    Traces after history c.wptr ∧ after.wptr = c.wptr ∧ after.maxCount = c.maxCount := by
  unfold Ring.liveUpdate Cper.swInit at updated
  split at updated
  · cases updated
  · cases updated
    refine ⟨⟨traces.length, Nat.le_refl _, ?_⟩, rfl, clampCount_maxCount c⟩
    intro p below _
    exact (if_neg (Nat.not_le.mpr below)).symm

end Traces

end Cper
