import MxGpu.CperRing
import MxGpu.Transition

/- How the host reads the records: `amdgv_cper_get_count` and `amdgv_cper_get_entries`,
and the sequence of calls with which a caller goes through the ring. -/
namespace Cper

open List

variable {Hdr : Type} (recordLength : Hdr → BitVec 32)

/-- A record copied to the caller's buffer; `position` is its place in the ring's history. -/
structure Copy (Hdr : Type) where
  position : Nat
  offset : Nat
  hdr : Hdr

/-- What `amdgv_cper_get_entries` returns. -/
structure Entries (Hdr : Type) where
  copies : List (Copy Hdr)
  writeCount : Nat
  overflowCount : Nat
  leftSize : Nat

/-- What `amdgv_cper_get_count` returns. -/
structure Count where
  wptr : Nat
  availCount : Nat
  size : Nat

namespace Ring

variable (c : Ring Hdr)

def sizeOf : List Nat → Nat
  | [] => 0
  | i :: rest =>
    match c.getRingEntry i with
    | none => sizeOf rest
    | some hdr => (recordLength hdr).toNat + sizeOf rest

def getCount (rptr : Nat) : Count :=
  let rptr := if rptr > c.wptr then c.wptr else rptr
  { wptr := c.wptr
    availCount := c.wptr - c.moveToFirstValid rptr
    size := c.sizeOf recordLength (c.positions rptr) }

/-- The loop that fills the caller's buffer, and the positions it leaves. The offset is a
32-bit number, the size of the buffer is not. -/
def fillBuffer (bufSize : Nat) : List Nat → Nat → List (Copy Hdr) × List Nat
  | [], _ => ([], [])
  | i :: rest, offset =>
    match c.getRingEntry i with
    | none => fillBuffer bufSize rest offset
    | some hdr =>
      if (offset + (recordLength hdr).toNat) % 2 ^ 32 > bufSize then ([], i :: rest)
      else
        let filled := fillBuffer bufSize rest ((offset + (recordLength hdr).toNat) % 2 ^ 32)
        ({ position := i, offset, hdr } :: filled.1, filled.2)

def getEntries (rptr bufSize : Nat) : Entries Hdr :=
  let rptr := if rptr > c.wptr then c.wptr else rptr
  let filled := c.fillBuffer recordLength bufSize (c.positions rptr) 0
  { copies := filled.1
    writeCount := filled.1.length
    overflowCount := c.moveToFirstValid rptr - rptr
    leftSize := c.sizeOf recordLength filled.2 }

end Ring

def written (copies : List (Copy Hdr)) : Nat :=
  (copies.map fun copy => (recordLength copy.hdr).toNat).sum

def Packed : Nat → List (Copy Hdr) → Prop
  | _, [] => True
  | offset, copy :: rest =>
    copy.offset = offset ∧ Packed (offset + (recordLength copy.hdr).toNat) rest

/-- What one call has to do: copy a contiguous run of retained records from the first valid
position on, within the buffer, and account for all bytes. -/
structure ReadSound (c : Ring Hdr) (rptr bufSize : Nat) : Prop where
  contiguous : (c.getEntries recordLength rptr bufSize).copies.map (fun copy => copy.position) =
    range' (c.moveToFirstValid rptr) (c.getEntries recordLength rptr bufSize).writeCount
  retained : ∀ copy ∈ (c.getEntries recordLength rptr bufSize).copies,
    c.retained copy.position = some copy.hdr
  packed : Packed recordLength 0 (c.getEntries recordLength rptr bufSize).copies
  bounded : written recordLength (c.getEntries recordLength rptr bufSize).copies ≤ bufSize
  accounted : written recordLength (c.getEntries recordLength rptr bufSize).copies +
    (c.getEntries recordLength rptr bufSize).leftSize = (c.getCount recordLength rptr).size

/-- A caller that goes through the ring, and what it has seen since it chose a cursor. The
records of all positions and the number of lost ones are kept to state what it should see. -/
structure Session (Hdr : Type) where
  ring : Ring Hdr
  history : List Hdr
  lost : Nat
  first : Nat
  cursor : Nat
  seen : List (Nat × Hdr)

inductive Action (Hdr : Type) where
  | commit (hdr : Hdr)
  | liveUpdate (maxCperCount : Int)
  | seek (rptr : Nat)
  | read (bufSize : Nat)

namespace Session

def next (s : Session Hdr) : Action Hdr → Option (Session Hdr)
  | .commit hdr => some { s with ring := s.ring.commitEntry hdr, history := s.history ++ [hdr] }
  | .liveUpdate maxCperCount =>
    (s.ring.liveUpdate maxCperCount).map fun ring => { s with ring, lost := s.ring.wptr }
  | .seek rptr => some { s with first := rptr, cursor := rptr, seen := [] }
  | .read bufSize =>
    let entries := s.ring.getEntries recordLength s.cursor bufSize
    some { s with
      cursor := s.cursor + entries.overflowCount + entries.writeCount
      seen := s.seen ++ entries.copies.map fun copy => (copy.position, copy.hdr) }

def Starts (s : Session Hdr) : Prop :=
  (∃ maxCperCount, swInit maxCperCount = some s.ring) ∧ s.history = [] ∧ s.lost = 0 ∧
    s.cursor = s.first ∧ s.seen = []

/-- Every record once, in order: what the caller has seen goes up, and what its cursor has
passed it has seen, or the ring does not retain it. -/
structure Once (s : Session Hdr) : Prop where
  ordered : s.seen.Pairwise fun earlier later => earlier.1 < later.1
  genuine : ∀ entry ∈ s.seen, s.history[entry.1]? = some entry.2
  passed : ∀ entry ∈ s.seen, s.first ≤ entry.1 ∧ entry.1 < s.cursor
  complete : ∀ p hdr, s.first ≤ p → p < s.cursor → s.ring.retained p = some hdr →
    (p, hdr) ∈ s.seen

end Session

namespace Ring

variable (c : Ring Hdr)

/-- No sum that the loop forms while it copies reaches 32 bits. -/
def NoWrap (bufSize : Nat) : List Nat → Nat → Prop
  | [], _ => True
  | i :: rest, offset =>
    match c.getRingEntry i with
    | none => NoWrap bufSize rest offset
    | some hdr =>
      offset + (recordLength hdr).toNat < 2 ^ 32 ∧
        (offset + (recordLength hdr).toNat ≤ bufSize →
          NoWrap bufSize rest (offset + (recordLength hdr).toNat))

/-- If the first record that is left fits the buffer, no empty slot comes before it. -/
def NoGap (rptr bufSize : Nat) : Prop :=
  ∀ p hdr, c.moveToFirstValid rptr ≤ p → c.retained p = some hdr →
    (∀ q, c.moveToFirstValid rptr ≤ q → q < p → c.retained q = none) →
    (recordLength hdr).toNat ≤ bufSize → p = c.moveToFirstValid rptr

theorem moveToFirstValid_clamp (rptr : Nat) :
    c.moveToFirstValid (if rptr > c.wptr then c.wptr else rptr) = c.moveToFirstValid rptr := by
  unfold moveToFirstValid
  split <;> simp_all

theorem positions_clamp (rptr : Nat) :
    c.positions (if rptr > c.wptr then c.wptr else rptr) = c.positions rptr := by
  unfold positions
  rw [moveToFirstValid_clamp]

section Fill

variable (bufSize : Nat)

theorem fillBuffer_copies (positions : List Nat) (offset : Nat) :
    ∀ copy ∈ (c.fillBuffer recordLength bufSize positions offset).1,
      c.getRingEntry copy.position = some copy.hdr ∧ copy.position ∈ positions := by
  induction positions generalizing offset with
  | nil => simp [fillBuffer]
  | cons i rest ih =>
    intro copy member
    unfold fillBuffer at member
    split at member
    · obtain ⟨held, inside⟩ := ih _ copy member
      exact ⟨held, mem_cons_of_mem _ inside⟩
    · rename_i hdr here
      split at member
      · cases member
      · rcases mem_cons.mp member with rfl | later
        · exact ⟨here, mem_cons_self⟩
        · obtain ⟨held, inside⟩ := ih _ copy later
          exact ⟨held, mem_cons_of_mem _ inside⟩

theorem fillBuffer_accounted (positions : List Nat) (offset : Nat) :
    written recordLength (c.fillBuffer recordLength bufSize positions offset).1 +
        c.sizeOf recordLength (c.fillBuffer recordLength bufSize positions offset).2 =
      c.sizeOf recordLength positions := by
  induction positions generalizing offset with
  | nil => rfl
  | cons i rest ih =>
    unfold fillBuffer
    split
    · rename_i empty
      rw [ih, sizeOf, empty]
    · rename_i hdr here
      split
      · exact Nat.zero_add _
      · have later := ih ((offset + (recordLength hdr).toNat) % 2 ^ 32)
        rw [sizeOf, here]
        simp only [written, map_cons, sum_cons] at later ⊢
        omega

theorem fillBuffer_packed (positions : List Nat) (offset : Nat)
    (noWrap : c.NoWrap recordLength bufSize positions offset) :
    Packed recordLength offset (c.fillBuffer recordLength bufSize positions offset).1 ∧
      (offset ≤ bufSize →
        offset + written recordLength (c.fillBuffer recordLength bufSize positions offset).1 ≤
          bufSize) := by
  induction positions generalizing offset with
  | nil => exact ⟨trivial, id⟩
  | cons i rest ih =>
    unfold NoWrap at noWrap
    unfold fillBuffer
    split
    · rename_i empty
      rw [empty] at noWrap
      exact ih _ noWrap
    · rename_i hdr here
      rw [here] at noWrap
      obtain ⟨small, further⟩ := noWrap
      rw [Nat.mod_eq_of_lt small]
      split
      · exact ⟨trivial, id⟩
      · rename_i fits
        obtain ⟨packed, bounded⟩ := ih _ (further (by omega))
        refine ⟨⟨rfl, packed⟩, ?_⟩
        intro _
        have within := bounded (by omega)
        simp only [written, map_cons, sum_cons] at within ⊢
        omega

theorem fillBuffer_contiguous (positions : List Nat) (offset : Nat)
    (full : ∀ i ∈ positions, ∃ hdr, c.getRingEntry i = some hdr) :
    (c.fillBuffer recordLength bufSize positions offset).1.map (fun copy => copy.position) =
      positions.take (c.fillBuffer recordLength bufSize positions offset).1.length := by
  induction positions generalizing offset with
  | nil => rfl
  | cons i rest ih =>
    obtain ⟨hdr, here⟩ := full i mem_cons_self
    have later := ih ((offset + (recordLength hdr).toNat) % 2 ^ 32)
      fun j inside => full j (mem_cons_of_mem _ inside)
    unfold fillBuffer
    rw [here]
    simp only
    split
    · rfl
    · rw [map_cons, length_cons, take_succ_cons, later]

theorem fillBuffer_none (positions : List Nat) (sorted : positions.Pairwise (· < ·))
    (tooLarge : ∀ p hdr, p ∈ positions → c.getRingEntry p = some hdr →
      (∀ q ∈ positions, q < p → c.getRingEntry q = none) →
      bufSize < (recordLength hdr).toNat) :
    (c.fillBuffer recordLength bufSize positions 0).1 = [] := by
  induction positions with
  | nil => rfl
  | cons i rest ih =>
    obtain ⟨below, sortedRest⟩ := pairwise_cons.mp sorted
    unfold fillBuffer
    split
    · rename_i empty
      apply ih sortedRest
      intro p hdr inside held earlier
      apply tooLarge p hdr (mem_cons_of_mem _ inside) held
      intro q member less
      rcases mem_cons.mp member with rfl | inRest
      · exact empty
      · exact earlier q inRest less
    · rename_i hdr here
      have large := tooLarge i hdr mem_cons_self here fun q member less => by
        rcases mem_cons.mp member with rfl | inRest
        · exact absurd less (Nat.lt_irrefl _)
        · exact absurd (below q inRest) (Nat.not_lt.mpr less.le)
      rw [Nat.zero_add, Nat.mod_eq_of_lt (recordLength hdr).isLt, if_pos large]

end Fill

theorem getEntries_sound {history : List Hdr} {lost : Nat} (traces : Traces c history lost)
    (rptr bufSize : Nat) (noGap : c.NoGap recordLength rptr bufSize)
    (noWrap : c.NoWrap recordLength bufSize (c.positions rptr) 0) :
    ReadSound recordLength c rptr bufSize := by
  have copies := c.fillBuffer_copies recordLength bufSize (c.positions rptr) 0
  obtain ⟨packed, bounded⟩ := c.fillBuffer_packed recordLength bufSize _ 0 noWrap
  have sorted : (c.positions rptr).Pairwise (· < ·) := pairwise_lt_range'
  have counted : (c.fillBuffer recordLength bufSize (c.positions rptr) 0).1.map
        (fun copy => copy.position) =
      (c.positions rptr).take (c.fillBuffer recordLength bufSize (c.positions rptr) 0).1.length := by
    cases held : c.retained (c.moveToFirstValid rptr) with
    | some hdr =>
      -- Behind a retained record there is no empty slot.
      apply c.fillBuffer_contiguous
      intro i inside
      rw [c.getRingEntry_positions inside]
      obtain ⟨above, below⟩ := c.mem_positions.mp inside
      exact traces.retained_upward held above below
    | none =>
      rw [c.fillBuffer_none recordLength bufSize _ sorted]
      · rfl
      · intro p hdr inside here earlier
        rw [c.getRingEntry_positions inside] at here
        obtain ⟨above, below⟩ := c.mem_positions.mp inside
        by_contra fits
        have same := noGap p hdr above here
          (fun q low less => by
            have member : q ∈ c.positions rptr := c.mem_positions.mpr ⟨low, less.trans below⟩
            rw [← c.getRingEntry_positions member]
            exact earlier q member less)
          (Nat.not_lt.mp fits)
        rw [same, held] at here
        cases here
  have few : (c.fillBuffer recordLength bufSize (c.positions rptr) 0).1.length ≤
      c.wptr - c.moveToFirstValid rptr := by
    have lengths := congrArg length counted
    rw [length_map, length_take, positions, length_range'] at lengths
    rw [positions]
    omega
  constructor
  · simp only [getEntries, positions_clamp]
    rw [counted]
    exact take_range'_of_length_ge few
  · intro copy member
    simp only [getEntries, positions_clamp] at member
    obtain ⟨held, inside⟩ := copies copy member
    rw [← c.getRingEntry_positions inside]
    exact held
  · simp only [getEntries, positions_clamp]
    exact packed
  · simp only [getEntries, positions_clamp]
    have within := bounded (Nat.zero_le _)
    omega
  · simp only [getEntries, getCount, positions_clamp]
    exact c.fillBuffer_accounted recordLength bufSize _ 0

end Ring

namespace Session

variable {recordLength} {s after : Session Hdr}

/-- What a step needs: the write pointer does not wrap, and a read meets no gap and does
not wrap its offset. -/
def Meets (recordLength : Hdr → BitVec 32) (s : Session Hdr) : Action Hdr → Prop
  | .commit _ => s.ring.wptr + 1 < 2 ^ 64
  | .liveUpdate _ => True
  | .seek _ => True
  | .read bufSize =>
    s.ring.NoGap recordLength s.cursor bufSize ∧
      s.ring.NoWrap recordLength bufSize (s.ring.positions s.cursor) 0

structure Keeps (s : Session Hdr) : Prop where
  traces : Traces s.ring s.history s.lost
  once : s.Once
  within : s.first ≤ s.cursor
  behind : s.cursor ≤ s.ring.wptr ∨ s.cursor = s.first

theorem Keeps.start (starts : s.Starts) : s.Keeps := by
  obtain ⟨⟨maxCperCount, started⟩, history, lost, cursor, seen⟩ := starts
  have traces : Traces s.ring s.history s.lost := by
    rw [history, lost]
    exact Traces.swInit started
  refine ⟨traces, ⟨?_, ?_, ?_, ?_⟩, ?_, Or.inr cursor⟩
  · rw [seen]
    exact .nil
  · simp [seen]
  · simp [seen]
  · intro p hdr above below
    omega
  · omega

theorem Keeps.commit (keeps : s.Keeps) (hdr : Hdr) (room : s.ring.wptr + 1 < 2 ^ 64) :
    Keeps { s with ring := s.ring.commitEntry hdr, history := s.history ++ [hdr] } := by
  have traces := keeps.traces.commitEntry hdr room
  have next : (s.ring.commitEntry hdr).wptr = s.ring.wptr + 1 := Nat.mod_eq_of_lt room
  have behind := keeps.behind
  have recorded {p : Nat} {record : Hdr} (known : s.history[p]? = some record) :
      (s.history ++ [hdr])[p]? = some record := by
    rw [getElem?_append_left (List.getElem?_eq_some_iff.mp known).1]
    exact known
  refine ⟨traces, ⟨keeps.once.ordered, ?_, keeps.once.passed, ?_⟩, keeps.within, ?_⟩
  · intro entry member
    exact recorded (keeps.once.genuine entry member)
  · intro p record above below held
    apply keeps.once.complete p record above below
    have older : p < s.ring.wptr := by
      simp only at above below
      omega
    exact keeps.traces.retained_before_commit hdr room older held
  · simp only
    omega

theorem Keeps.liveUpdate (keeps : s.Keeps) {maxCperCount : Int} {ring : Ring Hdr}
    (updated : s.ring.liveUpdate maxCperCount = some ring) :
    Keeps { s with ring, lost := s.ring.wptr } := by
  obtain ⟨traces, wptr, -⟩ := keeps.traces.liveUpdate updated
  have behind := keeps.behind
  refine ⟨traces, ⟨keeps.once.ordered, keeps.once.genuine, keeps.once.passed, ?_⟩,
    keeps.within, ?_⟩
  · -- The new ring retains nothing yet.
    intro p record _ _ held
    have window := ring.retained_window held
    rw [traces.retained_eq, if_neg (by omega)] at held
    cases held
  · simp only
    omega

theorem overflowCount_within {cursor bufSize : Nat} (within : cursor ≤ s.ring.wptr) :
    cursor + (s.ring.getEntries recordLength cursor bufSize).overflowCount =
      s.ring.moveToFirstValid cursor := by
  have above := s.ring.le_moveToFirstValid within
  simp only [Ring.getEntries, if_neg (Nat.not_lt.mpr within)]
  omega

theorem getEntries_beyond {cursor bufSize : Nat} (beyond : s.ring.wptr < cursor) :
    (s.ring.getEntries recordLength cursor bufSize).copies = [] ∧
      (s.ring.getEntries recordLength cursor bufSize).overflowCount = 0 ∧
      (s.ring.getEntries recordLength cursor bufSize).writeCount = 0 := by
  have first : s.ring.moveToFirstValid s.ring.wptr = s.ring.wptr := by
    simp [Ring.moveToFirstValid]
  simp [Ring.getEntries, if_pos beyond, Ring.positions, first, Ring.fillBuffer]

theorem copied_at {cursor bufSize p : Nat}
    (sound : ReadSound recordLength s.ring cursor bufSize)
    (above : s.ring.moveToFirstValid cursor ≤ p)
    (below : p < s.ring.moveToFirstValid cursor +
      (s.ring.getEntries recordLength cursor bufSize).writeCount) :
    ∃ hdr, s.ring.retained p = some hdr ∧
      (p, hdr) ∈ (s.ring.getEntries recordLength cursor bufSize).copies.map
        fun copy => (copy.position, copy.hdr) := by
  have inRange : p ∈ (s.ring.getEntries recordLength cursor bufSize).copies.map
      fun copy => copy.position := by
    rw [sound.contiguous, mem_range'_1]
    exact ⟨above, below⟩
  obtain ⟨copy, member, rfl⟩ := mem_map.mp inRange
  exact ⟨copy.hdr, sound.retained copy member, mem_map.mpr ⟨copy, member, rfl⟩⟩

theorem Keeps.read (keeps : s.Keeps) (bufSize : Nat)
    (sound : ReadSound recordLength s.ring s.cursor bufSize)
    (fired : s.next recordLength (.read bufSize) = some after) : after.Keeps := by
  cases fired
  have start := keeps.within
  rcases Nat.lt_or_ge s.ring.wptr s.cursor with beyond | within
  · obtain ⟨copies, overflow, write⟩ := @getEntries_beyond _ recordLength s s.cursor bufSize beyond
    simp only [copies, overflow, write, map_nil, append_nil, Nat.add_zero]
    exact keeps
  · have first := @overflowCount_within _ recordLength s s.cursor bufSize within
    have above := s.ring.le_moveToFirstValid within
    have fresh : ∀ entry ∈ (s.ring.getEntries recordLength s.cursor bufSize).copies.map
          (fun copy => (copy.position, copy.hdr)),
        s.ring.moveToFirstValid s.cursor ≤ entry.1 ∧
          entry.1 < s.ring.moveToFirstValid s.cursor +
            (s.ring.getEntries recordLength s.cursor bufSize).writeCount ∧
          s.ring.retained entry.1 = some entry.2 := by
      intro entry member
      obtain ⟨copy, inCopies, rfl⟩ := mem_map.mp member
      have inRange : copy.position ∈ (s.ring.getEntries recordLength s.cursor bufSize).copies.map
          fun copy => copy.position := mem_map.mpr ⟨copy, inCopies, rfl⟩
      rw [sound.contiguous, mem_range'_1] at inRange
      exact ⟨inRange.1, inRange.2, sound.retained copy inCopies⟩
    have increasing : ((s.ring.getEntries recordLength s.cursor bufSize).copies.map
        fun copy => (copy.position, copy.hdr)).Pairwise
          fun earlier later => earlier.1 < later.1 := by
      have places : ((s.ring.getEntries recordLength s.cursor bufSize).copies.map
          fun copy => copy.position).Pairwise (· < ·) := by
        rw [sound.contiguous]
        exact pairwise_lt_range'
      rw [pairwise_map] at places ⊢
      exact places
    rw [first]
    refine ⟨keeps.traces, ⟨?_, ?_, ?_, ?_⟩, ?_, Or.inl ?_⟩
    · apply pairwise_append.mpr
      refine ⟨keeps.once.ordered, increasing, ?_⟩
      intro earlier before later new
      have passed := (keeps.once.passed earlier before).2
      have from_ := (fresh later new).1
      omega
    · intro entry member
      rcases mem_append.mp member with before | new
      · exact keeps.once.genuine entry before
      · exact keeps.traces.retained_history (fresh entry new).2.2
    · intro entry member
      simp only at member ⊢
      rcases mem_append.mp member with before | new
      · have passed := keeps.once.passed entry before
        omega
      · have place := fresh entry new
        omega
    · intro p hdr low high held
      simp only at low high held ⊢
      apply mem_append.mpr
      rcases Nat.lt_or_ge p s.cursor with old | new
      · exact Or.inl (keeps.once.complete p hdr low old held)
      · right
        have valid : s.ring.moveToFirstValid s.cursor ≤ p := by
          by_contra lower
          rw [s.ring.retained_before_first (Nat.not_le.mp lower) new] at held
          cases held
        obtain ⟨record, same, member⟩ := copied_at sound valid high
        rw [held] at same
        cases same
        exact member
    · simp only
      omega
    · simp only
      by_contra past
      have bound := s.ring.moveToFirstValid_le s.cursor
      obtain ⟨record, held, -⟩ := copied_at sound bound (by omega)
      have window := s.ring.retained_window held
      omega

end Session

def Step (s : Session Hdr) (action : Action Hdr) (after : Session Hdr) : Prop :=
  s.next recordLength action = some after

/-- In every run whose reads meet no gap and wrap no offset a caller sees each record that
the ring retains exactly once, and every further read does what it has to. -/
theorem entries_once {s : Session Hdr}
    (run : Transition.Run Session.Starts (Step recordLength) (Session.Meets recordLength) s) :
    s.Once ∧ ∀ rptr bufSize, s.ring.NoGap recordLength rptr bufSize →
      s.ring.NoWrap recordLength bufSize (s.ring.positions rptr) 0 →
      ReadSound recordLength s.ring rptr bufSize := by
  have keeps : s.Keeps := by
    apply run.invariant Session.Keeps
    · exact fun _ starts => Session.Keeps.start starts
    · intro before action after keeps meets fired
      cases action with
      | commit hdr =>
        cases fired
        exact keeps.commit hdr meets
      | liveUpdate maxCperCount =>
        obtain ⟨ring, updated, rfl⟩ := Option.map_eq_some_iff.mp fired
        exact keeps.liveUpdate updated
      | seek rptr =>
        cases fired
        refine ⟨keeps.traces, ⟨.nil, by simp, by simp, ?_⟩, Nat.le_refl _, Or.inr rfl⟩
        intro p hdr low high
        simp only at low high
        omega
      | read bufSize =>
        exact keeps.read bufSize
          (before.ring.getEntries_sound recordLength keeps.traces _ _ meets.1 meets.2) fired
  exact ⟨keeps.once, fun rptr bufSize noGap noWrap =>
    s.ring.getEntries_sound recordLength keeps.traces rptr bufSize noGap noWrap⟩

section Example

def fourSlots : Session (BitVec 32) where
  ring :=
    { maxCount := 4
      maxCount_pos := by decide
      maxCount_le := by decide
      wptr := 0
      ring := fun _ => none }
  history := []
  lost := 0
  first := 0
  cursor := 0
  seen := []

theorem fourSlots_starts : fourSlots.Starts := ⟨⟨4, rfl⟩, rfl, rfl, rfl, rfl⟩

theorem noGap_of_full {c : Ring (BitVec 32)} {rptr bufSize : Nat}
    (full : ∀ q < c.wptr, c.moveToFirstValid rptr ≤ q → c.retained q ≠ none) :
    c.NoGap id rptr bufSize := by
  intro p hdr low held gap _
  by_contra other
  have first : c.moveToFirstValid rptr < p := Nat.lt_of_le_of_ne low (Ne.symm other)
  exact full _ (Nat.lt_trans first (c.retained_window held).1) (Nat.le_refl _)
    (gap _ (Nat.le_refl _) first)

/-- One record is read, and then the two that came after it. -/
theorem entries_once_three : ∃ s : Session (BitVec 32),
    s.seen = [(0, 20), (1, 24), (2, 28)] ∧ s.Once ∧ ReadSound id s.ring 1 100 := by
  have start : Transition.Run Session.Starts (Step id) (Session.Meets id) fourSlots :=
    .start fourSlots_starts
  have room : ∀ (s : Session (BitVec 32)) hdr, s.ring.wptr < 4 → s.Meets id (.commit hdr) :=
    fun s _ low => Nat.lt_trans (Nat.succ_lt_succ low) (by decide)
  have first := Transition.Run.next (Action.commit 20) start (room _ _ (by decide)) rfl
  have read := Transition.Run.next (Action.read 100) first
    ⟨noGap_of_full (by decide), by decide, fun _ => trivial⟩ rfl
  have second := Transition.Run.next (Action.commit 24) read (room _ _ (by decide)) rfl
  have third := Transition.Run.next (Action.commit 28) second (room _ _ (by decide)) rfl
  have last := Transition.Run.next (Action.read 100) third
    ⟨noGap_of_full (by decide), by decide, fun _ => ⟨by decide, fun _ => trivial⟩⟩ rfl
  exact ⟨_, rfl, (entries_once id last).1, (entries_once id last).2 1 100
    (noGap_of_full (by decide)) ⟨by decide, fun _ => ⟨by decide, fun _ => trivial⟩⟩⟩

/-- A slot that a live update emptied is skipped and not counted, so the next read starts
at the record that was just read. -/
theorem entries_twice : ¬ ∀ s : Session (BitVec 32),
    Transition.Run Session.Starts (Step id) Transition.always s → s.Once := by
  intro once
  have first : Transition.Run Session.Starts
      (fun before label after => Session.next id before label = some after)
      Transition.always fourSlots := .start fourSlots_starts
  have ends : ∃ s, [Action.commit 10, .liveUpdate 4, .commit 20, .read 100, .read 100].foldlM
      (Session.next id) fourSlots = some s ∧ s.seen = [(1, 20), (1, 20)] := ⟨_, rfl, rfl⟩
  obtain ⟨s, follows, seen⟩ := ends
  have ordered := (once s (first.follow _ follows)).ordered
  rw [seen] at ordered
  have less := (pairwise_cons.mp ordered).1 (1, 20) (by simp)
  exact absurd less (Nat.lt_irrefl _)

end Example

end Cper
