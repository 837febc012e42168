import MxGpu.CperGuest

/- A guest that goes through the records by repeating its request, while the driver goes on. -/
namespace Cper

/-- The driver and one VF with its guest. `loaded` is the position at which the guest was
loaded; since it chose a cursor, `received` is what it was shown and `hidden` the positions
that it passed while its filter allowed nothing of their records. -/
structure Guest where
  ring : Ring Hdr
  history : List Hdr
  lost : Nat
  vf : VfCper
  loaded : Nat
  first : Nat
  cursor : Nat
  received : List (Nat × Hdr)
  hidden : List Nat

inductive GuestAction where
  | commit (hdr : Hdr)
  | liveUpdate (maxCperCount : Int)
  | guestLoad
  | seek (vfRptr : Nat)
  | dump (allowed : Hdr → Nat → Bool) (failsAfter : Option Nat)

def cperRptrInit (c : Ring Hdr) (vf : VfCper) : VfCper :=
  { vf with startRptr := c.wptr, prevHostWptr := 0 }

def VfCper.liveUpdate (vf : VfCper) : VfCper :=
  { vf with startRptr := vf.startRptr % 2 ^ 32, prevHostWptr := vf.prevHostWptr % 2 ^ 32 }

def hiddenBetween (c : Ring Hdr) (allowed : Hdr → Nat → Bool) (a b : Nat) : List Nat :=
  (List.range' a (b - a)).filter fun p =>
    (c.retained p).all fun record => (allowedSections allowed record).isEmpty

section Shown

variable (c : Ring Hdr) (vf : VfCper) (request : Request)

theorem shown_between (start : vf.startRptr ≤ c.wptr) (room : c.wptr < 2 ^ 64) :
    (∀ entry ∈ shown (dumpCpers c vf request).writes,
      c.moveToFirstValid (vf.startRptr + request.vfRptr) ≤ entry.1 ∧
        entry.1 < vf.startRptr + (dumpCpers c vf request).dump.wptr ∧
        c.retained entry.1 = some entry.2) ∧
      (shown (dumpCpers c vf request).writes).Pairwise
        fun earlier later => earlier.1 < later.1 := by
  have bound := c.moveToFirstValid_le (vf.startRptr + request.vfRptr)
  obtain ⟨k, few, -, -, ends, visited⟩ := copied_spec c vf request start
  rw [dump_wptr c vf request start room, ends, (shown_copied c vf request start).2, visited]
  constructor
  · intro entry member
    have inVisited := List.mem_of_mem_filter member
    obtain ⟨p, inside, found⟩ := List.mem_filterMap.mp inVisited
    obtain ⟨record, held, rfl⟩ := Option.map_eq_some_iff.mp found
    rw [List.mem_range'_1] at inside
    rw [c.getRingEntry_from inside.1 (by omega)] at held
    exact ⟨inside.1, inside.2, held⟩
  · apply List.Pairwise.filter
    rw [List.pairwise_filterMap]
    have upward : (List.range' (c.moveToFirstValid (vf.startRptr + request.vfRptr)) k).Pairwise
        (· < ·) := List.pairwise_lt_range'
    apply upward.imp
    intro p q less first here second there
    obtain ⟨_, -, rfl⟩ := Option.map_eq_some_iff.mp here
    obtain ⟨_, -, rfl⟩ := Option.map_eq_some_iff.mp there
    exact less

theorem shown_passed (start : vf.startRptr ≤ c.wptr) (room : c.wptr < 2 ^ 64) {p : Nat}
    {record : Hdr} (above : vf.startRptr + request.vfRptr ≤ p)
    (below : p < vf.startRptr + (dumpCpers c vf request).dump.wptr)
    (held : c.retained p = some record) :
    (p, record) ∈ shown (dumpCpers c vf request).writes ∨
      p ∈ hiddenBetween c request.allowed (vf.startRptr + request.vfRptr)
        (vf.startRptr + (dumpCpers c vf request).dump.wptr) := by
  by_cases none : allowedSections request.allowed record = []
  · right
    apply List.mem_filter.mpr
    constructor
    · rw [List.mem_range'_1]
      omega
    · simp [held, none]
  · left
    obtain ⟨k, -, -, -, ends, visited⟩ := copied_spec c vf request start
    rw [dump_wptr c vf request start room, ends] at below
    have valid : c.moveToFirstValid (vf.startRptr + request.vfRptr) ≤ p := by
      by_contra lower
      rw [c.retained_before_first (Nat.not_le.mp lower) above] at held
      cases held
    have window := c.retained_window held
    rw [(shown_copied c vf request start).2, visited]
    apply List.mem_filter.mpr
    refine ⟨List.mem_filterMap.mpr ⟨p, List.mem_range'_1.mpr ⟨valid, below⟩, ?_⟩, by simp [none]⟩
    rw [c.getRingEntry_from valid window.1, held]
    rfl

theorem dump_wptr_bounds (start : vf.startRptr ≤ c.wptr) (room : c.wptr < 2 ^ 64) :
    vf.startRptr + (dumpCpers c vf request).dump.wptr ≤ c.wptr ∧
      (vf.startRptr + request.vfRptr ≤ c.wptr →
        request.vfRptr ≤ (dumpCpers c vf request).dump.wptr) ∧
      (c.wptr ≤ vf.startRptr + request.vfRptr →
        vf.startRptr + (dumpCpers c vf request).dump.wptr = c.wptr) := by
  have bound := c.moveToFirstValid_le (vf.startRptr + request.vfRptr)
  have next := dump_wptr c vf request start room
  obtain ⟨k, few, -, -, ends, -⟩ := copied_spec c vf request start
  refine ⟨by omega, ?_, ?_⟩
  · intro within
    have first := c.le_moveToFirstValid within
    omega
  · intro beyond
    have first : c.moveToFirstValid (vf.startRptr + request.vfRptr) = c.wptr := by
      unfold Ring.moveToFirstValid
      split
      · rfl
      · split <;> omega
    omega

end Shown

namespace Guest

def next (s : Guest) : GuestAction → Option Guest
  | .commit hdr => some { s with ring := s.ring.commitEntry hdr, history := s.history ++ [hdr] }
  | .liveUpdate maxCperCount =>
    (s.ring.liveUpdate maxCperCount).map fun ring =>
      { s with ring, lost := s.ring.wptr, vf := s.vf.liveUpdate }
  | .guestLoad =>
    some { s with
      vf := cperRptrInit s.ring s.vf
      loaded := s.ring.wptr, first := 0, cursor := 0, received := [], hidden := [] }
  | .seek vfRptr =>
    some { s with first := vfRptr, cursor := vfRptr, received := [], hidden := [] }
  | .dump allowed failsAfter =>
    let request : Request := { vfRptr := s.cursor, allowed, failsAfter }
    let dump := dumpCpers s.ring s.vf request
    if dump.succeeds request then
      some { s with
        vf := dump.vfAfter request s.vf
        first := min s.first dump.dump.wptr
        cursor := dump.dump.wptr
        received := s.received ++ shown (dump.performed request)
        hidden := s.hidden ++ hiddenBetween s.ring allowed (s.vf.startRptr + s.cursor)
          (s.vf.startRptr + dump.dump.wptr) }
    else some { s with vf := dump.vfAfter request s.vf }

def Starts (s : Guest) : Prop :=
  (∃ maxCperCount, swInit maxCperCount = some s.ring) ∧ s.history = [] ∧ s.lost = 0 ∧
    s.vf = cperRptrInit s.ring s.vf ∧ s.loaded = 0 ∧ s.first = 0 ∧ s.cursor = 0 ∧
    s.received = [] ∧ s.hidden = []

/-- The guest receives true records, none of them older than itself, in order and once, and
misses no retained record that its cursor has passed, unless the filter allowed nothing of it
then. -/
structure Once (s : Guest) : Prop where
  ordered : s.received.Pairwise fun earlier later => earlier.1 < later.1
  genuine : ∀ entry ∈ s.received, s.history[entry.1]? = some entry.2
  isolated : ∀ entry ∈ s.received, s.loaded ≤ entry.1
  complete : ∀ p record, s.vf.startRptr + s.first ≤ p → p < s.vf.startRptr + s.cursor →
    s.ring.retained p = some record → (p, record) ∈ s.received ∨ p ∈ s.hidden

def Meets (s : Guest) : GuestAction → Prop
  | .commit _ => s.ring.wptr + 1 < 2 ^ 64
  | _ => True

/-- What every step keeps. A live update may lower the start of a VF, but then everything
before the update is lost. -/
structure Keeps (s : Guest) : Prop where
  traces : Traces s.ring s.history s.lost
  once : s.Once
  room : s.ring.wptr < 2 ^ 64
  start : s.vf.startRptr ≤ s.loaded
  loaded_le : s.loaded ≤ s.ring.wptr
  lowered : s.vf.startRptr = s.loaded ∨ s.loaded ≤ s.lost
  within : s.first ≤ s.cursor
  behind : s.vf.startRptr + s.cursor ≤ s.ring.wptr ∨ s.cursor = s.first
  passed : ∀ entry ∈ s.received,
    (entry.1 < s.vf.startRptr + s.cursor ∨ entry.1 < s.lost) ∧ entry.1 < s.ring.wptr

variable {s after : Guest}

theorem Keeps.atStart (starts : s.Starts) : s.Keeps := by
  obtain ⟨⟨maxCperCount, started⟩, history, lost, vf, loaded, first, cursor, received, hidden⟩ :=
    starts
  have traces : Traces s.ring s.history s.lost := by
    rw [history, lost]
    exact Traces.swInit started
  have empty : s.ring.wptr = 0 := by
    rw [← traces.length, history]
    rfl
  have start : s.vf.startRptr = 0 := by
    rw [vf]
    exact empty
  refine ⟨traces, ⟨?_, ?_, ?_, ?_⟩, ?_, ?_, ?_, ?_, ?_, ?_, ?_⟩
  · rw [received]
    exact .nil
  · simp [received]
  · simp [received]
  · intro p record above below
    omega
  · omega
  · omega
  · omega
  · omega
  · omega
  · omega
  · simp [received]

theorem Keeps.commit (keeps : s.Keeps) (hdr : Hdr) (room : s.ring.wptr + 1 < 2 ^ 64) :
    Keeps { s with ring := s.ring.commitEntry hdr, history := s.history ++ [hdr] } := by
  have next : (s.ring.commitEntry hdr).wptr = s.ring.wptr + 1 := Nat.mod_eq_of_lt room
  have loaded := keeps.loaded_le
  have behind := keeps.behind
  refine ⟨keeps.traces.commitEntry hdr room, ⟨keeps.once.ordered, ?_, keeps.once.isolated, ?_⟩,
    ?_, keeps.start, ?_, keeps.lowered, keeps.within, ?_, ?_⟩
  · intro entry member
    have known := keeps.once.genuine entry member
    simp only
    rw [List.getElem?_append_left (List.getElem?_eq_some_iff.mp known).1]
    exact known
  · intro p record above below held
    apply keeps.once.complete p record above below
    have older : p < s.ring.wptr := by
      simp only at above below
      omega
    exact keeps.traces.retained_before_commit hdr room older held
  · simp only
    omega
  · simp only
    omega
  · simp only
    omega
  · intro entry member
    have passed := keeps.passed entry member
    simp only
    omega

theorem Keeps.liveUpdate (keeps : s.Keeps) {maxCperCount : Int} {ring : Ring Hdr}
    (updated : s.ring.liveUpdate maxCperCount = some ring) :
    Keeps { s with ring, lost := s.ring.wptr, vf := s.vf.liveUpdate } := by
  obtain ⟨traces, wptr, -⟩ := keeps.traces.liveUpdate updated
  have lower : s.vf.liveUpdate.startRptr ≤ s.vf.startRptr := Nat.mod_le _ _
  have room := keeps.room
  have start := keeps.start
  have loaded := keeps.loaded_le
  have behind := keeps.behind
  refine ⟨traces, ⟨keeps.once.ordered, keeps.once.genuine, keeps.once.isolated, ?_⟩, ?_, ?_, ?_,
    Or.inr loaded, keeps.within, ?_, ?_⟩
  · -- The new ring retains nothing yet.
    intro p record above below held
    have window := ring.retained_window held
    rw [traces.retained_eq, if_neg (by omega)] at held
    cases held
  · simp only
    omega
  · simp only
    omega
  · simp only
    omega
  · simp only
    omega
  · intro entry member
    have passed := keeps.passed entry member
    simp only
    omega

theorem Keeps.guestLoad (keeps : s.Keeps) :
    Keeps { s with
      vf := cperRptrInit s.ring s.vf
      loaded := s.ring.wptr, first := 0, cursor := 0, received := [], hidden := [] } := by
  refine ⟨keeps.traces, ⟨.nil, by simp, by simp, ?_⟩, keeps.room, Nat.le_refl _, Nat.le_refl _,
    Or.inl rfl, Nat.le_refl _, Or.inr rfl, by simp⟩
  intro p record above below
  simp only at above below
  omega

theorem Keeps.seek (keeps : s.Keeps) (vfRptr : Nat) :
    Keeps { s with first := vfRptr, cursor := vfRptr, received := [], hidden := [] } := by
  refine ⟨keeps.traces, ⟨.nil, by simp, by simp, ?_⟩, keeps.room, keeps.start, keeps.loaded_le,
    keeps.lowered, Nat.le_refl _, Or.inr rfl, by simp⟩
  intro p record above below
  simp only at above below
  omega

theorem Keeps.vfAfter (keeps : s.Keeps) (dump : Dump) (request : Request) :
    Keeps { s with vf := dump.vfAfter request s.vf } := by
  have same := Dump.vfAfter_startRptr dump request s.vf
  refine ⟨keeps.traces, ⟨keeps.once.ordered, keeps.once.genuine, keeps.once.isolated, ?_⟩,
    keeps.room, ?_, keeps.loaded_le, ?_, keeps.within, ?_, ?_⟩
  · simp only [same]
    exact keeps.once.complete
  · simp only [same]
    exact keeps.start
  · simp only [same]
    exact keeps.lowered
  · simp only [same]
    exact keeps.behind
  · simp only [same]
    exact keeps.passed

theorem Keeps.dumped (keeps : s.Keeps) (request : Request) (asked : request.vfRptr = s.cursor) :
    Keeps { s with
      first := min s.first (dumpCpers s.ring s.vf request).dump.wptr
      cursor := (dumpCpers s.ring s.vf request).dump.wptr
      received := s.received ++ shown (dumpCpers s.ring s.vf request).writes
      hidden := s.hidden ++ hiddenBetween s.ring request.allowed (s.vf.startRptr + s.cursor)
        (s.vf.startRptr + (dumpCpers s.ring s.vf request).dump.wptr) } := by
  have start := keeps.start.trans keeps.loaded_le
  obtain ⟨fresh, increasing⟩ := shown_between s.ring s.vf request start keeps.room
  obtain ⟨bound, forward, beyond⟩ := dump_wptr_bounds s.ring s.vf request start keeps.room
  rw [asked] at fresh forward beyond
  have newer : ∀ entry ∈ shown (dumpCpers s.ring s.vf request).writes,
      s.vf.startRptr + s.cursor ≤ entry.1 ∧ s.lost ≤ entry.1 := by
    intro entry member
    obtain ⟨valid, below, held⟩ := fresh entry member
    have window := s.ring.retained_window held
    constructor
    · rcases Nat.lt_or_ge s.ring.wptr (s.vf.startRptr + s.cursor) with past | inside
      · rw [Ring.moveToFirstValid, if_pos past] at valid
        omega
      · exact (s.ring.le_moveToFirstValid inside).trans valid
    · by_contra older
      rw [keeps.traces.retained_eq, if_neg fun all => older all.2.2] at held
      cases held
  refine ⟨keeps.traces, ⟨?_, ?_, ?_, ?_⟩, keeps.room, keeps.start, keeps.loaded_le,
    keeps.lowered, ?_, Or.inl bound, ?_⟩
  · apply List.pairwise_append.mpr
    refine ⟨keeps.once.ordered, increasing, ?_⟩
    intro earlier before later new
    have passed := keeps.passed earlier before
    have later := newer later new
    omega
  · intro entry member
    rcases List.mem_append.mp member with before | new
    · exact keeps.once.genuine entry before
    · exact keeps.traces.retained_history (fresh entry new).2.2
  · intro entry member
    rcases List.mem_append.mp member with before | new
    · exact keeps.once.isolated entry before
    · have from_ := newer entry new
      have lowered := keeps.lowered
      simp only
      omega
  · intro p record above below held
    simp only at above below held ⊢
    rw [List.mem_append, List.mem_append]
    rcases Nat.lt_or_ge p (s.vf.startRptr + s.cursor) with old | new
    · have low : s.vf.startRptr + s.first ≤ p := by omega
      rcases keeps.once.complete p record low old held with received | hidden
      · exact Or.inl (Or.inl received)
      · exact Or.inr (Or.inl hidden)
    · have shows := @shown_passed s.ring s.vf request start keeps.room p record
        (by rw [asked]; exact new) below held
      rw [asked] at shows
      rcases shows with shown | hidden
      · exact Or.inl (Or.inr shown)
      · exact Or.inr (Or.inr hidden)
  · exact Nat.min_le_right _ _
  · intro entry member
    rcases List.mem_append.mp member with before | new
    · have passed := keeps.passed entry before
      simp only
      omega
    · obtain ⟨-, below, held⟩ := fresh entry new
      have window := s.ring.retained_window held
      exact ⟨Or.inl below, window.1⟩

theorem Keeps.next (keeps : s.Keeps) (action : GuestAction) (meets : s.Meets action)
    (fired : s.next action = some after) : after.Keeps := by
  cases action with
  | commit hdr =>
    cases fired
    exact keeps.commit hdr meets
  | liveUpdate maxCperCount =>
    obtain ⟨ring, updated, rfl⟩ := Option.map_eq_some_iff.mp fired
    exact keeps.liveUpdate updated
  | guestLoad =>
    cases fired
    exact keeps.guestLoad
  | seek vfRptr =>
    cases fired
    exact keeps.seek vfRptr
  | dump allowed failsAfter =>
    simp only [Guest.next] at fired
    split at fired
    · rename_i succeeds
      cases fired
      rw [Dump.performed_all _ _ succeeds]
      exact (keeps.dumped { vfRptr := s.cursor, allowed, failsAfter } rfl).vfAfter _ _
    · cases fired
      exact keeps.vfAfter _ _

end Guest

def GuestStep (s : Guest) (action : GuestAction) (after : Guest) : Prop :=
  s.next action = some after

/-- In every run a guest that repeats its request receives every retained record once and in
order, and a request does all it has to exactly when the filter leaves no record of it empty. -/
theorem guest_dumps {s : Guest} (run : Transition.Run Guest.Starts GuestStep Guest.Meets s) :
    s.Once ∧ ∀ request, DumpSound s.ring s.vf request ↔ AllShow s.ring s.vf request := by
  have keeps : s.Keeps := by
    apply run.invariant Guest.Keeps
    · exact fun _ starts => Guest.Keeps.atStart starts
    · exact fun _ action _ keeps meets fired => keeps.next action meets fired
  have start := keeps.start.trans keeps.loaded_le
  exact ⟨keeps.once, fun request => dumpCpers_sound s.ring s.vf request start keeps.room⟩

section Example

def oneSection : Hdr where
  lead := List.replicate 10 0
  lead_length := rfl
  severity := List.replicate 8 0
  severity_length := rfl
  trail := List.replicate 104 0
  trail_length := rfl
  sections :=
    [{ revision := [0, 1]
       revision_length := rfl
       validMask := 3
       kind := List.replicate 21 0
       kind_length := rfl
       text := List.replicate 24 0
       text_length := rfl
       body := List.replicate 8 7 }]
  recordLength := 208
  recordLength_eq := rfl
  recordLength_le := by decide

theorem fourSlots_pos : 0 < 4 := by decide

theorem fourSlots_le : 4 ≤ maxAllowedCount := by decide

def fourSlotGuest : Guest where
  ring :=
    { maxCount := 4
      maxCount_pos := fourSlots_pos
      maxCount_le := fourSlots_le
      wptr := 0
      ring := fun _ => none }
  history := []
  lost := 0
  vf := { startRptr := 0, prevHostWptr := 0, tableOffset := 0 }
  loaded := 0
  first := 0
  cursor := 0
  received := []
  hidden := []

theorem fourSlotGuest_starts : fourSlotGuest.Starts :=
  ⟨⟨4, rfl⟩, rfl, rfl, rfl, rfl, rfl, rfl, rfl, rfl⟩

def oneCommit : Guest :=
  { fourSlotGuest with ring := fourSlotGuest.ring.commitEntry oneSection, history := [oneSection] }

def otherSection : Hdr := { oneSection with trail := List.replicate 104 1 }

/-- A guest that may see all sections receives the first record in a dump, none in one that fails,
and then the other two. -/
theorem guest_dumps_three : ∃ s : Guest,
    s.received = [(0, oneSection), (1, otherSection), (2, oneSection)] ∧ s.Once ∧
      DumpSound s.ring s.vf { vfRptr := 1, allowed := fun _ _ => true, failsAfter := none } := by
  have first : Transition.Run Guest.Starts GuestStep Guest.Meets fourSlotGuest :=
    .start fourSlotGuest_starts
  have room : ∀ s : Guest, s.ring.wptr < 4 → s.Meets (.commit oneSection) ∧
      s.Meets (.commit otherSection) := fun s low => by
    simp only [Guest.Meets, and_self]
    omega
  have second : Transition.Run Guest.Starts GuestStep Guest.Meets oneCommit :=
    .next (GuestAction.commit oneSection) first (room _ (by decide)).1 rfl
  have third := Transition.Run.next (GuestAction.dump (fun _ _ => true) none) second trivial rfl
  have fourth := Transition.Run.next (GuestAction.commit otherSection) third
    (room _ (by decide)).2 rfl
  have fifth := Transition.Run.next (GuestAction.dump (fun _ _ => true) (some 1)) fourth trivial rfl
  have sixth := Transition.Run.next (GuestAction.commit oneSection) fifth (room _ (by decide)).1 rfl
  have last := Transition.Run.next (GuestAction.dump (fun _ _ => true) none) sixth trivial rfl
  refine ⟨_, ?_, (guest_dumps last).1, ((guest_dumps last).2 _).mpr ?_⟩
  · rfl
  · intro _
    show _ → _ ∧ (_ → _ ∧ True)
    refine fun _ => ⟨?_, fun _ => ⟨?_, trivial⟩⟩ <;>
      simp [allowedSections, oneSection, otherSection]

/-- A record of which a guest may see nothing is counted and not shown. -/
theorem hidden_counted : ¬ ∀ s : Guest,
    Transition.Run Guest.Starts GuestStep Transition.always s →
      ∀ request, DumpSound s.ring s.vf request := by
  intro sound
  have first : Transition.Run Guest.Starts GuestStep Transition.always fourSlotGuest :=
    .start fourSlotGuest_starts
  have second : Transition.Run Guest.Starts GuestStep Transition.always oneCommit :=
    .next (GuestAction.commit oneSection) first trivial rfl
  have here := (sound oneCommit second
    { vfRptr := 0, allowed := fun _ _ => false, failsAfter := none }).counted rfl
  change 1 = 0 at here
  cases here

end Example

end Cper
