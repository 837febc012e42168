import MxGpu.IhRing
import MxGpu.CircularBuffer

/- Every vector that the hardware writes into a ring with room for it is handled once, in order. -/
namespace MxGpu.Ih

open Transition

section Places

variable (c : Config)

def Config.entries : Nat := 2 ^ (c.rbBufsz - 3)

def Config.place (k : Nat) : Nat := 32 * (k % c.entries)

theorem entries_pos : 0 < c.entries := Nat.pow_pos (by decide)

theorem ringSize_pow : c.ringSize = 2 ^ (c.rbBufsz + 2) := by
  rw [Config.ringSize, Nat.one_shiftLeft, Nat.pow_add]

theorem ringSize_eq : c.ringSize = 32 * c.entries := by
  have hsplit : c.rbBufsz + 2 = 5 + (c.rbBufsz - 3) := by
    have := c.vector
    omega
  rw [ringSize_pow, hsplit, Nat.pow_add, Config.entries]

theorem ringSize_le : c.ringSize ≤ 2 ^ 31 := by
  rw [ringSize_pow]
  apply Nat.pow_le_pow_right (by decide)
  have := c.small
  omega

theorem and_ptrMask (n : Nat) : n &&& c.ptrMask = n % c.ringSize := by
  rw [Config.ptrMask, ringSize_pow, Nat.and_two_pow_sub_one_eq_mod]

theorem place_lt (k : Nat) : c.place k < c.ringSize := by
  have := Nat.mod_lt k (entries_pos c)
  rw [ringSize_eq, Config.place]
  omega

theorem place_masked (k : Nat) : c.place k &&& c.ptrMask = c.place k := by
  rw [and_ptrMask, Nat.mod_eq_of_lt (place_lt c k)]

theorem place_succ (k : Nat) : (c.place k + 32) % c.ringSize = c.place (k + 1) := by
  have hstep : c.place k + 32 = 32 * (k % c.entries + 1) := by
    rw [Config.place]
    omega
  rw [hstep, ringSize_eq, Nat.mul_mod_mul_left, Nat.mod_add_mod, Config.place]

theorem place_next (k : Nat) :
    (c.place k + 32) % 2 ^ 32 &&& c.ptrMask = c.place (k + 1) := by
  have hlt := place_lt c k
  have hle := ringSize_le c
  rw [and_ptrMask, Nat.mod_eq_of_lt (show c.place k + 32 < 2 ^ 32 by omega), place_succ]

theorem place_word (k : Nat) : c.place k >>> 2 = 8 * (k % c.entries) := by
  rw [Config.place, Nat.shiftRight_eq_div_pow]
  omega

theorem place_inj {i j : Nat} (hi : i ≤ j) (hj : j < i + c.entries)
    (hplace : c.place i = c.place j) : i = j := by
  have hmod : i % c.entries = j % c.entries := by
    rw [Config.place, Config.place] at hplace
    omega
  rcases Nat.eq_or_lt_of_le hi with heq | hlt
  · exact heq
  · have hslot := @CircularBuffer.slot_ne c.entries 0 i j hlt hj
    rw [Nat.zero_add, Nat.zero_add] at hslot
    exact absurd hmod hslot

end Places

section Kept

def kept : List (Nat → BitVec 32) → List Bool → List IvEntry
  | vector :: written, outcome :: outcomes =>
    if outcome then decodeIv vector :: kept written outcomes else kept written outcomes
  | _, _ => []

theorem kept_nil (written : List (Nat → BitVec 32)) : kept written [] = [] := by
  cases written <;> rfl

theorem kept_written (vector : Nat → BitVec 32) : ∀ {written : List (Nat → BitVec 32)}
    {outcomes : List Bool}, outcomes.length ≤ written.length →
    kept (written ++ [vector]) outcomes = kept written outcomes
  | [], [], _ => rfl
  | _ :: written, [], _ => rfl
  | first :: written, outcome :: outcomes, h => by
    rw [List.cons_append, kept, kept, kept_written vector (Nat.le_of_succ_le_succ h)]

theorem kept_outcome (outcome : Bool) {vector : Nat → BitVec 32} :
    ∀ {written : List (Nat → BitVec 32)} {outcomes : List Bool},
    written[outcomes.length]? = some vector →
    kept written (outcomes ++ [outcome]) =
      kept written outcomes ++ if outcome then [decodeIv vector] else []
  | first :: written, [], h => by
    have hfirst : first = vector := Option.some.inj h
    rw [List.nil_append, kept, kept_nil, kept_nil, hfirst]
    rfl
  | first :: written, earlier :: outcomes, h => by
    have ih := @kept_outcome outcome vector written outcomes h
    rw [List.cons_append, kept, kept, ih]
    cases earlier <;> rfl

theorem kept_all : ∀ {written : List (Nat → BitVec 32)} {outcomes : List Bool},
    (∀ outcome ∈ outcomes, outcome = true) →
    kept written outcomes = (written.take outcomes.length).map decodeIv
  | [], [], _ => rfl
  | [], _ :: _, _ => rfl
  | _ :: _, [], _ => rfl
  | first :: written, outcome :: outcomes, h => by
    have hrest := @kept_all written outcomes fun o ho => h o (List.mem_cons_of_mem outcome ho)
    rw [kept, hrest, h outcome List.mem_cons_self, if_pos rfl, List.length_cons, List.take_succ_cons,
      List.map_cons]

end Kept

def TopPc.Idle : TopPc → Prop
  | .idle _ => True
  | _ => False

def TopPc.inHand : TopPc → Nat
  | .handle _ _ | .copy _ _ | .copied _ _ => 1
  | _ => 0

def State.taken (s : State) : Nat := s.outcomes.length + s.top.inHand

/-- The write pointer that the handler has read is that after a vector which it has not passed; if
no interrupt has come since it is the last one. -/
def Seen (c : Config) (s : State) (wptr : Nat) : Prop :=
  ∃ seen, wptr = c.place seen ∧ s.taken ≤ seen ∧ seen ≤ s.written.length ∧
    (s.intr = false → seen = s.written.length)

/-- The entry in the handler's hands is that of the next vector without an outcome. -/
def Next (s : State) (entry : IvEntry) : Prop :=
  ∃ vector, s.written[s.outcomes.length]? = some vector ∧ entry = decodeIv vector

def TopFits (c : Config) (s : State) : TopPc → Prop
  | .idle last => (∀ wptr, last = some wptr → s.rptr = wptr) ∧
      (s.attended = true → s.intr = false → s.taken = s.written.length)
  | .entered | .reread | .setRptr => True
  | .outer wptr | .inner wptr | .queued wptr => Seen c s wptr
  | .decode wptr dw => Seen c s wptr ∧ wptr ≠ c.place s.taken ∧ dw.length ≤ 8 ∧
      ∀ vector, s.written[s.taken]? = some vector → ∀ i, i < dw.length → dw.getD i 0 = vector i
  | .handle wptr entry | .copy wptr entry | .copied wptr entry => Seen c s wptr ∧ Next s entry

/-- The ring between the hardware and the interrupt handler; the hardware has been told of the first
`base` vectors. -/
structure RingFits (c : Config) (s : State) (base : Nat) : Prop where
  hwWptr : s.hwWptr = c.place s.written.length
  hwRptr : s.hwRptr = c.place base
  rptr : s.rptr = c.place s.taken
  told : base ≤ s.taken
  taken : s.taken ≤ s.written.length
  room : s.written.length < base + c.entries
  sound : s.rbOverflow = false
  slots : ∀ k vector, s.written[k]? = some vector → base ≤ k → ∀ i, i < 8 →
    s.ring (8 * (k % c.entries) + i) = vector i
  busy : s.attended = false → s.top.Idle
  top : TopFits c s s.top

section Ring

variable {c : Config} {s : State} {base : Nat}

theorem getElem_written {k : Nat} {earlier : Nat → BitVec 32} (hk : s.written[k]? = some earlier)
    (vector : Nat → BitVec 32) : (s.written ++ [vector])[k]? = some earlier := by
  rw [List.getElem?_append_left (List.getElem?_eq_some_iff.mp hk).1, hk]

theorem TopFits.hwWrite {pc : TopPc} (h : TopFits c s pc)
    (hdecode : ∀ wptr dw, pc = .decode wptr dw → s.taken < s.written.length)
    (vector : Nat → BitVec 32) : TopFits c (s.hwWrite c vector) pc := by
  have hseen : ∀ wptr, Seen c s wptr → Seen c (s.hwWrite c vector) wptr := by
    intro wptr hs
    obtain ⟨seen, hwptr, htaken, hwritten, -⟩ := hs
    refine ⟨seen, hwptr, htaken, ?_, fun hintr => Bool.noConfusion hintr⟩
    show seen ≤ (s.written ++ [vector]).length
    rw [List.length_append]
    omega
  have hnext : ∀ entry, Next s entry → Next (s.hwWrite c vector) entry := by
    intro entry hn
    obtain ⟨earlier, hearlier, hentry⟩ := hn
    exact ⟨earlier, getElem_written hearlier vector, hentry⟩
  cases pc with
  | idle last => exact ⟨h.1, fun _ hintr => Bool.noConfusion hintr⟩
  | entered => trivial
  | reread => trivial
  | setRptr => trivial
  | outer wptr => exact hseen wptr h
  | inner wptr => exact hseen wptr h
  | queued wptr => exact hseen wptr h
  | decode wptr dw =>
    obtain ⟨hs, hne, hlength, hwords⟩ := h
    refine ⟨hseen wptr hs, hne, hlength, fun first hfirst => ?_⟩
    apply hwords first
    change (s.written ++ [vector])[s.taken]? = some first at hfirst
    rwa [List.getElem?_append_left (hdecode wptr dw rfl)] at hfirst
  | handle wptr entry => exact ⟨hseen wptr h.1, hnext entry h.2⟩
  | copy wptr entry => exact ⟨hseen wptr h.1, hnext entry h.2⟩
  | copied wptr entry => exact ⟨hseen wptr h.1, hnext entry h.2⟩

theorem Seen.pending {wptr : Nat} (hseen : Seen c s wptr)
    (hne : wptr ≠ c.place s.taken) : s.taken < s.written.length := by
  obtain ⟨seen, hwptr, htaken, hwritten, -⟩ := hseen
  have hother : seen ≠ s.taken := fun hsame => hne (hwptr.trans (congrArg c.place hsame))
  omega

theorem RingFits.hwWrite (h : RingFits c s base) (hroom : s.HasRoom c)
    (vector : Nat → BitVec 32) : RingFits c (s.hwWrite c vector) base := by
  have hlength : (s.written ++ [vector]).length = s.written.length + 1 := by
    rw [List.length_append, List.length_singleton]
  have hnext : s.written.length + 1 < base + c.entries := by
    have hne : c.place base ≠ c.place (s.written.length + 1) := by
      have := hroom
      rw [State.HasRoom, h.hwWptr, h.hwRptr, place_succ] at this
      exact this.symm
    have hle : s.written.length + 1 ≤ base + c.entries := h.room
    rcases Nat.eq_or_lt_of_le hle with heq | hlt
    · have hround : c.place (base + c.entries) = c.place base := by
        rw [Config.place, Nat.add_mod_right, Config.place]
      rw [heq, hround] at hne
      exact absurd rfl hne
    · exact hlt
  refine ⟨?_, h.hwRptr, h.rptr, h.told, ?_, ?_, ?_, ?_, h.busy, ?_⟩
  · show (s.hwWptr + 32) % c.ringSize = c.place (s.written ++ [vector]).length
    rw [h.hwWptr, place_succ, hlength]
  · show s.taken ≤ (s.written ++ [vector]).length
    rw [hlength]
    exact Nat.le_succ_of_le h.taken
  · show (s.written ++ [vector]).length < base + c.entries
    rw [hlength]
    exact hnext
  · show (s.rbOverflow || !decide (s.HasRoom c)) = false
    rw [h.sound, decide_eq_true hroom]
    rfl
  · intro k earlier hk hbase i hi
    change (s.written ++ [vector])[k]? = some earlier at hk
    show (if s.hwWptr >>> 2 ≤ 8 * (k % c.entries) + i ∧
        8 * (k % c.entries) + i < s.hwWptr >>> 2 + 8 then
        vector (8 * (k % c.entries) + i - s.hwWptr >>> 2)
      else s.ring (8 * (k % c.entries) + i)) = earlier i
    have hlt : k < s.written.length + 1 := hlength ▸ (List.getElem?_eq_some_iff.mp hk).1
    rw [h.hwWptr, place_word]
    by_cases hlast : k = s.written.length
    · have hinside : 8 * (s.written.length % c.entries) ≤ 8 * (k % c.entries) + i ∧
          8 * (k % c.entries) + i < 8 * (s.written.length % c.entries) + 8 := by
        rw [hlast]
        omega
      have hplace : 8 * (k % c.entries) + i - 8 * (s.written.length % c.entries) = i := by
        rw [hlast]
        omega
      rw [hlast, List.getElem?_concat_length] at hk
      rw [if_pos hinside, hplace, Option.some.inj hk]
    · have hearlier : k < s.written.length := by omega
      have hother : k % c.entries ≠ s.written.length % c.entries := by
        have hslot := @CircularBuffer.slot_ne c.entries 0 k s.written.length hearlier (by omega)
        rwa [Nat.zero_add, Nat.zero_add] at hslot
      have houtside : ¬ (8 * (s.written.length % c.entries) ≤ 8 * (k % c.entries) + i ∧
          8 * (k % c.entries) + i < 8 * (s.written.length % c.entries) + 8) := by
        omega
      rw [List.getElem?_append_left hearlier] at hk
      rw [if_neg houtside]
      exact h.slots k earlier hk hbase i hi
  · apply h.top.hwWrite
    intro wptr dw hpc
    have htop := h.top
    rw [hpc] at htop
    exact htop.1.pending htop.2.1

theorem RingFits.attends (h : RingFits c s base) (hbusy : ¬s.top.Idle) : s.attended = true := by
  cases hattended : s.attended with
  | false => exact absurd (h.busy hattended) hbusy
  | true => rfl

theorem RingFits.goto (h : RingFits c s base) (pc : TopPc) (hhand : pc.inHand = s.top.inHand)
    (hbusy : ¬s.top.Idle) (hpc : TopFits c s pc) : RingFits c { s with top := pc } base := by
  have htaken : State.taken { s with top := pc } = s.taken := by
    show s.outcomes.length + pc.inHand = s.outcomes.length + s.top.inHand
    rw [hhand]
  have hseen : ∀ wptr, Seen c s wptr → Seen c { s with top := pc } wptr := by
    intro wptr hs
    obtain ⟨seen, hwptr, hle, hwritten, hlast⟩ := hs
    exact ⟨seen, hwptr, htaken ▸ hle, hwritten, hlast⟩
  refine ⟨h.hwWptr, h.hwRptr, htaken ▸ h.rptr, htaken ▸ h.told, htaken ▸ h.taken, h.room,
    h.sound, h.slots, fun hno => Bool.noConfusion (hno.symm.trans (h.attends hbusy)), ?_⟩
  show TopFits c { s with top := pc } pc
  cases pc with
  | idle last => exact ⟨hpc.1, fun hon hintr => htaken.trans (hpc.2 hon hintr)⟩
  | entered => trivial
  | reread => trivial
  | setRptr => trivial
  | outer wptr => exact hseen wptr hpc
  | inner wptr => exact hseen wptr hpc
  | queued wptr => exact hseen wptr hpc
  | decode wptr dw =>
    obtain ⟨hs, hne, hlength, hwords⟩ := hpc
    rw [← htaken] at hne hwords
    exact ⟨hseen wptr hs, hne, hlength, hwords⟩
  | handle wptr entry => exact ⟨hseen wptr hpc.1, hpc.2⟩
  | copy wptr entry => exact ⟨hseen wptr hpc.1, hpc.2⟩
  | copied wptr entry => exact ⟨hseen wptr hpc.1, hpc.2⟩

def State.ringSide (s : State) : State :=
  { s with
    ihQueue := initial.ihQueue, ihQueueWptr := 0, ihQueueRptr := 0, bhPending := false
    worker := .idle, queueFullLogs := 0, dispatched := [] }

theorem TopFits.ringSide_iff (pc : TopPc) : TopFits c s.ringSide pc ↔ TopFits c s pc := by
  cases pc <;> rfl

theorem RingFits.ringSide_iff : RingFits c s.ringSide base ↔ RingFits c s base :=
  ⟨fun h => ⟨h.hwWptr, h.hwRptr, h.rptr, h.told, h.taken, h.room, h.sound, h.slots, h.busy,
      (TopFits.ringSide_iff s.top).mp h.top⟩,
    fun h => ⟨h.hwWptr, h.hwRptr, h.rptr, h.told, h.taken, h.room, h.sound, h.slots, h.busy,
      (TopFits.ringSide_iff s.top).mpr h.top⟩⟩

theorem RingFits.frame {t : State} (h : RingFits c s base) (hsame : t.ringSide = s.ringSide) :
    RingFits c t base :=
  RingFits.ringSide_iff.mp (hsame ▸ RingFits.ringSide_iff.mpr h)

theorem RingFits.caught (h : RingFits c s base) {wptr : Nat} (hseen : Seen c s wptr)
    (hwptr : wptr = s.rptr) (hintr : s.intr = false) : s.taken = s.written.length := by
  obtain ⟨seen, hplace, htaken, hwritten, hlast⟩ := hseen
  have hnear : seen < s.taken + c.entries := by
    have := h.room
    have := h.told
    omega
  rw [h.rptr, hplace] at hwptr
  exact (place_inj c htaken hnear hwptr.symm).trans (hlast hintr)

theorem RingFits.decided (h : RingFits c s base) (outcome : Bool) {pc : TopPc} {wptr : Nat}
    (hhand : s.top.inHand = 1) (hseen : Seen c s wptr)
    (hpc : pc = .inner wptr ∨ pc = .queued wptr) :
    RingFits c { s with outcomes := s.outcomes ++ [outcome], top := pc } base := by
  have hnone : pc.inHand = 0 := by
    rcases hpc with rfl | rfl
    · rfl
    · rfl
  have htaken : State.taken { s with outcomes := s.outcomes ++ [outcome], top := pc } =
      s.taken := by
    show (s.outcomes ++ [outcome]).length + pc.inHand = s.outcomes.length + s.top.inHand
    rw [hnone, hhand, List.length_append]
    rfl
  have hseen' : Seen c { s with outcomes := s.outcomes ++ [outcome], top := pc } wptr := by
    obtain ⟨seen, hplace, hle, hwritten, hlast⟩ := hseen
    exact ⟨seen, hplace, htaken ▸ hle, hwritten, hlast⟩
  have hbusy : ¬s.top.Idle := by
    cases htop : s.top <;> simp only [htop, TopPc.inHand, TopPc.Idle, not_false_eq_true] at hhand ⊢
    cases hhand
  refine ⟨h.hwWptr, h.hwRptr, htaken ▸ h.rptr, htaken ▸ h.told, htaken ▸ h.taken, h.room,
    h.sound, h.slots, fun hno => Bool.noConfusion (hno.symm.trans (h.attends hbusy)), ?_⟩
  rcases hpc with rfl | rfl
  · exact hseen'
  · exact hseen'

theorem decodeIv_congr {f g : Nat → BitVec 32} (h : ∀ i, i < 8 → f i = g i) :
    decodeIv f = decodeIv g := by
  simp only [decodeIv, h 0 (by decide), h 1 (by decide), h 2 (by decide), h 3 (by decide),
    h 4 (by decide), h 5 (by decide), h 6 (by decide), h 7 (by decide)]

theorem RingFits.readWord (h : RingFits c s base) {wptr : Nat} {dw : List (BitVec 32)}
    (htop : s.top = .decode wptr dw) (hfew : dw.length < 8) :
    RingFits c
      { s with top := .decode wptr (dw ++ [s.ring ((s.rptr >>> 2) + dw.length)]) } base := by
  have hfits := h.top
  rw [htop] at hfits
  obtain ⟨hseen, hne, -, hwords⟩ := hfits
  apply h.goto _ (htop ▸ rfl) (htop ▸ id)
  refine ⟨hseen, hne, ?_, fun vector hvector i hi => ?_⟩
  · rw [List.length_append, List.length_singleton]
    exact hfew
  · rw [List.length_append, List.length_singleton] at hi
    by_cases hlast : i = dw.length
    · have hword := h.slots s.taken vector hvector h.told dw.length hfew
      rw [h.rptr, place_word, hword, hlast, List.getD_eq_getElem?_getD,
        List.getElem?_concat_length]
      rfl
    · have hearlier : i < dw.length := by omega
      rw [List.getD_eq_getElem?_getD, List.getElem?_append_left hearlier,
        ← List.getD_eq_getElem?_getD]
      exact hwords vector hvector i hearlier

theorem RingFits.decoded (h : RingFits c s base) {wptr : Nat} {dw : List (BitVec 32)}
    (htop : s.top = .decode wptr dw) (hall : ¬ dw.length < 8) :
    RingFits c
      { s with
        rptr := (s.rptr + 32) % 2 ^ 32 &&& c.ptrMask
        top := .handle wptr (decodeIv fun i => dw.getD i 0) } base := by
  have hfits := h.top
  rw [htop] at hfits
  obtain ⟨hseen, hne, hlength, hwords⟩ := hfits
  have hlt : s.taken < s.written.length := hseen.pending hne
  have htaken : s.taken = s.outcomes.length := by
    rw [State.taken, htop]
    rfl
  have hnext : State.taken
      { s with
        rptr := (s.rptr + 32) % 2 ^ 32 &&& c.ptrMask
        top := .handle wptr (decodeIv fun i => dw.getD i 0) } = s.taken + 1 := by
    rw [htaken]
    rfl
  refine ⟨h.hwWptr, h.hwRptr, ?_, ?_, ?_, h.room, h.sound, h.slots,
    fun hno => Bool.noConfusion (hno.symm.trans (h.attends (htop ▸ id))), ?_, ?_⟩
  · rw [hnext]
    show (s.rptr + 32) % 2 ^ 32 &&& c.ptrMask = c.place (s.taken + 1)
    rw [h.rptr, place_next]
  · rw [hnext]
    exact Nat.le_succ_of_le h.told
  · rw [hnext]
    exact hlt
  · obtain ⟨seen, hplace, hle, hwritten, hlast⟩ := hseen
    have hother : seen ≠ s.taken := fun hsame => hne (hplace.trans (congrArg c.place hsame))
    refine ⟨seen, hplace, ?_, hwritten, hlast⟩
    rw [hnext]
    omega
  · have hvector := List.getElem?_eq_getElem hlt
    refine ⟨s.written[s.taken], ?_, decodeIv_congr fun i hi => hwords _ hvector i (by omega)⟩
    show s.written[s.outcomes.length]? = some s.written[s.taken]
    rw [← htaken]
    exact hvector

theorem RingFits.told_all (h : RingFits c s base) (htop : s.top = .setRptr) :
    RingFits c { s with hwRptr := s.rptr, top := .reread } s.taken := by
  have htaken : State.taken { s with hwRptr := s.rptr, top := .reread } = s.taken := by
    rw [State.taken, State.taken, htop]
    rfl
  refine ⟨h.hwWptr, h.rptr, htaken ▸ h.rptr, Nat.le_of_eq htaken.symm, htaken ▸ h.taken, ?_,
    h.sound, fun k vector hk hle => h.slots k vector hk (Nat.le_trans h.told hle),
    fun hno => Bool.noConfusion (hno.symm.trans (h.attends (htop ▸ id))), trivial⟩
  have := h.room
  have := h.told
  show s.written.length < s.taken + c.entries
  omega

theorem RingFits.topHalf (h : RingFits c s base) : ∃ base', RingFits c (s.topHalf c) base' := by
  have hfits := h.top
  have hget : s.getWptr c = (s, c.place s.written.length) := by
    rw [State.getWptr, h.sound, h.hwWptr, place_masked]
    rfl
  have hall : Seen c s (c.place s.written.length) :=
    ⟨s.written.length, rfl, h.taken, Nat.le_refl _, fun _ => rfl⟩
  cases htop : s.top with
  | idle last =>
    simp only [State.topHalf, htop]
    exact ⟨base, h⟩
  | entered =>
    simp only [State.topHalf, htop, hget]
    exact ⟨base, h.goto _ (htop ▸ rfl) (htop ▸ id) hall⟩
  | reread =>
    simp only [State.topHalf, htop, hget]
    exact ⟨base, h.goto _ (htop ▸ rfl) (htop ▸ id) hall⟩
  | outer wptr =>
    rw [htop] at hfits
    simp only [State.topHalf, htop]
    by_cases hne : wptr ≠ s.rptr
    · rw [if_pos hne]
      exact ⟨base, h.goto _ (htop ▸ rfl) (htop ▸ id) hfits⟩
    · have heq : wptr = s.rptr := Decidable.not_not.mp hne
      rw [if_neg hne]
      refine ⟨base, h.goto _ (htop ▸ rfl) (htop ▸ id)
        ⟨fun last hlast => ?_, fun _ => h.caught hfits heq⟩⟩
      exact heq.symm.trans (Option.some.inj hlast)
  | inner wptr =>
    rw [htop] at hfits
    simp only [State.topHalf, htop]
    by_cases hne : s.rptr ≠ wptr
    · rw [if_pos hne]
      by_cases hon : s.enabled = true
      · rw [if_pos hon]
        refine ⟨base, h.goto _ (htop ▸ rfl) (htop ▸ id) ⟨hfits, ?_, Nat.zero_le 8, ?_⟩⟩
        · rw [← h.rptr]
          exact hne.symm
        · exact fun vector _ i hi => absurd hi (Nat.not_lt_zero i)
      · rw [if_neg hon]
        have htaken : State.taken { s with attended := false, top := .idle none } = s.taken := by
          rw [State.taken, State.taken, htop]
          rfl
        exact ⟨base, h.hwWptr, h.hwRptr, htaken ▸ h.rptr, htaken ▸ h.told, htaken ▸ h.taken,
          h.room, h.sound, h.slots, fun _ => trivial,
          fun last hlast => absurd hlast.symm (Option.some_ne_none last),
          fun hattended => Bool.noConfusion hattended⟩
    · rw [if_neg hne]
      exact ⟨base, h.goto _ (htop ▸ rfl) (htop ▸ id) trivial⟩
  | decode wptr dw =>
    simp only [State.topHalf, htop]
    by_cases hfew : dw.length < 8
    · rw [if_pos hfew]
      exact ⟨base, h.readWord htop hfew⟩
    · rw [if_neg hfew]
      exact ⟨base, h.decoded htop hfew⟩
  | handle wptr entry =>
    rw [htop] at hfits
    have hdecided := fun outcome => h.decided outcome (htop ▸ rfl) hfits.1 (.inl rfl)
    simp only [State.topHalf, htop]
    by_cases hbh : c.useBh = true
    · rw [if_pos hbh]
      by_cases hfull : (s.ihQueueWptr + 1) % ihQueueEntryNum = s.ihQueueRptr
      · rw [if_pos hfull]
        exact ⟨base, (hdecided false).frame rfl⟩
      · rw [if_neg hfull]
        exact ⟨base, h.goto _ (htop ▸ rfl) (htop ▸ id) hfits⟩
    · rw [if_neg hbh]
      exact ⟨base, (hdecided true).frame rfl⟩
  | copy wptr entry =>
    rw [htop] at hfits
    simp only [State.topHalf, htop]
    have hgone := h.goto (.copied wptr entry) (htop ▸ rfl) (htop ▸ id) hfits
    exact ⟨base, hgone.frame rfl⟩
  | copied wptr entry =>
    rw [htop] at hfits
    simp only [State.topHalf, htop]
    exact ⟨base, (h.decided true (htop ▸ rfl) hfits.1 (.inr rfl)).frame rfl⟩
  | queued wptr =>
    rw [htop] at hfits
    simp only [State.topHalf, htop]
    have hgone := h.goto (.inner wptr) (htop ▸ rfl) (htop ▸ id) hfits
    exact ⟨base, hgone.frame rfl⟩
  | setRptr =>
    simp only [State.topHalf, htop]
    exact ⟨s.taken, h.told_all htop⟩

theorem RingFits.bottomHalf (h : RingFits c s base) : RingFits c s.bottomHalf base := by
  rw [State.bottomHalf]
  cases s.worker with
  | idle => exact h
  | test =>
    dsimp only
    split
    · exact h.frame rfl
    · exact h.frame rfl
  | running entry => exact h.frame rfl
  | advance => exact h.frame rfl

theorem TopFits.toggle {pc : TopPc} (h : TopFits c s pc) (enable : Bool) :
    TopFits c { s with enabled := enable } pc := by
  cases pc <;> exact h

theorem RingFits.toggle (h : RingFits c s base) (enable : Bool) :
    RingFits c { s with enabled := enable } base :=
  ⟨h.hwWptr, h.hwRptr, h.rptr, h.told, h.taken, h.room, h.sound, h.slots, h.busy,
    h.top.toggle enable⟩

theorem TopFits.dismissed {pc : TopPc} (h : TopFits c s pc) (hidle : pc.Idle) :
    TopFits c { s with intr := false, attended := s.attended && !s.intr } pc := by
  cases pc with
  | idle last =>
    refine ⟨h.1, fun hattended _ => ?_⟩
    obtain ⟨hbefore, hquiet⟩ := Bool.and_eq_true_iff.mp hattended
    exact h.2 hbefore (Bool.not_eq_true' _ ▸ hquiet)
  | _ => exact hidle.elim

theorem RingFits.irq (h : RingFits c s base) {last : Option Nat} (htop : s.top = .idle last) :
    RingFits c { s with intr := false, attended := true, top := .entered } base ∧
      RingFits c { s with intr := false, attended := s.attended && !s.intr } base := by
  have htaken : State.taken { s with intr := false, attended := true, top := .entered } =
      s.taken := by
    rw [State.taken, State.taken, htop]
    rfl
  have hidle : s.top.Idle := htop ▸ trivial
  exact ⟨⟨h.hwWptr, h.hwRptr, htaken ▸ h.rptr, htaken ▸ h.told, htaken ▸ h.taken, h.room,
    h.sound, h.slots, fun hno => Bool.noConfusion hno, trivial⟩, ⟨h.hwWptr, h.hwRptr, h.rptr,
    h.told, h.taken, h.room, h.sound, h.slots, fun _ => hidle, h.top.dismissed hidle⟩⟩

end Ring

def WorkerPc.inHand : WorkerPc → Nat
  | .running _ | .advance => 1
  | _ => 0

def TopPc.Plain : TopPc → Prop
  | .copy _ _ | .copied _ _ | .queued _ => False
  | _ => True

def TopPc.Copying : TopPc → Prop
  | .copy _ _ | .copied _ _ => True
  | _ => False

/-- The queue between the two halves: of the entries that were accepted, the bottom half has given
back the first ones, and the others are in the queue. -/
structure QueueFits (c : Config) (s : State) (accepted : List IvEntry) (retired : Nat) : Prop where
  accepted_eq : accepted = kept s.written s.outcomes
  holds : CircularBuffer.Holds ihQueueEntryNum s.ihQueueRptr s.ihQueue (accepted.drop retired)
  few : accepted.length < retired + ihQueueEntryNum
  rptr : s.ihQueueRptr < ihQueueEntryNum
  wptr : s.ihQueueWptr = (s.ihQueueRptr + (accepted.length - retired)) % ihQueueEntryNum
  le : retired + s.worker.inHand ≤ accepted.length
  dispatched : s.dispatched = accepted.take (retired + s.worker.inHand)
  running : ∀ entry, s.worker = .running entry → s.ihQueue s.ihQueueRptr = entry
  copying : s.top.Copying → accepted.length + 1 < retired + ihQueueEntryNum
  copied : ∀ wptr entry, s.top = .copied wptr entry → s.ihQueue s.ihQueueWptr = entry
  asleep : s.worker = .idle → s.bhPending = false → (∀ wptr, s.top ≠ .queued wptr) →
    retired = accepted.length
  direct : c.useBh = false → s.worker = .idle ∧ s.bhPending = false
  viaQueue : ¬ s.top.Plain → c.useBh = true

section Queue

variable {c : Config} {s : State} {accepted : List IvEntry} {retired : Nat}

def State.queueSide (s : State) :
    (Nat → IvEntry) × Nat × Nat × Bool × WorkerPc × List IvEntry :=
  (s.ihQueue, s.ihQueueWptr, s.ihQueueRptr, s.bhPending, s.worker, s.dispatched)

theorem TopPc.Plain.not_queued {pc : TopPc} (h : pc.Plain) (wptr : Nat) : pc ≠ .queued wptr := by
  intro hpc
  rw [hpc] at h
  exact h

theorem QueueFits.frame {t : State} (h : QueueFits c s accepted retired)
    (hside : t.queueSide = s.queueSide)
    (hkept : kept t.written t.outcomes = kept s.written s.outcomes)
    (htop : t.top = s.top ∨ t.top.Plain ∧ s.top.Plain) : QueueFits c t accepted retired := by
  simp only [State.queueSide, Prod.mk.injEq] at hside
  obtain ⟨hqueue, hwptr, hrptr, hpending, hworker, hdispatched⟩ := hside
  refine ⟨h.accepted_eq.trans hkept.symm, ?_, h.few, ?_, ?_, ?_, ?_, ?_, ?_, ?_, ?_, ?_, ?_⟩
  · rw [hrptr, hqueue]
    exact h.holds
  · rw [hrptr]
    exact h.rptr
  · rw [hwptr, hrptr]
    exact h.wptr
  · rw [hworker]
    exact h.le
  · rw [hdispatched, hworker]
    exact h.dispatched
  · rw [hworker, hqueue, hrptr]
    exact h.running
  · intro hcopying
    rcases htop with hsame | ⟨hplain, -⟩
    · exact h.copying (hsame ▸ hcopying)
    · cases htop' : t.top <;> simp only [htop', TopPc.Plain, TopPc.Copying] at hplain hcopying
  · intro wptr entry hcopied
    rw [hqueue, hwptr]
    rcases htop with hsame | ⟨hplain, -⟩
    · exact h.copied wptr entry (hsame.symm.trans hcopied)
    · rw [hcopied] at hplain
      exact hplain.elim
  · intro hidle hnone hnot
    apply h.asleep (hworker.symm.trans hidle) (hpending.symm.trans hnone)
    rcases htop with hsame | ⟨-, hplain⟩
    · rw [← hsame]
      exact hnot
    · exact hplain.not_queued
  · rw [hworker, hpending]
    exact h.direct
  · intro hnot
    rcases htop with hsame | ⟨hplain, -⟩
    · exact h.viaQueue (hsame ▸ hnot)
    · exact absurd hplain hnot

theorem QueueFits.scratch (h : QueueFits c s accepted retired) (hcopying : s.top.Copying)
    (entry : IvEntry) (pc : TopPc)
    (hput : ∀ wptr put, pc = .copied wptr put → put = entry) :
    QueueFits c
      { s with ihQueue := Function.update s.ihQueue s.ihQueueWptr entry, top := pc }
      accepted retired := by
  have hfew : accepted.length + 1 < retired + 256 := h.copying hcopying
  have hlength : (accepted.drop retired).length = accepted.length - retired := List.length_drop
  have hholds := h.holds.scratch (x := entry) (by rw [hlength, ihQueueEntryNum]; omega)
  rw [hlength, ← h.wptr] at hholds
  have hnotTop : ¬ s.top.Plain := by
    cases htop : s.top <;> simp only [htop, TopPc.Copying, TopPc.Plain, not_false_eq_true]
      at hcopying ⊢
  refine ⟨h.accepted_eq, hholds, h.few, h.rptr, h.wptr, h.le, h.dispatched, ?_,
    fun _ => h.copying hcopying, ?_, ?_, h.direct, fun _ => h.viaQueue hnotTop⟩
  · intro running hrunning
    have hone : retired + 1 ≤ accepted.length := by
      have := h.le
      rw [hrunning] at this
      exact this
    have hother : s.ihQueueRptr ≠ s.ihQueueWptr := by
      have hslot := @CircularBuffer.slot_ne ihQueueEntryNum s.ihQueueRptr 0
        (accepted.length - retired) (by omega) (by rw [ihQueueEntryNum]; omega)
      rwa [Nat.add_zero, Nat.mod_eq_of_lt h.rptr, ← h.wptr] at hslot
    show Function.update s.ihQueue s.ihQueueWptr entry s.ihQueueRptr = running
    rw [Function.update_of_ne hother]
    exact h.running running hrunning
  · intro wptr put hcopied
    show Function.update s.ihQueue s.ihQueueWptr entry s.ihQueueWptr = put
    rw [Function.update_self, hput wptr put hcopied]
  · intro hidle hnone _
    apply h.asleep hidle hnone
    intro wptr hqueued
    rw [hqueued] at hcopying
    exact hcopying

theorem QueueFits.startCopy (h : QueueFits c s accepted retired) {wptr : Nat} {entry : IvEntry}
    (hplain : s.top.Plain) (hbh : c.useBh = true)
    (hroom : ¬ (s.ihQueueWptr + 1) % ihQueueEntryNum = s.ihQueueRptr) :
    QueueFits c { s with top := .copy wptr entry } accepted retired := by
  refine ⟨h.accepted_eq, h.holds, h.few, h.rptr, h.wptr, h.le, h.dispatched, h.running, fun _ => ?_,
    fun wptr' entry' hcopied => TopPc.noConfusion hcopied,
    fun hidle hnone _ => h.asleep hidle hnone hplain.not_queued, h.direct, fun _ => hbh⟩
  have hfew : accepted.length < retired + 256 := h.few
  have hnum : ihQueueEntryNum = 256 := rfl
  by_cases hlast : accepted.length + 1 = retired + 256
  · have hlength : accepted.length - retired = 255 := by omega
    have hrptr : s.ihQueueRptr < 256 := h.rptr
    have hwptr : s.ihQueueWptr = (s.ihQueueRptr + (accepted.length - retired)) % 256 := h.wptr
    change ¬ (s.ihQueueWptr + 1) % 256 = s.ihQueueRptr at hroom
    rw [hlength] at hwptr
    omega
  · rw [hnum]
    omega

theorem QueueFits.put (h : QueueFits c s accepted retired) {wptr : Nat} {entry : IvEntry}
    (htop : s.top = .copied wptr entry) (hnext : Next s entry) :
    QueueFits c
      { s with
        ihQueueWptr := (s.ihQueueWptr + 1) % ihQueueEntryNum
        outcomes := s.outcomes ++ [true]
        top := .queued wptr } (accepted ++ [entry]) retired := by
  have hcopying : s.top.Copying := by
    rw [htop]
    trivial
  have hfew : accepted.length + 1 < retired + 256 := h.copying hcopying
  have hle : retired ≤ accepted.length := Nat.le_trans (Nat.le_add_right _ _) h.le
  have hlength : (accepted.drop retired).length = accepted.length - retired := List.length_drop
  have hlast : (accepted ++ [entry]).length = accepted.length + 1 := by
    rw [List.length_append, List.length_singleton]
  have hdrop : (accepted ++ [entry]).drop retired = accepted.drop retired ++ [entry] :=
    List.drop_append_of_le_length hle
  have hholds := h.holds.push (x := entry) (by rw [hlength, ihQueueEntryNum]; omega)
  rw [hlength, ← h.wptr, ← h.copied wptr entry htop, Function.update_eq_self,
    h.copied wptr entry htop] at hholds
  obtain ⟨vector, hvector, hentry⟩ := hnext
  refine ⟨?_, hdrop ▸ hholds, ?_, h.rptr, ?_, ?_, ?_, h.running, fun hno => hno.elim,
    fun wptr' entry' hno => TopPc.noConfusion hno, fun _ _ hno => absurd rfl (hno wptr), h.direct,
    fun _ => h.viaQueue (htop ▸ fun hno => hno)⟩
  · show accepted ++ [entry] = kept s.written (s.outcomes ++ [true])
    rw [kept_outcome true hvector, h.accepted_eq, hentry, if_pos rfl]
  · rw [hlast]
    exact hfew
  · show (s.ihQueueWptr + 1) % ihQueueEntryNum =
      (s.ihQueueRptr + ((accepted ++ [entry]).length - retired)) % ihQueueEntryNum
    rw [h.wptr, Nat.mod_add_mod, hlast, Nat.succ_sub hle]
    rfl
  · rw [hlast]
    exact Nat.le_succ_of_le h.le
  · rw [List.take_append_of_le_length h.le]
    exact h.dispatched

theorem QueueFits.process (h : QueueFits c s accepted retired) {wptr : Nat} {entry : IvEntry}
    (hplain : s.top.Plain) (hbh : c.useBh = false) (hnext : Next s entry) :
    QueueFits c
      { s with
        dispatched := s.dispatched ++ [entry]
        outcomes := s.outcomes ++ [true]
        top := .inner wptr } (accepted ++ [entry]) (retired + 1) := by
  obtain ⟨hidle, hnone⟩ := h.direct hbh
  have hall : retired = accepted.length := h.asleep hidle hnone hplain.not_queued
  have hlast : (accepted ++ [entry]).length = retired + 1 := by
    rw [List.length_append, List.length_singleton, hall]
  have hdrop : (accepted ++ [entry]).drop (retired + 1) = [] :=
    List.drop_eq_nil_of_le (Nat.le_of_eq hlast)
  have hhand : s.worker.inHand = 0 := by
    rw [hidle]
    rfl
  obtain ⟨vector, hvector, hentry⟩ := hnext
  refine ⟨?_, ?_, ?_, h.rptr, ?_, ?_, ?_, h.running, fun hno => hno.elim,
    fun wptr' entry' hno => TopPc.noConfusion hno, fun _ _ _ => hlast.symm, h.direct,
    fun hno => absurd trivial hno⟩
  · show accepted ++ [entry] = kept s.written (s.outcomes ++ [true])
    rw [kept_outcome true hvector, h.accepted_eq, hentry, if_pos rfl]
  · rw [hdrop]
    exact CircularBuffer.holds_nil
  · rw [hlast, ihQueueEntryNum]
    omega
  · show s.ihQueueWptr =
      (s.ihQueueRptr + ((accepted ++ [entry]).length - (retired + 1))) % ihQueueEntryNum
    rw [hlast, h.wptr, hall, Nat.sub_self, Nat.sub_self]
  · show retired + 1 + s.worker.inHand ≤ (accepted ++ [entry]).length
    rw [hhand, hlast]
  · show s.dispatched ++ [entry] = (accepted ++ [entry]).take (retired + 1 + s.worker.inHand)
    have hdispatched := h.dispatched
    rw [hhand, Nat.add_zero, hall, List.take_length] at hdispatched
    rw [hhand, Nat.add_zero, ← hlast, List.take_length, hdispatched]

theorem QueueFits.topHalf {base : Nat} (h : QueueFits c s accepted retired)
    (hring : RingFits c s base) :
    ∃ accepted' retired', QueueFits c (s.topHalf c) accepted' retired' := by
  have hfits := hring.top
  have hget : s.getWptr c = (s, s.hwWptr &&& c.ptrMask) := by
    rw [State.getWptr, hring.sound]
    rfl
  cases htop : s.top with
  | idle last =>
    simp only [State.topHalf, htop]
    exact ⟨accepted, retired, h⟩
  | entered =>
    simp only [State.topHalf, htop, hget]
    exact ⟨accepted, retired, h.frame rfl rfl (.inr ⟨trivial, htop ▸ trivial⟩)⟩
  | reread =>
    simp only [State.topHalf, htop, hget]
    exact ⟨accepted, retired, h.frame rfl rfl (.inr ⟨trivial, htop ▸ trivial⟩)⟩
  | outer wptr =>
    simp only [State.topHalf, htop]
    split
    · exact ⟨accepted, retired, h.frame rfl rfl (.inr ⟨trivial, htop ▸ trivial⟩)⟩
    · exact ⟨accepted, retired, h.frame rfl rfl (.inr ⟨trivial, htop ▸ trivial⟩)⟩
  | inner wptr =>
    simp only [State.topHalf, htop]
    split
    · split
      · exact ⟨accepted, retired, h.frame rfl rfl (.inr ⟨trivial, htop ▸ trivial⟩)⟩
      · exact ⟨accepted, retired, h.frame rfl rfl (.inr ⟨trivial, htop ▸ trivial⟩)⟩
    · exact ⟨accepted, retired, h.frame rfl rfl (.inr ⟨trivial, htop ▸ trivial⟩)⟩
  | decode wptr dw =>
    simp only [State.topHalf, htop]
    split
    · exact ⟨accepted, retired, h.frame rfl rfl (.inr ⟨trivial, htop ▸ trivial⟩)⟩
    · exact ⟨accepted, retired, h.frame rfl rfl (.inr ⟨trivial, htop ▸ trivial⟩)⟩
  | handle wptr entry =>
    rw [htop] at hfits
    have hplain : s.top.Plain := htop ▸ trivial
    simp only [State.topHalf, htop]
    by_cases hbh : c.useBh = true
    · rw [if_pos hbh]
      by_cases hfull : (s.ihQueueWptr + 1) % ihQueueEntryNum = s.ihQueueRptr
      · rw [if_pos hfull]
        obtain ⟨-, vector, hvector, -⟩ := hfits
        have hkept : kept s.written (s.outcomes ++ [false]) = kept s.written s.outcomes := by
          rw [kept_outcome false hvector, if_neg Bool.false_ne_true, List.append_nil]
        exact ⟨accepted, retired, h.frame rfl hkept (.inr ⟨trivial, hplain⟩)⟩
      · rw [if_neg hfull]
        exact ⟨accepted, retired, h.startCopy hplain hbh hfull⟩
    · rw [if_neg hbh]
      exact ⟨_, _, h.process hplain (Bool.eq_false_iff.mpr hbh) hfits.2⟩
  | copy wptr entry =>
    simp only [State.topHalf, htop]
    refine ⟨accepted, retired, h.scratch (htop ▸ trivial) entry _ ?_⟩
    intro wptr' put hput
    injection hput with _ hentry
    exact hentry.symm
  | copied wptr entry =>
    rw [htop] at hfits
    simp only [State.topHalf, htop]
    exact ⟨_, retired, h.put htop hfits.2⟩
  | queued wptr =>
    simp only [State.topHalf, htop]
    have hbh : c.useBh = true := h.viaQueue (htop ▸ fun hno => hno)
    refine ⟨accepted, retired, h.accepted_eq, h.holds, h.few, h.rptr, h.wptr, h.le, h.dispatched,
      h.running, fun hno => hno.elim, fun wptr' entry' hno => TopPc.noConfusion hno,
      fun _ hnone => Bool.noConfusion hnone, fun hdirect => ?_, fun hno => absurd trivial hno⟩
    rw [hbh] at hdirect
    cases hdirect
  | setRptr =>
    simp only [State.topHalf, htop]
    exact ⟨accepted, retired, h.frame rfl rfl (.inr ⟨trivial, htop ▸ trivial⟩)⟩

theorem QueueFits.next (h : QueueFits c s accepted retired) :
    (s.ihQueueRptr ≠ s.ihQueueWptr → ∃ hlt : retired < accepted.length,
        s.ihQueue s.ihQueueRptr = accepted[retired]) ∧
      (s.ihQueueRptr = s.ihQueueWptr → retired = accepted.length) := by
  have hle : retired ≤ accepted.length := Nat.le_trans (Nat.le_add_right _ _) h.le
  have hrptr : s.ihQueueRptr < 256 := h.rptr
  have hwptr : s.ihQueueWptr = (s.ihQueueRptr + (accepted.length - retired)) % 256 := h.wptr
  have hfew : accepted.length < retired + 256 := h.few
  constructor
  · intro hne
    have hlt : retired < accepted.length := by
      rcases Nat.eq_or_lt_of_le hle with hall | hlt
      · rw [hall, Nat.sub_self, Nat.add_zero, Nat.mod_eq_of_lt hrptr] at hwptr
        exact absurd hwptr.symm hne
      · exact hlt
    have hholds := h.holds
    rw [List.drop_eq_getElem_cons hlt] at hholds
    exact ⟨hlt, hholds.front hrptr⟩
  · intro heq
    omega

theorem QueueFits.bottomHalf (h : QueueFits c s accepted retired) :
    ∃ retired', QueueFits c s.bottomHalf accepted retired' := by
  cases hworker : s.worker with
  | idle =>
    simp only [State.bottomHalf, hworker]
    exact ⟨retired, h⟩
  | test =>
    have hdispatched := h.dispatched
    rw [hworker] at hdispatched
    have hbh : c.useBh = false → False := by
      intro hdirect
      have hidle := (h.direct hdirect).1
      rw [hworker] at hidle
      cases hidle
    simp only [State.bottomHalf, hworker]
    by_cases hne : s.ihQueueRptr ≠ s.ihQueueWptr
    · rw [if_pos hne]
      obtain ⟨hlt, hslot⟩ := h.next.1 hne
      refine ⟨retired, h.accepted_eq, h.holds, h.few, h.rptr, h.wptr, hlt, ?_, ?_, h.copying,
        h.copied, fun hno => WorkerPc.noConfusion hno, fun hno => (hbh hno).elim, h.viaQueue⟩
      · show s.dispatched ++ [s.ihQueue s.ihQueueRptr] = accepted.take (retired + 1)
        rw [hdispatched, hslot, List.take_succ_eq_append_getElem hlt]
        rfl
      · intro entry hrunning
        injection hrunning
    · rw [if_neg hne]
      have hall := h.next.2 (Decidable.not_not.mp hne)
      exact ⟨retired, h.accepted_eq, h.holds, h.few, h.rptr, h.wptr, Nat.le_of_eq hall,
        hdispatched, fun entry hno => WorkerPc.noConfusion hno, h.copying, h.copied,
        fun _ _ _ => hall, fun hno => (hbh hno).elim, h.viaQueue⟩
  | running entry =>
    have hdispatched := h.dispatched
    have hle := h.le
    rw [hworker] at hdispatched hle
    have hbh : c.useBh = false → False := by
      intro hdirect
      have hidle := (h.direct hdirect).1
      rw [hworker] at hidle
      cases hidle
    simp only [State.bottomHalf, hworker]
    exact ⟨retired, h.accepted_eq, h.holds, h.few, h.rptr, h.wptr, hle, hdispatched,
      fun entry hno => WorkerPc.noConfusion hno, h.copying, h.copied,
      fun hno => WorkerPc.noConfusion hno, fun hno => (hbh hno).elim, h.viaQueue⟩
  | advance =>
    have hdispatched := h.dispatched
    have hlt := h.le
    rw [hworker] at hdispatched hlt
    have hlt : retired < accepted.length := hlt
    have hbh : c.useBh = false → False := by
      intro hdirect
      have hidle := (h.direct hdirect).1
      rw [hworker] at hidle
      cases hidle
    have hholds := h.holds
    rw [List.drop_eq_getElem_cons hlt] at hholds
    have hfew : accepted.length < retired + 256 := h.few
    simp only [State.bottomHalf, hworker]
    refine ⟨retired + 1, h.accepted_eq, hholds.popFront, ?_, ?_, ?_, hlt, hdispatched,
      fun entry hno => WorkerPc.noConfusion hno, fun hcopying => ?_, h.copied,
      fun hno => WorkerPc.noConfusion hno, fun hno => (hbh hno).elim, h.viaQueue⟩
    · exact Nat.lt_succ_of_lt hfew
    · exact Nat.mod_lt _ (by decide)
    · show s.ihQueueWptr = ((s.ihQueueRptr + 1) % ihQueueEntryNum +
        (accepted.length - (retired + 1))) % ihQueueEntryNum
      rw [h.wptr, Nat.mod_add_mod]
      congr 1
      omega
    · have := h.copying hcopying
      omega

theorem QueueFits.startBh (h : QueueFits c s accepted retired) (hworker : s.worker = .idle)
    (hpending : s.bhPending = true) :
    QueueFits c { s with bhPending := false, worker := .test } accepted retired := by
  have hdispatched := h.dispatched
  have hle := h.le
  rw [hworker] at hdispatched hle
  refine ⟨h.accepted_eq, h.holds, h.few, h.rptr, h.wptr, hle, hdispatched,
    fun entry hno => WorkerPc.noConfusion hno, h.copying, h.copied,
    fun hno => WorkerPc.noConfusion hno, fun hdirect => ?_, h.viaQueue⟩
  have hnone := (h.direct hdirect).2
  rw [hpending] at hnone
  cases hnone

end Queue

/-- Both rings are in order, and every lost vector has been reported. -/
def InOrder (c : Config) (s : State) : Prop :=
  (∃ base, RingFits c s base) ∧ (∃ accepted retired, QueueFits c s accepted retired) ∧
    s.outcomes.count false = s.queueFullLogs

section Runs

variable {c : Config} {s t : State}

theorem topHalf_reports (h : s.outcomes.count false = s.queueFullLogs) :
    (s.topHalf c).outcomes.count false = (s.topHalf c).queueFullLogs := by
  cases htop : s.top with
  | entered =>
    simp only [State.topHalf, htop, State.getWptr]
    split <;> exact h
  | reread =>
    simp only [State.topHalf, htop, State.getWptr]
    split <;> exact h
  | handle wptr entry =>
    simp only [State.topHalf, htop]
    split
    · split
      · rw [List.count_append, h]
        rfl
      · exact h
    · rw [List.count_append, h]
      rfl
  | copied wptr entry =>
    simp only [State.topHalf, htop]
    rw [List.count_append, h]
    rfl
  | _ =>
    simp only [State.topHalf, htop]
    repeat' split
    all_goals exact h

theorem bottomHalf_reports (h : s.outcomes.count false = s.queueFullLogs) :
    s.bottomHalf.outcomes.count false = s.bottomHalf.queueFullLogs := by
  rw [State.bottomHalf]
  cases s.worker with
  | test =>
    dsimp only
    split <;> exact h
  | _ => exact h

theorem InOrder.step (h : InOrder c s) {label : Label} (hmeets : Meets c s label)
    (hstep : Step c s label t) : InOrder c t := by
  obtain ⟨⟨base, hring⟩, ⟨accepted, retired, hqueue⟩, hreports⟩ := h
  cases label with
  | hwWrite vector =>
    rw [← Option.some.inj hstep]
    have hopen : s.outcomes.length ≤ s.written.length :=
      Nat.le_trans (Nat.le_add_right _ _) hring.taken
    exact ⟨⟨base, hring.hwWrite hmeets vector⟩,
      ⟨accepted, retired, hqueue.frame rfl (kept_written vector hopen) (.inl rfl)⟩, hreports⟩
  | toggle enable =>
    rw [← Option.some.inj hstep]
    exact ⟨⟨base, hring.toggle enable⟩, ⟨accepted, retired, hqueue.frame rfl rfl (.inl rfl)⟩,
      hreports⟩
  | irq =>
    rw [Step, State.step] at hstep
    split at hstep
    · next last htop =>
      obtain ⟨hon, hoff⟩ := hring.irq htop
      split at hstep
      · next henabled =>
        rw [← Option.some.inj hstep]
        exact ⟨⟨base, hon⟩,
          ⟨accepted, retired, hqueue.frame rfl rfl (.inr ⟨trivial, htop ▸ trivial⟩)⟩, hreports⟩
      · next henabled =>
        rw [← Option.some.inj hstep]
        exact ⟨⟨base, hoff⟩, ⟨accepted, retired, hqueue.frame rfl rfl (.inl rfl)⟩,
          hreports⟩
    · cases hstep
  | topHalf =>
    rw [← Option.some.inj hstep]
    exact ⟨hring.topHalf, hqueue.topHalf hring, topHalf_reports hreports⟩
  | copyPart entry =>
    rw [Step, State.step] at hstep
    split at hstep
    · next wptr put htop =>
      have hcopying : s.top.Copying := htop ▸ trivial
      have hscratch := hqueue.scratch hcopying entry s.top
        fun wptr' put' hno => TopPc.noConfusion (htop.symm.trans hno)
      rw [← Option.some.inj hstep]
      exact ⟨⟨base, hring.frame rfl⟩, ⟨accepted, retired, hscratch⟩, hreports⟩
    · cases hstep
  | startBh =>
    rw [Step, State.step] at hstep
    split at hstep
    · next hworker =>
      split at hstep
      · next hpending =>
        rw [← Option.some.inj hstep]
        exact ⟨⟨base, hring.frame rfl⟩, ⟨accepted, retired, hqueue.startBh hworker hpending⟩,
          hreports⟩
      · cases hstep
    · cases hstep
  | bottomHalf =>
    rw [← Option.some.inj hstep]
    exact ⟨⟨base, hring.bottomHalf⟩, ⟨accepted, hqueue.bottomHalf⟩, bottomHalf_reports hreports⟩

theorem initial_inOrder (c : Config) : InOrder c initial := by
  have hfits : RingFits c initial 0 := by
    refine ⟨?_, ?_, ?_, Nat.le_refl 0, Nat.le_refl 0, ?_, rfl, ?_, fun _ => trivial, ?_, ?_⟩
    · exact (Nat.mul_zero 32).symm.trans (congrArg (32 * ·) (Nat.zero_mod c.entries).symm)
    · exact (Nat.mul_zero 32).symm.trans (congrArg (32 * ·) (Nat.zero_mod c.entries).symm)
    · exact (Nat.mul_zero 32).symm.trans (congrArg (32 * ·) (Nat.zero_mod c.entries).symm)
    · exact Nat.lt_of_lt_of_eq (entries_pos c) (Nat.zero_add _).symm
    · exact fun k vector hk => absurd hk.symm (Option.some_ne_none vector)
    · exact fun wptr hno => absurd hno.symm (Option.some_ne_none wptr)
    · exact fun _ _ => rfl
  refine ⟨⟨0, hfits⟩, ⟨[], 0, ?_⟩, rfl⟩
  exact ⟨rfl, CircularBuffer.holds_nil, by decide, by decide, rfl, Nat.le_refl 0, rfl,
    fun entry hno => WorkerPc.noConfusion hno, fun hno => hno.elim,
    fun wptr entry hno => TopPc.noConfusion hno, fun _ _ _ => rfl, fun _ => ⟨rfl, rfl⟩,
    fun hno => absurd trivial hno⟩

/-- Nothing is left to do: no interrupt waits or has been left without its handler, no bottom half is
asked for, and neither half is running. -/
structure Settled (s : State) : Prop where
  top : ∃ last, s.top = .idle last
  intr : s.intr = false
  attended : s.attended = true
  worker : s.worker = .idle
  bhPending : s.bhPending = false

/-- What is dispatched are the entries of the vectors in the order in which they were written, each
once, but for those that are reported lost. The slot that the bottom half looks at stays as it is, a
handler that is through has its read pointer at the write pointer that it read last, and when nothing
is left to do every vector has been dispatched or reported. -/
structure Once (s : State) : Prop where
  inOrder : s.dispatched <+: kept s.written s.outcomes
  taken : s.outcomes.length ≤ s.written.length
  reported : s.outcomes.count false = s.queueFullLogs
  notFull : s.queueFullLogs = 0 → s.dispatched <+: s.written.map decodeIv
  whole : ∀ entry, s.worker = .running entry → s.ihQueue s.ihQueueRptr = entry
  caught : ∀ wptr, s.top = .idle (some wptr) → s.rptr = wptr
  settled : Settled s → s.outcomes.length = s.written.length ∧
    s.dispatched = kept s.written s.outcomes ∧
    (s.queueFullLogs = 0 → s.dispatched = s.written.map decodeIv)

theorem InOrder.once (h : InOrder c s) : Once s := by
  obtain ⟨⟨base, hring⟩, ⟨accepted, retired, hqueue⟩, hreports⟩ := h
  have htaken : s.outcomes.length ≤ s.written.length :=
    Nat.le_trans (Nat.le_add_right _ _) hring.taken
  have hstarts : s.dispatched <+: kept s.written s.outcomes := by
    rw [hqueue.dispatched, ← hqueue.accepted_eq]
    exact List.take_prefix _ _
  have hall : s.queueFullLogs = 0 →
      kept s.written s.outcomes = (s.written.take s.outcomes.length).map decodeIv := by
    intro hnone
    apply kept_all
    intro outcome houtcome
    rw [← hreports] at hnone
    have hfalse := List.count_eq_zero.mp hnone
    cases outcome with
    | false => exact absurd houtcome hfalse
    | true => rfl
  refine ⟨hstarts, htaken, hreports, fun hnone => ?_, hqueue.running, fun wptr hidle => ?_,
    fun hsettled => ?_⟩
  · rw [hall hnone] at hstarts
    exact hstarts.trans ((List.take_prefix _ _).map decodeIv)
  · have hfits := hring.top
    rw [hidle] at hfits
    exact hfits.1 wptr rfl
  · obtain ⟨last, hidle⟩ := hsettled.top
    have hfits := hring.top
    rw [hidle] at hfits
    have hlength : s.outcomes.length = s.written.length := by
      have hdone := hfits.2 hsettled.attended hsettled.intr
      rw [State.taken, hidle] at hdone
      exact hdone
    have hretired : retired = accepted.length :=
      hqueue.asleep hsettled.worker hsettled.bhPending fun wptr hno =>
        TopPc.noConfusion (hidle.symm.trans hno)
    have hdispatched : s.dispatched = kept s.written s.outcomes := by
      rw [hqueue.dispatched, hsettled.worker, hretired, ← hqueue.accepted_eq]
      exact List.take_length
    refine ⟨hlength, hdispatched, fun hnone => ?_⟩
    rw [hdispatched, hall hnone, hlength, List.take_length]

/-- How far the handler is from its end, while there is nothing more to take. -/
def State.topRank (s : State) : Nat :=
  match s.top with
  | .idle _ => 0
  | .entered | .reread => 30
  | .outer _ => 29
  | .inner wptr => if s.rptr = wptr then 32 else 28
  | .decode _ dw => 27 - dw.length
  | .handle _ _ => 50
  | .copy _ _ => 49
  | .copied _ _ => 48
  | .queued _ => 47
  | .setRptr => 31

def State.workerRank (s : State) : Nat :=
  match s.worker with
  | .idle => 0
  | .test => 4
  | .running _ => 3
  | .advance => 2

def State.waiting (s : State) : Nat :=
  (kept s.written s.outcomes).length + s.worker.inHand - s.dispatched.length

def State.topWork (s : State) : Nat :=
  40 * (s.written.length - s.taken) + s.topRank + if s.intr then 31 else 0

def State.bottomWork (s : State) : Nat :=
  4 * s.waiting + s.workerRank + if s.bhPending then 8 else 0

/-- What both halves have left to do; what the handler does may add to the work of the other. -/
def State.work (s : State) : Nat := 20 * s.topWork + s.bottomWork

theorem QueueFits.dispatched_length {accepted : List IvEntry} {retired : Nat}
    (h : QueueFits c s accepted retired) :
    s.dispatched.length = retired + s.worker.inHand := by
  rw [h.dispatched, List.length_take]
  exact Nat.min_eq_left h.le

theorem RingFits.topHalf_work {base : Nat} (h : RingFits c s base) (hon : s.enabled = true)
    (hbusy : ∀ last, s.top ≠ .idle last) : (s.topHalf c).topWork < s.topWork := by
  have hfits := h.top
  have hget : s.getWptr c = (s, c.place s.written.length) := by
    rw [State.getWptr, h.sound, h.hwWptr, place_masked]
    rfl
  have hinner : ∀ wptr, (if s.rptr = wptr then 32 else 28) ≤ 32 := by
    intro wptr
    split <;> decide
  cases htop : s.top with
  | idle last => exact absurd htop (hbusy last)
  | entered =>
    simp only [State.topHalf, htop, hget, State.topWork, State.topRank, State.taken, TopPc.inHand]
    omega
  | reread =>
    simp only [State.topHalf, htop, hget, State.topWork, State.topRank, State.taken, TopPc.inHand]
    omega
  | outer wptr =>
    simp only [State.topHalf, htop]
    by_cases hne : wptr ≠ s.rptr
    · rw [if_pos hne]
      simp only [State.topWork, State.topRank, State.taken, TopPc.inHand, htop,
        if_neg (Ne.symm hne)]
      omega
    · rw [if_neg hne]
      simp only [State.topWork, State.topRank, State.taken, TopPc.inHand, htop]
      omega
  | inner wptr =>
    simp only [State.topHalf, htop]
    by_cases hne : s.rptr ≠ wptr
    · rw [if_pos hne, if_pos hon]
      simp only [State.topWork, State.topRank, State.taken, TopPc.inHand, htop, if_neg hne,
        List.length_nil]
      omega
    · rw [if_neg hne]
      simp only [State.topWork, State.topRank, State.taken, TopPc.inHand, htop,
        if_pos (Decidable.not_not.mp hne)]
      omega
  | decode wptr dw =>
    rw [htop] at hfits
    obtain ⟨hseen, hne, hlength, -⟩ := hfits
    have hpending := hseen.pending hne
    simp only [State.taken, htop, TopPc.inHand] at hpending
    simp only [State.topHalf, htop]
    split
    · simp only [State.topWork, State.topRank, State.taken, TopPc.inHand, htop,
        List.length_append, List.length_singleton]
      omega
    · simp only [State.topWork, State.topRank, State.taken, TopPc.inHand, htop]
      omega
  | handle wptr entry =>
    have hrank := hinner wptr
    simp only [State.topHalf, htop]
    split
    · split
      · simp only [State.topWork, State.topRank, State.taken, TopPc.inHand, htop,
          List.length_append, List.length_singleton]
        omega
      · simp only [State.topWork, State.topRank, State.taken, TopPc.inHand, htop]
        omega
    · simp only [State.topWork, State.topRank, State.taken, TopPc.inHand, htop,
        List.length_append, List.length_singleton]
      omega
  | copy wptr entry =>
    simp only [State.topHalf, State.topWork, State.topRank, State.taken, TopPc.inHand, htop]
    omega
  | copied wptr entry =>
    simp only [State.topHalf, State.topWork, State.topRank, State.taken, TopPc.inHand, htop,
      List.length_append, List.length_singleton]
    omega
  | queued wptr =>
    have hrank := hinner wptr
    simp only [State.topHalf, State.topWork, State.topRank, State.taken, TopPc.inHand, htop]
    omega
  | setRptr =>
    simp only [State.topHalf, State.topWork, State.topRank, State.taken, TopPc.inHand, htop]
    omega

theorem topHalf_bottomWork {base : Nat} (h : RingFits c s base) :
    (s.topHalf c).bottomWork ≤ s.bottomWork + 12 := by
  have hfits := h.top
  have hget : s.getWptr c = (s, c.place s.written.length) := by
    rw [State.getWptr, h.sound, h.hwWptr, place_masked]
    rfl
  cases htop : s.top with
  | entered =>
    simp only [State.topHalf, htop, hget]
    exact Nat.le_add_right _ 12
  | reread =>
    simp only [State.topHalf, htop, hget]
    exact Nat.le_add_right _ 12
  | handle wptr entry =>
    rw [htop] at hfits
    obtain ⟨-, vector, hvector, -⟩ := hfits
    have hlost := kept_outcome false hvector
    have hkept := kept_outcome true hvector
    rw [if_neg Bool.false_ne_true, List.append_nil] at hlost
    simp only [State.topHalf, htop]
    split
    · split
      · simp only [State.bottomWork, State.waiting, State.workerRank, hlost]
        omega
      · simp only [State.bottomWork, State.waiting, State.workerRank]
        omega
    · simp only [State.bottomWork, State.waiting, State.workerRank, hkept, if_true,
        List.length_append, List.length_singleton]
      omega
  | copied wptr entry =>
    rw [htop] at hfits
    obtain ⟨-, vector, hvector, -⟩ := hfits
    have hkept := kept_outcome true hvector
    simp only [State.topHalf, htop, State.bottomWork, State.waiting, State.workerRank, hkept,
      if_true, List.length_append, List.length_singleton]
    omega
  | queued wptr =>
    simp only [State.topHalf, htop, State.bottomWork, State.waiting, State.workerRank, if_true]
    omega
  | _ =>
    simp only [State.topHalf, htop]
    repeat' split
    all_goals exact Nat.le_add_right _ 12

theorem QueueFits.bottomHalf_work {accepted : List IvEntry} {retired : Nat}
    (h : QueueFits c s accepted retired) (hbusy : s.worker ≠ .idle) :
    s.bottomHalf.topWork = s.topWork ∧ s.bottomHalf.bottomWork < s.bottomWork := by
  have hlength := h.dispatched_length
  have hle := h.le
  have hkept := congrArg List.length h.accepted_eq
  cases hworker : s.worker with
  | idle => exact absurd hworker hbusy
  | test =>
    rw [hworker] at hlength hle
    simp only [WorkerPc.inHand] at hlength hle
    simp only [State.bottomHalf, hworker]
    split
    · refine ⟨rfl, ?_⟩
      simp only [State.bottomWork, State.waiting, State.workerRank, hworker, WorkerPc.inHand,
        List.length_append, List.length_singleton]
      omega
    · refine ⟨rfl, ?_⟩
      simp only [State.bottomWork, State.waiting, State.workerRank, hworker, WorkerPc.inHand]
      omega
  | running entry =>
    simp only [State.bottomHalf, hworker]
    refine ⟨rfl, ?_⟩
    simp only [State.bottomWork, State.waiting, State.workerRank, hworker, WorkerPc.inHand]
    omega
  | advance =>
    rw [hworker] at hlength hle
    simp only [WorkerPc.inHand] at hlength hle
    simp only [State.bottomHalf, hworker]
    refine ⟨rfl, ?_⟩
    simp only [State.bottomWork, State.waiting, State.workerRank, hworker, WorkerPc.inHand]
    omega

/-- Interrupts are on, and none has been left without its handler but one that waits. -/
structure Ready (s : State) : Prop where
  on : s.enabled = true
  attended : s.attended = true ∨ s.intr = true

structure Keeps (s t : State) : Prop where
  ready : Ready s → Ready t
  written : t.written = s.written

theorem topHalf_keeps : Keeps s (s.topHalf c) := by
  cases htop : s.top with
  | inner wptr =>
    simp only [State.topHalf, htop]
    split
    · split
      · exact ⟨fun h => ⟨h.on, h.attended⟩, rfl⟩
      · next hoff => exact ⟨fun h => absurd h.on hoff, rfl⟩
    · exact ⟨fun h => ⟨h.on, h.attended⟩, rfl⟩
  | entered =>
    simp only [State.topHalf, htop, State.getWptr]
    split <;> exact ⟨fun h => ⟨h.on, h.attended⟩, rfl⟩
  | reread =>
    simp only [State.topHalf, htop, State.getWptr]
    split <;> exact ⟨fun h => ⟨h.on, h.attended⟩, rfl⟩
  | _ =>
    simp only [State.topHalf, htop]
    repeat' split
    all_goals exact ⟨fun h => ⟨h.on, h.attended⟩, rfl⟩

theorem bottomHalf_keeps : Keeps s s.bottomHalf := by
  rw [State.bottomHalf]
  cases s.worker with
  | test =>
    dsimp only
    split <;> exact ⟨fun h => ⟨h.on, h.attended⟩, rfl⟩
  | _ => exact ⟨fun h => ⟨h.on, h.attended⟩, rfl⟩

theorem irq_entered {last : Option Nat} (htop : s.top = .idle last) (hon : s.enabled = true) :
    Step c s .irq { s with intr := false, attended := true, top := .entered } := by
  rw [Step, State.step]
  split
  · rw [if_pos hon]
  · next hno => exact absurd htop (hno last)

theorem InOrder.works (h : InOrder c s) (hready : Ready s) (hleft : ¬ Settled s) :
    ∃ label t, Meets c s label ∧ Step c s label t ∧ Keeps s t ∧ t.work < s.work := by
  obtain ⟨⟨base, hring⟩, ⟨accepted, retired, hqueue⟩, -⟩ := h
  by_cases hidle : ∃ last, s.top = .idle last
  · obtain ⟨last, htop⟩ := hidle
    by_cases hintr : s.intr = true
    · refine ⟨.irq, { s with intr := false, attended := true, top := .entered }, trivial,
        irq_entered htop hready.on, ⟨fun _ => ⟨hready.on, .inl rfl⟩, rfl⟩, ?_⟩
      simp only [State.work, State.topWork, State.topRank, State.taken, TopPc.inHand, htop, hintr,
        State.bottomWork, State.waiting, State.workerRank, if_true, Bool.false_eq_true, if_false]
      omega
    · by_cases hworker : s.worker = .idle
      · by_cases hpending : s.bhPending = true
        · have hstart : Step c s .startBh { s with bhPending := false, worker := .test } := by
            rw [Step, State.step]
            split
            · rw [if_pos hpending]
            · next hno => exact absurd hworker hno
          refine ⟨.startBh, _, trivial, hstart, ⟨fun h => ⟨h.on, h.attended⟩, rfl⟩, ?_⟩
          simp only [State.work, State.topWork, State.topRank, State.taken, TopPc.inHand, htop,
            State.bottomWork, State.waiting, State.workerRank, hpending, hworker, if_true,
            Bool.false_eq_true, if_false, WorkerPc.inHand]
          omega
        · exact absurd ⟨⟨last, htop⟩, Bool.eq_false_iff.mpr hintr,
            hready.attended.resolve_right hintr, hworker, Bool.eq_false_iff.mpr hpending⟩ hleft
      · obtain ⟨htopWork, hbottomWork⟩ := hqueue.bottomHalf_work hworker
        refine ⟨.bottomHalf, s.bottomHalf, trivial, rfl, bottomHalf_keeps, ?_⟩
        rw [State.work, State.work, htopWork]
        omega
  · have hbusy : ∀ last, s.top ≠ .idle last := fun last htop => hidle ⟨last, htop⟩
    have htopWork := hring.topHalf_work hready.on hbusy
    have hbottomWork := topHalf_bottomWork hring
    refine ⟨.topHalf, s.topHalf c, trivial, rfl, topHalf_keeps, ?_⟩
    rw [State.work, State.work]
    omega

theorem InOrder.drains : ∀ (work : Nat) {s : State}, s.work = work → InOrder c s →
    Ready s →
    ∃ labels t, Path (Step c) (Meets c) s labels t ∧ Settled t ∧ t.written = s.written := by
  intro work
  induction work using Nat.strongRecOn with
  | ind work ih =>
    intro s hwork h hready
    by_cases hsettled : Settled s
    · exact ⟨[], s, .nil s, hsettled, rfl⟩
    · obtain ⟨label, t, hmeets, hstep, hkeeps, hless⟩ := h.works hready hsettled
      obtain ⟨labels, last, hpath, hlast, hwritten⟩ :=
        ih t.work (hwork ▸ hless) rfl (h.step hmeets hstep) (hkeeps.ready hready)
      exact ⟨label :: labels, last, .cons hmeets hstep hpath, hlast,
        hwritten.trans hkeeps.written⟩

/-- Over all runs in which the hardware never writes into a full ring; and with interrupts on what is
left to do can always be done, unless an interrupt was left without its handler and none has come
since. -/
theorem vectors_once (c : Config) : ∀ s, Run Initial (Step c) (Meets c) s →
    Once s ∧ (Ready s →
      ∃ labels t, Path (Step c) (Meets c) s labels t ∧ Settled t ∧ t.written = s.written) := by
  intro s run
  have hinOrder : InOrder c s := run.invariant (InOrder c)
    (fun s first => (show s = initial from first) ▸ initial_inOrder c)
    fun before label after h hmeets hstep => h.step hmeets hstep
  exact ⟨hinOrder.once, hinOrder.drains s.work rfl⟩

end Runs

section Examples

theorem ring64k_vector : 3 ≤ 14 := by decide

theorem ring64k_small : 14 < 29 := by decide

/-- The ring that `amdgv_irqmgr` asks for, of 64 KB, with a bottom half. -/
def ring64k : Config := ⟨14, ring64k_vector, ring64k_small, true⟩

/-- A ring with four places, of which one stays empty. -/
def ring128 : Config := ⟨5, by decide, by decide, true⟩

def vectorOf (n : Nat) : Nat → BitVec 32 := fun i => BitVec.ofNat 32 (n + i)

/-- Two rounds of vectors that go round the ring: in the first, interrupts are off when the first one
comes; in the second, a vector comes while the handler runs. -/
def rounds : List Label :=
  [(1, .toggle false), (1, .hwWrite (vectorOf 1)), (1, .irq), (1, .toggle true),
    (1, .hwWrite (vectorOf 2)), (1, .irq), (40, .topHalf), (1, .startBh), (7, .bottomHalf),
    (1, .hwWrite (vectorOf 3)), (1, .hwWrite (vectorOf 4)), (1, .irq), (20, .topHalf),
    (1, .hwWrite (vectorOf 5)), (40, .topHalf), (1, .startBh), (10, .bottomHalf), (1, .irq),
    (2, .topHalf)].flatMap fun (count, label) => List.replicate count label

/-- In both rounds every vector is dispatched. -/
theorem vectors_once_rounds : ∃ s, rounds.foldlM
      (fun s label => if Meets ring128 s label then s.step ring128 label else none) initial =
        some s ∧ Once s ∧ Settled s ∧
      s.dispatched = [1, 2, 3, 4, 5].map fun n => decodeIv (vectorOf n) := by
  have hends : ((rounds.foldlM (fun s label =>
      if Meets ring128 s label then s.step ring128 label else none) initial).map fun s =>
        ((s.top, s.worker), (s.intr, s.attended, s.bhPending), s.dispatched)) =
      some ((.idle (some 32), .idle), (false, true, false),
        [1, 2, 3, 4, 5].map fun n => decodeIv (vectorOf n)) := by
    decide +kernel
  obtain ⟨s, hs, hlast⟩ := Option.map_eq_some_iff.mp hends
  simp only [Prod.mk.injEq] at hlast
  obtain ⟨⟨htop, hworker⟩, ⟨hintr, hattended, hpending⟩, hdispatched⟩ := hlast
  have run : Run Initial (Step ring128) (Meets ring128) s := .followMet rounds (.start rfl) hs
  exact ⟨s, hs, (vectors_once ring128 s run).1, ⟨⟨_, htop⟩, hintr, hattended, hworker, hpending⟩,
    hdispatched⟩

structure Unread (k : Nat) (s : State) : Prop where
  run : Run Initial (Step ring64k) always s
  hwWptr : s.hwWptr = 32 * k
  hwRptr : s.hwRptr = 0
  top : s.top = .idle none
  worker : s.worker = .idle
  bhPending : s.bhPending = false
  enabled : s.enabled = true
  attended : s.attended = true
  written : s.written.length = k
  outcomes : s.outcomes = []

theorem ring64k_size : ring64k.ringSize = 65536 := by decide

theorem unread : ∀ k < 2048, ∃ s, Unread k s
  | 0, _ => ⟨initial, .start rfl, rfl, rfl, rfl, rfl, rfl, rfl, rfl, rfl, rfl⟩
  | k + 1, hk =>
    have ⟨s, h⟩ := unread k (Nat.lt_of_succ_lt hk)
    have hwrap : (32 * k + 32) % 65536 = 32 * (k + 1) := by omega
    ⟨s.hwWrite ring64k fun _ => 0, .next (.hwWrite fun _ => 0) h.run trivial rfl,
      show (s.hwWptr + 32) % ring64k.ringSize = 32 * (k + 1) by
        rw [h.hwWptr, ring64k_size, hwrap],
      h.hwRptr, h.top, h.worker, h.bhPending, h.enabled, h.attended,
      show (s.written ++ [_]).length = k + 1 by rw [List.length_append, h.written]; rfl,
      h.outcomes⟩

theorem overflow_drops {c : Config} {s : State} (htop : s.top = .entered)
    (hoverflow : s.rbOverflow = true) :
    (s.topHalf c).topHalf c =
      { s with
        rptr := s.hwWptr &&& c.ptrMask
        hwRptr := s.hwWptr &&& c.ptrMask
        rbOverflow := false
        top := .idle (some (s.hwWptr &&& c.ptrMask)) } := by
  have hread : s.topHalf c =
      { s with
        rptr := s.hwWptr &&& c.ptrMask
        hwRptr := s.hwWptr &&& c.ptrMask
        rbOverflow := false
        top := .outer (s.hwWptr &&& c.ptrMask) } := by
    simp only [State.topHalf, htop, State.getWptr, hoverflow, if_true]
  rw [hread]
  exact if_neg (fun hne => hne rfl)

/-- A ring that overflows: nothing of it is dispatched or reported lost. -/
theorem vectors_overflow : ¬ ∀ s, Run Initial (Step ring64k) always s → Once s := by
  intro hall
  obtain ⟨s, h⟩ := unread 2047 (by decide)
  have hfull : ¬ s.HasRoom ring64k := by
    rw [State.HasRoom, h.hwWptr, h.hwRptr, ring64k_size]
    decide
  have hwritten : Run Initial (Step ring64k) always (s.hwWrite ring64k fun _ => 0) :=
    .next (.hwWrite fun _ => 0) h.run trivial rfl
  have hoverflow : (s.hwWrite ring64k fun _ => 0).rbOverflow = true := by
    show (s.rbOverflow || !decide (s.HasRoom ring64k)) = true
    rw [decide_eq_false hfull, Bool.not_false, Bool.or_true]
  generalize hfilled : (s.hwWrite ring64k fun _ => 0) = filled at hwritten hoverflow
  have htop : filled.top = .idle none := hfilled ▸ h.top
  have hon : filled.enabled = true := hfilled ▸ h.enabled
  have hentered := hwritten.next Label.irq trivial (irq_entered htop hon)
  have hread := hentered.next Label.topHalf trivial rfl
  have hleft := hread.next Label.topHalf trivial rfl
  have hdrops := overflow_drops (c := ring64k)
    (s := { filled with intr := false, attended := true, top := .entered }) rfl hoverflow
  rw [hdrops] at hleft
  have hsettled := (hall _ hleft).settled
    ⟨⟨_, rfl⟩, rfl, rfl, hfilled ▸ h.worker, hfilled ▸ h.bhPending⟩
  have hlength : filled.written.length = 2048 := by
    rw [← hfilled]
    show (s.written ++ [_]).length = 2048
    rw [List.length_append, h.written]
    rfl
  have houtcomes : filled.outcomes = [] := hfilled ▸ h.outcomes
  have hnone : filled.outcomes.length = filled.written.length := hsettled.1
  rw [hlength, houtcomes] at hnone
  cases hnone

end Examples

end MxGpu.Ih
