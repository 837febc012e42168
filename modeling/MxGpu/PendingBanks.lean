import MxGpu.RasUmc

/- Error banks that wait while the GPU is reset, and are logged after it (`rascore/ras_umc.c`). -/
namespace MxGpu.Ras.PendingBanks

open Transition List

structure BankEcc where
  timestamp : Nat
  nps : Nat
  seqNo : Nat
  status : Nat
  ipid : Nat
  addr : Nat
  deriving DecidableEq

/-- What logging a bank meets: `bank_to_eeprom_record` of the IP version, what adding its record
meets, and whether the notification of a new bad page succeeds. -/
structure LogEnv where
  toRecord : BankEcc → Option UmcRecord
  umc : UmcEnv
  notified : Bool

def bankToUmcRecord (env : LogEnv) (bank : BankEcc) : Option UmcRecord :=
  (env.toRecord bank).map fun record => { record with ipid := bank.ipid }

/-- `valid_sz` of `ras_umc_add_bad_pages` on one record, if it succeeds, is not zero. -/
def countsValid (env : UmcEnv) (cache : UmcCache) (record : UmcRecord) : Bool :=
  (checkRetiredRecord env cache record).isSome

/-- `ras_umc_log_bad_bank`, with whether it succeeds. -/
def logBadBank (env : LogEnv) (cache : UmcCache) (bank : BankEcc) : Bool × UmcCache :=
  match bankToUmcRecord env bank with
  | none => (false, cache)
  | some record =>
    let added := addBadPages env.umc cache [record]
    (added.1 && (!countsValid env.umc cache record || env.notified), added.2)

/-- A bank on the list, with the number of banks that came before it. -/
structure EccNode where
  arrival : Nat
  ecc : BankEcc
  deriving DecidableEq

/-- A call of `ras_umc_log_bad_bank` for a bank of the list: in which round of
`ras_umc_log_pending_bad_bank`, whether it succeeded, and the row of the bank in the mode then. -/
structure Attempt where
  round : Nat
  node : EccNode
  success : Bool
  row : Option Nat

def bankRow (env : LogEnv) (bank : BankEcc) : Option Nat :=
  ((bankToUmcRecord env bank).bind fun record => recordToNpsRecord env.umc record env.umc.nps).map
    UmcRecord.curNpsRetiredRowPfn

/-- The list with its lock: while a round has it, `visiting` is what the round has yet to visit.
`arrived` counts the banks that came, `round` the rounds, and `began` is `arrived` as the last round
found it. -/
structure Sys where
  pendingEccList : List EccNode
  visiting : Option (List EccNode)
  cache : UmcCache
  arrived : Nat
  round : Nat
  began : Nat
  attempts : List Attempt

inductive Action
  /-- `ras_umc_log_bad_bank_pending`, with memory or not -/
  | pend (bank : BankEcc) (memory : Bool)
  /-- `ras_umc_log_pending_bad_bank` takes the lock -/
  | begin
  /-- it logs the next bank -/
  | log (env : LogEnv)
  /-- it gives the lock back -/
  | finish
  /-- another caller of `ras_umc_log_bad_bank` -/
  | other (env : LogEnv) (bank : BankEcc)

def next (s : Sys) : Action → Option Sys
  | .pend bank memory =>
    if !memory then some s
    else
      match s.visiting with
      | some _ => none
      | none => some { s with
          pendingEccList := s.pendingEccList ++ [⟨s.arrived, bank⟩]
          arrived := s.arrived + 1 }
  | .begin =>
    match s.visiting with
    | some _ => none
    | none => some { s with
        visiting := some s.pendingEccList
        round := s.round + 1
        began := s.arrived }
  | .log env =>
    match s.visiting with
    | some (node :: rest) =>
      let logged := logBadBank env s.cache node.ecc
      some { s with
        pendingEccList := if logged.1 then s.pendingEccList.erase node else s.pendingEccList
        visiting := some rest
        cache := logged.2
        attempts := s.attempts ++ [⟨s.round, node, logged.1, bankRow env node.ecc⟩] }
    | _ => none
  | .finish =>
    match s.visiting with
    | some [] => some { s with visiting := none }
    | _ => none
  | .other env bank => some { s with cache := (logBadBank env s.cache bank).2 }

/-- Nothing is pending, and every row in the cache is there once and in the tree. -/
structure Start (s : Sys) : Prop where
  empty : s.pendingEccList = [] ∧ s.visiting = none ∧ s.attempts = []
  count : s.arrived = 0 ∧ s.began = 0
  keyed : Keyed s.cache

/-- Every bank is logged once, and in its turn. -/
structure ExactlyOnce (s : Sys) : Prop where
  /-- a bank is on the list until it is logged -/
  left : ∀ arrival < s.arrived, (∃ node ∈ s.pendingEccList, node.arrival = arrival) ∨
    ∃ attempt ∈ s.attempts, attempt.node.arrival = arrival ∧ attempt.success = true
  /-- its row is then in the cache and in the tree -/
  logged : ∀ attempt ∈ s.attempts, attempt.success = true →
    ∃ row, attempt.row = some row ∧ row ∈ s.cache.logged ∧ row ∈ rows s.cache.rom
  /-- where each row is once -/
  rows : (rows s.cache.rom).Nodup
  /-- it is not logged again -/
  never : s.attempts.Pairwise fun earlier later =>
    earlier.success = true → earlier.node.arrival ≠ later.node.arrival
  /-- a round logs the banks as they came -/
  order : s.attempts.Pairwise fun earlier later =>
    earlier.round = later.round → earlier.node.arrival < later.node.arrival
  /-- and every bank that came before it and is still there has had its turn or will have it -/
  turn : ∀ node ∈ s.pendingEccList, node.arrival < s.began →
    (∃ attempt ∈ s.attempts, attempt.round = s.round ∧ attempt.node = node) ∨
      node ∈ s.visiting.getD []

/-- The record that adding one record puts into `rom_data`. -/
def appended (env : UmcEnv) (cache : UmcCache) (record : UmcRecord) : Option UmcRecord :=
  if env.rows then
    ((checkRetiredRecord env cache record).bind (convertRecordToRowPages env)).filter fun row =>
      env.rom row
  else none

/-- A record that goes into `rom_data` is of a row that has no record there. -/
def Fresh (env : LogEnv) (cache : UmcCache) (bank : BankEcc) : Prop :=
  ∀ record ∈ bankToUmcRecord env bank, ∀ row ∈ appended env.umc cache record,
    row.curNpsRetiredRowPfn ∉ rows cache.rom

/-- The record of a bank is known in the current mode, when it comes to that. -/
def Translates (env : LogEnv) (bank : BankEcc) : Prop :=
  ∀ record ∈ bankToUmcRecord env bank, env.umc.rows = true →
    recordToNpsRecord env.umc record env.umc.nps ≠ none

def Meets (s : Sys) : Action → Prop
  | .log env => ∀ node ∈ (s.visiting.getD []).head?,
      Translates env node.ecc ∧ Fresh env s.cache node.ecc
  | .other env bank => Fresh env s.cache bank
  | _ => True

instance (env : LogEnv) (cache : UmcCache) (bank : BankEcc) : Decidable (Fresh env cache bank) :=
  inferInstanceAs (Decidable (∀ _ ∈ _, ∀ _ ∈ _, _))

instance (env : LogEnv) (bank : BankEcc) : Decidable (Translates env bank) :=
  inferInstanceAs (Decidable (∀ _ ∈ _, _ → _))

instance (s : Sys) : (action : Action) → Decidable (Meets s action)
  | .pend _ _ => .isTrue trivial
  | .begin => .isTrue trivial
  | .log _ => inferInstanceAs (Decidable (∀ _ ∈ _, _ ∧ _))
  | .finish => .isTrue trivial
  | .other env bank => inferInstanceAs (Decidable (Fresh env s.cache bank))

section Logging

variable {env : UmcEnv} {cache : UmcCache} {record : UmcRecord}

/-- What adding one record does. -/
inductive Adds (env : UmcEnv) (cache : UmcCache) (record : UmcRecord) : Bool × UmcCache → Prop
  | refused (nothing : appended env cache record = none) : Adds env cache record (false, cache)
  | untranslated (memory : env.rows = true) (missing : recordToNpsRecord env record env.nps = none)
      (nothing : appended env cache record = none) : Adds env cache record (true, cache)
  | known {checked : UmcRecord} (translated : recordToNpsRecord env record env.nps = some checked)
      (old : checked.curNpsRetiredRowPfn ∈ cache.logged)
      (nothing : appended env cache record = none) : Adds env cache record (true, cache)
  | cached {row : UmcRecord} (new : appended env cache record = some row) :
      Adds env cache record (false, { cache with rom := cache.rom ++ [row] })
  | entered {row : UmcRecord} (success : Bool) (new : appended env cache record = some row)
      (translated : recordToNpsRecord env record env.nps = some row) :
      Adds env cache record
        (success, ⟨cache.rom ++ [row], row.curNpsRetiredRowPfn :: cache.logged⟩)

theorem addBadPages_adds (env : UmcEnv) (cache : UmcCache) (record : UmcRecord) :
    Adds env cache record (addBadPages env cache [record]) := by
  unfold addBadPages
  cases memory : env.rows with
  | false =>
    rw [if_pos (.inr rfl)]
    exact .refused (by simp [appended, memory])
  | true =>
    rw [if_neg (by simp)]
    unfold addLoop
    cases checks : checkRetiredRecord env cache record with
    | none =>
      have nothing : appended env cache record = none := by simp [appended, checks]
      cases translated : recordToNpsRecord env record env.nps with
      | none => exact .untranslated memory translated nothing
      | some checked =>
        refine .known translated ?_ nothing
        simpa [checkRetiredRecord, translated] using checks
    | some checked =>
      simp only
      cases converts : convertRecordToRowPages env checked with
      | none =>
        have nothing : appended env cache record = none := by simp [appended, checks, converts]
        exact .refused nothing
      | some row =>
        obtain ⟨rfl, new⟩ := convertRecordToRowPages_some checks converts
        have translated := (Option.filter_eq_some_iff.mp checks).1
        simp only [new, decide_false, Bool.or_false]
        cases rom : env.rom row with
        | false =>
          have nothing : appended env cache record = none := by
            simp [appended, checks, converts, rom]
          exact .refused nothing
        | true =>
          have appends : appended env cache record = some row := by
            simp [appended, memory, checks, converts, rom]
          cases env.log row with
          | false => exact .cached appends
          | true =>
            cases env.ram row with
            | false => exact .entered false appends translated
            | true => exact .entered true appends translated

structure Grows (cache after : UmcCache) : Prop where
  logged : ∀ row ∈ cache.logged, row ∈ after.logged
  rom : ∀ row ∈ rows cache.rom, row ∈ rows after.rom

theorem Grows.refl (cache : UmcCache) : Grows cache cache :=
  ⟨fun _ listed => listed, fun _ listed => listed⟩

theorem rows_snoc (records : List UmcRecord) (row : UmcRecord) :
    rows (records ++ [row]) = rows records ++ [row.curNpsRetiredRowPfn] := by
  unfold rows
  rw [map_append]
  rfl

theorem nodup_snoc {records : List UmcRecord} (nodup : (rows records).Nodup) (row : UmcRecord) :
    (rows (records ++ [row])).Nodup ↔ row.curNpsRetiredRowPfn ∉ rows records := by
  rw [rows_snoc, nodup_append]
  simp only [nodup, nodup_singleton, mem_singleton, true_and, ne_eq]
  constructor
  · intro apart there
    exact apart _ there _ rfl rfl
  · rintro new _ there _ rfl same
    exact new (same ▸ there)

structure Added (env : UmcEnv) (cache : UmcCache) (record : UmcRecord) (success : Bool)
    (after : UmcCache) : Prop where
  grows : Grows cache after
  inside : ∀ row ∈ after.logged, row ∈ rows after.rom
  nodup : (rows cache.rom).Nodup → ((rows after.rom).Nodup ↔
    ∀ row ∈ appended env cache record, row.curNpsRetiredRowPfn ∉ rows cache.rom)
  logged : success = true →
    ((∃ row, recordToNpsRecord env record env.nps = some row ∧
        row.curNpsRetiredRowPfn ∈ after.logged) ↔
      (env.rows = true → recordToNpsRecord env record env.nps ≠ none))

theorem Adds.added {success : Bool} {after : UmcCache}
    (adds : Adds env cache record (success, after))
    (inside : ∀ row ∈ cache.logged, row ∈ rows cache.rom) :
    Added env cache record success after := by
  cases adds with
  | refused nothing =>
    exact ⟨.refl cache, inside, fun nodup => by simpa [nothing] using nodup, nofun⟩
  | untranslated memory missing nothing =>
    refine ⟨.refl cache, inside, fun nodup => by simpa [nothing] using nodup, fun _ => ?_⟩
    simp [missing, memory]
  | known translated old nothing =>
    refine ⟨.refl cache, inside, fun nodup => by simpa [nothing] using nodup, fun _ => ?_⟩
    simp [translated, old]
  | @cached row new =>
    refine ⟨⟨fun _ listed => listed, fun other listed => ?_⟩, fun other listed => ?_,
      fun nodup => ?_, nofun⟩
    · rw [rows_snoc]
      exact mem_append_left _ listed
    · rw [rows_snoc]
      exact mem_append_left _ (inside other listed)
    · rw [nodup_snoc nodup, new]
      simp
  | @entered row success new translated =>
    refine ⟨⟨fun _ listed => mem_cons_of_mem _ listed, fun other listed => ?_⟩,
      fun other listed => ?_, fun nodup => ?_, fun _ => ?_⟩
    · rw [rows_snoc]
      exact mem_append_left _ listed
    · rw [rows_snoc, mem_append, mem_singleton]
      rcases mem_cons.mp listed with same | old
      · exact .inr same
      · exact .inl (inside other old)
    · rw [nodup_snoc nodup, new]
      simp
    · simp [translated]

end Logging

section Calls

variable {env : LogEnv} {cache : UmcCache} {bank : BankEcc}

/-- What a call of `ras_umc_log_bad_bank` does to the cache. -/
structure Logged (env : LogEnv) (cache : UmcCache) (bank : BankEcc) (success : Bool)
    (after : UmcCache) : Prop where
  grows : Grows cache after
  inside : ∀ row ∈ after.logged, row ∈ rows after.rom
  nodup : (rows cache.rom).Nodup → ((rows after.rom).Nodup ↔ Fresh env cache bank)
  logged : success = true →
    ((∃ row, bankRow env bank = some row ∧ row ∈ after.logged) ↔ Translates env bank)

theorem logBadBank_logged (env : LogEnv) (bank : BankEcc)
    (inside : ∀ row ∈ cache.logged, row ∈ rows cache.rom) :
    Logged env cache bank (logBadBank env cache bank).1 (logBadBank env cache bank).2 := by
  unfold logBadBank
  cases converts : bankToUmcRecord env bank with
  | none =>
    exact ⟨.refl cache, inside, fun nodup => by simpa [Fresh, converts] using nodup, nofun⟩
  | some record =>
    have added : Added env.umc cache record (addBadPages env.umc cache [record]).1
        (addBadPages env.umc cache [record]).2 :=
      Adds.added (addBadPages_adds env.umc cache record) inside
    refine ⟨added.grows, added.inside, fun nodup => (added.nodup nodup).trans ?_,
      fun success => ?_⟩
    · simp [Fresh, converts]
    · have exact_ := added.logged (Bool.and_eq_true_iff.mp success).1
      unfold bankRow Translates
      simpa [converts] using exact_

theorem logBadBank_untranslated (cache : UmcCache) (lost : ¬ Translates env bank) :
    (logBadBank env cache bank).1 = true := by
  unfold Translates at lost
  simp only [Option.mem_def, ne_eq, Classical.not_forall, Classical.not_not] at lost
  obtain ⟨record, converts, memory, missing⟩ := lost
  have skipped : checkRetiredRecord env.umc cache record = none := by
    simp [checkRetiredRecord, missing]
  simp [logBadBank, converts, addBadPages, memory, addLoop, skipped, countsValid]

end Calls

section Rounds

variable {s s' : Sys}

structure Inv (s : Sys) : Prop where
  /-- the banks are in the order in which they came -/
  sorted : s.pendingEccList.Pairwise fun earlier later => earlier.arrival < later.arrival
  numbered : ∀ node ∈ s.pendingEccList, node.arrival < s.arrived
  /-- a round has visited the front of the list -/
  rest : ∃ front, s.pendingEccList = front ++ s.visiting.getD []
  began : ∀ node ∈ s.visiting.getD [], node.arrival < s.began
  started : s.began ≤ s.arrived
  tried : ∀ attempt ∈ s.attempts, attempt.round ≤ s.round ∧ attempt.node.arrival < s.arrived
  /-- the round comes to no bank twice, and to none behind -/
  ahead : ∀ attempt ∈ s.attempts, attempt.round = s.round →
    ∀ node ∈ s.visiting.getD [], attempt.node.arrival < node.arrival
  gone : ∀ attempt ∈ s.attempts, attempt.success = true →
    ∀ node ∈ s.pendingEccList, node.arrival ≠ attempt.node.arrival
  inside : ∀ row ∈ s.cache.logged, row ∈ rows s.cache.rom
  left : ∀ arrival < s.arrived, (∃ node ∈ s.pendingEccList, node.arrival = arrival) ∨
    ∃ attempt ∈ s.attempts, attempt.node.arrival = arrival ∧ attempt.success = true
  never : s.attempts.Pairwise fun earlier later =>
    earlier.success = true → earlier.node.arrival ≠ later.node.arrival
  order : s.attempts.Pairwise fun earlier later =>
    earlier.round = later.round → earlier.node.arrival < later.node.arrival
  turn : ∀ node ∈ s.pendingEccList, node.arrival < s.began →
    (∃ attempt ∈ s.attempts, attempt.round = s.round ∧ attempt.node = node) ∨
      node ∈ s.visiting.getD []

theorem Start.inv (start : Start s) : Inv s := by
  obtain ⟨list, visiting, attempts⟩ := start.empty
  obtain ⟨arrived, began⟩ := start.count
  constructor
  case inside => exact fun row listed => (start.keyed.logged row).mp listed
  case rest => exact ⟨[], by simp [list, visiting]⟩
  case started => omega
  all_goals simp [list, visiting, attempts, arrived]

theorem Inv.pend (inv : Inv s) (free : s.visiting = none) (bank : BankEcc) :
    Inv { s with
      pendingEccList := s.pendingEccList ++ [⟨s.arrived, bank⟩]
      arrived := s.arrived + 1 } := by
  constructor
  case sorted =>
    rw [pairwise_append]
    refine ⟨inv.sorted, pairwise_singleton _ _, ?_⟩
    intro node listed new same
    rw [mem_singleton.mp same]
    exact inv.numbered node listed
  case numbered =>
    intro node listed
    rcases mem_append.mp listed with old | new
    · exact Nat.lt_succ_of_lt (inv.numbered node old)
    · rw [mem_singleton.mp new]
      exact Nat.lt_succ_self _
  case rest => exact ⟨_, by simp only [free, Option.getD_none, append_nil]; rfl⟩
  case began => exact inv.began
  case started => exact Nat.le_succ_of_le inv.started
  case tried =>
    intro attempt made
    obtain ⟨round, before⟩ := inv.tried attempt made
    exact ⟨round, Nat.lt_succ_of_lt before⟩
  case ahead => exact inv.ahead
  case gone =>
    intro attempt made success node listed
    rcases mem_append.mp listed with old | new
    · exact inv.gone attempt made success node old
    · have before := (inv.tried attempt made).2
      rw [mem_singleton.mp new]
      exact Nat.ne_of_gt before
  case inside => exact inv.inside
  case left =>
    intro arrival before
    rcases Nat.lt_succ_iff_lt_or_eq.mp before with old | rfl
    · rcases inv.left arrival old with ⟨node, listed, same⟩ | logged
      · exact .inl ⟨node, mem_append_left _ listed, same⟩
      · exact .inr logged
    · exact .inl ⟨_, mem_append_right _ (mem_singleton.mpr rfl), rfl⟩
  case never => exact inv.never
  case order => exact inv.order
  case turn =>
    intro node listed early
    rcases mem_append.mp listed with old | new
    · exact inv.turn node old early
    · rw [mem_singleton.mp new] at early
      exact absurd inv.started (Nat.not_le_of_lt early)

theorem Inv.begin (inv : Inv s) :
    Inv { s with
      visiting := some s.pendingEccList
      round := s.round + 1
      began := s.arrived } := by
  constructor
  case sorted => exact inv.sorted
  case numbered => exact inv.numbered
  case rest => exact ⟨[], rfl⟩
  case began => exact inv.numbered
  case started => exact Nat.le_refl _
  case tried =>
    intro attempt made
    obtain ⟨round, before⟩ := inv.tried attempt made
    exact ⟨Nat.le_succ_of_le round, before⟩
  case ahead =>
    intro attempt made now
    have round := (inv.tried attempt made).1
    exact absurd now (Nat.ne_of_lt (Nat.lt_succ_of_le round))
  case gone => exact inv.gone
  case inside => exact inv.inside
  case left => exact inv.left
  case never => exact inv.never
  case order => exact inv.order
  case turn => exact fun node listed _ => .inr listed

theorem Inv.erase (inv : Inv s) {node : EccNode} {rest : List EccNode}
    (visiting : s.visiting = some (node :: rest)) :
    ∃ front, s.pendingEccList = front ++ node :: rest ∧
      s.pendingEccList.erase node = front ++ rest ∧
      (∀ other ∈ front ++ rest, other.arrival ≠ node.arrival) ∧
      ∀ later ∈ rest, node.arrival < later.arrival := by
  obtain ⟨front, split⟩ := inv.rest
  rw [visiting, Option.getD_some] at split
  have sorted := inv.sorted
  rw [split, pairwise_append, pairwise_cons] at sorted
  obtain ⟨-, ⟨behind, -⟩, before⟩ := sorted
  have apart : node ∉ front := by
    intro there
    exact absurd (before node there node (mem_cons_self ..)) (Nat.lt_irrefl _)
  refine ⟨front, split, ?_, ?_, behind⟩
  · rw [split, erase_append_right _ apart, erase_cons_head]
  · intro other listed
    rcases mem_append.mp listed with early | late
    · exact Nat.ne_of_lt (before other early node (mem_cons_self ..))
    · exact Nat.ne_of_gt (behind other late)

theorem Inv.log (inv : Inv s) {node : EccNode} {rest : List EccNode}
    (visiting : s.visiting = some (node :: rest)) (success : Bool) {after : UmcCache}
    (inside : ∀ row ∈ after.logged, row ∈ rows after.rom) (row : Option Nat) :
    Inv { s with
      pendingEccList := if success then s.pendingEccList.erase node else s.pendingEccList
      visiting := some rest
      cache := after
      attempts := s.attempts ++ [⟨s.round, node, success, row⟩] } := by
  obtain ⟨front, split, erased, others, behind⟩ := inv.erase visiting
  have fewer : ∀ other ∈ (if success then s.pendingEccList.erase node else s.pendingEccList),
      other ∈ s.pendingEccList := by
    intro other listed
    split at listed
    · exact mem_of_mem_erase listed
    · exact listed
  have more : ∀ other ∈ s.pendingEccList, other = node ∧ success = true ∨
      other ∈ (if success then s.pendingEccList.erase node else s.pendingEccList) := by
    intro other listed
    cases success with
    | false => exact .inr listed
    | true =>
      by_cases same : other = node
      · exact .inl ⟨same, rfl⟩
      · exact .inr ((mem_erase_of_ne same).mpr listed)
  have there : node ∈ s.pendingEccList := by
    rw [split]
    exact mem_append_right _ (mem_cons_self ..)
  have yet : ∀ later ∈ node :: rest, later ∈ s.visiting.getD [] := by
    intro later listed
    rw [visiting]
    exact listed
  constructor
  case sorted =>
    cases success with
    | false => exact inv.sorted
    | true => exact inv.sorted.sublist erase_sublist
  case numbered => exact fun other listed => inv.numbered other (fewer other listed)
  case rest =>
    cases success with
    | false => exact ⟨front ++ [node], by simpa using split⟩
    | true => exact ⟨front, erased⟩
  case began =>
    exact fun later listed => inv.began later (yet later (mem_cons_of_mem _ listed))
  case started => exact inv.started
  case tried =>
    intro attempt made
    rcases mem_append.mp made with old | new
    · exact inv.tried attempt old
    · rw [mem_singleton.mp new]
      exact ⟨Nat.le_refl _, inv.numbered node there⟩
  case ahead =>
    intro attempt made now later listed
    rcases mem_append.mp made with old | new
    · exact inv.ahead attempt old now later (yet later (mem_cons_of_mem _ listed))
    · rw [mem_singleton.mp new]
      exact behind later listed
  case gone =>
    intro attempt made done other listed
    rcases mem_append.mp made with old | new
    · exact inv.gone attempt old done other (fewer other listed)
    · rw [mem_singleton.mp new] at done ⊢
      have out : other ∈ s.pendingEccList.erase node := by
        have left : success = true := done
        rwa [if_pos left] at listed
      rw [erased] at out
      exact others other out
  case inside => exact inside
  case left =>
    intro arrival before
    rcases inv.left arrival before with ⟨other, listed, same⟩ | ⟨attempt, made, same, done⟩
    · rcases more other listed with ⟨rfl, done⟩ | kept
      · exact .inr ⟨_, mem_append_right _ (mem_singleton.mpr rfl), same, done⟩
      · exact .inl ⟨other, kept, same⟩
    · exact .inr ⟨attempt, mem_append_left _ made, same, done⟩
  case never =>
    rw [pairwise_append]
    refine ⟨inv.never, pairwise_singleton _ _, ?_⟩
    intro earlier made later new done
    rw [mem_singleton.mp new]
    exact (inv.gone earlier made done node there).symm
  case order =>
    rw [pairwise_append]
    refine ⟨inv.order, pairwise_singleton _ _, ?_⟩
    intro earlier made later new
    rw [mem_singleton.mp new]
    intro now
    exact inv.ahead earlier made now node (yet node (mem_cons_self ..))
  case turn =>
    intro other listed early
    rcases inv.turn other (fewer other listed) early with ⟨attempt, made, now, same⟩ | later
    · exact .inl ⟨attempt, mem_append_left _ made, now, same⟩
    · rw [visiting, Option.getD_some] at later
      rcases mem_cons.mp later with rfl | further
      · exact .inl ⟨_, mem_append_right _ (mem_singleton.mpr rfl), rfl, rfl⟩
      · exact .inr further

theorem Inv.finish (inv : Inv s) (visiting : s.visiting = some []) :
    Inv { s with visiting := none } := by
  have nothing : s.visiting.getD [] = [] := by rw [visiting]; rfl
  have rest := inv.rest
  have turn := inv.turn
  rw [nothing] at rest
  rw [nothing] at turn
  exact ⟨inv.sorted, inv.numbered, rest, nofun, inv.started, inv.tried, nofun, inv.gone,
    inv.inside, inv.left, inv.never, inv.order, turn⟩

theorem Inv.cached (inv : Inv s) {after : UmcCache}
    (inside : ∀ row ∈ after.logged, row ∈ rows after.rom) : Inv { s with cache := after } :=
  ⟨inv.sorted, inv.numbered, inv.rest, inv.began, inv.started, inv.tried, inv.ahead, inv.gone,
    inside, inv.left, inv.never, inv.order, inv.turn⟩

structure Recorded (s : Sys) : Prop where
  logged : ∀ attempt ∈ s.attempts, attempt.success = true →
    ∃ row, attempt.row = some row ∧ row ∈ s.cache.logged ∧ row ∈ rows s.cache.rom
  rows : (rows s.cache.rom).Nodup

theorem Inv.exactlyOnce_iff (inv : Inv s) : ExactlyOnce s ↔ Recorded s :=
  ⟨fun once => ⟨once.logged, once.rows⟩, fun recorded =>
    ⟨inv.left, recorded.logged, recorded.rows, inv.never, inv.order, inv.turn⟩⟩

theorem Recorded.log_iff (recorded : Recorded s)
    (inside : ∀ row ∈ s.cache.logged, row ∈ Ras.rows s.cache.rom) (env : LogEnv)
    (node : EccNode) (list : List EccNode) (visiting : Option (List EccNode)) :
    Recorded { s with
        pendingEccList := list
        visiting := visiting
        cache := (logBadBank env s.cache node.ecc).2
        attempts := s.attempts ++
          [⟨s.round, node, (logBadBank env s.cache node.ecc).1, bankRow env node.ecc⟩] } ↔
      Translates env node.ecc ∧ Fresh env s.cache node.ecc := by
  have call := logBadBank_logged env node.ecc inside
  constructor
  · intro after
    refine ⟨?_, (call.nodup recorded.rows).mp after.rows⟩
    by_contra lost
    have success := logBadBank_untranslated s.cache lost
    obtain ⟨row, same, listed, -⟩ := after.logged _
      (mem_append_right _ (mem_singleton.mpr rfl)) success
    exact lost ((call.logged success).mp ⟨row, same, listed⟩)
  · rintro ⟨translates, fresh⟩
    refine ⟨?_, (call.nodup recorded.rows).mpr fresh⟩
    intro attempt made success
    rcases mem_append.mp made with old | new
    · obtain ⟨row, same, listed, there⟩ := recorded.logged attempt old success
      exact ⟨row, same, call.grows.logged row listed, call.grows.rom row there⟩
    · rw [mem_singleton.mp new] at success ⊢
      obtain ⟨row, same, listed⟩ := (call.logged success).mpr translates
      exact ⟨row, same, listed, call.inside row listed⟩

theorem Recorded.other_iff (recorded : Recorded s)
    (inside : ∀ row ∈ s.cache.logged, row ∈ Ras.rows s.cache.rom) (env : LogEnv)
    (bank : BankEcc) :
    Recorded { s with cache := (logBadBank env s.cache bank).2 } ↔ Fresh env s.cache bank := by
  have call := logBadBank_logged env bank inside
  constructor
  · intro after
    exact (call.nodup recorded.rows).mp after.rows
  · intro fresh
    refine ⟨?_, (call.nodup recorded.rows).mpr fresh⟩
    intro attempt made success
    obtain ⟨row, same, listed, there⟩ := recorded.logged attempt made success
    exact ⟨row, same, call.grows.logged row listed, call.grows.rom row there⟩

end Rounds

section Steps

variable {s s' : Sys}

theorem Recorded.same (recorded : Recorded s) (attempts : s'.attempts = s.attempts)
    (cache : s'.cache = s.cache) : Recorded s' := by
  constructor
  · rw [attempts, cache]
    exact recorded.logged
  · rw [cache]
    exact recorded.rows

inductive Steps (s : Sys) : Action → Sys → Prop
  | lost (bank : BankEcc) : Steps s (.pend bank false) s
  | pend (free : s.visiting = none) (bank : BankEcc) :
      Steps s (.pend bank true) { s with
        pendingEccList := s.pendingEccList ++ [⟨s.arrived, bank⟩]
        arrived := s.arrived + 1 }
  | begin (free : s.visiting = none) :
      Steps s .begin { s with
        visiting := some s.pendingEccList
        round := s.round + 1
        began := s.arrived }
  | log (env : LogEnv) {node : EccNode} {rest : List EccNode}
      (visiting : s.visiting = some (node :: rest)) :
      Steps s (.log env) { s with
        pendingEccList := if (logBadBank env s.cache node.ecc).1 then s.pendingEccList.erase node
          else s.pendingEccList
        visiting := some rest
        cache := (logBadBank env s.cache node.ecc).2
        attempts := s.attempts ++
          [⟨s.round, node, (logBadBank env s.cache node.ecc).1, bankRow env node.ecc⟩] }
  | finish (visiting : s.visiting = some []) : Steps s .finish { s with visiting := none }
  | other (env : LogEnv) (bank : BankEcc) :
      Steps s (.other env bank) { s with cache := (logBadBank env s.cache bank).2 }

theorem next_steps {action : Action} (taken : next s action = some s') : Steps s action s' := by
  cases action with
  | pend bank memory =>
    cases memory with
    | false =>
      cases taken
      exact .lost bank
    | true =>
      cases free : s.visiting with
      | some list => simp [next, free] at taken
      | none =>
        simp only [next, free, Bool.not_true, Bool.false_eq_true, if_false,
          Option.some.injEq] at taken
        subst taken
        simpa only [free] using Steps.pend free bank
  | begin =>
    cases free : s.visiting with
    | some list => simp [next, free] at taken
    | none =>
      simp only [next, free, Option.some.injEq] at taken
      subst taken
      exact .begin free
  | log env =>
    rcases visiting : s.visiting with _ | _ | ⟨node, rest⟩
    · simp [next, visiting] at taken
    · simp [next, visiting] at taken
    · simp only [next, visiting, Option.some.injEq] at taken
      subst taken
      exact .log env visiting
  | finish =>
    rcases visiting : s.visiting with _ | _ | ⟨node, rest⟩
    · simp [next, visiting] at taken
    · simp only [next, visiting, Option.some.injEq] at taken
      subst taken
      exact .finish visiting
    · simp [next, visiting] at taken
  | other env bank =>
    cases taken
    exact .other env bank

theorem Inv.next (inv : Inv s) {action : Action} (taken : next s action = some s') : Inv s' := by
  cases next_steps taken with
  | lost bank => exact inv
  | pend free bank => exact inv.pend free bank
  | begin free => exact inv.begin
  | log env visiting => exact inv.log visiting _ (logBadBank_logged _ _ inv.inside).inside _
  | finish visiting => exact inv.finish visiting
  | other env bank => exact inv.cached (logBadBank_logged _ _ inv.inside).inside

theorem Recorded.next_iff (recorded : Recorded s) (inv : Inv s) {action : Action}
    (taken : PendingBanks.next s action = some s') : Recorded s' ↔ Meets s action := by
  cases next_steps taken with
  | lost bank => exact iff_of_true recorded trivial
  | pend free bank => exact iff_of_true (recorded.same rfl rfl) trivial
  | begin free => exact iff_of_true (recorded.same rfl rfl) trivial
  | @log env node rest visiting =>
    have here : Meets s (.log env) ↔ Translates env node.ecc ∧ Fresh env s.cache node.ecc := by
      simp [Meets, visiting]
    rw [here]
    exact recorded.log_iff inv.inside env node _ _
  | finish visiting => exact iff_of_true (recorded.same rfl rfl) trivial
  | other env bank => exact recorded.other_iff inv.inside env bank

theorem Start.recorded (start : Start s) : Recorded s := by
  obtain ⟨-, -, attempts⟩ := start.empty
  constructor
  · rw [attempts]
    nofun
  · exact start.keyed.nodup

end Steps

/-- However banks come, rounds run and calls fail, every bank is logged exactly once if and only if
every record that a call comes to is known in the current mode and, when it goes into `rom_data`, is
of a row that has no record there. -/
theorem banks_logged_once_iff {s : Sys} (start : Start s) (actions : List Action) :
    Along next ExactlyOnce s actions ↔ Obeys next Meets s actions := by
  refine along_iff_obeys (fun _ _ _ inv taken => inv.next taken) ?_ start.inv
    (start.inv.exactlyOnce_iff.mpr start.recorded) actions
  intro before action after inv once taken
  rw [(inv.next taken).exactlyOnce_iff]
  exact (inv.exactlyOnce_iff.mp once).next_iff inv taken

def idle : Sys := ⟨[], none, ⟨[], []⟩, 0, 0, 0, []⟩

theorem idle_start : Start idle :=
  ⟨⟨rfl, rfl, rfl⟩, ⟨rfl, rfl⟩, ⟨nodup_nil, by simp [idle, rows]⟩⟩

def bankAt (row : Nat) : BankEcc := ⟨0, 1, 0, 0, 0, row⟩

def bankRecord (bank : BankEcc) : UmcRecord :=
  ⟨⟨0, 0, 0, 0, 0, 0, UInt64.ofNat bank.addr⟩, bank.ipid, bank.nps, bank.addr, 1⟩

def logEnv (nps : Nat) (memory : Bool) : LogEnv where
  toRecord bank := some (bankRecord bank)
  umc := ⟨nps, fun _ _ _ => none, true, fun _ => true, fun _ => memory, fun _ => true⟩
  notified := true

/-- The first bank fails, the second is logged, and the next round logs the first. -/
theorem banks_logged_once_two : Along next ExactlyOnce idle
    [.pend (bankAt 1) true, .pend (bankAt 2) true, .begin,
      .log { logEnv 1 true with toRecord := fun _ => none }, .log (logEnv 1 true), .finish,
      .begin, .log (logEnv 1 true), .finish] :=
  (banks_logged_once_iff idle_start _).mpr (by decide +kernel)

/-- A bank waits in mode 1 while the mode changes to 2, and its record cannot be translated. It
leaves the list, and no row is logged. -/
theorem untranslated_bank_lost : ¬ ∀ (s : Sys) (actions : List Action),
    Start s → Along next ExactlyOnce s actions := by
  intro once
  have run := once idle [.pend (bankAt 1) true, .begin, .log (logEnv 2 true)] idle_start
  obtain ⟨-, run⟩ := run
  obtain ⟨-, run⟩ := run _ rfl
  obtain ⟨-, run⟩ := run _ rfl
  obtain ⟨row, same, -⟩ := (run _ rfl).logged _ (mem_singleton.mpr rfl) rfl
  have none : bankRow (logEnv 2 true) (bankAt 1) = none := by decide
  cases none.symm.trans same

end MxGpu.Ras.PendingBanks
