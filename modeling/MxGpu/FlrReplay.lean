import MxGpu.FfbmPartition

/- Bad pages that are kept back until a function level reset is over (`amdgv_sched_vf_flr`). -/
namespace MxGpu.Flr

open Ffbm Transition

/-- `retired_page` of a record. -/
abbrev Page := BitVec 64

def maxUmcChannelNum : Nat := 32

/-- `last_err_bps` from its top down. -/
structure ErrBps where
  pages : List Page
  room : pages.length ≤ maxUmcChannelNum

/-- What a reset needs of the page table: `ffbm.enabled`, and `amdgv_ffbm_replace_bad_pages` on one
page, with whether it succeeds. -/
structure PageTable (Fb : Type) where
  enabled : Fb → Bool
  replaceBadPages : Fb → Page → Option (Fb × Bool)

def ffbmTable : PageTable Table where
  enabled s := s.enabled
  replaceBadPages s page :=
    ((replaceBadPages [page <<< 12]).exec Table.step s).map fun (s, resp) => (s, resp = .success)

/-- What a reset meets: whether it is the turn of a physical function that is not used, whether
`amdgv_reset_vf_flr` succeeds, whether the legacy sequence has to save and does, `ecc.enabled`, and
`amdgv_ras_eeprom_is_gpu_bad`. -/
structure FlrEnv where
  unusedPf : Bool
  flr : Bool
  legacyFlrSequence : Bool
  contextSaved : Bool
  eccEnabled : Bool
  gpuBad : Bool

/-- What the loop over the stack leaves, with the pages that it replaced. -/
structure Replay (Fb : Type) where
  fb : Fb
  left : List Page
  done : List Page
  success : Bool

/-- The adapter, with the pages that were put on the stack and those that were replaced so far. -/
structure Adapt (Fb : Type) where
  fb : Fb
  lastErrBps : ErrBps
  hwRma : Bool
  pushed : List Page
  replaced : List Page

section Reset

variable {Fb : Type} (table : PageTable Fb)

/-- The loop of `amdgv_sched_vf_flr` over the stack. -/
def replayBadPages : Fb → List Page → Option (Replay Fb)
  | fb, [] => some ⟨fb, [], [], true⟩
  | fb, page :: rest =>
    -- the page is off the stack before the call
    match table.replaceBadPages fb page with
    | none => none
    | some (fb, false) => some ⟨fb, rest, [], false⟩
    | some (fb, true) =>
      (replayBadPages fb rest).map fun replay => { replay with done := page :: replay.done }

theorem replayBadPages_left {fb : Fb} {pages : List Page} {replay : Replay Fb}
    (ran : replayBadPages table fb pages = some replay) : replay.left.length ≤ pages.length := by
  induction pages generalizing fb replay with
  | nil =>
    cases ran
    exact Nat.le_refl _
  | cons page rest ih =>
    unfold replayBadPages at ran
    split at ran
    · cases ran
    · cases ran
      exact Nat.le_succ _
    · obtain ⟨later, ran', rfl⟩ := Option.map_eq_some_iff.mp ran
      have fewer : later.left.length ≤ rest.length := ih ran'
      exact Nat.le_succ_of_le fewer

def FlrEnv.Replays (env : FlrEnv) (enabled : Bool) : Prop :=
  env.unusedPf = false ∧ env.flr = true ∧ (env.legacyFlrSequence → env.contextSaved) ∧
    enabled = true ∧ env.eccEnabled = true

instance (env : FlrEnv) (enabled : Bool) : Decidable (env.Replays enabled) :=
  inferInstanceAs (Decidable (_ ∧ _))

/-- `amdgv_sched_vf_flr`, with whether it succeeds; nothing when a call in it does not return. -/
def vfFlr (env : FlrEnv) (s : Adapt Fb) : Option (Adapt Fb × Bool) :=
  if env.unusedPf then some (s, false)
  else if !env.flr then some (s, false)
  else if env.legacyFlrSequence && !env.contextSaved then some (s, false)
  else if table.enabled s.fb && env.eccEnabled then
    match ran : replayBadPages table s.fb s.lastErrBps.pages with
    | none => none
    | some replay =>
      some ({ s with
        fb := replay.fb
        lastErrBps := ⟨replay.left,
          Nat.le_trans (replayBadPages_left table ran) s.lastErrBps.room⟩
        hwRma := s.hwRma || !replay.success && env.gpuBad
        replaced := replay.done ++ s.replaced }, replay.success)
  else some (s, true)

/-- The loop of `navi32_poison_consumption` that puts pages on the stack. -/
def pushErrBps (s : Adapt Fb) : List Page → Adapt Fb
  | [] => s
  | page :: rest =>
    if room : s.lastErrBps.pages.length < maxUmcChannelNum then
      pushErrBps { s with
        lastErrBps := ⟨page :: s.lastErrBps.pages, room⟩
        pushed := page :: s.pushed } rest
    else s

inductive Action (Fb : Type)
  /-- bad pages are found, and `AMDGV_FLAG_SKIP_BAD_PAGE_RETIREMENT` may be set -/
  | push (skipBadPageRetirement : Bool) (pages : List Page)
  | reset (env : FlrEnv)
  /-- another caller of `amdgv_ffbm_replace_bad_pages` -/
  | replace (page : Page)
  /-- anything else that changes the page table -/
  | table (fb : Fb)

def next (s : Adapt Fb) : Action Fb → Option (Adapt Fb)
  | .push skipBadPageRetirement pages =>
    some (if skipBadPageRetirement then s else pushErrBps s pages)
  | .reset env => (vfFlr table env s).map Prod.fst
  | .replace page => (table.replaceBadPages s.fb page).map fun (fb, success) =>
      { s with fb, replaced := if success then page :: s.replaced else s.replaced }
  | .table fb => some { s with fb }

def Start (s : Adapt Fb) : Prop :=
  s.lastErrBps.pages = [] ∧ s.pushed = [] ∧ s.replaced = []

/-- Every page that was put on the stack is replaced or still there. -/
def Kept (s : Adapt Fb) : Prop :=
  ∀ page ∈ s.pushed, page ∈ s.replaced ∨ page ∈ s.lastErrBps.pages

/-- A page that is not replaced is further down the stack as well, or was replaced before. -/
def Handled : Fb → List Page → List Page → Prop
  | _, [], _ => True
  | fb, page :: rest, replaced =>
    match table.replaceBadPages fb page with
    | none => True
    | some (_, false) => page ∈ rest ∨ page ∈ replaced
    | some (fb, true) => Handled fb rest (page :: replaced)

def handledCheck : Fb → List Page → List Page → Bool
  | _, [], _ => true
  | fb, page :: rest, replaced =>
    match table.replaceBadPages fb page with
    | none => true
    | some (_, false) => page ∈ rest ∨ page ∈ replaced
    | some (fb, true) => handledCheck fb rest (page :: replaced)

theorem handledCheck_iff {fb : Fb} {pages replaced : List Page} :
    handledCheck table fb pages replaced ↔ Handled table fb pages replaced := by
  induction pages generalizing fb replaced with
  | nil => simp [handledCheck, Handled]
  | cons page rest ih =>
    unfold handledCheck Handled
    split
    · simp
    · simp
    · exact ih

instance (fb : Fb) (pages replaced : List Page) : Decidable (Handled table fb pages replaced) :=
  decidable_of_iff _ (handledCheck_iff table)

def Meets (s : Adapt Fb) : Action Fb → Prop
  | .reset env => env.Replays (table.enabled s.fb) →
    Handled table s.fb s.lastErrBps.pages s.replaced
  | _ => True

instance (s : Adapt Fb) : (action : Action Fb) → Decidable (Meets table s action)
  | .push _ _ => isTrue trivial
  | .reset env => inferInstanceAs (Decidable (env.Replays (table.enabled s.fb) → _))
  | .replace _ => isTrue trivial
  | .table _ => isTrue trivial

-- by the list: there are 2^64 pages
instance (s : Adapt Fb) : Decidable (Kept s) := List.decidableBAll _ s.pushed

end Reset

section Runs

variable {Fb : Type} {table : PageTable Fb} {s s' : Adapt Fb} {fb : Fb}
  {pages replaced : List Page} {replay : Replay Fb}

theorem replayBadPages_splits (ran : replayBadPages table fb pages = some replay) :
    replay.success = true ∧ pages = replay.done ++ replay.left ∨
      ∃ page, replay.success = false ∧ pages = replay.done ++ page :: replay.left ∧
        (Handled table fb pages replaced ↔
          page ∈ replay.left ∨ page ∈ replay.done ∨ page ∈ replaced) := by
  induction pages generalizing fb replay replaced with
  | nil =>
    cases ran
    exact .inl ⟨rfl, rfl⟩
  | cons page rest ih =>
    unfold replayBadPages at ran
    unfold Handled
    cases called : table.replaceBadPages fb page with
    | none =>
      rw [called] at ran
      cases ran
    | some result =>
      obtain ⟨after, success⟩ := result
      rw [called] at ran
      cases success with
      | false =>
        cases ran
        exact .inr ⟨page, rfl, rfl, by simp⟩
      | true =>
        obtain ⟨later, ran', rfl⟩ := Option.map_eq_some_iff.mp ran
        rcases @ih after (page :: replaced) later ran' with
          ⟨success, split⟩ | ⟨lost, success, split, handled⟩
        · exact .inl ⟨success, congrArg (page :: ·) split⟩
        · refine .inr ⟨lost, success, congrArg (page :: ·) split, ?_⟩
          simp only [handled, List.mem_cons]
          tauto

theorem handled_of_success (ran : replayBadPages table fb pages = some replay)
    (success : replay.success = true) : Handled table fb pages replaced := by
  induction pages generalizing fb replay replaced with
  | nil => trivial
  | cons page rest ih =>
    unfold replayBadPages at ran
    unfold Handled
    cases called : table.replaceBadPages fb page with
    | none => trivial
    | some result =>
      obtain ⟨after, replacedIt⟩ := result
      rw [called] at ran
      cases replacedIt with
      | false =>
        cases ran
        cases success
      | true =>
        obtain ⟨later, ran', rfl⟩ := Option.map_eq_some_iff.mp ran
        exact ih ran' success

theorem vfFlr_cases {env : FlrEnv} {success : Bool} (ran : vfFlr table env s = some (s', success)) :
    ¬ env.Replays (table.enabled s.fb) ∧ s' = s ∨
      env.Replays (table.enabled s.fb) ∧ ∃ replay,
        replayBadPages table s.fb s.lastErrBps.pages = some replay ∧
        s'.pushed = s.pushed ∧ s'.replaced = replay.done ++ s.replaced ∧
        s'.lastErrBps.pages = replay.left := by
  unfold vfFlr at ran
  unfold FlrEnv.Replays
  split at ran
  · next unused =>
    cases ran
    exact .inl ⟨fun replays => by simp [replays.1] at unused, rfl⟩
  · next used =>
    split at ran
    · next failed =>
      cases ran
      exact .inl ⟨fun replays => by simp [replays.2.1] at failed, rfl⟩
    · next reset =>
      split at ran
      · next unsaved =>
        cases ran
        refine .inl ⟨fun replays => ?_, rfl⟩
        obtain ⟨legacy, lost⟩ := Bool.and_eq_true_iff.mp unsaved
        simp [replays.2.2.1 legacy] at lost
      · next saved =>
        split at ran
        · next on =>
          obtain ⟨enabled, ecc⟩ := Bool.and_eq_true_iff.mp on
          split at ran
          · cases ran
          · next replay looped =>
            cases ran
            refine .inr ⟨⟨by simpa using used, by simpa using reset, ?_, enabled, ecc⟩, replay,
              looped, rfl, rfl, rfl⟩
            intro legacy
            simpa [legacy] using saved
        · next off =>
          cases ran
          exact .inl ⟨fun replays => off (by simp [replays.2.2.2.1, replays.2.2.2.2]), rfl⟩

theorem pushErrBps_spec (s : Adapt Fb) (pages : List Page) :
    ∃ news, (pushErrBps s pages).pushed = news ++ s.pushed ∧
      (pushErrBps s pages).lastErrBps.pages = news ++ s.lastErrBps.pages ∧
      (pushErrBps s pages).replaced = s.replaced := by
  induction pages generalizing s with
  | nil => exact ⟨[], rfl, rfl, rfl⟩
  | cons page rest ih =>
    unfold pushErrBps
    split
    · next room =>
      obtain ⟨news, pushed, stacked, same⟩ := ih { s with
        lastErrBps := ⟨page :: s.lastErrBps.pages, room⟩
        pushed := page :: s.pushed }
      refine ⟨news ++ [page], ?_, ?_, same⟩
      · rw [pushed, List.append_assoc]
        rfl
      · rw [stacked, List.append_assoc]
        rfl
    · exact ⟨[], rfl, rfl, rfl⟩

def Known (s : Adapt Fb) : Prop := ∀ page ∈ s.lastErrBps.pages, page ∈ s.pushed

theorem Known.next (known : Known s) {action : Action Fb} (fired : next table s action = some s') :
    Known s' := by
  cases action with
  | push skip pages =>
    cases fired
    cases skip with
    | true => exact known
    | false =>
      obtain ⟨news, pushed, stacked, -⟩ := pushErrBps_spec s pages
      intro page listed
      simp only [Bool.false_eq_true, if_false, pushed, stacked, List.mem_append] at listed ⊢
      exact listed.imp_right (known page)
  | reset env =>
    obtain ⟨⟨after, success⟩, ran, rfl⟩ := Option.map_eq_some_iff.mp fired
    rcases vfFlr_cases ran with ⟨-, rfl⟩ | ⟨-, replay, looped, pushed, -, left⟩
    · exact known
    · intro page listed
      rw [left] at listed
      rw [pushed]
      apply known
      rcases @replayBadPages_splits _ _ _ _ [] _ looped with ⟨-, split⟩ | ⟨lost, -, split, -⟩
      · rw [split]
        exact List.mem_append_right _ listed
      · rw [split]
        exact List.mem_append_right _ (List.mem_cons_of_mem _ listed)
  | replace page =>
    obtain ⟨⟨after, success⟩, -, rfl⟩ := Option.map_eq_some_iff.mp fired
    exact known
  | table fb =>
    cases fired
    exact known

theorem Kept.next_iff (known : Known s) (kept : Kept s) {action : Action Fb}
    (fired : next table s action = some s') : Kept s' ↔ Meets table s action := by
  cases action with
  | push skip pages =>
    cases fired
    refine ⟨fun _ => trivial, fun _ => ?_⟩
    cases skip with
    | true => exact kept
    | false =>
      obtain ⟨news, pushed, stacked, same⟩ := pushErrBps_spec s pages
      intro page listed
      simp only [Bool.false_eq_true, if_false, pushed, stacked, same, List.mem_append] at listed ⊢
      rcases listed with new | old
      · exact .inr (.inl new)
      · exact (kept page old).imp_right .inr
  | reset env =>
    obtain ⟨⟨after, success⟩, ran, rfl⟩ := Option.map_eq_some_iff.mp fired
    rcases vfFlr_cases ran with ⟨early, rfl⟩ | ⟨replays, replay, looped, pushed, replaced, left⟩
    · exact ⟨fun _ reached => absurd reached early, fun _ => kept⟩
    · rcases @replayBadPages_splits _ _ _ _ s.replaced _ looped with
        ⟨success, split⟩ | ⟨lost, success, split, handled⟩
      · refine ⟨fun _ _ => handled_of_success looped success, fun _ page listed => ?_⟩
        have there := kept page (pushed ▸ listed)
        rw [split, List.mem_append] at there
        rw [replaced, left, List.mem_append]
        tauto
      · have met : Meets table s (.reset env) ↔
            lost ∈ replay.left ∨ lost ∈ replay.done ∨ lost ∈ s.replaced :=
          ⟨fun meets => handled.mp (meets replays), fun there _ => handled.mpr there⟩
        rw [met]
        constructor
        · intro later
          have was : lost ∈ s.pushed := by
            apply known
            rw [split]
            simp
          have there := later lost (pushed ▸ was)
          rw [replaced, left, List.mem_append] at there
          tauto
        · intro there page listed
          have before := kept page (pushed ▸ listed)
          rw [split, List.mem_append, List.mem_cons] at before
          rw [replaced, left, List.mem_append]
          rcases before with old | done | same | further
          · exact .inl (.inr old)
          · exact .inl (.inl done)
          · rw [same]
            tauto
          · exact .inr further
  | replace page =>
    obtain ⟨⟨after, success⟩, -, rfl⟩ := Option.map_eq_some_iff.mp fired
    refine ⟨fun _ => trivial, fun _ other listed => ?_⟩
    have there := kept other listed
    cases success with
    | false => exact there
    | true => exact there.imp_left (List.mem_cons_of_mem _)
  | table fb =>
    cases fired
    exact ⟨fun _ => trivial, fun _ => kept⟩

/-- In every run the pages on the stack are kept if and only if no reset pops a page that it does
not replace, unless the page is on the stack once more or was replaced before. -/
theorem pages_kept_iff (table : PageTable Fb) {s : Adapt Fb} (start : Start s)
    (actions : List (Action Fb)) :
    Along (next table) Kept s actions ↔ Obeys (next table) (Meets table) s actions := by
  have known : Known s := by
    intro page listed
    rw [start.1] at listed
    cases listed
  have kept : Kept s := by
    intro page listed
    rw [start.2.1] at listed
    cases listed
  exact along_iff_obeys (fun _ _ _ known fired => known.next fired)
    (fun _ _ _ known kept fired => kept.next_iff known fired) known kept actions

def flrEnv : FlrEnv := ⟨false, true, false, true, true, false⟩

def smallAdapt : Adapt Table := ⟨Table.tableAfter [Table.smallMap], ⟨[], by decide⟩, false, [], []⟩

/-- A reset that fails leaves the page at 4 MB on the stack, the next one replaces it by the page that
was held back, and two more pages stay there when the reset after that fails. -/
theorem pages_kept_replaced :
    Along (next ffbmTable) Kept smallAdapt [.push false [0x400], .reset { flrEnv with flr := false },
      .reset flrEnv, .push false [0x800, 0xc00], .reset { flrEnv with flr := false }] :=
  (pages_kept_iff ffbmTable ⟨rfl, rfl, rfl⟩ _).mpr (by decide +kernel)

/-- The page at 8 MB that took its place goes bad as well. There is no other page for it. -/
theorem failed_page_forgotten : ¬ ∀ (s : Adapt Table) (actions : List (Action Table)),
    Start s → Along (next ffbmTable) Kept s actions := by
  intro kept
  have lost : ¬ Along (next ffbmTable) Kept smallAdapt
      [.push false [0x400], .reset flrEnv, .push false [0x800], .reset flrEnv] := by
    decide +kernel
  exact lost (kept smallAdapt _ ⟨rfl, rfl, rfl⟩)

end Runs

end MxGpu.Flr
