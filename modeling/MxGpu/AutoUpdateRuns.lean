import Mathlib.Data.List.Nodup
import MxGpu.AutoUpdate

/- The lists of commands over whole runs: they stay sets of what the guests asked for, and what an
update uses is on its list. -/
namespace MxGpu.AutoUpdate

open List

variable {s after : Sys} {mgr left : VfAutoCmdMgr} {req : AutoUpdateReq} {t vf entry : Nat}

section Lists

structure VfAutoCmdMgr.Same (left mgr : VfAutoCmdMgr) : Prop where
  ids : left.ids = mgr.ids
  entries : left.entries = mgr.entries
  count : left.listCount = mgr.listCount

theorem modify_same (mgr : VfAutoCmdMgr) (entry : Nat) (change : AutoUpdateCmd → AutoUpdateCmd)
    (id : ∀ cmd, (change cmd).cmdId = cmd.cmdId) (place : ∀ cmd, (change cmd).entry = cmd.entry) :
    (mgr.modify entry change).Same mgr := by
  refine ⟨?_, ?_, rfl⟩
  · unfold VfAutoCmdMgr.ids VfAutoCmdMgr.modify
    rw [map_map]
    apply map_congr_left
    intro cmd _
    dsimp only [Function.comp_apply]
    split
    · exact id cmd
    · rfl
  · unfold VfAutoCmdMgr.entries VfAutoCmdMgr.modify
    rw [map_map]
    apply map_congr_left
    intro cmd _
    dsimp only [Function.comp_apply]
    split
    · exact place cmd
    · rfl

theorem updated_id (cmd : AutoUpdateCmd) (failed : Bool) :
    (cmd.updated failed).cmdId = cmd.cmdId := by
  unfold AutoUpdateCmd.updated
  generalize (if failed then cmd.exeErrCnt + 1 else 0) = exeErrCnt
  dsimp only
  split
  · rfl
  · split
    · rfl
    · rfl

theorem updated_entry (cmd : AutoUpdateCmd) (failed : Bool) :
    (cmd.updated failed).entry = cmd.entry := by
  unfold AutoUpdateCmd.updated
  generalize (if failed then cmd.exeErrCnt + 1 else 0) = exeErrCnt
  dsimp only
  split
  · rfl
  · split
    · rfl
    · rfl

theorem following_mem {next : Nat} (found : mgr.following entry = some next) :
    next ∈ mgr.entries := by
  have behind := mem_of_mem_head? (Option.mem_def.mpr found)
  exact (dropWhile_sublist _).subset (mem_of_mem_tail behind)

/-- What the list of a VF is at all times: each command once, at a place of its own, counted, and
wanted. -/
structure Books (mgr : VfAutoCmdMgr) (fresh : Nat) (wanted : BitVec 32 → Bool) : Prop where
  once : mgr.ids.Nodup
  apart : mgr.entries.Nodup
  old : ∀ entry ∈ mgr.entries, entry < fresh
  count : mgr.listCount.toNat = mgr.cmdList.length
  wanted : ∀ id, id ∈ mgr.ids ↔ wanted id

variable {fresh : Nat} {wanted : BitVec 32 → Bool}

theorem ids_length (mgr : VfAutoCmdMgr) : mgr.ids.length = mgr.cmdList.length :=
  length_map _

theorem Books.same (books : Books mgr fresh wanted) (same : left.Same mgr) :
    Books left fresh wanted := by
  refine ⟨?_, ?_, ?_, ?_, ?_⟩
  · rw [same.ids]
    exact books.once
  · rw [same.entries]
    exact books.apart
  · rw [same.entries]
    exact books.old
  · rw [same.count, books.count, ← ids_length, ← ids_length, same.ids]
  · rw [same.ids]
    exact books.wanted

theorem Books.later (books : Books mgr fresh wanted) : Books mgr (fresh + 1) wanted :=
  ⟨books.once, books.apart, fun entry listed => Nat.lt_succ_of_lt (books.old entry listed),
    books.count, books.wanted⟩

end Lists

section Add

variable {fresh : Nat} {wanted : BitVec 32 → Bool} {memory : Option Nat} {auto : Option Nat}

theorem Books.unique (books : Books mgr fresh wanted) {cmd other : AutoUpdateCmd}
    (listed : cmd ∈ mgr.cmdList) (there : other ∈ mgr.cmdList) (same : other.cmdId = cmd.cmdId) :
    other = cmd :=
  inj_on_of_nodup_map books.once there listed same

theorem find_of_mem_ids (listed : req.cmdId ∈ mgr.ids) :
    ∃ cmd ∈ mgr.cmdList, cmd.cmdId = req.cmdId ∧
      (mgr.cmdList.find? fun cmd => cmd.cmdId = req.cmdId) = some cmd := by
  cases found : mgr.cmdList.find? fun cmd => cmd.cmdId = req.cmdId with
  | none =>
    obtain ⟨cmd, there, same⟩ := mem_map.mp listed
    have different := find?_eq_none.mp found cmd there
    exact absurd (decide_eq_true same) different
  | some cmd =>
    have same : cmd.cmdId = req.cmdId := by simpa using find?_some found
    exact ⟨cmd, mem_of_find?_eq_some found, same, rfl⟩

theorem find_of_not_mem_ids (absent : req.cmdId ∉ mgr.ids) :
    (mgr.cmdList.find? fun cmd => cmd.cmdId = req.cmdId) = none := by
  apply find?_eq_none.mpr
  intro cmd there same
  exact absent (mem_map.mpr ⟨cmd, there, of_decide_eq_true same⟩)

theorem add_enabled (listed : req.cmdId ∈ mgr.ids) (enable : req.mode ≠ 0) :
    (amdgvRasAddVfCmdToAutoList mgr req memory).1.Same mgr ∧
      ∃ entry ∈ mgr.entries, (amdgvRasAddVfCmdToAutoList mgr req memory).2 = some entry := by
  obtain ⟨cmd, there, -, found⟩ := find_of_mem_ids listed
  unfold amdgvRasAddVfCmdToAutoList
  rw [found]
  dsimp only
  rw [if_pos enable]
  refine ⟨?_, cmd.entry, mem_map_of_mem there, rfl⟩
  exact modify_same mgr cmd.entry _ (fun _ => rfl) (fun _ => rfl)

theorem add_disabled (listed : req.cmdId ∈ mgr.ids) (disable : req.mode = 0) :
    ∃ cmd ∈ mgr.cmdList, cmd.cmdId = req.cmdId ∧
      amdgvRasAddVfCmdToAutoList mgr req memory =
        ({ mgr with
            cmdList := mgr.cmdList.filter fun other => other.entry ≠ cmd.entry
            listCount := mgr.listCount - 1 }, none) := by
  obtain ⟨cmd, there, same, found⟩ := find_of_mem_ids listed
  refine ⟨cmd, there, same, ?_⟩
  unfold amdgvRasAddVfCmdToAutoList
  rw [found]
  dsimp only
  rw [if_neg (not_not_intro disable)]

theorem add_absent (absent : req.cmdId ∉ mgr.ids) (entry : Nat) :
    amdgvRasAddVfCmdToAutoList mgr req (some entry) =
      ({ mgr with
          cmdList := mgr.cmdList ++ [⟨entry, false, false, 0, req.cmdId, req.addr, req.len⟩]
          listCount := mgr.listCount + 1 }, some entry) := by
  unfold amdgvRasAddVfCmdToAutoList
  rw [find_of_not_mem_ids absent]

theorem Books.appended (books : Books mgr fresh wanted) (absent : req.cmdId ∉ mgr.ids)
    (room : mgr.cmdList.length + 1 < 2 ^ 32) :
    Books
      { mgr with
        cmdList := mgr.cmdList ++ [⟨fresh, false, false, 0, req.cmdId, req.addr, req.len⟩]
        listCount := mgr.listCount + 1 }
      (fresh + 1) (Function.update wanted req.cmdId true) := by
  have ids : ∀ last, (VfAutoCmdMgr.mk (mgr.cmdList ++ [last]) (mgr.listCount + 1)
      mgr.needUpdateAll).ids = mgr.ids ++ [last.cmdId] := fun _ => map_append
  have entries : ∀ last, (VfAutoCmdMgr.mk (mgr.cmdList ++ [last]) (mgr.listCount + 1)
      mgr.needUpdateAll).entries = mgr.entries ++ [last.entry] := fun _ => map_append
  refine ⟨?_, ?_, ?_, ?_, ?_⟩
  · rw [ids, ← concat_eq_append]
    exact books.once.concat absent
  · rw [entries, ← concat_eq_append]
    apply books.apart.concat
    intro listed
    exact Nat.lt_irrefl fresh (books.old fresh listed)
  · intro entry listed
    rw [entries] at listed
    rcases mem_append.mp listed with before | last
    · exact Nat.lt_succ_of_lt (books.old entry before)
    · rw [mem_singleton.mp last]
      exact Nat.lt_succ_self fresh
  · have count := books.count
    have one : BitVec.toNat (1 : BitVec 32) = 1 := rfl
    simp only [length_append, length_singleton, BitVec.toNat_add, one]
    omega
  · intro id
    rw [ids, mem_append, mem_singleton]
    by_cases same : id = req.cmdId
    · rw [same, Function.update_self]
      simp
    · rw [Function.update_of_ne same, ← books.wanted id]
      simp [same]

theorem Books.filter (books : Books mgr fresh wanted) {cmd : AutoUpdateCmd}
    (listed : cmd ∈ mgr.cmdList) :
    (mgr.cmdList.filter fun other => other.entry ≠ cmd.entry).length + 1 = mgr.cmdList.length := by
  have distinct : mgr.cmdList.Nodup := List.Nodup.of_map _ books.apart
  have same : (mgr.cmdList.filter fun other => other.entry ≠ cmd.entry) =
      mgr.cmdList.erase cmd := by
    rw [distinct.erase_eq_filter]
    apply filter_congr
    intro other there
    by_cases here : other = cmd
    · simp [here]
    · have elsewhere : other.entry ≠ cmd.entry := fun place =>
        here (inj_on_of_nodup_map books.apart there listed place)
      simp [here, elsewhere]
  rw [same]
  exact length_erase_add_one listed

theorem Books.removed (books : Books mgr fresh wanted) {cmd : AutoUpdateCmd}
    (listed : cmd ∈ mgr.cmdList) :
    Books
      { mgr with
        cmdList := mgr.cmdList.filter fun other => other.entry ≠ cmd.entry
        listCount := mgr.listCount - 1 }
      fresh (Function.update wanted cmd.cmdId false) := by
  have sub : (mgr.cmdList.filter fun other => other.entry ≠ cmd.entry).Sublist mgr.cmdList :=
    filter_sublist
  refine ⟨?_, ?_, ?_, ?_, ?_⟩
  · exact books.once.sublist (sub.map _)
  · exact books.apart.sublist (sub.map _)
  · intro entry there
    exact books.old entry ((sub.map _).subset there)
  · have count := books.count
    have fewer := books.filter listed
    have one : BitVec.toNat (1 : BitVec 32) = 1 := rfl
    simp only [BitVec.toNat_sub, one]
    omega
  · intro id
    by_cases same : id = cmd.cmdId
    · rw [same, Function.update_self]
      refine iff_of_false ?_ Bool.false_ne_true
      intro there
      obtain ⟨other, kept, sameId⟩ := mem_map.mp there
      obtain ⟨before, elsewhere⟩ := mem_filter.mp kept
      have one := books.unique listed before sameId
      rw [one] at elsewhere
      exact of_decide_eq_true elsewhere rfl
    · rw [Function.update_of_ne same, ← books.wanted id]
      constructor
      · intro there
        exact (sub.map _).subset there
      · intro there
        obtain ⟨other, before, sameId⟩ := mem_map.mp there
        refine mem_map.mpr ⟨other, mem_filter.mpr ⟨before, ?_⟩, sameId⟩
        apply decide_eq_true
        intro place
        have one := inj_on_of_nodup_map books.apart before listed place
        rw [one] at sameId
        exact same sameId.symm

/-- What a request does to a list when it finds what it has to: what is not disabled stays, and what
it gets is there. -/
structure Added (mgr : VfAutoCmdMgr) (req : AutoUpdateReq) (fresh : Nat)
    (wanted : BitVec 32 → Bool) (result : VfAutoCmdMgr × Option Nat) : Prop where
  books : Books result.1 (fresh + 1)
    (Function.update wanted req.cmdId (decide (req.mode ≠ 0)))
  kept : ∀ cmd ∈ mgr.cmdList, (req.mode = 0 → cmd.cmdId ≠ req.cmdId) →
    cmd.entry ∈ result.1.entries
  got : ∀ entry, result.2 = some entry → entry ∈ result.1.entries

theorem Books.added_listed (books : Books mgr fresh wanted) (listed : req.cmdId ∈ mgr.ids) :
    Added mgr req fresh wanted (amdgvRasAddVfCmdToAutoList mgr req memory) := by
  have wasWanted := (books.wanted req.cmdId).mp listed
  by_cases disable : req.mode = 0
  · obtain ⟨cmd, there, same, result⟩ := @add_disabled mgr req memory listed disable
    rw [result]
    refine ⟨?_, ?_, ?_⟩
    · rw [decide_eq_false (not_not_intro disable), ← same]
      exact (books.removed there).later
    · intro other before elsewhere
      refine mem_map_of_mem (mem_filter.mpr ⟨before, ?_⟩)
      apply decide_eq_true
      intro place
      have one := inj_on_of_nodup_map books.apart before there place
      exact elsewhere disable (one ▸ same)
    · intro entry none_got
      cases none_got
  · obtain ⟨same, entry, there, result⟩ := @add_enabled mgr req memory listed disable
    refine ⟨?_, ?_, ?_⟩
    · rw [decide_eq_true disable, ← wasWanted, Function.update_eq_self]
      exact (books.same same).later
    · intro cmd before _
      rw [same.entries]
      exact mem_map_of_mem before
    · intro other found
      rw [result] at found
      rw [same.entries, ← Option.some.inj found]
      exact there

theorem Books.added_absent (books : Books mgr fresh wanted) (absent : req.cmdId ∉ mgr.ids)
    (enable : req.mode ≠ 0) (room : mgr.cmdList.length + 1 < 2 ^ 32) :
    Added mgr req fresh wanted (amdgvRasAddVfCmdToAutoList mgr req (some fresh)) := by
  rw [add_absent absent fresh]
  refine ⟨?_, ?_, ?_⟩
  · rw [decide_eq_true enable]
    exact books.appended absent room
  · intro cmd before _
    exact mem_map_of_mem (mem_append_left _ before)
  · intro entry found
    cases found
    exact mem_map.mpr ⟨_, mem_append_right _ (mem_singleton.mpr rfl), rfl⟩

end Add

section Steps

/-- Where the traversal of a list is that a thread is in. -/
def Thread.scans (th : Thread) : Option (Option Nat) :=
  match th.control with
  | .visit entry => some entry
  | _ => th.updating.map some

def Thread.atRest (th : Thread) : Prop :=
  match th.control with
  | .idle | .lock | .visit _ => True
  | _ => False

/-- What a thread has in hand is on the list of its VF, and a traversal has the lock. -/
structure Thread.Ok (entries : Nat → List Nat) (lock : Nat → Option Nat) (t : Nat) (th : Thread) :
    Prop where
  held : ∀ entry ∈ th.holds, entry ∈ entries th.vf
  scanning : ∀ position, th.scans = some position →
    lock th.vf = some t ∧ ∀ entry, position = some entry → entry ∈ entries th.vf
  rest : th.atRest → th.waiting = [] ∧ th.updating = none

def Sys.entries (s : Sys) (vf : Nat) : List Nat := (s.mgr vf).entries

structure Sys.Inv (s : Sys) : Prop where
  books : ∀ vf, Books (s.mgr vf) s.fresh (s.wanted vf)
  threads : ∀ t, (s.thread t).Ok s.entries s.lock t
  live : s.usedFreed = false
  idle : s.idleChanged = false

theorem Sys.Inv.lawful (inv : s.Inv) : s.Lawful :=
  ⟨fun vf => (inv.books vf).once, fun vf => (inv.books vf).count,
    fun vf => (inv.books vf).wanted, inv.live, inv.idle⟩

theorem Sys.initial_inv : Sys.initial.Inv := by
  refine ⟨?_, ?_, rfl, rfl⟩
  · intro vf
    refine ⟨nodup_nil, nodup_nil, ?_, rfl, ?_⟩
    · intro entry listed
      cases listed
    · intro id
      exact iff_of_false not_mem_nil Bool.false_ne_true
  · intro t
    refine ⟨?_, ?_, fun _ => ⟨rfl, rfl⟩⟩
    · intro entry listed
      cases listed
    · intro position scans
      cases scans

theorem Thread.Ok.free {th : Thread} {entries : Nat → List Nat} {lock : Nat → Option Nat}
    (calm : th.control = .idle ∨ th.control = .lock ∨ th.control = .call)
    (rest : th.waiting = [] ∧ th.updating = none) : th.Ok entries lock t := by
  have holds : th.holds = [] := by
    unfold Thread.holds
    rcases calm with calm | calm | calm
    · rw [calm, rest.1]
    · rw [calm, rest.1]
    · rw [calm, rest.1]
  have scans : th.scans = none := by
    unfold Thread.scans
    rcases calm with calm | calm | calm
    · rw [calm, rest.2]
      rfl
    · rw [calm, rest.2]
      rfl
    · rw [calm, rest.2]
      rfl
  refine ⟨?_, ?_, fun _ => rest⟩
  · intro entry held
    rw [holds] at held
    cases held
  · intro position there
    rw [scans] at there
    cases there

theorem Thread.Ok.idle {th : Thread} {entries : Nat → List Nat} {lock : Nat → Option Nat}
    (ok : th.Ok entries lock t) (at_ : th.control = .idle) :
    th.waiting = [] ∧ th.updating = none := by
  apply ok.rest
  unfold Thread.atRest
  rw [at_]
  trivial

theorem Sys.Inv.go {th : Thread} (inv : s.Inv) (ok : th.Ok s.entries s.lock t) :
    (s.go t th).Inv := by
  refine ⟨inv.books, ?_, inv.live, inv.idle⟩
  intro other
  by_cases here : other = t
  · rw [here]
    unfold Sys.go
    dsimp only
    rw [Function.update_self]
    exact ok
  · unfold Sys.go
    dsimp only
    rw [Function.update_of_ne here]
    exact inv.threads other

theorem Sys.use_live (listed : entry ∈ s.entries vf) : s.use vf entry = s := by
  have present : decide (entry ∉ (s.mgr vf).entries) = false :=
    decide_eq_false (not_not_intro listed)
  unfold Sys.use
  rw [present, Bool.or_false]

theorem Sys.entries_setMgr (same : left.Same (s.mgr vf)) :
    (s.setMgr vf left).entries = s.entries := by
  funext other
  unfold Sys.entries Sys.setMgr
  dsimp only
  by_cases here : other = vf
  · rw [here, Function.update_self]
    exact same.entries
  · rw [Function.update_of_ne here]

theorem Sys.Inv.setMgr (inv : s.Inv) (same : left.Same (s.mgr vf)) : (s.setMgr vf left).Inv := by
  refine ⟨?_, ?_, inv.live, inv.idle⟩
  · intro other
    unfold Sys.setMgr
    dsimp only
    by_cases here : other = vf
    · rw [here, Function.update_self]
      exact (inv.books vf).same same
    · rw [Function.update_of_ne here]
      exact inv.books other
  · intro other
    rw [Sys.entries_setMgr same]
    exact inv.threads other

theorem Thread.Ok.setLock {entries : Nat → List Nat} {lock : Nat → Option Nat}
    {owner : Option Nat} {th : Thread} (ok : th.Ok entries lock t)
    (apart : th.vf = vf → th.scans = none) : th.Ok entries (Function.update lock vf owner) t := by
  refine ⟨ok.held, ?_, ok.rest⟩
  intro position scans
  have elsewhere : th.vf ≠ vf := by
    intro here
    rw [apart here] at scans
    cases scans
  rw [Function.update_of_ne elsewhere]
  exact ok.scanning position scans

theorem Sys.Inv.unlocked (inv : s.Inv) {other : Nat} (free : s.lock vf = none)
    (here : (s.thread other).vf = vf) : (s.thread other).scans = none := by
  cases scans : (s.thread other).scans with
  | none => rfl
  | some position =>
    have owned := ((inv.threads other).scanning position scans).1
    rw [here, free] at owned
    cases owned

theorem Thread.Ok.visit {th : Thread} (ok : th.Ok s.entries s.lock t) {position : Option Nat}
    (scans : th.scans = some position) (waiting : th.waiting = []) (entry : Nat) :
    Thread.Ok s.entries s.lock t
      ⟨th.vf, none, th.waiting, .visit ((s.mgr th.vf).following entry)⟩ := by
  refine ⟨?_, ?_, fun _ => ⟨waiting, rfl⟩⟩
  · intro held listed
    rw [show Thread.holds _ = th.waiting from rfl, waiting] at listed
    cases listed
  · intro next same
    have behind : (s.mgr th.vf).following entry = next := Option.some.inj same
    refine ⟨(ok.scanning position scans).1, ?_⟩
    intro found isNext
    rw [isNext] at behind
    exact following_mem behind

theorem Sys.Inv.visit (inv : s.Inv) (full : Bool)
    (at_ : (s.thread t).control = .visit (some entry)) : (s.visit t entry full).Inv := by
  have ok := inv.threads t
  have scans : (s.thread t).scans = some (some entry) := by
    unfold Thread.scans
    rw [at_]
  obtain ⟨owned, listed⟩ := ok.scanning _ scans
  have rest : (s.thread t).waiting = [] ∧ (s.thread t).updating = none := by
    apply ok.rest
    unfold Thread.atRest
    rw [at_]
    trivial
  have on : Thread.Ok s.entries s.lock t { s.thread t with
      control := .visit ((s.mgr (s.thread t).vf).following entry) } := by
    have next := ok.visit scans rest.1 entry
    rw [← rest.2] at next
    exact next
  unfold Sys.visit
  dsimp only
  rw [Sys.use_live (listed entry rfl)]
  split
  · exact inv.go on
  next cmd _ =>
    split
    · exact inv.go on
    split
    · exact inv.go on
    split
    · have same : ((s.mgr (s.thread t).vf).modify entry fun cmd =>
          { cmd with needUpdate := true }).Same (s.mgr (s.thread t).vf) :=
        modify_same _ entry _ (fun _ => rfl) (fun _ => rfl)
      apply (inv.setMgr same).go
      rw [Sys.entries_setMgr same]
      exact on
    · apply inv.go
      refine ⟨?_, ?_, False.elim⟩
      · intro held listed
        rw [show Thread.holds _ = (s.thread t).waiting from rfl, rest.1] at listed
        cases listed
      · intro position same
        cases same
        exact ⟨owned, listed⟩

theorem Sys.Inv.resume (inv : s.Inv) {failed : Bool} (outcome : Bool)
    (at_ : (s.thread t).control = .back failed) : (s.resume t failed outcome).Inv := by
  have ok := inv.threads t
  have holds : (s.thread t).holds = (s.thread t).waiting := by
    unfold Thread.holds
    rw [at_]
  have scans : (s.thread t).scans = (s.thread t).updating.map some := by
    unfold Thread.scans
    rw [at_]
  unfold Sys.resume
  dsimp only
  split
  next updating entry waiting waits =>
    have listed : ∀ held ∈ entry :: waiting, held ∈ s.entries (s.thread t).vf := by
      rw [← waits, ← holds]
      exact ok.held
    have same : ((s.mgr (s.thread t).vf).modify entry fun cmd =>
        { cmd with needUpdate := failed }).Same (s.mgr (s.thread t).vf) :=
      modify_same _ entry _ (fun _ => rfl) (fun _ => rfl)
    rw [Sys.use_live (listed entry mem_cons_self)]
    apply (inv.setMgr same).go
    rw [Sys.entries_setMgr same]
    refine ⟨?_, ?_, False.elim⟩
    · intro held there
      exact listed held (mem_cons_of_mem entry there)
    · intro position there
      exact ok.scanning position (scans.trans there)
  next entry waits updates =>
    have at_entry : (s.thread t).scans = some (some entry) := by
      rw [scans, updates]
      rfl
    have listed := (ok.scanning _ at_entry).2 entry rfl
    have same : ((s.mgr (s.thread t).vf).modify entry fun cmd => cmd.updated failed).Same
        (s.mgr (s.thread t).vf) :=
      modify_same _ entry _ (fun cmd => updated_id cmd failed) (fun cmd => updated_entry cmd failed)
    rw [Sys.use_live listed]
    apply (inv.setMgr same).go
    rw [Sys.entries_setMgr same]
    exact ok.visit at_entry waits entry
  next waits updates =>
    exact inv.go (Thread.Ok.free (.inl rfl) ⟨waits, updates⟩)

theorem Sys.Inv.advance (inv : s.Inv) {outcome : Bool}
    (fired : s.advance t outcome = some after) : after.Inv := by
  have ok := inv.threads t
  unfold Sys.advance at fired
  dsimp only at fired
  split at fired
  next => cases fired
  next => cases fired
  next entry at_ =>
    cases fired
    have holds : (s.thread t).holds = entry :: (s.thread t).waiting := by
      unfold Thread.holds
      rw [at_]
    have scans : (s.thread t).scans = (s.thread t).updating.map some := by
      unfold Thread.scans
      rw [at_]
    rw [Sys.use_live (ok.held entry (by rw [holds]; exact mem_cons_self))]
    apply inv.go
    refine ⟨?_, ?_, False.elim⟩
    · intro held there
      apply ok.held
      rw [holds]
      exact there
    · intro position there
      exact ok.scanning position (scans.trans there)
  next failed at_ =>
    cases fired
    exact inv.resume outcome at_
  next at_ =>
    have rest : (s.thread t).waiting = [] ∧ (s.thread t).updating = none := by
      apply ok.rest
      unfold Thread.atRest
      rw [at_]
      trivial
    split at fired
    · cases fired
      exact inv.go (Thread.Ok.free (.inl rfl) rest)
    split at fired
    · cases fired
    next free =>
      cases fired
      have unlocked : s.lock (s.thread t).vf = none := not_not.mp free
      have taken : (s.setLock (s.thread t).vf (some t)).Inv := by
        refine ⟨inv.books, ?_, inv.live, inv.idle⟩
        intro other
        exact (inv.threads other).setLock fun here => inv.unlocked unlocked here
      apply taken.go
      refine ⟨?_, ?_, fun _ => rest⟩
      · intro held there
        rw [show Thread.holds _ = (s.thread t).waiting from rfl, rest.1] at there
        cases there
      · intro position there
        cases there
        refine ⟨Function.update_self .., ?_⟩
        intro entry first
        exact mem_of_mem_head? (Option.mem_def.mpr first)
  next at_ =>
    cases fired
    have scans : (s.thread t).scans = some none := by
      unfold Thread.scans
      rw [at_]
    have rest : (s.thread t).waiting = [] ∧ (s.thread t).updating = none := by
      apply ok.rest
      unfold Thread.atRest
      rw [at_]
      trivial
    have owned := (ok.scanning none scans).1
    have same : VfAutoCmdMgr.Same { s.mgr (s.thread t).vf with needUpdateAll := false }
        (s.mgr (s.thread t).vf) := ⟨rfl, rfl, rfl⟩
    have updated := inv.setMgr same
    -- the lock is given back while all others are elsewhere: it has one owner
    refine ⟨updated.books, ?_, updated.live, updated.idle⟩
    intro other
    by_cases here : other = t
    · rw [here]
      unfold Sys.go
      dsimp only
      rw [Function.update_self]
      exact Thread.Ok.free (.inr (.inl rfl)) rest
    · unfold Sys.go
      dsimp only
      rw [Function.update_of_ne here]
      apply (updated.threads other).setLock
      intro there
      cases position : (s.thread other).scans with
      | none => exact position
      | some found =>
        have owns := ((inv.threads other).scanning found position).1
        rw [show (s.thread other).vf = (s.thread t).vf from there, owned] at owns
        exact absurd (Option.some.inj owns).symm here
  next entry at_ =>
    cases fired
    exact inv.visit outcome at_

theorem Sys.Inv.replaced (inv : s.Inv) {fresh : Nat} {wanted : BitVec 32 → Bool} {changed : Bool}
    (books : Books left fresh wanted) (later : s.fresh ≤ fresh) (free : s.lock vf = none)
    (kept : ∀ other, (s.thread other).vf = vf → ∀ entry ∈ (s.thread other).holds,
      entry ∈ left.entries) (idle : changed = false) :
    Sys.Inv { s.setMgr vf left with
      fresh := fresh, wanted := Function.update s.wanted vf wanted, idleChanged := changed } := by
  refine ⟨?_, ?_, inv.live, idle⟩
  · intro other
    unfold Sys.setMgr
    dsimp only
    by_cases here : other = vf
    · rw [here, Function.update_self, Function.update_self]
      exact books
    · have before := inv.books other
      rw [Function.update_of_ne here, Function.update_of_ne here]
      exact ⟨before.once, before.apart,
        fun entry listed => Nat.lt_of_lt_of_le (before.old entry listed) later, before.count,
        before.wanted⟩
  · intro other
    have ok := inv.threads other
    unfold Sys.setMgr Sys.entries
    dsimp only
    by_cases here : (s.thread other).vf = vf
    · refine ⟨?_, ?_, ok.rest⟩
      · intro entry held
        rw [here, Function.update_self]
        exact kept other here entry held
      · intro position scans
        rw [inv.unlocked free here] at scans
        cases scans
    · refine ⟨?_, ?_, ok.rest⟩
      · intro entry held
        rw [Function.update_of_ne here]
        exact ok.held entry held
      · intro position scans
        rw [Function.update_of_ne here]
        exact ok.scanning position scans

theorem Sys.Inv.clear (inv : s.Inv) (meets : s.Meets (t, .clear vf)) (free : s.lock vf = none) :
    Sys.Inv { s.setMgr vf ⟨[], (s.mgr vf).listCount - BitVec.ofNat 32 (s.mgr vf).cmdList.length,
        false⟩ with wanted := Function.update s.wanted vf fun _ => false } := by
  refine inv.replaced ?_ (Nat.le_refl s.fresh) free ?_ inv.idle
  · refine ⟨nodup_nil, nodup_nil, ?_, ?_, ?_⟩
    · intro entry listed
      cases listed
    · have count : BitVec.ofNat 32 (s.mgr vf).cmdList.length = (s.mgr vf).listCount := by
        rw [← (inv.books vf).count, BitVec.ofNat_toNat, BitVec.setWidth_eq]
      rw [count, BitVec.sub_self]
      rfl
    · intro id
      exact iff_of_false not_mem_nil Bool.false_ne_true
  · intro other here entry held
    rw [meets other here] at held
    cases held

theorem Thread.Ok.added {th : Thread} {entries : Nat → List Nat} {lock : Nat → Option Nat}
    {mode : BitVec 32} {failed : Bool} {auto : Option Nat}
    (scans : th.scans = none) (call : th.control = .call)
    (held : ∀ entry ∈ th.holds, entry ∈ entries th.vf)
    (got : ∀ entry, auto = some entry → entry ∈ entries th.vf) :
    Thread.Ok entries lock t { th with control := .added mode failed auto } := by
  have updating : th.updating.map some = none := by
    unfold Thread.scans at scans
    rw [call] at scans
    exact scans
  have holds : th.holds = th.waiting := by
    unfold Thread.holds
    rw [call]
  rw [holds] at held
  have back : Thread.Ok entries lock t { th with control := .back failed } := by
    refine ⟨held, ?_, False.elim⟩
    intro position there
    cases updating.symm.trans there
  cases auto with
  | none => exact back
  | some entry =>
    unfold Control.added
    dsimp only
    split
    · refine ⟨?_, ?_, False.elim⟩
      · intro other there
        rcases mem_cons.mp there with here | before
        · rw [here]
          exact got entry rfl
        · exact held other before
      · intro position there
        cases updating.symm.trans there
    · exact back

theorem Sys.Inv.added (inv : s.Inv) {allocated failed : Bool}
    (meets : s.Meets (t, .setAuto req allocated failed)) :
    Added (s.mgr (s.thread t).vf) req s.fresh (s.wanted (s.thread t).vf)
      (amdgvRasAddVfCmdToAutoList (s.mgr (s.thread t).vf) req
        (if allocated then some s.fresh else none)) := by
  have books := inv.books (s.thread t).vf
  unfold Sys.Meets at meets
  dsimp only at meets
  by_cases listed : req.cmdId ∈ (s.mgr (s.thread t).vf).ids
  · exact books.added_listed listed
  · rw [if_neg listed] at meets
    obtain ⟨enable, memory, room⟩ := meets
    rw [if_pos memory]
    exact books.added_absent listed enable room

theorem Sys.Inv.setAuto (inv : s.Inv) {allocated failed : Bool}
    (meets : s.Meets (t, .setAuto req allocated failed)) (call : (s.thread t).control = .call)
    (fired : s.setCmdAutoUpdate t req allocated failed = some after) : after.Inv := by
  have added := inv.added meets
  unfold Sys.Meets at meets
  unfold Sys.setCmdAutoUpdate at fired
  dsimp only at fired meets
  split at fired
  · cases fired
  next open_ =>
    have free : s.lock (s.thread t).vf = none := not_not.mp fun locked => open_ (.inr locked)
    cases fired
    generalize amdgvRasAddVfCmdToAutoList (s.mgr (s.thread t).vf) req
      (if allocated then some s.fresh else none) = result at added
    have listed : req.mode = 0 → req.cmdId ∈ (s.mgr (s.thread t).vf).ids := by
      intro disable
      by_contra absent
      rw [if_neg absent] at meets
      exact meets.1 disable
    have kept : ∀ other, (s.thread other).vf = (s.thread t).vf →
        ∀ entry ∈ (s.thread other).holds, entry ∈ result.1.entries := by
      intro other here entry held
      have before := (inv.threads other).held entry held
      rw [here] at before
      obtain ⟨cmd, there, place⟩ := mem_map.mp before
      rw [← place]
      apply added.kept cmd there
      intro disable same
      rw [if_pos (listed disable)] at meets
      rw [← place] at held
      exact meets disable cmd there same other here held
    have unchanged : (s.idleChanged || decide (req.mode = 0 ∧
        req.cmdId ∉ (s.mgr (s.thread t).vf).ids ∧ result.1 ≠ s.mgr (s.thread t).vf)) = false := by
      rw [inv.idle, Bool.false_or]
      apply decide_eq_false
      intro ⟨disable, absent, _⟩
      exact absent (listed disable)
    have replaced := inv.replaced added.books (Nat.le_succ s.fresh) free kept unchanged
    apply replaced.go
    have place : ∀ entry, entry ∈ result.1.entries →
        entry ∈ (s.setMgr (s.thread t).vf result.1).entries (s.thread t).vf := by
      intro entry there
      unfold Sys.entries Sys.setMgr
      dsimp only
      rw [Function.update_self]
      exact there
    apply Thread.Ok.added (inv.unlocked free rfl) call
    · intro entry held
      exact place entry (kept t rfl entry held)
    · intro entry got
      exact place entry (added.got entry got)

theorem Sys.Inv.next (inv : s.Inv) {label : Nat × Action} (meets : s.Meets label)
    (fired : s.next label = some after) : after.Inv := by
  obtain ⟨t, action⟩ := label
  have ok := inv.threads t
  unfold Sys.next at fired
  dsimp only at fired
  cases action with
  | event vf =>
    dsimp only at fired
    split at fired
    next idle =>
      cases fired
      exact inv.go (Thread.Ok.free (.inr (.inr rfl)) (ok.idle idle))
    next => cases fired
  | update =>
    dsimp only at fired
    split at fired
    next idle =>
      cases fired
      exact inv.go (Thread.Ok.free (.inr (.inl rfl)) (ok.idle idle))
    next => cases fired
  | clear vf =>
    dsimp only at fired
    split at fired
    next open_ =>
      cases fired
      exact inv.clear meets open_.2.2
    next => cases fired
  | setAutoList vf enable =>
    dsimp only at fired
    split at fired
    next =>
      cases fired
      exact inv.setMgr ⟨rfl, rfl, rfl⟩
    next => cases fired
  | other failed =>
    dsimp only at fired
    split at fired
    next call =>
      cases fired
      apply inv.go
      have holds : (s.thread t).holds = (s.thread t).waiting := by
        unfold Thread.holds
        rw [call]
      have scans : (s.thread t).scans = (s.thread t).updating.map some := by
        unfold Thread.scans
        rw [call]
      refine ⟨?_, ?_, False.elim⟩
      · intro entry there
        exact ok.held entry (holds ▸ there)
      · intro position there
        exact ok.scanning position (scans.trans there)
    next => cases fired
  | setAuto req allocated failed =>
    dsimp only at fired
    split at fired
    next call => exact inv.setAuto meets call fired
    next => cases fired
  | advance outcome => exact inv.advance fired

end Steps

def Runs (ok : Sys → Nat × Action → Prop) : Sys → Prop :=
  Transition.Run (· = Sys.initial) (fun before label after => before.next label = some after) ok

/-- As long as the requests find what they have to, the lists are sets of what the guests want, and
no update uses what was removed. -/
theorem auto_list_lawful {s : Sys} (run : Runs Sys.Meets s) : s.Lawful := by
  have inv : s.Inv := by
    apply run.invariant Sys.Inv
    · intro state first
      rw [first]
      exact Sys.initial_inv
    · intro before label after inv meets fired
      exact inv.next meets fired
  exact inv.lawful

theorem Sys.meets_add {s : Sys} {t : Nat} {req : AutoUpdateReq} {failed : Bool}
    (new : req.cmdId ∉ (s.mgr (s.thread t).vf).ids) (on : req.mode ≠ 0)
    (room : (s.mgr (s.thread t).vf).cmdList.length + 1 < 2 ^ 32) :
    s.Meets (t, .setAuto req true failed) := by
  unfold Sys.Meets
  dsimp only
  rw [if_neg new]
  exact ⟨on, rfl, room⟩

theorem Sys.meets_disable {s : Sys} {t : Nat} {req : AutoUpdateReq} {allocated failed : Bool}
    (busy : List Nat) (there : req.cmdId ∈ (s.mgr (s.thread t).vf).ids)
    (apart : ∀ cmd ∈ (s.mgr (s.thread t).vf).cmdList, cmd.cmdId = req.cmdId → cmd.entry ∉ busy)
    (held : ∀ other, (s.thread other).holds ⊆ busy) :
    s.Meets (t, .setAuto req allocated failed) := by
  unfold Sys.Meets
  dsimp only
  rw [if_pos there]
  exact fun _ cmd listed same other _ holds => apart cmd listed same (held other holds)

/-- A command is enabled and handled; while another one of the same guest is handled, the first one
is disabled. -/
theorem auto_list_lawful_disabled : ∃ s, Runs Sys.Meets s ∧ s.Lawful ∧ (s.mgr 0).ids = [6] := by
  have new : Runs Sys.Meets _ := .start rfl
  have asked : Runs Sys.Meets _ := .next (0, .event 0) new trivial rfl
  have added : Runs Sys.Meets _ := .next (0, .setAuto ⟨1, 5, 4096, 512⟩ true false) asked
    (Sys.meets_add (by decide) (by decide) (by decide)) rfl
  have started : Runs Sys.Meets _ := .next (0, .advance true) added trivial rfl
  have handled : Runs Sys.Meets _ := .next (0, .other false) started trivial rfl
  have finished : Runs Sys.Meets _ := .next (0, .advance false) handled trivial rfl
  have idle : Runs Sys.Meets _ := .next (0, .advance false) finished trivial rfl
  have asked : Runs Sys.Meets _ := .next (1, .event 0) idle trivial rfl
  have added : Runs Sys.Meets _ := .next (1, .setAuto ⟨1, 6, 8192, 64⟩ true false) asked
    (Sys.meets_add (by decide) (by decide) (by decide)) rfl
  have started : Runs Sys.Meets _ := .next (1, .advance true) added trivial rfl
  have asked : Runs Sys.Meets _ := .next (0, .event 0) started trivial rfl
  have disabled : Runs Sys.Meets _ := .next (0, .setAuto ⟨0, 5, 4096, 512⟩ true false) asked
    (Sys.meets_disable [1] (by decide) (by decide) fun
      | 0 => nil_subset _
      | 1 => List.Subset.refl _
      | _ + 2 => nil_subset _) rfl
  exact ⟨_, disabled, auto_list_lawful disabled, rfl⟩

/-- A guest that disables a command which is not on the list puts it there. -/
theorem disabled_command_added : ¬ ∀ s, Runs Transition.always s → s.Lawful := by
  intro all
  have new : Runs Transition.always _ := .start rfl
  have asked : Runs Transition.always _ := .next (0, .event 0) new trivial rfl
  have added : Runs Transition.always _ :=
    .next (0, .setAuto ⟨0, 5, 4096, 512⟩ true false) asked trivial rfl
  have idle := (all _ added).idle
  revert idle
  decide

end MxGpu.AutoUpdate
