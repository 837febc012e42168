import MxGpu.VfEccCounts

/- When the counts that a VF reads are the errors since its start. -/
namespace MxGpu.VfEcc

open Aca RasVf Function List

def Sys.expands (s : Sys) : Todo → List Todo
  | .init vf => if s.ready then [.collect vf] else []
  | .collect vf => (range rasBlockIdLast).map (Todo.take vf)
  | .take vf blk => [.put vf blk (totals blk (s.aca blk))]
  | _ => []

section Todos

variable {s : Sys} {t t' v : Nat} {first todo : Todo} {rest : List Todo}

theorem perform_todo_ne (other : t' ≠ t) : (s.perform t rest first).todo t' = s.todo t' := by
  cases first with
  | init vf =>
    unfold Sys.perform
    dsimp only
    split
    · exact update_of_ne other ..
    · exact update_of_ne other ..
  | clearAll => exact update_of_ne other ..
  | collect vf => exact update_of_ne other ..
  | take vf blk => exact update_of_ne other ..
  | put vf blk counts => exact update_of_ne other ..

theorem perform_todo : (s.perform t rest first).todo t = s.expands first ++ rest := by
  cases first with
  | init vf =>
    unfold Sys.perform Sys.expands
    dsimp only
    split
    · exact update_self ..
    · exact update_self ..
  | clearAll => exact update_self ..
  | collect vf => exact update_self ..
  | take vf blk => exact update_self ..
  | put vf blk counts => exact update_self ..

theorem mem_expands (listed : todo ∈ s.expands first) :
    (∃ vf, first = .init vf ∧ todo = .collect vf) ∨
      (∃ vf blk, first = .collect vf ∧ todo = .take vf blk) ∨
        ∃ vf blk, first = .take vf blk ∧ todo = .put vf blk (totals blk (s.aca blk)) := by
  cases first with
  | init vf =>
    change todo ∈ if s.ready then _ else _ at listed
    split at listed
    · exact .inl ⟨vf, rfl, mem_singleton.mp listed⟩
    · cases listed
  | collect vf =>
    obtain ⟨blk, -, same⟩ := mem_map.mp listed
    exact .inr (.inl ⟨vf, blk, rfl, same.symm⟩)
  | take vf blk => exact .inr (.inr ⟨vf, blk, rfl, mem_singleton.mp listed⟩)
  | clearAll => cases listed
  | put => cases listed

theorem expands_concerns (listed : todo ∈ s.expands first) (about : todo.concerns v) :
    first.concerns v := by
  rcases mem_expands listed with ⟨vf, rfl, rfl⟩ | ⟨vf, blk, rfl, rfl⟩ | ⟨vf, blk, rfl, rfl⟩
  · exact about
  · exact about
  · exact about

theorem perform_concerns (next : s.todo t = first :: rest)
    (about : (s.perform t rest first).Concerns t' v) : s.Concerns t' v := by
  obtain ⟨todo, listed, concerns⟩ := about
  by_cases same : t' = t
  · subst same
    rw [perform_todo, mem_append] at listed
    rcases listed with new | old
    · exact ⟨first, next ▸ mem_cons_self .., expands_concerns new concerns⟩
    · exact ⟨todo, next ▸ mem_cons_of_mem first old, concerns⟩
  · rw [perform_todo_ne same] at listed
    exact ⟨todo, listed, concerns⟩

end Todos

def Sys.total (s : Sys) (blk : Nat) (kind : ErrKind) : Nat :=
  entrySum (·.totalCount kind) blk (s.aca blk)

def Todo.awaits (v blk : Nat) : Todo → Prop
  | .clearAll => True
  | .init vf => vf = v
  | .collect vf => vf = v
  | .take vf b => vf = v ∧ b = blk
  | .put .. => False

def Sys.Has (s : Sys) (is : Todo → Prop) : Prop := ∃ t, ∃ todo ∈ s.todo t, is todo

def Sys.Awaits (s : Sys) (v blk : Nat) : Prop := s.Has (Todo.awaits v blk)

def Sys.Holds (s : Sys) (v blk : Nat) (counts : EccCounts) : Prop :=
  s.Has (· = .put v blk counts)

def Sys.Based (s : Sys) (v blk : Nat) (counts : EccCounts) : Prop :=
  ∀ kind, (ofKind counts kind).toNat + s.since v blk kind = s.total blk kind

/-- What was taken for a VF, or else its baseline, is up to date unless it is still to be taken. -/
structure Sys.Current (s : Sys) (v blk : Nat) : Prop where
  held : ∀ counts, s.Holds v blk counts → s.Based v blk counts
  stored : (∀ counts, ¬ s.Holds v blk counts) → s.Based v blk (s.baseline v blk)

/-- Totals are cleared only ahead of all initialisations, and stored as soon as they are read. -/
structure InOrder (todo : List Todo) : Prop where
  tail : ∀ later ∈ todo.tail, (later ≠ .clearAll) ∧ ∀ v blk counts, later ≠ .put v blk counts
  head : todo.head? = some .clearAll → ∀ v, v < amdgvMaxVfNum → Todo.init v ∈ todo

structure Sys.Inv (s : Sys) : Prop where
  small : ∀ blk kind, s.total blk kind < 2 ^ 32
  apart : ∀ t t' v, s.Concerns t v → s.Concerns t' v → t = t'
  order : ∀ t, InOrder (s.todo t)
  current : ∀ v blk, v < amdgvMaxVfNum → blk < rasBlockIdLast → ¬ s.Awaits v blk → s.Current v blk
  lawful : s.Lawful

section Invariant

variable {s s' : Sys} {t v blk : Nat} {first : Todo} {rest : List Todo}

theorem Sys.Inv.found (inv : s.Inv) (blk : Nat) (kind : ErrKind) :
    (ofKind (totals blk (s.aca blk)) kind).toNat = s.total blk kind := by
  have fits := count_total (inv.small blk kind)
  cases kind with
  | ce => exact fits
  | ue => exact fits
  | de => exact fits

theorem ofKind_since (counts baseline : EccCounts) (kind : ErrKind) :
    (ofKind (counts.since baseline) kind).toNat =
      (ofKind counts kind).toNat - (ofKind baseline kind).toNat := by
  have less : ∀ a b : BitVec 32, (if a > b then a - b else 0).toNat = a.toNat - b.toNat := by
    intro a b
    split
    case isTrue more => exact BitVec.toNat_sub_of_le (BitVec.le_of_lt more)
    case isFalse more =>
      have small : a.toNat ≤ b.toNat := BitVec.not_lt.mp more
      change 0 = _
      omega
  cases kind with
  | ce => exact less ..
  | ue => exact less ..
  | de => exact less ..

theorem idle_current (inv : s.Inv) (known : v < amdgvMaxVfNum) (inside : blk < rasBlockIdLast)
    (idle : ∀ t, ¬ s.Concerns t v) : s.Based v blk (s.baseline v blk) := by
  have settled : ¬ s.Awaits v blk := by
    rintro ⟨t, todo, listed, awaits⟩
    refine idle t ⟨todo, listed, ?_⟩
    cases todo with
    | clearAll => trivial
    | init vf => exact awaits
    | collect vf => exact awaits
    | take vf b => exact awaits.1
    | put => cases awaits
  refine (inv.current v blk known inside settled).stored fun counts => ?_
  rintro ⟨t, todo, listed, rfl⟩
  exact idle t ⟨_, listed, rfl⟩

theorem read_since (inv : s.Inv) (known : v < amdgvMaxVfNum) (inside : blk < rasBlockIdLast)
    (idle : ∀ t, ¬ s.Concerns t v) {all : Bool} (caps : all → s.caps blk) {counts : EccCounts}
    (answer : s.read v blk all = some counts) (kind : ErrKind) :
    (ofKind counts kind).toNat = s.since v blk kind := by
  have based := idle_current inv known inside idle kind
  have found := inv.found blk kind
  unfold Sys.read at answer
  split at answer
  · cases answer
    rw [ofKind_since]
    omega
  · rename_i outside
    split at answer
    case isTrue asked => exact absurd (caps asked) outside
    case isFalse => cases answer

theorem Sys.Initial.inv (start : s.Initial) : s.Inv := by
  have none : ∀ blk kind, s.total blk kind = 0 := by
    intro blk kind
    unfold Sys.total entrySum
    apply sum_eq_zero
    intro n listed
    obtain ⟨ecc, inside, rfl⟩ := mem_map.mp listed
    rw [start.aca blk ecc inside]
    rfl
  refine ⟨fun blk kind => ?_, fun t t' v about => ?_, fun t => ?_, fun v blk _ _ _ => ?_, ?_⟩
  · rw [none]
    decide
  · obtain ⟨todo, listed, -⟩ := about
    rw [start.todo] at listed
    cases listed
  · rw [start.todo]
    refine ⟨fun later listed => ?_, fun empty => ?_⟩
    · cases listed
    · cases empty
  · constructor
    · rintro counts ⟨t, todo, listed, -⟩
      rw [start.todo] at listed
      cases listed
    · intro _ kind
      rw [start.baseline, start.since, none]
      cases kind <;> rfl
  · intro answer listed
    rw [start.answers] at listed
    cases listed

theorem Sys.Current.grow (current : s.Current v blk)
    (holds : ∀ counts, s'.Holds v blk counts ↔ s.Holds v blk counts)
    (baseline : s'.baseline v blk = s.baseline v blk)
    (grown : ∀ kind, ∃ n, s'.since v blk kind = s.since v blk kind + n ∧
      s'.total blk kind = s.total blk kind + n) : s'.Current v blk := by
  have based : ∀ counts, s.Based v blk counts → s'.Based v blk counts := by
    intro counts before kind
    obtain ⟨n, since, total⟩ := grown kind
    have sum := before kind
    omega
  constructor
  · intro counts held
    exact based counts (current.held counts ((holds counts).mp held))
  · intro free
    rw [baseline]
    exact based _ (current.stored fun counts held => free counts ((holds counts).mpr held))

end Invariant

section Performing

variable {s : Sys} {t v blk : Nat} {first : Todo} {rest : List Todo} {is : Todo → Prop}

theorem perform_has_new {todo : Todo} (new : todo ∈ s.expands first) (that : is todo) :
    (s.perform t rest first).Has is :=
  ⟨t, todo, perform_todo (s := s) ▸ mem_append_left rest new, that⟩

theorem perform_has (next : s.todo t = first :: rest) (has : (s.perform t rest first).Has is) :
    (∃ todo ∈ s.expands first, is todo) ∨ s.Has is := by
  obtain ⟨t', todo, listed, that⟩ := has
  by_cases same : t' = t
  · subst same
    rw [perform_todo, mem_append] at listed
    rcases listed with new | old
    · exact .inl ⟨todo, new, that⟩
    · exact .inr ⟨t', todo, next ▸ mem_cons_of_mem first old, that⟩
  · rw [perform_todo_ne same] at listed
    exact .inr ⟨t', todo, listed, that⟩

theorem perform_has_old (next : s.todo t = first :: rest) (has : s.Has is) :
    is first ∨ (s.perform t rest first).Has is := by
  obtain ⟨t', todo, listed, that⟩ := has
  by_cases same : t' = t
  · subst same
    rw [next, mem_cons] at listed
    rcases listed with rfl | old
    · exact .inl that
    · exact .inr ⟨t', todo, perform_todo (s := s) ▸ mem_append_right _ old, that⟩
  · exact .inr ⟨t', todo, perform_todo_ne (s := s) same ▸ listed, that⟩

theorem perform_has_iff (next : s.todo t = first :: rest)
    (same : is first ↔ ∃ todo ∈ s.expands first, is todo) :
    (s.perform t rest first).Has is ↔ s.Has is := by
  constructor
  · intro has
    rcases perform_has next has with new | old
    · exact ⟨t, first, next ▸ mem_cons_self .., same.mpr new⟩
    · exact old
  · intro has
    rcases perform_has_old next has with that | kept
    · obtain ⟨todo, new, also⟩ := same.mp that
      exact perform_has_new new also
    · exact kept

theorem perform_order (next : s.todo t = first :: rest) (order : ∀ t, InOrder (s.todo t))
    (t' : Nat) : InOrder ((s.perform t rest first).todo t') := by
  by_cases same : t' = t
  case neg =>
    rw [perform_todo_ne same]
    exact order t'
  subst same
  have before := order t'
  rw [next] at before
  rw [perform_todo]
  constructor
  · intro later listed
    cases first with
    | take vf b => exact before.tail later listed
    | clearAll => exact before.tail later (mem_of_mem_tail listed)
    | put vf b counts => exact before.tail later (mem_of_mem_tail listed)
    | init vf =>
      rcases mem_append.mp (mem_of_mem_tail listed) with new | old
      · rcases mem_expands new with ⟨vf, -, rfl⟩ | ⟨vf, b, other, -⟩ | ⟨vf, b, other, -⟩
        · exact ⟨nofun, nofun⟩
        · cases other
        · cases other
      · exact before.tail later old
    | collect vf =>
      rcases mem_append.mp (mem_of_mem_tail listed) with new | old
      · obtain ⟨b, -, rfl⟩ := mem_map.mp new
        exact ⟨nofun, nofun⟩
      · exact before.tail later old
  · intro atHead
    rcases mem_append.mp (mem_of_head? atHead) with new | old
    · rcases mem_expands new with ⟨vf, -, same⟩ | ⟨vf, b, -, same⟩ | ⟨vf, b, -, same⟩
      · cases same
      · cases same
      · cases same
    · exact absurd rfl (before.tail _ old).1

end Performing

section Steps

variable {s s' : Sys} {t v blk : Nat} {event : Event} {first : Todo} {rest : List Todo}

theorem perform_current (current : s.Current v blk) (next : s.todo t = first :: rest)
    (other : ∀ counts, first ≠ .put v blk counts)
    (new : ∀ counts, Todo.put v blk counts ∉ s.expands first)
    (baseline : (s.perform t rest first).baseline v blk = s.baseline v blk)
    (since : (s.perform t rest first).since v blk = s.since v blk)
    (aca : (s.perform t rest first).aca blk = s.aca blk) :
    (s.perform t rest first).Current v blk := by
  refine current.grow (fun counts => perform_has_iff next ?_) baseline fun kind => ⟨0, ?_, ?_⟩
  · constructor
    · intro same
      exact absurd same (other counts)
    · rintro ⟨todo, listed, rfl⟩
      exact absurd listed (new counts)
  · rw [since]
    rfl
  · unfold Sys.total
    rw [aca]
    rfl

theorem take_current (inv : s.Inv) (next : s.todo t = .take v blk :: rest) :
    (s.perform t rest (.take v blk)).Current v blk := by
  have new : (s.perform t rest (.take v blk)).Holds v blk (totals blk (s.aca blk)) :=
    perform_has_new (mem_singleton.mpr rfl) rfl
  constructor
  · rintro counts held kind
    have found := inv.found blk kind
    have restarted : (s.perform t rest (.take v blk)).since v blk kind = 0 := by
      unfold Sys.perform
      dsimp only
      rw [update_self, update_self]
    rw [restarted]
    rcases perform_has next held with ⟨todo, listed, same⟩ | ⟨t', todo, listed, rfl⟩
    · rw [mem_singleton.mp listed] at same
      cases same
      exact found
    · -- no other thread works for the VF, and this one stores what it reads at once
      have takes : s.Concerns t v := ⟨.take v blk, next ▸ mem_cons_self .., rfl⟩
      have same := inv.apart t t' v takes ⟨_, listed, rfl⟩
      subst same
      rw [next] at listed
      rcases mem_cons.mp listed with differs | later
      · cases differs
      · have order := (inv.order t).tail
        rw [next] at order
        exact absurd rfl ((order _ later).2 v blk counts)
  · intro free
    exact absurd new (free _)

theorem put_current {counts : EccCounts} (current : s.Current v blk)
    (next : s.todo t = .put v blk counts :: rest) :
    (s.perform t rest (.put v blk counts)).Current v blk := by
  constructor
  · intro left held
    rcases perform_has next held with ⟨todo, listed, -⟩ | before
    · cases listed
    · exact current.held left before
  · intro _
    have stored : (s.perform t rest (.put v blk counts)).baseline v blk = counts := by
      unfold Sys.perform
      dsimp only
      rw [update_self, update_self]
    rw [stored]
    exact current.held counts ⟨t, _, next ▸ mem_cons_self .., rfl⟩

theorem Sys.Inv.perform (inv : s.Inv) (next : s.todo t = first :: rest)
    (ready : ∀ v, first = .init v → s.ready) (known : v < amdgvMaxVfNum)
    (inside : blk < rasBlockIdLast) (settled : ¬ (s.perform t rest first).Awaits v blk) :
    (s.perform t rest first).Current v blk := by
  -- what the thread did last was not what made the counts current
  have before : (¬ first.awaits v blk) → s.Current v blk := by
    intro otherwise
    refine inv.current v blk known inside fun awaits => ?_
    rcases perform_has_old next awaits with that | kept
    · exact otherwise that
    · exact settled kept
  cases first with
  | clearAll =>
    have order := (inv.order t).head
    rw [next] at order
    have listed := order rfl v known
    rcases mem_cons.mp listed with same | later
    · cases same
    · refine absurd ⟨t, .init v, ?_, rfl⟩ settled
      rw [perform_todo]
      exact mem_append_right _ later
  | init vf =>
    have isReady := ready vf rfl
    by_cases same : vf = v
    · have collected : Todo.collect vf ∈ s.expands (.init vf) := by
        change _ ∈ if s.ready then _ else _
        rw [if_pos isReady]
        exact mem_singleton.mpr rfl
      exact absurd (perform_has_new collected same) settled
    · refine perform_current (before same) next nofun ?_ ?_ ?_ ?_
      · intro counts listed
        rcases mem_expands listed with ⟨vf, -, differs⟩ | ⟨vf, b, differs, -⟩ | ⟨vf, b, differs, -⟩
        · cases differs
        · cases differs
        · cases differs
      · unfold Sys.perform
        dsimp only
        rw [if_pos isReady]
      · unfold Sys.perform
        dsimp only
        rw [if_pos isReady]
      · unfold Sys.perform
        dsimp only
        rw [if_pos isReady]
  | collect vf =>
    by_cases same : vf = v
    · have taken : Todo.take vf blk ∈ s.expands (.collect vf) :=
        mem_map_of_mem (mem_range.mpr inside)
      exact absurd (perform_has_new taken ⟨same, rfl⟩) settled
    · refine perform_current (before same) next nofun ?_ ?_ rfl rfl
      · intro counts listed
        obtain ⟨b, -, differs⟩ := mem_map.mp listed
        cases differs
      · unfold Sys.perform
        dsimp only
        rw [update_of_ne fun h => same h.symm]
  | take vf b =>
    by_cases same : vf = v ∧ b = blk
    · obtain ⟨rfl, rfl⟩ := same
      exact take_current inv next
    · refine perform_current (before same) next nofun ?_ rfl ?_ rfl
      · intro counts listed
        cases mem_singleton.mp listed
        exact same ⟨rfl, rfl⟩
      · unfold Sys.perform
        dsimp only
        by_cases vfs : v = vf
        · subst vfs
          rw [update_self, update_of_ne fun h => same ⟨rfl, h.symm⟩]
        · rw [update_of_ne vfs]
  | put vf b counts =>
    by_cases same : vf = v ∧ b = blk
    · obtain ⟨rfl, rfl⟩ := same
      exact put_current (before id) next
    · refine perform_current (before id) next ?_ ?_ ?_ rfl rfl
      · intro counts' differs
        cases differs
        exact same ⟨rfl, rfl⟩
      · intro counts' listed
        cases listed
      · unfold Sys.perform
        dsimp only
        by_cases vfs : v = vf
        · subst vfs
          rw [update_self, update_of_ne fun h => same ⟨rfl, h.symm⟩]
        · rw [update_of_ne vfs]

theorem perform_total (inv : s.Inv) (blk : Nat) (kind : ErrKind) :
    (s.perform t rest first).total blk kind < 2 ^ 32 := by
  have small := inv.small blk kind
  cases first with
  | take vf b => exact small
  | put vf b counts => exact small
  | collect vf => exact small
  | init vf =>
    unfold Sys.perform
    dsimp only
    split
    · exact small
    · exact small
  | clearAll =>
    unfold Sys.total Sys.perform
    dsimp only
    split
    case isFalse => exact small
    refine lt_of_eq_of_lt (sum_eq_zero fun n listed => ?_) (by decide)
    obtain ⟨ecc, inside, rfl⟩ := mem_map.mp listed
    obtain ⟨cleared, fromAid, inside⟩ := mem_flatMap.mp inside
    obtain ⟨aid, _, rfl⟩ := mem_map.mp fromAid
    rcases mem_cons.mp inside with rfl | inside
    · rfl
    · dsimp only at inside
      split at inside
      · obtain ⟨_, _, rfl⟩ := mem_map.mp inside
        rfl
      · cases inside

theorem log_inv {bank : BankEcc} (inv : s.Inv) (room : s.Fits blk bank) : (s.log blk bank).Inv := by
  unfold Sys.log
  by_cases counted : checkBlockEccInfo blk (s.aca blk) bank = true
  case neg =>
    have same : logBadBank blk (s.aca blk) bank = s.aca blk := if_neg counted
    simp only [same, update_eq_self, counted, Bool.false_eq_true, if_false]
    exact inv
  have fits := room counted
  have sum : ∀ b kind, entrySum (·.totalCount kind) b
      (update s.aca blk (logBadBank blk (s.aca blk) bank) b) =
        s.total b kind + if b = blk then (bank.count kind).toNat else 0 := by
    intro b kind
    by_cases same : b = blk
    · subst same
      rw [update_self, if_pos rfl]
      exact logBadBank_sum (c := bank.count kind) (fun _ => rfl) counted (fits kind)
    · rw [update_of_ne same, if_neg same]
      rfl
  refine ⟨fun b kind => ?_, inv.apart, inv.order, fun v b known inside settled => ?_, inv.lawful⟩
  · refine lt_of_eq_of_lt (sum b kind) ?_
    split
    case isTrue same => exact same ▸ fits kind
    case isFalse => exact inv.small b kind
  · refine (inv.current v b known inside settled).grow (fun _ => Iff.rfl) rfl fun kind => ?_
    refine ⟨if b = blk then (bank.count kind).toNat else 0, ?_, sum b kind⟩
    dsimp only
    rw [if_pos counted]
    split
    case isTrue same => rw [same, update_self]
    case isFalse other => rw [update_of_ne other, Nat.add_zero]

theorem program_plain {op : Operation} {todo : Todo} (listed : todo ∈ op.program) :
    todo = .clearAll ∨ ∃ v, todo = .init v := by
  cases op with
  | vfInit vf => exact .inr ⟨vf, mem_singleton.mp listed⟩
  | resetAll cleared =>
    rcases mem_append.mp listed with clearing | init
    · split at clearing
      · exact .inl (mem_singleton.mp clearing)
      · cases clearing
    · obtain ⟨v, -, same⟩ := mem_map.mp init
      exact .inr ⟨v, same.symm⟩

theorem program_order (op : Operation) : InOrder op.program := by
  cases op with
  | vfInit vf =>
    constructor
    · intro later listed
      cases listed
    · intro atHead
      cases atHead
  | resetAll cleared =>
    constructor
    · intro later listed
      have init : later ∈ (range amdgvMaxVfNum).map Todo.init := by
        cases cleared with
        | true => exact listed
        | false => exact mem_of_mem_tail listed
      obtain ⟨v, -, rfl⟩ := mem_map.mp init
      exact ⟨nofun, nofun⟩
    · intro _ v known
      exact mem_append_right _ (mem_map_of_mem (mem_range.mpr known))

theorem start_inv {op : Operation} (inv : s.Inv) (met : s.Meets (.start t op))
    (fired : s.next (.start t op) = some s') : s'.Inv := by
  unfold Sys.next at fired
  dsimp only at fired
  split at fired
  case isFalse => cases fired
  case isTrue free =>
  cases fired
  -- the thread had nothing to do, so all that it has is new
  have here : ∀ t', update s.todo t op.program t' =
      if t' = t then op.program else s.todo t' := by
    intro t'
    split
    case isTrue same => rw [same, update_self]
    case isFalse other => rw [update_of_ne other]
  have kept : ∀ {is : Todo → Prop}, s.Has is → ∃ t', ∃ todo ∈
      update s.todo t op.program t', is todo := by
    rintro is ⟨t', todo, listed, that⟩
    refine ⟨t', todo, ?_, that⟩
    rw [update_of_ne]
    · exact listed
    · rintro rfl
      rw [free] at listed
      cases listed
  have about : ∀ t' v, (∃ todo ∈ update s.todo t op.program t', todo.concerns v) →
      (t' = t ∧ ∀ t', ¬ s.Concerns t' v) ∨ t' ≠ t ∧ s.Concerns t' v := by
    rintro t' v ⟨todo, listed, concerns⟩
    rw [here] at listed
    split at listed
    case isTrue same => exact .inl ⟨same, met v ⟨todo, listed, concerns⟩⟩
    case isFalse other => exact .inr ⟨other, todo, listed, concerns⟩
  refine ⟨inv.small, fun t' t'' v first second => ?_, fun t' => ?_,
    fun v b known inside settled => ?_, inv.lawful⟩
  · rcases about t' v first with ⟨same, none⟩ | ⟨-, held⟩
    · rcases about t'' v second with ⟨also, -⟩ | ⟨-, held⟩
      · rw [same, also]
      · exact absurd held (none t'')
    · rcases about t'' v second with ⟨-, none⟩ | ⟨-, also⟩
      · exact absurd held (none t')
      · exact inv.apart t' t'' v held also
  · dsimp only
    rw [here]
    split
    case isFalse => exact inv.order t'
    exact program_order op
  · have before := inv.current v b known inside fun awaits => settled (kept awaits)
    refine before.grow (fun counts => ⟨?_, fun held => kept held⟩) rfl fun kind => ⟨0, rfl, rfl⟩
    rintro ⟨t', todo, listed, same⟩
    dsimp only at listed
    rw [here] at listed
    split at listed
    case isFalse => exact ⟨t', todo, listed, same⟩
    rcases program_plain listed with rfl | ⟨v, rfl⟩
    · cases same
    · cases same

theorem Sys.Inv.next (inv : s.Inv) (met : s.Meets event) (fired : s.next event = some s') :
    s'.Inv := by
  cases event with
  | error blk bank =>
    cases fired
    exact log_inv inv met
  | setReady ready =>
    cases fired
    refine ⟨inv.small, inv.apart, inv.order, fun v b known inside settled => ?_, inv.lawful⟩
    have before := inv.current v b known inside settled
    exact ⟨before.held, before.stored⟩
  | start t op => exact start_inv inv met fired
  | run t pending =>
    unfold Sys.next at fired
    dsimp only at fired
    split at fired
    · cases fired
    · rename_i v rest blk bank next
      cases fired
      exact log_inv inv (met.2 _ rfl ⟨v, congrArg head? next⟩)
    · rename_i first rest next _
      cases fired
      have ready : ∀ v, first = .init v → s.ready := by
        rintro v rfl
        exact met.1 v (congrArg head? next)
      refine ⟨perform_total inv, fun t' t'' v one two => ?_, perform_order next inv.order,
        fun v b known inside settled => inv.perform next ready known inside settled, ?_⟩
      · exact inv.apart t' t'' v (perform_concerns next one) (perform_concerns next two)
      · have same : (s.perform t rest first).answers = s.answers := by
          cases first with
          | init vf =>
            unfold Sys.perform
            dsimp only
            split
            · rfl
            · rfl
          | clearAll => rfl
          | collect => rfl
          | take => rfl
          | put => rfl
        unfold Sys.Lawful
        rw [same]
        exact inv.lawful
  | query v blk all =>
    unfold Sys.next at fired
    dsimp only at fired
    split at fired
    case isFalse => cases fired
    case isTrue valid =>
    split at fired
    · cases fired
      exact inv
    · rename_i counts answer
      cases fired
      refine ⟨inv.small, inv.apart, inv.order, fun v b known inside settled => ?_, ?_⟩
      · have before := inv.current v b known inside settled
        exact ⟨before.held, before.stored⟩
      · intro answered listed
        rcases mem_append.mp listed with old | new
        · exact inv.lawful answered old
        · rw [mem_singleton.mp new]
          exact read_since inv valid.1 valid.2.1 met.1 met.2 answer

theorem read_same (w : Nat) (all : Bool) (aca : s'.aca = s.aca) (caps : s'.caps = s.caps)
    (baseline : s'.baseline w = s.baseline w) : s'.read w blk all = s.read w blk all := by
  unfold Sys.read
  rw [aca, caps, baseline]

theorem read_other (fired : s.next event = some s') (acts : s.actsFor event = some v)
    (found : ¬ s.Collects event) {w : Nat} (other : w ≠ v) (all : Bool) :
    s'.read w blk all = s.read w blk all := by
  cases event with
  | error => cases acts
  | setReady => cases acts
  | start => cases acts
  | query v' blk all =>
    unfold Sys.next at fired
    dsimp only at fired
    split at fired
    · split at fired
      · cases fired
        rfl
      · cases fired
        rfl
    · cases fired
  | run t pending =>
    unfold Sys.next at fired
    unfold Sys.actsFor at acts
    dsimp only at fired acts
    split at fired
    · cases fired
    · rename_i v' rest blk bank next
      exact absurd ⟨v', congrArg head? next⟩ found
    · rename_i first rest next _
      rw [next] at acts
      cases fired
      cases first with
      | clearAll => cases acts
      | init vf =>
        unfold Sys.perform
        dsimp only
        split
        · exact read_same w all rfl rfl rfl
        · exact read_same w all rfl rfl rfl
      | collect vf =>
        cases acts
        exact read_same w all rfl rfl (update_of_ne other ..)
      | take vf b => exact read_same w all rfl rfl rfl
      | put vf b counts =>
        cases acts
        exact read_same w all rfl rfl (update_of_ne other ..)

end Steps

def plainSys : Sys where
  aca blk := if blk = 0 then [⟨.zero, []⟩] else []
  caps blk := blk = 0
  ready := true
  baseline _ _ := ⟨0, 0, 0⟩
  todo _ := []
  since _ _ _ := 0
  answers := []

def plainBank : BankEcc := ⟨fun kind => if kind = .ce then 1 else 0, true, 0, false, 0⟩

def plainError : Event := .error 0 plainBank

theorem plainSys_initial : plainSys.Initial := by
  refine ⟨fun blk ecc listed => ?_, fun _ _ => rfl, fun _ => rfl, fun _ _ _ => rfl, rfl⟩
  obtain ⟨aid, fromBlock, inside⟩ := mem_flatMap.mp listed
  change aid ∈ if blk = 0 then [(⟨.zero, []⟩ : AidEcc)] else [] at fromBlock
  split at fromBlock
  · rw [mem_singleton.mp fromBlock] at inside
    rcases mem_cons.mp inside with same | inXcd
    · exact same
    · split at inXcd
      · cases inXcd
      · cases inXcd
  · cases fromBlock

abbrev LawRun : Sys → Prop :=
  Transition.Run Sys.Initial (fun before event after => before.next event = some after) Sys.Meets

def Sys.hasRoom (s : Sys) (found : Nat × BankEcc) : Bool :=
  [ErrKind.ce, .ue, .de].all fun kind => entrySum (·.totalCount kind) found.1 (s.aca found.1) +
    (found.2.count kind).toNat < 2 ^ 32

/-- Thread 0 alone acts, and everything waits until it has nothing left to do. -/
def Sys.simple (s : Sys) : Event → Bool
  | .error blk bank => s.hasRoom (blk, bank)
  | .setReady _ => true
  | .start t _ => t = 0 ∧ s.todo 0 = []
  | .run t pending => t = 0 ∧ s.ready ∧ pending.all s.hasRoom
  | .query _ blk all => s.todo 0 = [] ∧ (all → s.caps blk)

theorem simple_meets {s : Sys} {event : Event} (alone : ∀ t ≠ 0, s.todo t = [])
    (simple : s.simple event = true) : s.Meets event := by
  have room : ∀ found, s.hasRoom found = true → s.Fits found.1 found.2 := by
    intro found fits _ kind
    simp only [Sys.hasRoom, all_cons, all_nil, Bool.and_true, Bool.and_eq_true,
      decide_eq_true_eq] at fits
    cases kind
    · exact fits.1
    · exact fits.2.1
    · exact fits.2.2
  have idle : s.todo 0 = [] → ∀ t v, ¬ s.Concerns t v := by
    rintro free t v ⟨todo, listed, -⟩
    by_cases zero : t = 0
    · subst zero
      rw [free] at listed
      cases listed
    · rw [alone t zero] at listed
      cases listed
  cases event with
  | error blk bank => exact room (blk, bank) simple
  | setReady ready => trivial
  | start t op => exact fun v _ t => idle (of_decide_eq_true simple).2 t v
  | run t pending =>
    obtain ⟨-, ready, fits⟩ := of_decide_eq_true simple
    refine ⟨fun _ _ => ready, fun found same _ => room found ?_⟩
    cases same
    exact fits
  | query v blk all =>
    obtain ⟨free, caps⟩ := of_decide_eq_true simple
    exact ⟨fun t => idle free t v, caps⟩

theorem simple_run (events : List Event) {s last : Sys} (run : LawRun s)
    (alone : ∀ t ≠ 0, s.todo t = [])
    (follows : events.foldlM (fun s event => if s.simple event then s.next event else none) s =
      some last) : LawRun last := by
  induction events generalizing s with
  | nil =>
    cases follows
    exact run
  | cons event rest ih =>
    rw [foldlM_cons, Option.bind_eq_bind, Option.bind_eq_some_iff] at follows
    obtain ⟨between, fired, later⟩ := follows
    split at fired
    case isFalse => cases fired
    case isTrue simple =>
    refine ih (run.next event (simple_meets alone simple) fired) (fun t other => ?_) later
    rw [← alone t other]
    cases event with
    | error => cases fired; rfl
    | setReady => cases fired; rfl
    | start t' op =>
      obtain ⟨rfl, free⟩ := of_decide_eq_true simple
      rw [Sys.next, if_pos free] at fired
      cases fired
      exact update_of_ne other ..
    | run t' pending =>
      obtain ⟨rfl, -⟩ := of_decide_eq_true simple
      unfold Sys.next at fired
      dsimp only at fired
      split at fired
      · cases fired
      · cases fired
        rfl
      · cases fired
        exact perform_todo_ne other
    | query v blk all =>
      unfold Sys.next at fired
      dsimp only at fired
      split at fired
      · split at fired
        · cases fired
          rfl
        · cases fired
          rfl
      · cases fired

/-- An error, the initialisation of VF 0, which finds a second one in the hardware, and a third
error; then VF 0 and VF 1 ask. -/
def threeErrors : List Event :=
  [plainError, .start 0 (.vfInit 0), .run 0 none, .run 0 (some (0, plainBank))] ++
    replicate 79 (.run 0 none) ++ [plainError, .query 0 0 false, .query 1 0 true]

end MxGpu.VfEcc
