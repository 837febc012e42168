import MxGpu.ByteStore
import MxGpu.Transition

/- The pools of elements of one size that the RAS log takes its records from
(`amdgv_ras_mempool.c`): a stack of free elements, and a signature in those that were freed. -/
namespace MxGpu.Mempool

open ByteStore

def freedSignature : Nat := 0xFEEDDEAD

/-- `struct amdgv_mempool`. The stack has the element that was pushed last in front, so that its
length is `count`. -/
structure AmdgvMempool where
  capacity : Nat
  elemSize : Nat
  freeStack : List Nat
  bulkAllocation : Nat
  deriving DecidableEq

def mempoolPush (pool : AmdgvMempool) (elem : Nat) : AmdgvMempool :=
  if pool.freeStack.length < pool.capacity then
    { pool with freeStack := elem :: pool.freeStack }
  else pool

def mempoolPop (pool : AmdgvMempool) : Option Nat × AmdgvMempool :=
  match pool.freeStack with
  | [] => (none, pool)
  | elem :: rest => (some elem, { pool with freeStack := rest })

/-- `mempool_init`. The memory is what the allocations give: nothing, when one of them fails. -/
def mempoolInit (mem : Store) (bulkMem : Option Nat) (numElems : Int) (elemSize : Nat) :
    Option (Store × AmdgvMempool) :=
  if numElems ≤ 0 ∨ elemSize = 0 then none
  else if (2 ^ 64 - 1) / 8 < elemSize then none
  else if (2 ^ 64 - 1) / elemSize < numElems.toNat then none
  else
    bulkMem.map fun bulk =>
      (write mem bulk (List.replicate (numElems.toNat * elemSize) 0),
        (List.range numElems.toNat).foldl (fun pool i => mempoolPush pool (bulk + i * elemSize))
          ⟨numElems.toNat, elemSize, [], bulk⟩)

def mempoolAlloc (mem : Store) (pool : AmdgvMempool) : Option Nat × Store × AmdgvMempool :=
  match mempoolPop pool with
  | (none, pool) => (none, mem, pool)
  | (some elem, pool) => (some elem, write mem elem (List.replicate pool.elemSize 0), pool)

def signature (mem : Store) (elem : Nat) : Nat := ofLe (read mem elem 4)

def mempoolFreeElem (mem : Store) (pool : AmdgvMempool) (elem : Nat) : Store × AmdgvMempool :=
  if elem = 0 then (mem, pool)
  else if signature mem elem = freedSignature then (mem, pool)
  else if ¬pool.freeStack.length < pool.capacity then (mem, pool)
  else (write mem elem (leBytes 4 freedSignature), mempoolPush pool elem)

def AmdgvMempool.elements (pool : AmdgvMempool) : List Nat :=
  (List.range pool.capacity).map fun i => pool.bulkAllocation + i * pool.elemSize

structure Sys where
  mem : Store
  pool : AmdgvMempool
  held : List Nat

inductive Call
  | alloc
  | free (elem : Nat)
  | store (elem off : Nat) (bytes : List UInt8)

/-- One call: elements of the pool are freed, in whatever state they are, and what is held is
written within its bounds. -/
def Sys.next (s : Sys) : Call → Option Sys
  | .alloc =>
    let (elem, mem, pool) := mempoolAlloc s.mem s.pool
    some ⟨mem, pool, elem.toList ++ s.held⟩
  | .free elem =>
    if elem = 0 ∨ elem ∈ s.pool.elements then
      let (mem, pool) := mempoolFreeElem s.mem s.pool elem
      some ⟨mem, pool, s.held.erase elem⟩
    else none
  | .store elem off bytes =>
    if elem ∈ s.held ∧ off + bytes.length ≤ s.pool.elemSize then
      some { s with mem := write s.mem (elem + off) bytes }
    else none

def Sys.Initial (s : Sys) : Prop :=
  s.held = [] ∧ ∃ mem bulk numElems elemSize, bulk ≠ 0 ∧
    mempoolInit mem (some bulk) numElems elemSize = some (s.mem, s.pool)

structure Sys.Conserved (s : Sys) : Prop where
  count : s.pool.freeStack.length + s.held.length = s.pool.capacity
  once : (s.pool.freeStack ++ s.held).Nodup
  all : ∀ elem, elem ∈ s.pool.elements ↔ elem ∈ s.pool.freeStack ∨ elem ∈ s.held

/-- What the calls are for: an allocation hands out an element that nobody holds as long as there is
one, an element that is given back can be handed out again, and one that nobody holds cannot be
given back. -/
def Effect (s : Sys) (call : Call) (after : Sys) : Prop :=
  match call with
  | .alloc =>
    if s.pool.freeStack = [] then after = s
    else ∃ elem, elem ∉ s.held ∧ after.held = elem :: s.held
  | .free elem =>
    if elem ∈ s.held then
      elem ∉ after.held ∧ ∃ again, after.next .alloc = some again ∧ elem ∈ again.held
    else after = s
  | .store _ _ _ => after.pool = s.pool ∧ after.held = s.held

def Lawful (s : Sys) (call : Call) (after : Sys) : Prop := after.Conserved ∧ Effect s call after

/-- What a call has to find: an element that is given back does not begin with the signature, and
one that is free already does, unless the pool is full. -/
def Sys.Meets (s : Sys) : Call → Prop
  | .free elem =>
    if elem ∈ s.held then signature s.mem elem ≠ freedSignature
    else elem = 0 ∨ signature s.mem elem = freedSignature ∨ s.held = []
  | _ => True

section Init

variable {mem : Store} {bulk : Nat} {numElems : Int} {elemSize : Nat}

theorem mempoolPush_room {pool : AmdgvMempool} (elem : Nat)
    (room : pool.freeStack.length < pool.capacity) :
    mempoolPush pool elem = { pool with freeStack := elem :: pool.freeStack } := by
  unfold mempoolPush
  rw [if_pos room]

theorem foldl_mempoolPush (elem : Nat → Nat) (indices : List Nat) (pool : AmdgvMempool)
    (room : pool.freeStack.length + indices.length ≤ pool.capacity) :
    indices.foldl (fun pool i => mempoolPush pool (elem i)) pool =
      { pool with freeStack := (indices.map elem).reverse ++ pool.freeStack } := by
  induction indices generalizing pool with
  | nil => rfl
  | cons i indices ih =>
    rw [List.length_cons] at room
    rw [List.foldl_cons, mempoolPush_room (elem i) (by omega), ih]
    · simp
    · simp only [List.length_cons]
      omega

theorem elements_length (pool : AmdgvMempool) : pool.elements.length = pool.capacity := by
  unfold AmdgvMempool.elements
  rw [List.length_map, List.length_range]

theorem elements_nodup {pool : AmdgvMempool} (size : pool.elemSize ≠ 0) : pool.elements.Nodup := by
  apply List.Nodup.map _ List.nodup_range
  intro i j same
  have products : i * pool.elemSize = j * pool.elemSize := Nat.add_left_cancel same
  exact Nat.eq_of_mul_eq_mul_right (Nat.pos_of_ne_zero size) products

/-- What holds between the calls: the free elements and the held ones are the pool's. -/
structure Sys.Inv (s : Sys) : Prop where
  perm : (s.pool.freeStack ++ s.held).Perm s.pool.elements
  nodup : s.pool.elements.Nodup
  nonnull : 0 ∉ s.pool.elements

theorem Sys.Initial.inv {s : Sys} (initial : s.Initial) : s.Inv := by
  obtain ⟨none_held, mem, bulk, numElems, elemSize, nonnull, inits⟩ := initial
  unfold mempoolInit at inits
  split at inits
  · cases inits
  next sizes =>
    split at inits
    · cases inits
    split at inits
    · cases inits
    simp only [Option.map_some, Option.some.injEq, Prod.mk.injEq] at inits
    obtain ⟨-, pool⟩ := inits
    rw [foldl_mempoolPush _ _ _ (by simp)] at pool
    have size : elemSize ≠ 0 := fun zero => sizes (.inr zero)
    refine ⟨?_, ?_, ?_⟩
    · rw [none_held, ← pool, List.append_nil, List.append_nil]
      exact List.reverse_perm _
    · apply elements_nodup
      rw [← pool]
      exact size
    · rw [← pool]
      intro listed
      obtain ⟨i, -, zero⟩ := List.mem_map.mp listed
      have first : bulk = 0 := Nat.eq_zero_of_add_eq_zero_right zero
      exact nonnull first

end Init

section Steps

variable {s after : Sys} {elem : Nat}

theorem Sys.Inv.conserved (inv : s.Inv) : s.Conserved := by
  refine ⟨?_, ?_, ?_⟩
  · rw [← List.length_append, inv.perm.length_eq, elements_length]
  · exact inv.perm.nodup_iff.mpr inv.nodup
  · intro elem
    rw [← inv.perm.mem_iff, List.mem_append]

theorem Sys.Inv.moved (inv : s.Inv) (elements : after.pool.elements = s.pool.elements)
    (moved : (after.pool.freeStack ++ after.held).Perm (s.pool.freeStack ++ s.held)) :
    after.Inv := by
  refine ⟨?_, ?_, ?_⟩
  · rw [elements]
    exact moved.trans inv.perm
  · rw [elements]
    exact inv.nodup
  · rw [elements]
    exact inv.nonnull

theorem Sys.Inv.room (inv : s.Inv) (some_held : s.held ≠ []) :
    s.pool.freeStack.length < s.pool.capacity := by
  have count := inv.conserved.count
  have positive : 0 < s.held.length := List.length_pos_iff.mpr some_held
  omega

theorem mempoolFreeElem_signed {mem : Store} {pool : AmdgvMempool}
    (signed : signature mem elem = freedSignature) :
    mempoolFreeElem mem pool elem = (mem, pool) := by
  unfold mempoolFreeElem
  split
  · rfl
  · rfl

theorem mempoolFreeElem_null (mem : Store) (pool : AmdgvMempool) :
    mempoolFreeElem mem pool 0 = (mem, pool) := by
  unfold mempoolFreeElem
  rw [if_pos rfl]

theorem mempoolFreeElem_full {mem : Store} {pool : AmdgvMempool}
    (full : ¬pool.freeStack.length < pool.capacity) :
    mempoolFreeElem mem pool elem = (mem, pool) := by
  unfold mempoolFreeElem
  rw [if_pos full]
  split
  · rfl
  split
  · rfl
  · rfl

theorem mempoolFreeElem_pushed {mem : Store} {pool : AmdgvMempool} (nonnull : elem ≠ 0)
    (unsigned : signature mem elem ≠ freedSignature)
    (room : pool.freeStack.length < pool.capacity) :
    mempoolFreeElem mem pool elem =
      (write mem elem (leBytes 4 freedSignature),
        { pool with freeStack := elem :: pool.freeStack }) := by
  unfold mempoolFreeElem
  rw [if_neg nonnull, if_neg unsigned, if_neg (not_not_intro room), mempoolPush_room elem room]

theorem next_alloc (fired : s.next .alloc = some after) :
    s.pool.freeStack = [] ∧ after = s ∨
      ∃ elem rest, s.pool.freeStack = elem :: rest ∧
        after = ⟨write s.mem elem (List.replicate s.pool.elemSize 0),
          { s.pool with freeStack := rest }, elem :: s.held⟩ := by
  unfold Sys.next mempoolAlloc mempoolPop at fired
  cases stack : s.pool.freeStack with
  | nil =>
    left
    rw [stack] at fired
    cases fired
    exact ⟨rfl, rfl⟩
  | cons elem rest =>
    right
    rw [stack] at fired
    cases fired
    exact ⟨elem, rest, rfl, rfl⟩

theorem next_free (fired : s.next (.free elem) = some after) :
    (elem = 0 ∨ elem ∈ s.pool.elements) ∧
      after = ⟨(mempoolFreeElem s.mem s.pool elem).1, (mempoolFreeElem s.mem s.pool elem).2,
        s.held.erase elem⟩ := by
  unfold Sys.next at fired
  dsimp only at fired
  split at fired
  case isTrue own =>
    cases fired
    exact ⟨own, rfl⟩
  case isFalse => cases fired

theorem Sys.Inv.alloc (inv : s.Inv) (fired : s.next .alloc = some after) :
    after.Inv ∧ Effect s .alloc after := by
  rcases next_alloc fired with ⟨empty, same⟩ | ⟨elem, rest, stack, done⟩
  · subst same
    refine ⟨inv, ?_⟩
    unfold Effect
    dsimp only
    rw [if_pos empty]
  · subst done
    have once := inv.conserved.once
    rw [stack] at once
    constructor
    · refine inv.moved ?_ ?_
      · rfl
      · rw [stack]
        exact List.perm_middle
    · unfold Effect
      dsimp only
      rw [if_neg (by rw [stack]; exact List.cons_ne_nil elem rest)]
      refine ⟨elem, ?_, rfl⟩
      intro held
      exact (List.nodup_cons.mp once).1 (List.mem_append_right rest held)

theorem Sys.Inv.free_held (inv : s.Inv) (held : elem ∈ s.held)
    (unsigned : signature s.mem elem ≠ freedSignature)
    (fired : s.next (.free elem) = some after) : after.Inv ∧ Effect s (.free elem) after := by
  obtain ⟨-, done⟩ := next_free fired
  have conserved := inv.conserved
  have nonnull : elem ≠ 0 := by
    intro zero
    rw [zero] at held
    exact inv.nonnull ((conserved.all 0).mpr (.inr held))
  have held_once : s.held.Nodup := (List.nodup_append.mp conserved.once).2.1
  rw [mempoolFreeElem_pushed nonnull unsigned (inv.room (List.ne_nil_of_mem held))] at done
  subst done
  constructor
  · refine inv.moved ?_ ?_
    · rfl
    · have back : (elem :: s.held.erase elem).Perm s.held := (List.perm_cons_erase held).symm
      exact List.perm_middle.symm.trans (back.append_left s.pool.freeStack)
  · unfold Effect
    dsimp only
    rw [if_pos held]
    refine ⟨held_once.not_mem_erase, _, rfl, ?_⟩
    exact List.mem_cons_self

theorem Sys.Inv.free_idle (idle : elem ∉ s.held)
    (unchanged : mempoolFreeElem s.mem s.pool elem = (s.mem, s.pool))
    (fired : s.next (.free elem) = some after) : after = s := by
  obtain ⟨-, done⟩ := next_free fired
  rw [unchanged, List.erase_of_not_mem idle] at done
  exact done

theorem Sys.Inv.free_iff (inv : s.Inv) (fired : s.next (.free elem) = some after) :
    Lawful s (.free elem) after ↔ s.Meets (.free elem) := by
  unfold Sys.Meets
  dsimp only
  by_cases held : elem ∈ s.held
  · rw [if_pos held]
    constructor
    · -- the element would be lost: nobody holds it and it is not on the stack
      intro ⟨conserved, _⟩ signed
      obtain ⟨-, done⟩ := next_free fired
      rw [mempoolFreeElem_signed signed] at done
      subst done
      have count := inv.conserved.count
      have fewer : s.pool.freeStack.length + (s.held.erase elem).length = s.pool.capacity :=
        conserved.count
      have positive : 0 < s.held.length := List.length_pos_of_mem held
      rw [List.length_erase_of_mem held] at fewer
      omega
    · intro unsigned
      obtain ⟨kept, effect⟩ := inv.free_held held unsigned fired
      exact ⟨kept.conserved, effect⟩
  · rw [if_neg held]
    constructor
    · intro ⟨_, effect⟩
      unfold Effect at effect
      dsimp only at effect
      rw [if_neg held] at effect
      subst effect
      by_contra missed
      simp only [not_or] at missed
      obtain ⟨nonnull, unsigned, some_held⟩ := missed
      obtain ⟨-, done⟩ := next_free fired
      rw [mempoolFreeElem_pushed nonnull unsigned (inv.room some_held)] at done
      have stack := congrArg (fun s : Sys => s.pool.freeStack.length) done
      simp only [List.length_cons] at stack
      omega
    · intro found
      have unchanged : mempoolFreeElem s.mem s.pool elem = (s.mem, s.pool) := by
        rcases found with zero | signed | none_held
        · rw [zero]
          exact mempoolFreeElem_null s.mem s.pool
        · exact mempoolFreeElem_signed signed
        · apply mempoolFreeElem_full
          have count := inv.conserved.count
          rw [none_held, List.length_nil] at count
          omega
      have same := Sys.Inv.free_idle held unchanged fired
      subst same
      refine ⟨inv.conserved, ?_⟩
      unfold Effect
      dsimp only
      rw [if_neg held]

theorem Sys.Inv.store (inv : s.Inv) {off : Nat} {bytes : List UInt8}
    (fired : s.next (.store elem off bytes) = some after) :
    after.Inv ∧ Effect s (.store elem off bytes) after := by
  unfold Sys.next at fired
  dsimp only at fired
  split at fired
  · cases fired
    exact ⟨⟨inv.perm, inv.nodup, inv.nonnull⟩, rfl, rfl⟩
  · cases fired

theorem Sys.Inv.lawful_iff (inv : s.Inv) (call : Call) (fired : s.next call = some after) :
    Lawful s call after ↔ s.Meets call := by
  cases call with
  | alloc =>
    obtain ⟨kept, effect⟩ := inv.alloc fired
    exact ⟨fun _ => trivial, fun _ => ⟨kept.conserved, effect⟩⟩
  | free elem => exact inv.free_iff fired
  | store elem off bytes =>
    obtain ⟨kept, effect⟩ := inv.store fired
    exact ⟨fun _ => trivial, fun _ => ⟨kept.conserved, effect⟩⟩

theorem Sys.Inv.next (inv : s.Inv) (call : Call) (meets : s.Meets call)
    (fired : s.next call = some after) : after.Inv := by
  cases call with
  | alloc => exact (inv.alloc fired).1
  | free elem =>
    unfold Sys.Meets at meets
    dsimp only at meets
    by_cases held : elem ∈ s.held
    · rw [if_pos held] at meets
      exact (inv.free_held held meets fired).1
    · have lawful := (inv.free_iff fired).mpr (by unfold Sys.Meets; exact meets)
      have effect := lawful.2
      unfold Effect at effect
      dsimp only at effect
      rw [if_neg held] at effect
      subst effect
      exact inv
  | store elem off bytes => exact (inv.store fired).1

theorem Sys.Inv.lawful_steps_iff (inv : s.Inv) (calls : List Call) :
    Transition.Steps Sys.next Lawful s calls ↔ Transition.Obeys Sys.next Sys.Meets s calls := by
  apply Transition.steps_iff_obeys _ _ inv
  · intro before call after inv meets fired
    exact inv.next call meets fired
  · intro before call after inv fired
    exact inv.lawful_iff call fired

end Steps

/-- From a new pool on, whatever is called and stored: all steps conserve the elements and have
their effect exactly when every free finds the signature in free elements and only there. -/
theorem mempool_lawful_iff {s : Sys} (initial : s.Initial) (calls : List Call) :
    Transition.Steps Sys.next Lawful s calls ↔ Transition.Obeys Sys.next Sys.Meets s calls :=
  initial.inv.lawful_steps_iff calls

instance (s : Sys) (call : Call) : Decidable (s.Meets call) :=
  match call with
  | .alloc => isTrue trivial
  | .free elem =>
    inferInstanceAs (Decidable (if elem ∈ s.held then signature s.mem elem ≠ freedSignature
      else elem = 0 ∨ signature s.mem elem = freedSignature ∨ s.held = []))
  | .store _ _ _ => isTrue trivial

def newPool : Option Sys :=
  (mempoolInit (fun _ => 0) (some 4096) 2 8).map fun (mem, pool) => ⟨mem, pool, []⟩

theorem newPool_initial {s : Sys} (new : newPool = some s) : s.Initial := by
  obtain ⟨⟨mem, pool⟩, inits, same⟩ := Option.map_eq_some_iff.mp new
  cases same
  exact ⟨rfl, _, 4096, 2, 8, by decide, inits⟩

/-- An element is taken, written, given back twice, and taken again. -/
theorem mempool_lawful_twice : ∃ s, newPool = some s ∧ Transition.Steps Sys.next Lawful s
    [.alloc, .store 4104 0 [1, 2, 3, 4], .free 4104, .free 4104, .alloc] :=
  ⟨_, rfl, (mempool_lawful_iff (newPool_initial rfl) _).mpr (by decide)⟩

/-- Whoever stores the signature in front of an element cannot give it back. -/
theorem signed_element_lost : ¬ ∀ s : Sys, s.Initial → ∀ calls,
    Transition.Steps Sys.next Lawful s calls := by
  intro all
  have initial : Sys.Initial _ := newPool_initial rfl
  have lawful := all _ initial [.alloc, .store 4104 0 [0xAD, 0xDE, 0xED, 0xFE], .free 4104]
  have obeys := (initial.inv.lawful_steps_iff _).mp lawful
  revert obeys
  decide

end MxGpu.Mempool
