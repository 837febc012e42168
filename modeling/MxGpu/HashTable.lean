import MxGpu.ChainList
import MxGpu.Transition

/- The hash table of the SMI driver (`smi_drv_hash_table.c`): rows of elements, each element with a
link to the next one of its row. -/
namespace MxGpu.SmiHash

open Function

/-- Keys are `uint64_t`; elements and the data of the callers are known by their addresses. -/
abbrev Key := BitVec 64
abbrev Addr := Nat

/-- `enum SMI_HASH_TABLE_RET_CODES`, but for a parameter that is NULL. -/
inductive RetCode
  | success
  | keyError
  | memoryError
  deriving DecidableEq

/-- `struct hash_table` and the elements in memory; `live` are the elements that are not freed, and
`freedData` what was freed of the callers' data. -/
structure HashTable (rows : Nat) where
  hashFunction : Key → Fin rows
  table : Fin rows → Option Addr
  key : Addr → Key
  data : Addr → Addr
  nextElement : Addr → Option Addr
  live : List Addr
  freedData : List Addr

/-- `create_hash_table`, with memory of any contents. -/
def createHashTable {rows : Nat} (function : Key → Fin rows) (key : Addr → Key)
    (data : Addr → Addr) (nextElement : Addr → Option Addr) : HashTable rows where
  hashFunction := function
  table := fun _ => none
  key := key
  data := data
  nextElement := nextElement
  live := []
  freedData := []

namespace HashTable

variable {rows : Nat} (t : HashTable rows)

/-- The loop over the elements of a row up to the key, and the element before. A loop that is longer
than there are elements does not end. -/
def find (key : Key) : Option (Option Addr × Option Addr) :=
  ChainList.walk t.nextElement (fun iterator => t.key iterator = key) (t.live.length + 1) none
    (t.table (t.hashFunction key))

/-- `element` is put behind `prevIterator`, or in front of the row. -/
def link (index : Fin rows) (prevIterator element : Option Addr) : HashTable rows :=
  match prevIterator with
  | none => { t with table := update t.table index element }
  | some prev => { t with nextElement := update t.nextElement prev element }

/-- `free_small_memory` of an element -/
def free (element : Addr) : HashTable rows := { t with live := t.live.erase element }

/-- `clear_table`, one row -/
def clearRow (index : Fin rows) : Nat → HashTable rows → Option (HashTable rows)
  | 0, _ => none
  | fuel + 1, t =>
    match t.table index with
    | none => some t
    | some element =>
      clearRow index fuel { t with
        table := update t.table index (t.nextElement element)
        freedData := t.data element :: t.freedData
        live := t.live.erase element }

def clearTable : Option (HashTable rows) :=
  (List.finRange rows).foldlM (fun t index => clearRow index (t.live.length + 1) t) t

def allocated (key : Key) (data new : Addr) : HashTable rows :=
  { t with
    data := update t.data new data
    key := update t.key new key
    nextElement := update t.nextElement new none
    live := new :: t.live }

/-- `add_to_hash_table`; `newElement` is what the allocation gives. -/
def addToHashTable (key : Key) (data : Addr) (newElement : Option Addr) :
    Option (HashTable rows × RetCode) :=
  match newElement with
  | none => some (t, .memoryError)
  | some new =>
    let t := t.allocated key data new
    match t.find key with
    | none => none
    | some (_, some _) => some (t.free new, .keyError)
    | some (none, none) =>
      let t := { t with
        nextElement := update t.nextElement new (t.table (t.hashFunction key)) }
      some (t.link (t.hashFunction key) none new, .success)
    | some (some prev, none) =>
      let t := { t with nextElement := update t.nextElement new none }
      some (t.link (t.hashFunction key) (some prev) new, .success)

def removeFromHashTable (key : Key) : Option (HashTable rows × RetCode) :=
  match t.find key with
  | none => none
  | some (_, none) => some (t, .keyError)
  | some (prevIterator, some iterator) =>
    some ((t.link (t.hashFunction key) prevIterator (t.nextElement iterator)).free iterator,
      .success)

/-- `pop_from_hash_table`, with its parameter `data` at the end. -/
def popFromHashTable (key : Key) (data : Addr) : Option (HashTable rows × RetCode × Addr) :=
  match t.find key with
  | none => none
  | some (_, none) => some (t, .keyError, data)
  | some (prevIterator, some iterator) =>
    let t := t.link (t.hashFunction key) prevIterator (t.nextElement iterator)
    let data := t.data iterator
    some (t.free iterator, .success, data)

/-- `get_from_hash_table`, with what is written through `data`. -/
def getFromHashTable (key : Key) : Option (RetCode × Option Addr) :=
  match t.find key with
  | none => none
  | some (_, none) => some (.keyError, none)
  | some (_, some iterator) => some (.success, some (t.data iterator))

end HashTable

/-- The calls. A caller of `pop_from_hash_table` or `get_from_hash_table` has a variable for the data,
with something in it. -/
inductive Call
  | add (key : Key) (data : Addr) (newElement : Option Addr)
  | remove (key : Key)
  | pop (key : Key) (variable_ : Addr)
  | get (key : Key) (variable_ : Addr)
  | clear

/-- What a caller has after a call: the code, and for the calls with a variable what is in it. -/
structure Reply where
  ret : RetCode
  variable_ : Option Addr
  deriving DecidableEq

/-- One call. `data` is a pointer that `pop_from_hash_table` gets by value, so the caller keeps what
was in its variable. -/
def HashTable.serve {rows : Nat} (t : HashTable rows) : Call → Option (HashTable rows × Reply)
  | .add key data newElement =>
    (t.addToHashTable key data newElement).map fun (after, ret) => (after, ⟨ret, none⟩)
  | .remove key => (t.removeFromHashTable key).map fun (after, ret) => (after, ⟨ret, none⟩)
  | .pop key variable_ =>
    (t.popFromHashTable key variable_).map fun (after, ret, _) => (after, ⟨ret, some variable_⟩)
  | .get key variable_ =>
    (t.getFromHashTable key).map fun (ret, written) => (t, ⟨ret, some (written.getD variable_)⟩)
  | .clear => t.clearTable.map fun after => (after, ⟨.success, none⟩)

abbrev DataMap := Key → Option Addr

def DataMap.after (map : DataMap) : Call → DataMap
  | .add key data newElement =>
    if map key = none ∧ newElement ≠ none then update map key (some data) else map
  | .remove key => update map key none
  | .pop key _ => update map key none
  | .get _ _ => map
  | .clear => fun _ => none

def DataMap.Answers (map : DataMap) : Call → Reply → Prop
  | .add key _ newElement, reply =>
    reply.ret = if newElement = none then .memoryError
      else if map key = none then .success else .keyError
  | .remove key, reply => reply.ret = if map key = none then .keyError else .success
  | .pop key _, reply => (reply.ret = if map key = none then .keyError else .success) ∧
      ∀ data, map key = some data → reply.variable_ = some data
  | .get key _, reply => (reply.ret = if map key = none then .keyError else .success) ∧
      ∀ data, map key = some data → reply.variable_ = some data
  | .clear, reply => reply.ret = .success

def HashTable.Chains {rows : Nat} (t : HashTable rows) (chains : Fin rows → List Addr) : Prop :=
  ∀ index, ChainList.Leads t.nextElement (t.table index) (chains index) none

/-- The table is the map: no key is in it twice, and it has the data of the map under its keys. -/
def HashTable.Represents {rows : Nat} (t : HashTable rows) (map : DataMap) : Prop :=
  ∃ chains, t.Chains chains ∧ (((List.finRange rows).flatMap chains).map t.key).Nodup ∧
    ∀ key data, map key = some data ↔
      ∃ index, ∃ element ∈ chains index, t.key element = key ∧ t.data element = data

structure Sys (rows : Nat) where
  table : HashTable rows
  map : DataMap
  answered : Prop

def Sys.Admits {rows : Nat} (s : Sys rows) : Call → Prop
  | .add _ _ (some new) => new ∉ s.table.live
  | _ => True

instance {rows : Nat} (s : Sys rows) (call : Call) : Decidable (s.Admits call) := by
  unfold Sys.Admits
  split <;> infer_instance

def Sys.next {rows : Nat} (s : Sys rows) (call : Call) : Option (Sys rows) :=
  if s.Admits call then
    (s.table.serve call).map fun (after, reply) =>
      ⟨after, s.map.after call, s.map.Answers call reply⟩
  else none

/-- The table is the map, every call ends, and the last one was answered as by the map. -/
structure Sys.Lawful {rows : Nat} (s : Sys rows) : Prop where
  represents : s.table.Represents s.map
  ends : ∀ call, s.Admits call → s.next call ≠ none
  answered : s.answered

/-- What a call has to meet: the variable of a caller of `pop_from_hash_table` already has the data
that is under the key. -/
def Sys.Meets {rows : Nat} (s : Sys rows) : Call → Prop
  | .pop key variable_ => ∀ data, s.map key = some data → variable_ = data
  | _ => True

end MxGpu.SmiHash
