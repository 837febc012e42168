import Mathlib.Logic.Function.Basic
import MxGpu.FreeBits
import MxGpu.Transition

/- The slots of the writeback memory (`core/amdgv_wb_memory.c`), and who holds their offsets. -/
namespace MxGpu.WbMemory

structure Wb where
  numWb : Nat
  used : Nat → BitVec 64

def memoryInit : Wb := ⟨1024, fun _ => 0⟩

def findTrackingFreeBit (wb : Wb) : Nat :=
  match (List.range 16).find? fun qword => wb.used qword ≠ BitVec.allOnes 64 with
  | some qword => FreeBits.ffs (~~~(wb.used qword)) + qword * 64
  | none => 0xffffffff

def setTrackingBit (wb : Wb) (bit : Nat) : Wb :=
  let word := FreeBits.setBit (bit % 64) (wb.used (bit / 64))
  { wb with used := Function.update wb.used (bit / 64) word }

def clearTrackingBit (wb : Wb) (bit : Nat) : Wb :=
  let word := FreeBits.clearIf true (bit % 64) (wb.used (bit / 64))
  { wb with used := Function.update wb.used (bit / 64) word }

/-- `amdgv_wb_memory_get`; the offset is one of double words. -/
def memoryGet (wb : Wb) : Option Nat × Wb :=
  let bit := findTrackingFreeBit wb
  if bit < wb.numWb then (some (bit <<< 3), setTrackingBit wb bit) else (none, wb)

def memoryFree (wb : Wb) (offset : Nat) : Wb :=
  if offset >>> 3 < wb.numWb then clearTrackingBit wb (offset >>> 3) else wb

structure Sys where
  wb : Wb
  held : List Nat

/-- A call; an offset is given back by someone who holds it. -/
def Sys.next (s : Sys) : Option Nat → Option Sys
  | none => some ⟨(memoryGet s.wb).2, (memoryGet s.wb).1.toList ++ s.held⟩
  | some offset =>
    if offset ∈ s.held then some ⟨memoryFree s.wb offset, s.held.erase offset⟩ else none

def isUsed (wb : Wb) (bit : Nat) : Bool := (wb.used (bit / 64)).getLsbD (bit % 64)

theorem isUsed_update (wb : Wb) (bit other : Nat) (word : BitVec 64) :
    isUsed { wb with used := Function.update wb.used (bit / 64) word } other =
      if other / 64 = bit / 64 then word.getLsbD (other % 64) else isUsed wb other := by
  unfold isUsed
  dsimp only
  rw [Function.update_apply]
  split <;> rfl

theorem isUsed_set (wb : Wb) (bit other : Nat) :
    isUsed (setTrackingBit wb bit) other = (isUsed wb other || decide (other = bit)) := by
  rw [setTrackingBit, isUsed_update]
  split
  case isTrue same =>
    rw [FreeBits.getLsbD_setBit (by omega), isUsed, same]
    congr 2
    rw [eq_iff_iff]
    omega
  case isFalse other =>
    rw [decide_eq_false (by omega), Bool.or_false]

theorem isUsed_clear (wb : Wb) (bit other : Nat) :
    isUsed (clearTrackingBit wb bit) other = (isUsed wb other && !decide (other = bit)) := by
  rw [clearTrackingBit, isUsed_update]
  split
  case isTrue same =>
    rw [FreeBits.getLsbD_clearIf true (by omega), isUsed, same, Bool.true_and]
    congr 3
    rw [eq_iff_iff]
    omega
  case isFalse other =>
    rw [decide_eq_false (by omega), Bool.not_false, Bool.and_true]

theorem find_spec (wb : Wb) :
    findTrackingFreeBit wb < 1024 ∧ isUsed wb (findTrackingFreeBit wb) = false ∨
      findTrackingFreeBit wb = 0xffffffff ∧ ∀ bit < 1024, isUsed wb bit = true := by
  unfold findTrackingFreeBit
  split
  case h_1 qword found =>
    have inside := List.mem_range.mp (List.mem_of_find?_eq_some found)
    have free : ~~~(wb.used qword) ≠ 0 := by
      intro full
      have notFull : wb.used qword ≠ BitVec.allOnes 64 := by
        simpa only [decide_eq_true_eq] using List.find?_some found
      apply notFull
      rw [← BitVec.not_not (b := wb.used qword), full]
      rfl
    obtain ⟨low, clear⟩ := FreeBits.ffs_spec free
    rw [BitVec.getLsbD_not, decide_eq_true low, Bool.true_and, Bool.not_eq_true'] at clear
    refine .inl ⟨by omega, ?_⟩
    rw [isUsed, Nat.add_mul_div_right _ _ (by decide), Nat.div_eq_of_lt low, Nat.zero_add,
      Nat.add_mul_mod_self_right, Nat.mod_eq_of_lt low]
    exact clear
  case h_2 none =>
    refine .inr ⟨rfl, fun bit inside => ?_⟩
    have full := List.find?_eq_none.mp none (bit / 64) (List.mem_range.mpr (by omega))
    rw [decide_eq_true_eq, not_not] at full
    rw [isUsed, full, BitVec.getLsbD_allOnes, decide_eq_true (by omega)]

/-- The offsets that are held are those of the slots whose bits are set. -/
structure Inv (s : Sys) : Prop where
  size : s.wb.numWb = 1024
  once : s.held.Nodup
  marked : ∀ offset, offset ∈ s.held ↔ ∃ bit < 1024, offset = bit * 8 ∧ isUsed s.wb bit = true

theorem inv_init : Inv ⟨memoryInit, []⟩ := by
  refine ⟨rfl, List.nodup_nil, fun offset => ⟨nofun, ?_⟩⟩
  rintro ⟨bit, _, _, used⟩
  rw [isUsed, memoryInit] at used
  simp at used

theorem get_spec {s : Sys} (inv : Inv s) :
    (∃ bit < 1024, isUsed s.wb bit = false ∧
      memoryGet s.wb = (some (bit * 8), setTrackingBit s.wb bit)) ∨
    (∀ bit < 1024, isUsed s.wb bit = true) ∧ memoryGet s.wb = (none, s.wb) := by
  unfold memoryGet
  dsimp only
  rw [inv.size, Nat.shiftLeft_eq]
  rcases find_spec s.wb with ⟨inside, clear⟩ | ⟨full, all⟩
  · exact .inl ⟨_, inside, clear, if_pos inside⟩
  · exact .inr ⟨all, if_neg (by omega)⟩

theorem inv_next {s s' : Sys} {call : Option Nat} (inv : Inv s) (done : s.next call = some s') :
    Inv s' := by
  cases call with
  | none =>
    cases done
    rcases get_spec inv with ⟨bit, inside, clear, got⟩ | ⟨_, got⟩
    · have fresh : bit * 8 ∉ s.held := by
        intro listed
        obtain ⟨other, _, same, used⟩ := (inv.marked _).mp listed
        obtain rfl : bit = other := by omega
        rw [clear] at used
        cases used
      rw [got]
      refine ⟨inv.size, List.nodup_cons.mpr ⟨fresh, inv.once⟩, fun offset => ?_⟩
      simp only [Option.toList_some, List.cons_append, List.nil_append, List.mem_cons, inv.marked,
        isUsed_set, Bool.or_eq_true, decide_eq_true_eq]
      constructor
      · rintro (rfl | ⟨other, low, same, used⟩)
        · exact ⟨bit, inside, rfl, .inr rfl⟩
        · exact ⟨other, low, same, .inl used⟩
      · rintro ⟨other, low, same, used | rfl⟩
        · exact .inr ⟨other, low, same, used⟩
        · exact .inl same
    · rw [got]
      exact inv
  | some offset =>
    unfold Sys.next at done
    dsimp only at done
    split at done
    case isFalse => cases done
    case isTrue listed =>
      cases done
      obtain ⟨bit, inside, rfl, used⟩ := (inv.marked offset).mp listed
      have index : (bit * 8) >>> 3 = bit := by
        rw [Nat.shiftRight_eq_div_pow]
        omega
      rw [memoryFree, index, inv.size, if_pos inside]
      refine ⟨inv.size, inv.once.erase _, fun other => ?_⟩
      simp only [inv.once.mem_erase_iff, inv.marked, isUsed_clear, Bool.and_eq_true,
        Bool.not_eq_true', decide_eq_false_iff_not]
      constructor
      · rintro ⟨differs, other, low, rfl, used⟩
        exact ⟨other, low, rfl, used, by rintro rfl; exact differs rfl⟩
      · rintro ⟨other, low, rfl, used, differs⟩
        exact ⟨by omega, other, low, rfl, used⟩

/-- After any calls, no two callers hold the same slot, all are in the memory, and a call gets none
if and only if every slot is held. -/
theorem slots_exact {s : Sys} (run : Transition.Run (· = ⟨memoryInit, []⟩)
      (fun s call s' => s.next call = some s') Transition.always s) :
    s.held.Pairwise (fun a b => a + 8 ≤ b ∨ b + 8 ≤ a) ∧ (∀ offset ∈ s.held, offset + 8 ≤ 8192) ∧
      ((memoryGet s.wb).1 = none ↔ ∀ bit < 1024, bit * 8 ∈ s.held) := by
  have inv : Inv s := run.invariant Inv (by rintro _ rfl; exact inv_init)
    fun _ _ _ inv _ fired => inv_next inv fired
  refine ⟨?_, fun offset listed => ?_, ?_⟩
  · apply inv.once.imp_of_mem
    intro a b first second differs
    obtain ⟨i, _, rfl, _⟩ := (inv.marked a).mp first
    obtain ⟨j, _, rfl, _⟩ := (inv.marked b).mp second
    omega
  · obtain ⟨bit, inside, rfl, _⟩ := (inv.marked offset).mp listed
    omega
  · rcases get_spec inv with ⟨bit, inside, clear, got⟩ | ⟨full, got⟩
    · rw [got]
      refine ⟨nofun, fun all => ?_⟩
      obtain ⟨other, _, same, used⟩ := (inv.marked _).mp (all bit inside)
      obtain rfl : bit = other := by omega
      rw [clear] at used
      cases used
    · rw [got]
      exact ⟨fun _ bit inside => (inv.marked _).mpr ⟨bit, inside, rfl, full bit inside⟩,
        fun _ => rfl⟩

theorem slots_exact_freed : ∃ s : Sys, s.held = [8] ∧ (memoryGet s.wb).1 ≠ none := by
  obtain ⟨s, follows, held⟩ : ∃ s, [none, none, some 0].foldlM Sys.next ⟨memoryInit, []⟩ = some s ∧
      s.held = [8] := ⟨_, rfl, rfl⟩
  have exact_ := slots_exact (.follow [none, none, some 0] (.start rfl) follows)
  refine ⟨s, held, fun none => ?_⟩
  have all := exact_.2.2.mp none 0 (by decide)
  rw [held] at all
  exact absurd all (by decide)

end MxGpu.WbMemory
