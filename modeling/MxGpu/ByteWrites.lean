import MxGpu.ByteStore

/- Writes to a memory, one after the other. -/
namespace ByteStore

def applyWrites (m : Store) (writes : List (Nat × List UInt8)) : Store :=
  writes.foldl (fun m entry => write m entry.1 entry.2) m

/-- The write is not at the `size` bytes from `at_` on. -/
def Misses (at_ size : Nat) (entry : Nat × List UInt8) : Prop :=
  at_ + size ≤ entry.1 ∨ entry.1 + entry.2.length ≤ at_

section Writes

variable {m : Store} {at_ size : Nat}

theorem applyWrites_cons (m : Store) (entry : Nat × List UInt8) (rest : List (Nat × List UInt8)) :
    applyWrites m (entry :: rest) = applyWrites (write m entry.1 entry.2) rest := rfl

theorem applyWrites_append (m : Store) (first second : List (Nat × List UInt8)) :
    applyWrites m (first ++ second) = applyWrites (applyWrites m first) second :=
  List.foldl_append

theorem read_applyWrites {writes : List (Nat × List UInt8)}
    (misses : ∀ entry ∈ writes, Misses at_ size entry) :
    read (applyWrites m writes) at_ size = read m at_ size := by
  induction writes generalizing m with
  | nil => rfl
  | cons entry rest ih =>
    rw [applyWrites_cons, ih fun entry listed => misses entry (List.mem_cons_of_mem _ listed)]
    exact read_write_outside (misses entry List.mem_cons_self)

theorem read_applyWrites_zip {places : List Nat} {cells : List (List UInt8)}
    (sizes : ∀ cell ∈ cells, cell.length = size) (lengths : places.length = cells.length)
    (apart : places.Pairwise fun a b => a + size ≤ b ∨ b + size ≤ a) :
    places.map (fun place => read (applyWrites m (places.zip cells)) place size) = cells := by
  induction places generalizing m cells with
  | nil =>
    rw [List.length_nil, eq_comm, List.length_eq_zero_iff] at lengths
    rw [lengths]
    rfl
  | cons place rest ih =>
    cases cells with
    | nil => cases lengths
    | cons cell others =>
      obtain ⟨first, further⟩ := List.pairwise_cons.mp apart
      have short : cell.length = size := sizes cell List.mem_cons_self
      have sizes' : ∀ cell ∈ others, cell.length = size := fun cell listed =>
        sizes cell (List.mem_cons_of_mem _ listed)
      have misses : ∀ entry ∈ rest.zip others, Misses place size entry := by
        intro entry listed
        have within : entry.1 ∈ rest ∧ entry.2 ∈ others := List.of_mem_zip listed
        have away := first entry.1 within.1
        have width := sizes' entry.2 within.2
        unfold Misses
        omega
      rw [List.zip_cons_cons, applyWrites_cons, List.map_cons, read_applyWrites misses,
        read_write_self short, ih sizes' (Nat.succ.inj lengths) further]

end Writes

end ByteStore
