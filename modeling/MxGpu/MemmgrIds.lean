import MxGpu.MemmgrOps

/- The numbering of allocations: which tags are taken, and that a new one is free. -/
namespace MxGpu.Fb

variable {mems mems' : List MemWithBitmap} {id : MemId} {index : Nat} {tag : MemTag}

def taken (mems : List MemWithBitmap) (tag : MemTag) : Bool :=
  (bitmapsOf tag.id mems).any (· tag.index)

theorem bitmapsOf_writeBit (id' : MemId) (value : Bool) :
    bitmapsOf id' (writeBit id index value mems) =
      if id' = id then (bitmapsOf id mems).map (Function.update · index value)
      else bitmapsOf id' mems := by
  induction mems with
  | nil => simp [writeBit, bitmapsOf]
  | cons mem rest ih =>
    by_cases hhere : id = mem.memId
    · by_cases hsame : id' = id
      · subst hsame
        simp [writeBit, bitmapsOf, hhere]
      · have hother : id' ≠ mem.memId := fun h => hsame (h.trans hhere.symm)
        simp [writeBit, bitmapsOf, hhere, hother]
    · by_cases hsame : id' = id
      · subst hsame
        simpa [writeBit, bitmapsOf, hhere] using ih
      · simp only [writeBit, bitmapsOf, hhere, if_false, ih, hsame]

theorem bitmapsOf_append (id' : MemId) (h : bitmapsOf id mems = none) :
    bitmapsOf id' (mems ++ [{ memId := id, bitmaps := fun _ => false }]) =
      if id' = id then some fun _ => false else bitmapsOf id' mems := by
  induction mems with
  | nil => simp [bitmapsOf]
  | cons mem rest ih =>
    have hhere : id ≠ mem.memId := by
      intro heq
      simp [bitmapsOf, heq] at h
    have hrest : bitmapsOf id rest = none := by simpa [bitmapsOf, hhere] using h
    by_cases hsame : id' = id
    · subst hsame
      simpa [bitmapsOf, hhere] using ih hrest
    · simp only [List.cons_append, bitmapsOf, ih hrest, hsame, if_false]

theorem taken_writeBit (h : (bitmapsOf id mems).isSome) (value : Bool) :
    taken (writeBit id index value mems) tag =
      if tag = { id, index } then value else taken mems tag := by
  obtain ⟨bitmaps, hbitmaps⟩ := Option.isSome_iff_exists.mp h
  obtain ⟨tagId, tagIndex⟩ := tag
  unfold taken
  rw [bitmapsOf_writeBit]
  by_cases hid : tagId = id
  · subst hid
    by_cases hindex : tagIndex = index
    · subst hindex
      simp [hbitmaps]
    · simp [hbitmaps, hindex]
  · simp [hid]

theorem firstClear_some {bitmaps : Nat → Bool} {start count : Nat}
    (h : firstClear bitmaps start count = some index) :
    bitmaps index = false ∧ start ≤ index ∧ index < start + count ∧
      ∀ i, start ≤ i → i < index → bitmaps i = true := by
  induction count generalizing start with
  | zero => cases h
  | succ count ih =>
    unfold firstClear at h
    split at h
    · next hset =>
      obtain ⟨hclear, hlow, hhigh, hbelow⟩ := ih h
      refine ⟨hclear, by omega, by omega, fun i hi hlt => ?_⟩
      rcases Nat.eq_or_lt_of_le hi with rfl | hlater
      · exact hset
      · exact hbelow i hlater hlt
    · next hclear =>
      cases h
      exact ⟨Bool.eq_false_iff.mpr hclear, Nat.le_refl _, by omega, fun i hi hlt => by omega⟩

theorem taken_listed {listed : List MemWithBitmap}
    (h : (if (bitmapsOf id mems).isSome then some mems else memIdListAdd mems id) = some listed) :
    (bitmapsOf id listed).isSome ∧ ∀ other, taken listed other = taken mems other := by
  split at h
  · next hin =>
    cases h
    exact ⟨hin, fun _ => rfl⟩
  · next hout =>
    have hnone : bitmapsOf id mems = none := by simpa using hout
    unfold memIdListAdd at h
    split at h
    · cases h
      constructor
      · rw [bitmapsOf_append id hnone]
        simp
      · intro other
        unfold taken
        rw [bitmapsOf_append other.id hnone]
        by_cases hid : other.id = id
        · rw [if_pos hid, hid, hnone]
          rfl
        · rw [if_neg hid]
    · cases h

theorem memIdAdd_some (h : memIdAdd mems id = (mems', some tag)) :
    tag.id = id ∧ tag.index < maxMemCount ∧ taken mems tag = false ∧
      (∀ i < tag.index, taken mems { id, index := i } = true) ∧
      ∀ other, taken mems' other = if other = tag then true else taken mems other := by
  unfold memIdAdd at h
  simp only at h
  split at h
  · cases h
  · next listed hlisted =>
    obtain ⟨hsome, hsame⟩ := taken_listed hlisted
    obtain ⟨bitmaps, hbitmaps⟩ := Option.isSome_iff_exists.mp hsome
    simp only [hbitmaps, Option.bind_some] at h
    split at h
    · cases h
    · next index hfirst =>
      cases h
      obtain ⟨hclear, -, hhigh, hbelow⟩ := firstClear_some hfirst
      have hbit : ∀ i, taken mems { id, index := i } = bitmaps i := by
        intro i
        rw [← hsame]
        simp [taken, hbitmaps]
      refine ⟨rfl, by simpa using hhigh, ?_, ?_, fun other => ?_⟩
      · rw [hbit]
        exact hclear
      · intro i hi
        rw [hbit]
        exact hbelow i (Nat.zero_le i) hi
      · rw [taken_writeBit hsome, hsame]

theorem memIdAdd_none (h : memIdAdd mems id = (mems', none)) (other : MemTag) :
    taken mems' other = taken mems other := by
  unfold memIdAdd at h
  simp only at h
  split at h
  · cases h
    rfl
  · next listed hlisted =>
    split at h
    · cases h
      exact (taken_listed hlisted).2 other
    · cases h

theorem firstClear_none {bitmaps : Nat → Bool} {start count : Nat}
    (h : firstClear bitmaps start count = none) :
    ∀ i, start ≤ i → i < start + count → bitmaps i = true := by
  induction count generalizing start with
  | zero => intro i hlow hhigh; omega
  | succ count ih =>
    unfold firstClear at h
    split at h
    · next hset =>
      intro i hlow hhigh
      rcases Nat.eq_or_lt_of_le hlow with rfl | hlater
      · exact hset
      · exact ih h i hlater (by omega)
    · cases h

theorem length_writeBit (value : Bool) : (writeBit id index value mems).length = mems.length := by
  induction mems with
  | nil => rfl
  | cons mem rest ih =>
    unfold writeBit
    split
    · rfl
    · exact congrArg (· + 1) ih

theorem memIdAdd_exists (hroom : (bitmapsOf id mems).isSome ∨ mems.length < memIdCountMax)
    (hindex : index < maxMemCount) (hfree : taken mems { id, index } = false) :
    ∃ mems' tag, memIdAdd mems id = (mems', some tag) ∧ mems'.length ≤ mems.length + 1 := by
  obtain ⟨listed, hlisted, hlength⟩ : ∃ listed, (if (bitmapsOf id mems).isSome then some mems
      else memIdListAdd mems id) = some listed ∧ listed.length ≤ mems.length + 1 := by
    split
    · exact ⟨mems, rfl, by omega⟩
    · next hout =>
      unfold memIdListAdd
      rw [if_pos (hroom.resolve_left hout)]
      exact ⟨_, rfl, by simp⟩
  obtain ⟨hsome, hsame⟩ := taken_listed hlisted
  obtain ⟨bitmaps, hbitmaps⟩ := Option.isSome_iff_exists.mp hsome
  unfold memIdAdd
  simp only [hlisted, hbitmaps, Option.bind_some]
  cases hfirst : firstClear bitmaps 0 maxMemCount with
  | none =>
    have hset := firstClear_none hfirst index (Nat.zero_le _) (by omega)
    rw [← hsame] at hfree
    simp [taken, hbitmaps, hset] at hfree
  | some first => exact ⟨_, _, rfl, by rwa [length_writeBit]⟩

theorem taken_memIdRemove (htaken : taken mems tag = true) (hindex : tag.index < maxMemCount)
    (other : MemTag) :
    taken (memIdRemove mems tag) other = if other = tag then false else taken mems other := by
  have hsome : (bitmapsOf tag.id mems).isSome := by
    unfold taken at htaken
    cases h : bitmapsOf tag.id mems with
    | none => simp [h] at htaken
    | some bitmaps => rfl
  unfold memIdRemove
  rw [if_neg (by omega), taken_writeBit hsome]

end MxGpu.Fb
