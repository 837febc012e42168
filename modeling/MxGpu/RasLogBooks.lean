import MxGpu.RasLogRing

/- The books of the log ring: no element of the pool is lost, the count is the number of records, and
a batch is read back as it was logged. -/
namespace MxGpu.RasLog

open Transition Function List

section Keys

theorem treeIdx_eq (batchIdx sn : Nat) (hsn : sn < 2 ^ 8) :
    batchIdxToTreeIdx batchIdx sn = batchIdx % 2 ^ 56 * 2 ^ 8 + sn := by
  have hshift : (batchIdx <<< 8) % 2 ^ 64 = (batchIdx % 2 ^ 56) <<< 8 := by
    rw [Nat.shiftLeft_eq, Nat.shiftLeft_eq]
    omega
  rw [batchIdxToTreeIdx, hshift, ← Nat.shiftLeft_add_eq_or_of_lt hsn, Nat.shiftLeft_eq]

theorem treeIdx_of_lt {batchIdx sn : Nat} (hbatch : batchIdx < 2 ^ 56) (hsn : sn < 2 ^ 8) :
    batchIdxToTreeIdx batchIdx sn = batchIdx * 2 ^ 8 + sn := by
  rw [treeIdx_eq batchIdx sn hsn, Nat.mod_eq_of_lt hbatch]

theorem treeIdx_low (batchIdx sn : Nat) (hsn : sn < 2 ^ 8) :
    batchIdxToTreeIdx batchIdx sn % 2 ^ 32 = batchIdx % 2 ^ 24 * 2 ^ 8 + sn := by
  rw [treeIdx_eq batchIdx sn hsn]
  omega

theorem not_signature (batchIdx sn : Nat) (hsn : sn < maxRecordPerBatch) :
    batchIdxToTreeIdx batchIdx sn % 2 ^ 32 ≠ mempoolFreedSignature := by
  have hsn : sn < 32 := hsn
  rw [treeIdx_low batchIdx sn (by omega)]
  have hbyte : mempoolFreedSignature % 2 ^ 8 = 173 := rfl
  omega

end Keys

/-- The key and the `seqno` of a record are those of its batch, and of a number in it. -/
def Entry.Keyed (entry : Entry) : Prop :=
  entry.batch < 2 ^ 56 ∧ entry.log.seqno = entry.key ∧
    ∃ sn < maxRecordPerBatch, entry.key = entry.batch * 2 ^ 8 + sn

theorem Entry.Keyed.batch_eq {entry : Entry} (h : entry.Keyed) :
    entry.key / 2 ^ 8 = entry.batch := by
  obtain ⟨-, -, sn, hsn, hkey⟩ := h
  have hsn : sn < 32 := hsn
  omega

theorem Entry.Keyed.not_signature {entry : Entry} (h : entry.Keyed) :
    entry.log.seqno % 2 ^ 32 ≠ mempoolFreedSignature := by
  obtain ⟨hbatch, hseqno, sn, hsn, hkey⟩ := h
  have hsmall : sn < 32 := hsn
  have hnot := RasLog.not_signature entry.batch sn hsn
  rwa [treeIdx_of_lt hbatch (by omega), ← hkey, ← hseqno] at hnot

/-- The books of a ring of which some elements are in the hands of a caller. -/
structure Stored (held : List Nat) (r : LogRing) : Prop where
  pool : (held ++ (r.mempool ++ r.tree.map Entry.elem)).Perm (range rasLogMempoolSize)
  logged : r.loggedEccCount = r.tree.length
  above : ∀ e ∈ r.tree, r.lastDelBatchId ≤ e.batch
  below : ∀ e ∈ r.tree, e.batch < r.monoUpwardBatchId
  keyed : ∀ e ∈ r.tree, e.Keyed
  ordered : r.tree.Pairwise fun e e' => e.batch = e'.batch → e.key < e'.key
  begun : r.lastDelBatchId ≤ r.monoUpwardBatchId

section Invariant

variable {held : List Nat} {r : LogRing}

theorem Stored.distinct (h : Stored held r) : r.tree.Pairwise fun e e' => e.key ≠ e'.key := by
  apply h.ordered.imp_of_mem
  intro e e' he he' hordered hkey
  have hbatch : e.batch = e'.batch := by
    rw [← (h.keyed e he).batch_eq, ← (h.keyed e' he').batch_eq, hkey]
  have := hordered hbatch
  omega

theorem Stored.room (h : Stored held r) :
    held.length + r.mempool.length + r.tree.length = rasLogMempoolSize := by
  have hlength := h.pool.length_eq
  simp only [length_append, length_map, length_range] at hlength
  omega

theorem mempoolFreeElem_eq {mempool : List Nat} {elem : Nat} {log : RasLogInfo}
    (hnot : log.seqno % 2 ^ 32 ≠ mempoolFreedSignature)
    (hroom : mempool.length < rasLogMempoolSize) :
    mempoolFreeElem mempool elem log = elem :: mempool := by
  rw [mempoolFreeElem, if_neg hnot, if_pos hroom]

theorem Stored.deleteKey (h : Stored held r) (idx : Nat) : Stored held (r.deleteKey idx).1 := by
  rw [LogRing.deleteKey]
  cases hfind : r.tree.find? (fun e => e.key = idx) with
  | none => exact h
  | some entry =>
    have hmem : entry ∈ r.tree := (KeyScan.find_mem Entry.key hfind).1
    have hperm := KeyScan.find_cons_erase_perm Entry.key hfind
    have hsub : ∀ e ∈ r.tree.eraseP (fun e => e.key = idx), e ∈ r.tree :=
      fun e he => mem_of_mem_eraseP he
    have hlength : (r.tree.eraseP fun e => e.key = idx).length + 1 = r.tree.length :=
      hperm.length_eq
    have hroom : r.mempool.length < rasLogMempoolSize := by
      have := h.room
      omega
    refine ⟨?_, ?_, fun e he => h.above e (hsub e he), fun e he => h.below e (hsub e he),
      fun e he => h.keyed e (hsub e he), h.ordered.sublist eraseP_sublist, h.begun⟩
    · show (held ++ (mempoolFreeElem r.mempool entry.elem entry.log ++
        (r.tree.eraseP fun e => e.key = idx).map Entry.elem)).Perm _
      rw [mempoolFreeElem_eq (h.keyed entry hmem).not_signature hroom]
      apply List.Perm.trans _ h.pool
      apply List.Perm.append_left
      rw [cons_append]
      apply perm_middle.symm.trans
      exact (hperm.map Entry.elem).append_left r.mempool
    · show r.loggedEccCount - 1 = ((r.tree.eraseP fun e => e.key = idx).length : Int)
      have := h.logged
      omega

theorem Stored.deleteKey_spec (h : Stored held r) (idx : Nat) :
    (r.deleteKey idx).1.lastDelBatchId = r.lastDelBatchId ∧
      (r.deleteKey idx).1.monoUpwardBatchId = r.monoUpwardBatchId ∧
      ∀ e ∈ (r.deleteKey idx).1.tree, e ∈ r.tree ∧ e.key ≠ idx := by
  rw [LogRing.deleteKey]
  cases hfind : r.tree.find? (fun e => e.key = idx) with
  | none =>
    refine ⟨rfl, rfl, fun e he => ⟨he, ?_⟩⟩
    simpa using find?_eq_none.mp hfind e he
  | some entry =>
    refine ⟨rfl, rfl, fun e he => ⟨mem_of_mem_eraseP he, ?_⟩⟩
    exact KeyScan.erase_absent Entry.key h.distinct idx e he

theorem Stored.deleteKeys (batchId : Nat) : ∀ (keys : List Nat) {r : LogRing}, Stored held r →
    Stored held (LogRing.deleteKeys batchId keys r).1 ∧
      (LogRing.deleteKeys batchId keys r).1.lastDelBatchId = r.lastDelBatchId ∧
      (LogRing.deleteKeys batchId keys r).1.monoUpwardBatchId = r.monoUpwardBatchId ∧
      ∀ e ∈ (LogRing.deleteKeys batchId keys r).1.tree, e ∈ r.tree ∧
        ∀ j ∈ keys, e.key ≠ batchIdxToTreeIdx batchId j
  | [], r, h => ⟨h, rfl, rfl, fun e he => ⟨he, fun j hj => absurd hj not_mem_nil⟩⟩
  | j :: rest, r, h => by
    have hfirst := h.deleteKey_spec (batchIdxToTreeIdx batchId j)
    have hrest := Stored.deleteKeys batchId rest
      (h.deleteKey (batchIdxToTreeIdx batchId j))
    refine ⟨hrest.1, hrest.2.1.trans hfirst.1, hrest.2.2.1.trans hfirst.2.1, fun e he => ?_⟩
    have hkept := hrest.2.2.2 e he
    have hthere := hfirst.2.2 e hkept.1
    refine ⟨hthere.1, fun i hi => ?_⟩
    rcases mem_cons.mp hi with rfl | hi
    · exact hthere.2
    · exact hkept.2 i hi

theorem Stored.advance (h : Stored held r) (batchId : Nat)
    (habove : ∀ e ∈ r.tree, batchId ≤ e.batch) (hbegun : batchId ≤ r.monoUpwardBatchId) :
    Stored held { r with lastDelBatchId := batchId } :=
  ⟨h.pool, h.logged, habove, h.below, h.keyed, h.ordered, hbegun⟩

theorem Stored.deleteBatch (h : Stored held r) (hbegun : r.lastDelBatchId < r.monoUpwardBatchId) :
    Stored held
      { (LogRing.deleteKeys r.lastDelBatchId (range maxRecordPerBatch) r).1 with
        lastDelBatchId := r.lastDelBatchId + 1 } := by
  obtain ⟨hstored, hlast, hmono, hgone⟩ :=
    h.deleteKeys r.lastDelBatchId (range maxRecordPerBatch)
  apply hstored.advance
  · intro e he
    have habove := hstored.above e he
    have hother : e.batch ≠ r.lastDelBatchId := by
      intro hbatch
      obtain ⟨hsmall, -, sn, hsn, hkey⟩ := hstored.keyed e he
      apply (hgone e he).2 sn (mem_range.mpr hsn)
      have hsn : sn < 32 := hsn
      rw [hkey, hbatch, treeIdx_of_lt (hbatch ▸ hsmall) (by omega)]
    rw [hlast] at habove
    omega
  · rw [hmono]
    exact hbegun

/-- The deletion of old batches keeps the books, and the records it leaves were there. -/
structure Dropped (held : List Nat) (r after : LogRing) : Prop where
  stored : Stored held after
  mono : after.monoUpwardBatchId = r.monoUpwardBatchId
  sub : ∀ e ∈ after.tree, e ∈ r.tree

theorem Stored.deleteLoop (count : Nat) : ∀ (batches i : Nat) {r : LogRing}, Stored held r →
    Dropped held r (LogRing.deleteLoop count batches i r)
  | 0, _, _, h => ⟨h, rfl, fun _ he => he⟩
  | batches + 1, i, r, h => by
    rw [LogRing.deleteLoop]
    by_cases hbegun : r.lastDelBatchId < r.monoUpwardBatchId
    · have hbatch := h.deleteBatch hbegun
      obtain ⟨-, -, hmono, hgone⟩ :=
        h.deleteKeys r.lastDelBatchId (range maxRecordPerBatch)
      rw [if_pos hbegun]
      generalize LogRing.deleteKeys r.lastDelBatchId (range maxRecordPerBatch) r = deleted
        at hbatch hmono hgone
      dsimp only
      split
      · exact ⟨hbatch, hmono, fun e he => (hgone e he).1⟩
      · have hrest := Stored.deleteLoop count batches (i + deleted.2) hbatch
        exact ⟨hrest.stored, hrest.mono.trans hmono,
          fun e he => (hgone e (hrest.sub e he)).1⟩
    · rw [if_neg hbegun]
      exact ⟨h, rfl, fun _ he => he⟩

theorem Stored.deleteData (h : Stored held r) (count : Nat) :
    Dropped held r (r.deleteData count) := by
  rw [LogRing.deleteData]
  split
  · exact ⟨h, rfl, fun _ he => he⟩
  · exact h.deleteLoop count _ 0

theorem Stored.mempoolAlloc (h : Stored [] r) :
    (r.mempoolAlloc.2 = none → Stored [] r.mempoolAlloc.1) ∧
      (∀ elem, r.mempoolAlloc.2 = some elem → Stored [elem] r.mempoolAlloc.1) ∧
      r.mempoolAlloc.1.tree = r.tree ∧
      r.mempoolAlloc.1.monoUpwardBatchId = r.monoUpwardBatchId := by
  rw [LogRing.mempoolAlloc]
  cases hpool : r.mempool with
  | nil => exact ⟨fun _ => h, fun elem helem => absurd helem.symm (Option.some_ne_none elem), rfl, rfl⟩
  | cons top rest =>
    refine ⟨fun hnone => absurd hnone (Option.some_ne_none top), fun elem helem => ?_, rfl, rfl⟩
    have htop : top = elem := Option.some.inj helem
    have hperm := h.pool
    rw [hpool, htop] at hperm
    exact ⟨hperm, h.logged, h.above, h.below, h.keyed, h.ordered, h.begun⟩

structure Taken (r after : LogRing) (obj : Option Nat) : Prop where
  stored : Stored obj.toList after
  mono : after.monoUpwardBatchId = r.monoUpwardBatchId
  sub : ∀ e ∈ after.tree, e ∈ r.tree

theorem Stored.takeElement (h : Stored [] r) :
    Taken r r.takeElement.1 r.takeElement.2 := by
  obtain ⟨hnone, hsome, htree, hmono⟩ := h.mempoolAlloc
  rw [LogRing.takeElement]
  generalize hfirst : r.mempoolAlloc = first at hnone hsome htree hmono
  obtain ⟨taken, obj⟩ := first
  cases obj with
  | none =>
    have hdropped := (hnone rfl).deleteData rasLogMemTempSize
    obtain ⟨hnone', hsome', htree', hmono'⟩ := hdropped.stored.mempoolAlloc
    have hsub : ∀ e ∈ (taken.deleteData rasLogMemTempSize).mempoolAlloc.1.tree, e ∈ r.tree := by
      intro e he
      rw [htree'] at he
      exact htree ▸ hdropped.sub e he
    have hmonoAll := (hmono'.trans hdropped.mono).trans hmono
    show Taken r (taken.deleteData rasLogMemTempSize).mempoolAlloc.1
      (taken.deleteData rasLogMemTempSize).mempoolAlloc.2
    generalize hsecond : (taken.deleteData rasLogMemTempSize).mempoolAlloc = second
      at hnone' hsome' hsub hmonoAll
    obtain ⟨last, obj⟩ := second
    cases obj with
    | none => exact ⟨hnone' rfl, hmonoAll, hsub⟩
    | some elem => exact ⟨hsome' elem rfl, hmonoAll, hsub⟩
  | some elem =>
    have hstored := hsome elem rfl
    dsimp only
    split
    · have hdropped := hstored.deleteData rasLogMemTempSize
      exact ⟨hdropped.stored, hdropped.mono.trans hmono, fun e he => htree ▸ hdropped.sub e he⟩
    · exact ⟨hstored, hmono, fun e he => htree ▸ he⟩

theorem Stored.insertLog {entry : Entry} {insertOk : Bool} (h : Stored [entry.elem] r)
    (hbelow : entry.batch < r.monoUpwardBatchId)
    (hnot : entry.log.seqno % 2 ^ 32 ≠ mempoolFreedSignature)
    (hok : insertOk = true → r.lastDelBatchId ≤ entry.batch ∧ entry.Keyed)
    (hnew : ∀ e ∈ r.tree, e.batch = entry.batch → e.key < entry.key) :
    Stored [] (r.insertLog entry insertOk) := by
  rw [LogRing.insertLog]
  split
  · next hinsert =>
    obtain ⟨habove, hkeyed⟩ := hok (Bool.and_eq_true_iff.mp hinsert).1
    have hmem : ∀ e ∈ r.tree ++ [entry], e ∈ r.tree ∨ e = entry := by
      intro e he
      simpa using he
    refine ⟨?_, ?_, fun e he => ?_, fun e he => ?_, fun e he => ?_, ?_, h.begun⟩
    · apply List.Perm.trans _ h.pool
      show (r.mempool ++ (r.tree ++ [entry]).map Entry.elem).Perm _
      rw [map_append, ← append_assoc]
      exact perm_append_comm
    · show r.loggedEccCount + 1 = ((r.tree ++ [entry]).length : Int)
      have := h.logged
      rw [length_append, length_singleton]
      omega
    · rcases hmem e he with he | rfl
      · exact h.above e he
      · exact habove
    · rcases hmem e he with he | rfl
      · exact h.below e he
      · exact hbelow
    · rcases hmem e he with he | rfl
      · exact h.keyed e he
      · exact hkeyed
    · apply pairwise_append.mpr
      refine ⟨h.ordered, pairwise_singleton _ _, fun e he e' he' => ?_⟩
      rw [mem_singleton.mp he']
      exact hnew e he
  · have hroom : r.mempool.length < rasLogMempoolSize := by
      have := h.room
      simp only [length_singleton] at this
      omega
    rw [mempoolFreeElem_eq hnot hroom]
    exact ⟨h.pool, h.logged, h.above, h.below, h.keyed, h.ordered, h.begun⟩

end Invariant

/-- What a tag knows of the tree: its batch has begun, and the next number in it is larger than
those of its records. -/
structure TagFits (r : LogRing) (tag : BatchTag) : Prop where
  begun : tag.batchId < r.monoUpwardBatchId
  next : ∀ e ∈ r.tree, e.batch = tag.batchId →
    e.key < tag.batchId * 2 ^ 8 + tag.subSeqno

/-- The ring, the tags of its callers, and no batch with two tags. -/
structure Books (s : System) : Prop where
  stored : Stored [] s.ring
  fits : ∀ id tag, s.tags id = some tag → TagFits s.ring tag
  apart : ∀ id id' tag tag', s.tags id = some tag → s.tags id' = some tag' → id ≠ id' →
    tag.batchId ≠ tag'.batchId

/-- The numbers of the batches do not wrap; and when a call gets an element for its record, its
batch has room for the record, and if it can be put into the tree, its batch has not been dropped by
then and is below 2 ^ 56. -/
def Meets (s : System) : Label → Prop
  | .createBatchTag _ _ => s.ring.monoUpwardBatchId + 1 < 2 ^ 64
  | .stampBatchTag _ _ => True
  | .destroyBatchTag _ => True
  | .addLogEvent ev =>
    s.ring.monoUpwardBatchId + 1 < 2 ^ 64 ∧
      (s.ring.takeElement.2 ≠ none → ev.insertOk = true → s.ring.monoUpwardBatchId < 2 ^ 56)
  | .addToBatch ev id => ∀ tag, s.tags id = some tag → s.ring.takeElement.2 ≠ none →
    tag.subSeqno < maxRecordPerBatch ∧
      (ev.insertOk = true →
        s.ring.takeElement.1.lastDelBatchId ≤ tag.batchId ∧ tag.batchId < 2 ^ 56)

section Steps

variable {s t : System}

theorem insertLog_mono (r : LogRing) (entry : Entry) (insertOk : Bool) :
    (r.insertLog entry insertOk).monoUpwardBatchId = r.monoUpwardBatchId := by
  rw [LogRing.insertLog]
  split <;> rfl

theorem insertLog_tree (r : LogRing) (entry : Entry) (insertOk : Bool) :
    ∀ e ∈ (r.insertLog entry insertOk).tree, e ∈ r.tree ∨ e = entry := by
  rw [LogRing.insertLog]
  split
  · intro e he
    simpa using he
  · exact fun e he => .inl he

theorem TagFits.mono {r r' : LogRing} {tag : BatchTag} (h : TagFits r tag)
    (hmono : r.monoUpwardBatchId ≤ r'.monoUpwardBatchId)
    (hsub : ∀ e ∈ r'.tree, e ∈ r.tree ∨ e.batch ≠ tag.batchId) : TagFits r' tag := by
  refine ⟨Nat.lt_of_lt_of_le h.begun hmono, fun e he hbatch => ?_⟩
  rcases hsub e he with he | hother
  · exact h.next e he hbatch
  · exact absurd hbatch hother

theorem Books.addLogEvent (h : Books s) {ev : LogEvent}
    (hmono : s.ring.monoUpwardBatchId + 1 < 2 ^ 64)
    (hsmall : s.ring.takeElement.2 ≠ none → ev.insertOk = true →
      s.ring.monoUpwardBatchId < 2 ^ 56) :
    Books { s with ring := (s.ring.addLogEvent ev none).1 } := by
  have htaken := h.stored.takeElement
  have hfits : ∀ id tag, s.tags id = some tag → TagFits s.ring.takeElement.1 tag :=
    fun id tag htag => (h.fits id tag htag).mono (Nat.le_of_eq htaken.mono.symm)
      fun e he => .inl (htaken.sub e he)
  rw [LogRing.addLogEvent]
  generalize s.ring.takeElement = taken at htaken hfits hsmall
  obtain ⟨ring, obj⟩ := taken
  have hringMono : ring.monoUpwardBatchId = s.ring.monoUpwardBatchId := htaken.mono
  cases obj with
  | none => exact ⟨htaken.stored, hfits, h.apart⟩
  | some elem =>
    have hnext : (ring.monoUpwardBatchId + 1) % 2 ^ 64 = ring.monoUpwardBatchId + 1 :=
      Nat.mod_eq_of_lt (by omega)
    have hwide : Stored [elem]
        { ring with monoUpwardBatchId := (ring.monoUpwardBatchId + 1) % 2 ^ 64 } := by
      rw [hnext]
      exact ⟨htaken.stored.pool, htaken.stored.logged, htaken.stored.above,
        fun e he => Nat.lt_succ_of_lt (htaken.stored.below e he), htaken.stored.keyed,
        htaken.stored.ordered, Nat.le_succ_of_le htaken.stored.begun⟩
    refine ⟨?_, fun id tag htag => ?_, h.apart⟩
    · apply Stored.insertLog (r := { ring with
        monoUpwardBatchId := (ring.monoUpwardBatchId + 1) % 2 ^ 64 }) hwide
      · rw [hnext]
        exact Nat.lt_succ_self _
      · exact not_signature ring.monoUpwardBatchId 0 (by decide)
      · intro hok
        have hbatch : ring.monoUpwardBatchId < 2 ^ 56 :=
          hringMono ▸ hsmall (Option.some_ne_none elem) hok
        refine ⟨htaken.stored.begun, hbatch, rfl, 0, by decide, ?_⟩
        exact treeIdx_of_lt hbatch (by decide)
      · intro e he hbatch
        have hbelow := htaken.stored.below e he
        exact absurd hbatch (Nat.ne_of_lt hbelow)
    · apply (hfits id tag htag).mono
      · show ring.monoUpwardBatchId ≤ (LogRing.insertLog _ _ _).monoUpwardBatchId
        rw [insertLog_mono, hnext]
        exact Nat.le_succ _
      · intro e he
        rcases insertLog_tree _ _ _ e he with he | rfl
        · exact .inl he
        · exact .inr (Nat.ne_of_gt (hfits id tag htag).begun)

theorem Books.addToBatch (h : Books s) {ev : LogEvent} {id : Nat} {tag : BatchTag}
    (htag : s.tags id = some tag)
    (hmeets : s.ring.takeElement.2 ≠ none → tag.subSeqno < maxRecordPerBatch ∧
      (ev.insertOk = true →
        s.ring.takeElement.1.lastDelBatchId ≤ tag.batchId ∧ tag.batchId < 2 ^ 56)) :
    Books
      { ring := (s.ring.addLogEvent ev (some tag)).1
        tags := update s.tags id (s.ring.addLogEvent ev (some tag)).2 } := by
  have htaken := h.stored.takeElement
  have hfits : ∀ id tag, s.tags id = some tag → TagFits s.ring.takeElement.1 tag :=
    fun id tag htag => (h.fits id tag htag).mono (Nat.le_of_eq htaken.mono.symm)
      fun e he => .inl (htaken.sub e he)
  rw [LogRing.addLogEvent]
  generalize s.ring.takeElement = taken at htaken hfits hmeets
  obtain ⟨ring, obj⟩ := taken
  cases obj with
  | none =>
    have hsame : update s.tags id (some tag) = s.tags := by
      rw [← htag]
      exact update_eq_self id s.tags
    show Books ⟨ring, update s.tags id (some tag)⟩
    rw [hsame]
    exact ⟨htaken.stored, hfits, h.apart⟩
  | some elem =>
    obtain ⟨hsub, hsmall⟩ := hmeets (Option.some_ne_none elem)
    have hlow : tag.subSeqno < 2 ^ 8 := Nat.lt_trans hsub (by decide)
    have hnot : ¬ maxRecordPerBatch ≤ tag.subSeqno := Nat.not_le.mpr hsub
    have hfit := hfits id tag htag
    simp only [LogRing.addData, if_neg hnot]
    generalize hentry : ({ key := _, elem := elem, batch := tag.batchId, log := _ } : Entry) = entry
    have hbatch : entry.batch = tag.batchId := hentry ▸ rfl
    have hkey : entry.key = batchIdxToTreeIdx tag.batchId tag.subSeqno := hentry ▸ rfl
    have hseqno : entry.log.seqno = entry.key := hentry ▸ rfl
    have helem : entry.elem = elem := hentry ▸ rfl
    have hstored : Stored [] (ring.insertLog entry ev.insertOk) := by
      apply Stored.insertLog (helem ▸ htaken.stored) (hbatch ▸ hfit.begun)
      · rw [hseqno, hkey]
        exact not_signature tag.batchId tag.subSeqno hsub
      · intro hok
        obtain ⟨habove, hsmall⟩ := hsmall hok
        refine ⟨hbatch ▸ habove, hbatch ▸ hsmall, hseqno, tag.subSeqno, hsub, ?_⟩
        rw [hkey, hbatch, treeIdx_of_lt hsmall hlow]
      · intro e he hsame
        have hsmall : e.batch < 2 ^ 56 := (htaken.stored.keyed e he).1
        rw [hsame, hbatch] at hsmall
        rw [hkey, treeIdx_of_lt hsmall hlow]
        exact hfit.next e he (hsame.trans hbatch)
    refine ⟨hstored, fun id' tag' htag' => ?_, fun i i' ti ti' hti hti' hne => ?_⟩
    · change update s.tags id _ id' = some tag' at htag'
      by_cases hid : id' = id
      · rw [hid, update_self] at htag'
        rw [← Option.some.inj htag']
        refine ⟨?_, fun e he hown => ?_⟩
        · show tag.batchId < (ring.insertLog entry ev.insertOk).monoUpwardBatchId
          rw [insertLog_mono]
          exact hfit.begun
        · show e.key < tag.batchId * 2 ^ 8 + (tag.subSeqno + 1)
          rcases insertLog_tree _ _ _ e he with he | rfl
          · exact Nat.lt_succ_of_lt (hfit.next e he hown)
          · rw [hkey, treeIdx_eq tag.batchId tag.subSeqno hlow]
            have := Nat.mod_le tag.batchId (2 ^ 56)
            omega
      · rw [update_of_ne hid] at htag'
        apply (hfits id' tag' htag').mono
        · exact Nat.le_of_eq (insertLog_mono ring entry ev.insertOk).symm
        · intro e he
          rcases insertLog_tree _ _ _ e he with he | rfl
          · exact .inl he
          · rw [hbatch]
            exact .inr (h.apart id id' tag tag' htag htag' (Ne.symm hid))
    · have hbatches : ∀ j tj, update s.tags id
          (some { tag with subSeqno := tag.subSeqno + 1 }) j = some tj →
          ∃ old, s.tags j = some old ∧ old.batchId = tj.batchId := by
        intro j tj htj
        by_cases hj : j = id
        · rw [hj, update_self] at htj
          exact ⟨tag, hj ▸ htag, by rw [← Option.some.inj htj]⟩
        · rw [update_of_ne hj] at htj
          exact ⟨tj, htj, rfl⟩
      obtain ⟨old, hold, hsame⟩ := hbatches i ti hti
      obtain ⟨old', hold', hsame'⟩ := hbatches i' ti' hti'
      rw [← hsame, ← hsame']
      exact h.apart i i' old old' hold hold' hne

theorem Books.createBatchTag (h : Books s) (id timestamp : Nat)
    (hmono : s.ring.monoUpwardBatchId + 1 < 2 ^ 64) :
    Books
      { ring := { s.ring with monoUpwardBatchId := (s.ring.monoUpwardBatchId + 1) % 2 ^ 64 }
        tags := update s.tags id (some ⟨s.ring.monoUpwardBatchId, timestamp, 0⟩) } := by
  rw [Nat.mod_eq_of_lt hmono]
  refine ⟨⟨h.stored.pool, h.stored.logged, h.stored.above,
    fun e he => Nat.lt_succ_of_lt (h.stored.below e he), h.stored.keyed, h.stored.ordered,
    Nat.le_succ_of_le h.stored.begun⟩, fun id' tag' htag' => ?_,
    fun i i' ti ti' hti hti' hne => ?_⟩
  · change update s.tags id _ id' = some tag' at htag'
    by_cases hid : id' = id
    · rw [hid, update_self] at htag'
      rw [← Option.some.inj htag']
      refine ⟨Nat.lt_succ_self _, fun e he hown => ?_⟩
      exact absurd hown (Nat.ne_of_lt (h.stored.below e he))
    · rw [update_of_ne hid] at htag'
      exact (h.fits id' tag' htag').mono (Nat.le_succ _) fun e he => .inl he
  · change update s.tags id _ i = some ti at hti
    change update s.tags id _ i' = some ti' at hti'
    by_cases hi : i = id
    · have hi' : i' ≠ id := fun hi' => hne (hi.trans hi'.symm)
      rw [hi, update_self] at hti
      rw [update_of_ne hi'] at hti'
      rw [← Option.some.inj hti]
      exact Nat.ne_of_gt (h.fits i' ti' hti').begun
    · rw [update_of_ne hi] at hti
      by_cases hi' : i' = id
      · rw [hi', update_self] at hti'
        rw [← Option.some.inj hti']
        exact Nat.ne_of_lt (h.fits i ti hti).begun
      · rw [update_of_ne hi'] at hti'
        exact h.apart i i' ti ti' hti hti' hne

theorem Books.retag (h : Books s) (tags : Nat → Option BatchTag)
    (hold : ∀ id tag, tags id = some tag → ∃ old, s.tags id = some old ∧
      old.batchId = tag.batchId ∧ old.subSeqno = tag.subSeqno) :
    Books { s with tags } := by
  refine ⟨h.stored, fun id tag htag => ?_, fun i i' ti ti' hti hti' hne => ?_⟩
  · obtain ⟨old, hthere, hbatch, hsub⟩ := hold id tag htag
    obtain ⟨hbegun, hnext⟩ := h.fits id old hthere
    rw [hbatch] at hbegun hnext
    rw [hsub] at hnext
    exact ⟨hbegun, hnext⟩
  · obtain ⟨old, hthere, hbatch, -⟩ := hold i ti hti
    obtain ⟨old', hthere', hbatch', -⟩ := hold i' ti' hti'
    rw [← hbatch, ← hbatch']
    exact h.apart i i' old old' hthere hthere' hne

theorem Books.step (h : Books s) {label : Label} (hmeets : Meets s label)
    (hstep : Step s label t) : Books t := by
  cases label with
  | createBatchTag id timestamp =>
    rw [Step, System.step] at hstep
    split at hstep
    · cases hstep
    · rw [← Option.some.inj hstep]
      exact h.createBatchTag id timestamp hmeets
  | stampBatchTag id timestamp =>
    rw [← Option.some.inj hstep]
    apply h.retag
    intro id' tag htag
    by_cases hid : id' = id
    · rw [hid, update_self] at htag
      obtain ⟨old, hold, htagEq⟩ := Option.map_eq_some_iff.mp htag
      exact ⟨old, hid ▸ hold, htagEq ▸ rfl, htagEq ▸ rfl⟩
    · rw [update_of_ne hid] at htag
      exact ⟨tag, htag, rfl, rfl⟩
  | destroyBatchTag id =>
    rw [← Option.some.inj hstep]
    apply h.retag
    intro id' tag htag
    by_cases hid : id' = id
    · rw [hid, update_self] at htag
      cases htag
    · rw [update_of_ne hid] at htag
      exact ⟨tag, htag, rfl, rfl⟩
  | addLogEvent ev =>
    rw [← Option.some.inj hstep]
    exact h.addLogEvent hmeets.1 hmeets.2
  | addToBatch ev id =>
    rw [Step, System.step] at hstep
    split at hstep
    · cases hstep
    · next tag htag =>
      rw [← Option.some.inj hstep]
      exact h.addToBatch htag (hmeets tag htag)

end Steps

section Queries

variable {held : List Nat} {r : LogRing}

/-- The entries of a batch, in the order in which they were logged. -/
def LogRing.under (r : LogRing) (batchId : Nat) : List Entry :=
  r.tree.filter fun e => e.batch = batchId

theorem getBatchLoop_eq (batchId arrNum : Nat) : ∀ (keys : List Nat) (logArr : List RasLogInfo),
    logArr.length ≤ arrNum →
    r.getBatchLoop batchId arrNum keys logArr =
      (logArr ++ keys.filterMap fun i =>
        r.lookupData (batchIdxToTreeIdx batchId i % 2 ^ 32)).take arrNum
  | [], logArr, hlength => by
    rw [LogRing.getBatchLoop, filterMap_nil, append_nil, take_of_length_le hlength]
  | i :: rest, logArr, hlength => by
    rw [LogRing.getBatchLoop]
    by_cases hroom : logArr.length < arrNum
    · rw [if_pos hroom]
      dsimp only
      cases hlog : r.lookupData (batchIdxToTreeIdx batchId i % 2 ^ 32) with
      | none =>
        simp only [filterMap_cons, hlog]
        exact getBatchLoop_eq batchId arrNum rest logArr hlength
      | some log =>
        have hlength' : (logArr ++ [log]).length ≤ arrNum := by
          rw [length_append, length_singleton]
          omega
        simp only [filterMap_cons, hlog]
        rw [getBatchLoop_eq batchId arrNum rest (logArr ++ [log]) hlength', append_assoc,
          singleton_append]
    · have hfull : arrNum ≤ logArr.length := Nat.not_lt.mp hroom
      rw [if_neg hroom, take_append_of_le_length hfull, take_of_length_le hlength]

theorem key_iff {key batch batchId sn i : Nat} (hsn : sn < 32) (hi : i < 32)
    (hkey : key = batch * 2 ^ 8 + sn) :
    key = batchId * 2 ^ 8 + i ↔ batch = batchId ∧ key - batchId * 2 ^ 8 = i := by
  rw [hkey]
  constructor
  · intro hsame
    have hbatch : batch = batchId := by omega
    refine ⟨hbatch, ?_⟩
    rw [hbatch] at hsame ⊢
    omega
  · intro hsame
    obtain ⟨hbatch, hplace⟩ := hsame
    rw [hbatch] at hplace ⊢
    omega

theorem Stored.scan (h : Stored held r) (batchId : Nat) :
    (range maxRecordPerBatch).filterMap
        (fun i => r.lookupData (batchId * 2 ^ 8 + i)) =
      (r.under batchId).map Entry.log := by
  have hsub : ∀ e ∈ r.under batchId, e.Keyed ∧ e.batch = batchId := by
    intro e he
    obtain ⟨he, hbatch⟩ := mem_filter.mp he
    exact ⟨h.keyed e he, by simpa using hbatch⟩
  have hsorted : (r.under batchId).Pairwise fun e e' =>
      e.key - batchId * 2 ^ 8 < e'.key - batchId * 2 ^ 8 := by
    apply (h.ordered.sublist filter_sublist).imp_of_mem
    intro e e' he he' hlt
    obtain ⟨⟨-, -, sn, -, hkey⟩, hbatch⟩ := hsub e he
    obtain ⟨⟨-, -, sn', -, hkey'⟩, hbatch'⟩ := hsub e' he'
    have := hlt (hbatch.trans hbatch'.symm)
    rw [hbatch] at hkey
    rw [hbatch'] at hkey'
    omega
  have hlookup : ∀ i ∈ range maxRecordPerBatch, r.lookupData (batchId * 2 ^ 8 + i) =
      ((r.under batchId).find? fun e => e.key - batchId * 2 ^ 8 = i).map Entry.log := by
    intro i hi
    have hi : i < 32 := mem_range.mp hi
    rw [LogRing.lookupData, LogRing.under, find?_filter]
    congr 1
    apply KeyScan.find_congr
    intro e he
    obtain ⟨-, -, sn, hsn, hkey⟩ := h.keyed e he
    have hsn : sn < 32 := hsn
    simp only [decide_eq_true_eq]
    exact decide_eq_decide.mpr (key_iff hsn hi hkey)
  have hall : (r.under batchId).filter
      (fun e => e.key - batchId * 2 ^ 8 < maxRecordPerBatch) = r.under batchId := by
    apply filter_eq_self.mpr
    intro e he
    obtain ⟨⟨-, -, sn, hsn, hkey⟩, hbatch⟩ := hsub e he
    rw [hbatch] at hkey
    simp only [decide_eq_true_eq]
    omega
  rw [filterMap_congr hlookup, ← map_filterMap,
    KeyScan.filterMap_range_find (fun e : Entry => e.key - batchId * 2 ^ 8) hsorted, hall]

theorem Stored.getBatchRecords (h : Stored held r) {batchId arrNum : Nat} (harr : 0 < arrNum)
    (hfirst : r.lastDelBatchId ≤ batchId) (hlast : batchId < r.monoUpwardBatchId) :
    r.getBatchRecords batchId arrNum =
      some (((r.under (batchId % 2 ^ 24)).map Entry.log).take arrNum) := by
  have hkeys : ∀ i ∈ range maxRecordPerBatch,
      r.lookupData (batchIdxToTreeIdx batchId i % 2 ^ 32) =
        r.lookupData (batchId % 2 ^ 24 * 2 ^ 8 + i) := by
    intro i hi
    have hi : i < 32 := mem_range.mp hi
    rw [treeIdx_low batchId i (by omega)]
  have hvalid : ¬ (arrNum = 0 || r.monoUpwardBatchId ≤ batchId || batchId < r.lastDelBatchId)
      = true := by
    simp only [Bool.or_eq_true, decide_eq_true_eq]
    omega
  rw [LogRing.getBatchRecords, if_neg hvalid, getBatchLoop_eq batchId arrNum _ [] (Nat.zero_le _),
    nil_append, filterMap_congr hkeys, h.scan]

/-- A query of the batch returns its records, as many as fit, in the order they were logged. -/
def Recorded (r : LogRing) (batchId : Nat) : Prop :=
  ∀ arrNum, 0 < arrNum →
    r.getBatchRecords batchId arrNum = some (((r.under batchId).map Entry.log).take arrNum)

theorem Stored.recorded_iff (h : Stored held r) {batchId : Nat}
    (hfirst : r.lastDelBatchId ≤ batchId) (hlast : batchId < r.monoUpwardBatchId) :
    Recorded r batchId ↔
      batchId < 2 ^ 24 ∨ r.under batchId = [] ∧ r.under (batchId % 2 ^ 24) = [] := by
  have hquery := fun arrNum (harr : 0 < arrNum) =>
    h.getBatchRecords harr hfirst hlast
  constructor
  · intro hrecorded
    by_cases hsmall : batchId < 2 ^ 24
    · exact .inl hsmall
    · right
      have hsame : (r.under (batchId % 2 ^ 24)).map Entry.log =
          (r.under batchId).map Entry.log := by
        have hboth := fun arrNum harr =>
          Option.some.inj ((hquery arrNum harr).symm.trans (hrecorded arrNum harr))
        have hlong := hboth ((r.under (batchId % 2 ^ 24)).length + (r.under batchId).length + 1)
          (Nat.succ_pos _)
        rw [take_of_length_le, take_of_length_le] at hlong
        · exact hlong
        · rw [length_map]
          omega
        · rw [length_map]
          omega
      have hempty : r.under batchId = [] := by
        apply eq_nil_iff_forall_not_mem.mpr
        intro e he
        have hlog := mem_map_of_mem (f := Entry.log) he
        rw [← hsame] at hlog
        obtain ⟨e', he', hlogs⟩ := mem_map.mp hlog
        obtain ⟨he, hbatch⟩ := mem_filter.mp he
        obtain ⟨he', hbatch'⟩ := mem_filter.mp he'
        have hkey : e'.key = e.key := by
          rw [← (h.keyed e he).2.1, ← (h.keyed e' he').2.1, hlogs]
        have hsameBatch : e'.batch = e.batch := by
          rw [← (h.keyed e he).batch_eq, ← (h.keyed e' he').batch_eq, hkey]
        simp only [decide_eq_true_eq] at hbatch hbatch'
        omega
      refine ⟨hempty, ?_⟩
      rw [hempty, map_nil, map_eq_nil_iff] at hsame
      exact hsame
  · intro hkept arrNum harr
    rw [hquery arrNum harr]
    rcases hkept with hsmall | ⟨hown, hother⟩
    · rw [Nat.mod_eq_of_lt hsmall]
    · rw [hown, hother]

end Queries

/-- Every element is in the pool or in the tree, the count is the number of records, and every
record is of a batch that has begun and has not been dropped. -/
structure Kept (r : LogRing) : Prop where
  pool : (r.mempool ++ r.tree.map Entry.elem).Perm (range rasLogMempoolSize)
  logged : r.loggedEccCount = r.tree.length
  batches : ∀ e ∈ r.tree, r.lastDelBatchId ≤ e.batch ∧ e.batch < r.monoUpwardBatchId

theorem Books.kept {s : System} (h : Books s) : Kept s.ring :=
  ⟨h.stored.pool, h.stored.logged, fun e he => ⟨h.stored.above e he, h.stored.below e he⟩⟩

theorem Stored.empty {mempool : List Nat} (hpool : mempool = range rasLogMempoolSize) :
    Stored [] ⟨mempool, [], 0, 0, 0⟩ := by
  refine ⟨?_, rfl, ?_, ?_, ?_, List.Pairwise.nil, Nat.le_refl _⟩
  · rw [← hpool, map_nil, append_nil, nil_append]
  · exact fun e he => absurd he not_mem_nil
  · exact fun e he => absurd he not_mem_nil
  · exact fun e he => absurd he not_mem_nil

theorem Initial.books {s : System} (first : Initial s) : Books s := by
  rw [first]
  refine ⟨Stored.empty rfl, ?_, ?_⟩
  · exact fun id tag htag => absurd htag.symm (Option.some_ne_none tag)
  · exact fun i i' ti ti' hti => absurd hti.symm (Option.some_ne_none ti)

/-- Over all runs of calls that meet their conditions the books are kept, and a query of a batch
that can occur is right exactly when its 32 bits of key are enough. -/
theorem logRing_kept : ∀ s, Run Initial Step Meets s →
    Kept s.ring ∧ ∀ batchId, s.ring.lastDelBatchId ≤ batchId →
      batchId < s.ring.monoUpwardBatchId →
      (Recorded s.ring batchId ↔ batchId < 2 ^ 24 ∨
        s.ring.under batchId = [] ∧ s.ring.under (batchId % 2 ^ 24) = []) := by
  intro s run
  have hbooks : Books s := run.invariant Books (fun s first => first.books)
    fun before label after h hmeets hstep => h.step hmeets hstep
  exact ⟨hbooks.kept, fun batchId => hbooks.stored.recorded_iff⟩

section Examples

def loggedCe : LogEvent := ⟨.ce, [], 0, 0, true⟩

theorem meets_addLogEvent {s : System} {ev : LogEvent} (hlow : s.ring.monoUpwardBatchId < 2 ^ 56) :
    Meets s (.addLogEvent ev) :=
  ⟨Nat.lt_trans (Nat.succ_lt_succ hlow) (by decide), fun _ _ => hlow⟩

/-- A batch that is begun and gets a record, and two records that are batches of their own. -/
theorem logRing_kept_three : ∃ s : System, s.ring.tree.map Entry.batch = [0, 1, 2] ∧
    Kept s.ring ∧ ∀ batchId < 3, Recorded s.ring batchId := by
  have h0 : Run Initial Step Meets ⟨swInit, fun _ => none⟩ := .start rfl
  have h1 : Run Initial Step Meets _ := .next (.createBatchTag 0 5) h0
    (show 0 + 1 < 2 ^ 64 by decide) rfl
  have h2 : Run Initial Step Meets _ := .next (.addToBatch loggedCe 0) h1 (by
    rintro _ ⟨⟩ _
    exact ⟨by decide, fun _ => ⟨by decide +kernel, by decide⟩⟩) rfl
  have h3 : Run Initial Step Meets _ := .next (.addLogEvent loggedCe) h2
    (meets_addLogEvent (by decide +kernel)) rfl
  have h4 : Run Initial Step Meets _ := .next (.addLogEvent loggedCe) h3
    (meets_addLogEvent (by decide +kernel)) rfl
  obtain ⟨s, run, hbatches, hfirst, hnext⟩ : ∃ s, Run Initial Step Meets s ∧
      s.ring.tree.map Entry.batch = [0, 1, 2] ∧ s.ring.lastDelBatchId = 0 ∧
        s.ring.monoUpwardBatchId = 3 := ⟨_, h4, by decide +kernel⟩
  obtain ⟨hkept, hrecorded⟩ := logRing_kept s run
  exact ⟨s, hbatches, hkept, fun batchId hfew =>
    (hrecorded batchId (by omega) (by omega)).mpr (.inl (by omega))⟩

theorem Stored.takeElement_plain {r : LogRing} (h : Stored [] r)
    (hfew : r.tree.length < rasLogMempoolSize) :
    ∃ elem rest, r.mempool = elem :: rest ∧
      r.takeElement = ({ r with mempool := rest }, some elem) := by
  have hroom := h.room
  have hlogged := h.logged
  rw [length_nil] at hroom
  cases hpool : r.mempool with
  | nil =>
    rw [hpool, length_nil] at hroom
    omega
  | cons elem rest =>
    refine ⟨elem, rest, rfl, ?_⟩
    have hcount : ¬ rasLogMempoolSize ≤
        LogRing.getLoggedEccCount { r with mempool := rest } := by
      show ¬ rasLogMempoolSize ≤ r.loggedEccCount.toNat
      omega
    simp only [LogRing.takeElement, LogRing.mempoolAlloc, hpool, if_neg hcount]

/-- A run with one batch, in which so many records have been given a number. -/
structure OneBatch (n : Nat) (s : System) : Prop where
  run : Run Initial Step always s
  books : Books s
  tag : s.tags 0 = some ⟨0, 0, n⟩
  kept : s.ring.lastDelBatchId = 0
  few : s.ring.tree.length ≤ n

theorem oneBatch_zero : ∃ s, OneBatch 0 s := by
  have first : Run Initial Step always ⟨swInit, fun _ => none⟩ := .start rfl
  have hbooks : Books ⟨swInit, fun _ => none⟩ := Initial.books rfl
  exact ⟨_, .next (.createBatchTag 0 0) first trivial rfl,
    hbooks.createBatchTag 0 0 (show 0 + 1 < 2 ^ 64 by decide), rfl, rfl,
    Nat.le_refl 0⟩

def System.logged (s : System) (n : Nat) : System where
  ring := (s.ring.addLogEvent loggedCe (some ⟨0, 0, n⟩)).1
  tags := update s.tags 0 (s.ring.addLogEvent loggedCe (some ⟨0, 0, n⟩)).2

theorem OneBatch.logged {n : Nat} {s : System} (h : OneBatch n s) :
    Run Initial Step always (s.logged n) := by
  apply Run.next (.addToBatch loggedCe 0) h.run trivial
  rw [Step, System.step, h.tag]
  rfl

theorem OneBatch.next {n : Nat} {s : System} (h : OneBatch n s) (hn : n < maxRecordPerBatch) :
    ∃ t, OneBatch (n + 1) t := by
  have hn' : n < 32 := hn
  have hfew : s.ring.tree.length < 0xC200 := Nat.lt_of_le_of_lt h.few (by omega)
  obtain ⟨elem, rest, -, htaken⟩ := h.books.stored.takeElement_plain hfew
  have hmeets : s.ring.takeElement.2 ≠ none → n < maxRecordPerBatch ∧
      (loggedCe.insertOk = true → s.ring.takeElement.1.lastDelBatchId ≤ 0 ∧ 0 < 2 ^ 56) := by
    rw [htaken]
    exact fun _ => ⟨hn, fun _ => ⟨Nat.le_of_eq h.kept, by decide⟩⟩
  have hbooks := h.books.addToBatch h.tag hmeets
  have hnot : ¬ maxRecordPerBatch ≤ n := Nat.not_le.mpr hn
  refine ⟨s.logged n, h.logged, hbooks, ?_, ?_, ?_⟩
  · show update s.tags 0 (s.ring.addLogEvent loggedCe (some ⟨0, 0, n⟩)).2 0 = _
    rw [update_self, LogRing.addLogEvent, htaken]
    simp only [LogRing.addData, if_neg hnot]
  · rw [System.logged, LogRing.addLogEvent, htaken]
    simp only [LogRing.addData, if_neg hnot, LogRing.insertLog]
    split
    · exact h.kept
    · exact h.kept
  · rw [System.logged, LogRing.addLogEvent, htaken]
    simp only [LogRing.addData, if_neg hnot, LogRing.insertLog]
    split
    · rw [length_append]
      exact Nat.succ_le_succ h.few
    · exact Nat.le_succ_of_le h.few

theorem oneBatch : ∀ n ≤ maxRecordPerBatch, ∃ s, OneBatch n s
  | 0, _ => oneBatch_zero
  | n + 1, hn =>
    have ⟨_, hs⟩ := oneBatch n (Nat.le_of_succ_le hn)
    hs.next hn

/-- The element of the 33rd record of a batch is lost. -/
theorem logRing_lost : ¬ ∀ s, Run Initial Step always s →
    Kept s.ring ∧ ∀ batchId, s.ring.lastDelBatchId ≤ batchId →
      batchId < s.ring.monoUpwardBatchId → Recorded s.ring batchId := by
  intro hall
  obtain ⟨s, h⟩ := oneBatch maxRecordPerBatch (Nat.le_refl _)
  have hfew : s.ring.tree.length < 0xC200 := Nat.lt_of_le_of_lt h.few (by decide)
  obtain ⟨elem, rest, hpool, htaken⟩ := h.books.stored.takeElement_plain hfew
  have hroom := h.books.stored.room
  have hlost : (s.logged maxRecordPerBatch).ring = { s.ring with mempool := rest } := by
    rw [System.logged, LogRing.addLogEvent, htaken]
    simp only [LogRing.addData, if_pos (Nat.le_refl maxRecordPerBatch)]
  have hkept := (hall _ h.logged).1
  rw [hlost] at hkept
  have hlength := hkept.pool.length_eq
  simp only [length_append, length_map, length_range] at hlength
  rw [hpool, length_cons, length_nil] at hroom
  omega

end Examples

end MxGpu.RasLog
