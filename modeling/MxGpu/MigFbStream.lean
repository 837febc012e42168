import MxGpu.MigFbCopy

namespace MxGpu.Mig

open DirtyPages List

variable {d : Device} {bitmap : Nat → Bool} {bits start : Nat}

/-! ### The machine arithmetic of the page size -/

theorem Device.shiftLeft_eq (d : Device) (x : Nat) : x <<< d.pgShift = x * d.fbPageSize := by
  rw [d.fbPageSize_eq, Nat.shiftLeft_eq]

theorem Device.shiftRight_eq (d : Device) (x : Nat) : x >>> d.pgShift = x / d.fbPageSize := by
  rw [d.fbPageSize_eq, Nat.shiftRight_eq_div_pow]

theorem Device.and_mask_eq (d : Device) (x : Nat) :
    x &&& (0x1 <<< d.pgShift - 1) = x % d.fbPageSize := by
  rw [d.fbPageSize_eq, Nat.one_shiftLeft, Nat.and_two_pow_sub_one_eq_mod]

/-! ### The next bit -/

theorem findNextBit_cases (bitmap : Nat → Bool) (bits start : Nat) :
    (findNextBit bitmap bits start = bits ∧ setFrom bitmap bits start = []) ∨
      (findNextBit bitmap bits start < bits ∧ start ≤ findNextBit bitmap bits start ∧
        bitmap (findNextBit bitmap bits start) = true ∧
        setFrom bitmap bits start = setFrom bitmap bits (findNextBit bitmap bits start)) := by
  unfold findNextBit
  rcases hfind : (range' start (bits - start)).find? bitmap with _ | q
  · left
    refine ⟨rfl, ?_⟩
    rw [find?_eq_none] at hfind
    unfold setFrom
    rw [filter_eq_nil_iff]
    exact hfind
  · right
    have hmem := mem_of_find?_eq_some hfind
    rw [mem_range'_1] at hmem
    rw [Option.getD_some]
    refine ⟨by omega, hmem.1, find?_some hfind, ?_⟩
    apply setFrom_skip hmem.1
    intro k hlo hk
    obtain ⟨_, before, after, hsplit, hbefore⟩ := find?_eq_some_iff_append.mp hfind
    have hk' : k ∈ range' start (bits - start) := by
      rw [mem_range'_1]
      omega
    have hsorted : (range' start (bits - start)).Pairwise (· < ·) := pairwise_lt_range'
    rw [hsplit] at hk' hsorted
    rw [pairwise_append] at hsorted
    rcases mem_append.mp hk' with hin | hin
    · simpa using hbefore k hin
    · rcases mem_cons.mp hin with heq | hin
      · omega
      · have := (pairwise_cons.mp hsorted.2.1).1 k hin
        omega

theorem le_findNextBit_iff :
    bits ≤ findNextBit bitmap bits start ↔ setFrom bitmap bits start = [] := by
  rcases findNextBit_cases bitmap bits start with ⟨heq, hnil⟩ | ⟨hlt, _, hset, hsame⟩
  · rw [heq, hnil]
    exact ⟨fun _ => rfl, fun _ => Nat.le_refl _⟩
  · constructor
    · intro h
      omega
    · intro h
      rw [hsame, setFrom_step hlt, hset, if_pos rfl] at h
      exact absurd h (cons_ne_nil _ _)

theorem mergeBits_spec {left bitCur bitsCnt bitCnt : Nat} (hleft : left ≤ ringBufSize)
    (hmarked : Marked bitmap bits bitCur bitCnt)
    (hbitCnt : bitCnt = 1 ∨ bitCnt * d.fbPageSize < left) {k rest : Nat}
    (h : mergeBits bitmap bits d.pgShift left bitCur bitsCnt bitCnt (bitCur + bitCnt) =
      (k, rest)) :
    Marked bitmap bits bitCur k ∧ bitCnt ≤ k ∧ k + rest = bitCnt + bitsCnt ∧
      (k = 1 ∨ k * d.fbPageSize < left) := by
  induction bitsCnt generalizing bitCnt with
  | zero =>
    simp only [mergeBits, Prod.mk.injEq] at h
    obtain ⟨rfl, rfl⟩ := h
    exact ⟨hmarked, Nat.le_refl _, rfl, hbitCnt⟩
  | succ bitsCnt ih =>
    have hstay : (bitCnt, bitsCnt + 1) = (k, rest) → Marked bitmap bits bitCur k ∧ bitCnt ≤ k ∧
        k + rest = bitCnt + (bitsCnt + 1) ∧ (k = 1 ∨ k * d.fbPageSize < left) := by
      intro heq
      rw [Prod.mk.injEq] at heq
      obtain ⟨rfl, rfl⟩ := heq
      exact ⟨hmarked, Nat.le_refl _, rfl, hbitCnt⟩
    rw [mergeBits] at h
    split at h
    · exact hstay h
    · rename_i hnext
      split at h
      · rename_i hmerge
        obtain ⟨hadjacent, hsmall⟩ := hmerge
        have hset : bitCur + bitCnt < bits ∧ bitmap (bitCur + bitCnt) = true := by
          rcases findNextBit_cases bitmap bits (bitCur + bitCnt) with ⟨heq, _⟩ | ⟨hlt, _, hset, _⟩
          · omega
          · rw [hadjacent] at hlt hset
            exact ⟨hlt, hset⟩
        have hmore : Marked bitmap bits bitCur (bitCnt + 1) := by
          intro j hj
          rcases Nat.lt_or_ge j bitCnt with hlt | hge
          · exact hmarked j hlt
          · rw [show j = bitCnt by omega]
            exact hset
        -- the product stays below 2 ^ 32 because the ring is small
        have hpage := d.fbPageSize_lt
        have hring : ringBufSize = 2 ^ 25 := rfl
        have hbound : (bitCnt + 1) * d.fbPageSize < 2 ^ 32 := by
          rw [Nat.add_mul, Nat.one_mul]
          rcases hbitCnt with rfl | hlt <;> omega
        rw [d.shiftLeft_eq, Nat.mod_eq_of_lt hbound] at hsmall
        rw [hadjacent, Nat.add_assoc] at h
        obtain ⟨hmarked', hle, hsum, hk⟩ := ih hmore (.inr hsmall) h
        exact ⟨hmarked', by omega, by omega, hk⟩
      · exact hstay h

/-! ### One round of the copy -/

def moved (calls : List FbCopy) : List Nat := calls.flatMap fun c => range' c.fbOffset c.size

def placed (calls : List FbCopy) : List Nat := calls.flatMap fun c => range' c.gpuAddr c.size

def dirtyBytes (d : Device) (bitmap : Nat → Bool) : List Nat :=
  content d.fbPageSize (setFrom bitmap d.fbBitmapBits 0)

@[simp] theorem moved_nil : moved [] = [] := rfl

@[simp] theorem placed_nil : placed [] = [] := rfl

theorem moved_append (cs ds : List FbCopy) : moved (cs ++ ds) = moved cs ++ moved ds :=
  flatMap_append

theorem placed_append (cs ds : List FbCopy) : placed (cs ++ ds) = placed cs ++ placed ds :=
  flatMap_append

theorem moved_singleton (c : FbCopy) : moved [c] = range' c.fbOffset c.size := by
  simp [moved]

theorem placed_singleton (c : FbCopy) : placed [c] = range' c.gpuAddr c.size := by
  simp [placed]

def OnlyMsg (f f' : File) : Prop := ∃ msg, f' = { f with msg := msg }

theorem OnlyMsg.refl (f : File) : OnlyMsg f f := ⟨f.msg, rfl⟩

theorem OnlyMsg.trans {f g h : File} (hfg : OnlyMsg f g) (hgh : OnlyMsg g h) : OnlyMsg f h := by
  obtain ⟨m, rfl⟩ := hfg
  obtain ⟨m', rfl⟩ := hgh
  exact ⟨m', rfl⟩

theorem OnlyMsg.endMessage {f f' : File} (h : OnlyMsg f f') : endMessage f' = endMessage f := by
  obtain ⟨m, rfl⟩ := h
  rfl

theorem advance_onlyMsg (f : File) (bitCur sz : Nat) : OnlyMsg f (advance d f bitCur sz) :=
  ⟨_, rfl⟩

theorem advance_off (f : File) (bitCur sz : Nat) :
    (advance d f bitCur sz).msg.off = (f.msg.off + sz) % d.fbPageSize := d.and_mask_eq _

theorem advance_kept {f : File} {bitCur sz q : Nat}
    (hq : bitCur + (f.msg.off + sz) / d.fbPageSize ≤ q) :
    (advance d f bitCur sz).msg.bitmap q = f.msg.bitmap q := by
  unfold advance
  simp only [d.shiftRight_eq]
  unfold bitmapClear
  simp only [Bool.and_eq_left_iff_imp, Bool.not_eq_true', Bool.and_eq_false_imp,
    decide_eq_true_eq, decide_eq_false_iff_not]
  intro _ _
  omega

theorem advance_setFrom (f : File) (bitCur sz : Nat) :
    setFrom (advance d f bitCur sz).msg.bitmap d.fbBitmapBits (advance d f bitCur sz).msg.bitPos =
      setFrom f.msg.bitmap d.fbBitmapBits (bitCur + (f.msg.off + sz) / d.fbPageSize) := by
  have hpos : (advance d f bitCur sz).msg.bitPos =
      bitCur + (f.msg.off + sz) / d.fbPageSize := by
    unfold advance
    simp only [d.shiftRight_eq]
  rw [hpos]
  exact setFrom_congr fun q hq => advance_kept hq

/-- After `pos` bytes of the pages that `bitmap` marks: the bits of the pages behind are gone, the
others are as they were. -/
structure At (d : Device) (bitmap : Nat → Bool) (pos : Nat) (f : File) : Prop where
  pages : setFrom f.msg.bitmap d.fbBitmapBits f.msg.bitPos =
    (setFrom bitmap d.fbBitmapBits 0).drop (pos / d.fbPageSize)
  off : f.msg.off = pos % d.fbPageSize
  kept : ∀ q, f.msg.bitPos ≤ q → f.msg.bitmap q = bitmap q

theorem dirtyBytes_length (d : Device) (bitmap : Nat → Bool) :
    (dirtyBytes d bitmap).length =
      (setFrom bitmap d.fbBitmapBits 0).length * d.fbPageSize := content_length

theorem dirtyBytes_drop (d : Device) (bitmap : Nat → Bool) (pos : Nat) :
    (dirtyBytes d bitmap).drop pos =
      (content d.fbPageSize
        ((setFrom bitmap d.fbBitmapBits 0).drop (pos / d.fbPageSize))).drop
          (pos % d.fbPageSize) := by
  rw [content_drop, drop_drop, Nat.div_add_mod']
  rfl

theorem At.over_iff {pos : Nat} {f : File} (h : At d bitmap pos f) :
    d.fbBitmapBits ≤ findNextBit f.msg.bitmap d.fbBitmapBits f.msg.bitPos ↔
      (dirtyBytes d bitmap).length ≤ pos := by
  rw [le_findNextBit_iff, h.pages, drop_eq_nil_iff, dirtyBytes_length,
    Nat.le_div_iff_mul_le d.fbPageSize_pos]

theorem At.next {pos : Nat} {f : File} (h : At d bitmap pos f)
    (hpos : pos < (dirtyBytes d bitmap).length) :
    ∃ p, findNextBit f.msg.bitmap d.fbBitmapBits f.msg.bitPos = p ∧ f.msg.bitPos ≤ p ∧
      p < d.fbBitmapBits ∧ bitmap p = true ∧
      (setFrom bitmap d.fbBitmapBits 0).drop (pos / d.fbPageSize) =
        setFrom f.msg.bitmap d.fbBitmapBits p ∧
      setFrom f.msg.bitmap d.fbBitmapBits p = setFrom bitmap d.fbBitmapBits p := by
  have hnot : ¬ d.fbBitmapBits ≤ findNextBit f.msg.bitmap d.fbBitmapBits f.msg.bitPos := by
    rw [h.over_iff]
    omega
  rcases findNextBit_cases f.msg.bitmap d.fbBitmapBits f.msg.bitPos with
    ⟨heq, _⟩ | ⟨hlt, hle, hset, hsame⟩
  · omega
  · refine ⟨_, rfl, hle, hlt, ?_, ?_, ?_⟩
    · rw [← h.kept _ hle]
      exact hset
    · rw [← hsame, h.pages]
    · exact setFrom_congr fun q hq => h.kept q (by omega)

theorem At.advance {pos p m sz : Nat} {f : File} (h : At d bitmap pos f)
    (hstart : (setFrom bitmap d.fbBitmapBits 0).drop (pos / d.fbPageSize) =
      setFrom bitmap d.fbBitmapBits p)
    (hp : f.msg.bitPos ≤ p) (hmarked : Marked bitmap d.fbBitmapBits p m)
    (hfits : pos % d.fbPageSize + sz ≤ m * d.fbPageSize) :
    At d bitmap (pos + sz) (advance d f p sz) ∧
      (setFrom bitmap d.fbBitmapBits 0).drop ((pos + sz) / d.fbPageSize) =
        setFrom bitmap d.fbBitmapBits (p + (pos % d.fbPageSize + sz) / d.fbPageSize) ∧
      (dirtyBytes d bitmap).drop pos =
        range' (p * d.fbPageSize + pos % d.fbPageSize) sz ++
          (dirtyBytes d bitmap).drop (pos + sz) := by
  have hpage := d.fbPageSize_pos
  generalize hc : (pos % d.fbPageSize + sz) / d.fbPageSize = c
  have hsum : pos + sz = pos % d.fbPageSize + sz + pos / d.fbPageSize * d.fbPageSize := by
    have := Nat.div_add_mod' pos d.fbPageSize
    omega
  have hdiv : (pos + sz) / d.fbPageSize = pos / d.fbPageSize + c := by
    rw [hsum, Nat.add_mul_div_right _ _ hpage, hc, Nat.add_comm]
  have hmod : (pos + sz) % d.fbPageSize = (pos % d.fbPageSize + sz) % d.fbPageSize := by
    rw [hsum, Nat.add_mul_mod_self_right]
  have hcm : c ≤ m := by
    rw [← hc]
    exact Nat.div_le_of_le_mul (by rwa [Nat.mul_comm])
  have hdrop : (setFrom bitmap d.fbBitmapBits 0).drop ((pos + sz) / d.fbPageSize) =
      setFrom bitmap d.fbBitmapBits (p + c) := by
    rw [hdiv, ← drop_drop, hstart, setFrom_marked (hmarked.mono hcm),
      drop_left' (by rw [length_range'])]
  refine ⟨⟨?_, ?_, ?_⟩, hdrop, ?_⟩
  · rw [advance_setFrom, h.off, hc, hdrop]
    exact setFrom_congr fun q hq => h.kept q (by omega)
  · rw [advance_off, h.off, hmod]
  · intro q hq
    have hpos : (Mig.advance d f p sz).msg.bitPos = p + c := by
      unfold Mig.advance
      simp only [d.shiftRight_eq, h.off, hc]
    rw [hpos] at hq
    rw [← h.kept q (by omega)]
    exact advance_kept (by rw [h.off, hc]; exact hq)
  · rw [dirtyBytes_drop, hstart, content_split hmarked hfits, hc, dirtyBytes_drop d bitmap (pos + sz),
      hdrop, hmod]

/-! ### A chunk of dirty pages -/

/-- A chunk that starts inside a page stays in the run of marked pages that it starts in. -/
def ChunkFits (d : Device) (bitmap : Nat → Bool) (pos len : Nat) : Prop :=
  pos % d.fbPageSize ≠ 0 → pos < (dirtyBytes d bitmap).length →
    ∃ p m, (setFrom bitmap d.fbBitmapBits 0)[pos / d.fbPageSize]? = some p ∧
      Marked bitmap d.fbBitmapBits p m ∧ pos % d.fbPageSize + len ≤ m * d.fbPageSize

/-- What a copy of `left` bytes from position `pos` on has to come to, when `copied` bytes and
`calls` came before it in its chunk. -/
structure Moves (d : Device) (bitmap : Nat → Bool) (pos : Nat) (f : File)
    (gpuAddr copied left : Nat) (calls : List FbCopy) (r : Copied) : Prop where
  size : r.size = some (copied + min left ((dirtyBytes d bitmap).length - pos))
  done : r.isDone = true ↔ 0 < left ∧ (dirtyBytes d bitmap).length ≤ pos + left
  beyond : r.isDone = true → r.file = endMessage f
  goes : r.isDone = false → OnlyMsg f r.file ∧ At d bitmap (pos + left) r.file
  made : ∃ new, r.calls = calls ++ new ∧ moved new = ((dirtyBytes d bitmap).drop pos).take left ∧
    placed new =
      range' (gpuAddr + copied) (min left ((dirtyBytes d bitmap).length - pos)) ∧
    ∀ c ∈ new, c.toFb = f.isTarget

theorem getElem?_of_drop_eq_setFrom {bitmap : Nat → Bool} {bits i p : Nat}
    (h : (setFrom bitmap bits 0).drop i = setFrom bitmap bits p) (hp : p < bits)
    (hset : bitmap p = true) : (setFrom bitmap bits 0)[i]? = some p := by
  have hhead : ((setFrom bitmap bits 0).drop i)[0]? = some p := by
    rw [h, setFrom_step hp, hset, if_pos rfl]
    rfl
  rwa [getElem?_drop, Nat.add_zero] at hhead

section chunk

variable {fails : FbCopy → Bool} {gpuAddr pos left copied bitsCnt : Nat} {f : File}
  {calls : List FbCopy}

theorem roundSize_spec (hleft : left ≤ ringBufSize) (hpos : 0 < left)
    (hbitsCnt : bitsCnt = left / d.fbPageSize) {p sz rest : Nat} (hp : p < d.fbBitmapBits)
    (hset : f.msg.bitmap p = true) (h : roundSize d f bitsCnt left p = (sz, rest)) :
    ∃ k, Marked f.msg.bitmap d.fbBitmapBits p k ∧ 0 < k ∧
      (left < d.fbPageSize ∧ k = 1 ∧ sz = left ∨
        k * d.fbPageSize ≤ left ∧ sz = k * d.fbPageSize ∧ rest = (left - sz) / d.fbPageSize) := by
  have hpage := d.fbPageSize_pos
  have hsmall := d.fbPageSize_lt
  have hring : ringBufSize = 2 ^ 25 := rfl
  have hfirst : Marked f.msg.bitmap d.fbBitmapBits p 1 := by
    intro j hj
    rw [show j = 0 by omega]
    exact ⟨hp, hset⟩
  unfold roundSize at h
  generalize hmerge : mergeBits f.msg.bitmap d.fbBitmapBits d.pgShift left p (decBits bitsCnt) 1
    (p + 1) = merged at h
  obtain ⟨k, rest'⟩ := merged
  obtain ⟨hmarked, hone, hsum, hk⟩ := mergeBits_spec hleft hfirst (.inl rfl) hmerge
  have hword : k * d.fbPageSize < 2 ^ 32 := by
    rcases hk with rfl | hk <;> omega
  simp only [d.shiftLeft_eq, Nat.mod_eq_of_lt hword, Prod.mk.injEq] at h
  obtain ⟨hsz, rfl⟩ := h
  refine ⟨k, hmarked, hone, ?_⟩
  rcases Nat.lt_or_ge left d.fbPageSize with hlt | hge
  · left
    have hk1 : k = 1 := by
      rcases hk with hk | hk
      · exact hk
      · have : 1 * d.fbPageSize ≤ k * d.fbPageSize := Nat.mul_le_mul_right _ hone
        omega
    rw [hk1] at hsz
    exact ⟨hlt, hk1, by omega⟩
  · right
    -- the counter still says how many whole pages are left
    have hdiv : 0 < left / d.fbPageSize := Nat.div_pos hge hpage
    have hdec : decBits bitsCnt = left / d.fbPageSize - 1 := by
      rw [decBits, hbitsCnt, if_neg (by omega)]
    have hkle : k ≤ left / d.fbPageSize := by omega
    have hbytes : k * d.fbPageSize ≤ left := (Nat.le_div_iff_mul_le hpage).mp hkle
    rw [Nat.min_eq_right hbytes] at hsz
    refine ⟨hbytes, hsz.symm, ?_⟩
    rw [← hsz, Nat.mul_comm k, Nat.sub_mul_div]
    omega

theorem ChunkFits.advance {sz p m : Nat} (hmarked : Marked bitmap d.fbBitmapBits p m)
    (hfits : pos % d.fbPageSize + left ≤ m * d.fbPageSize) (hsz : sz ≤ left)
    (hstart : (setFrom bitmap d.fbBitmapBits 0).drop ((pos + sz) / d.fbPageSize) =
      setFrom bitmap d.fbBitmapBits (p + (pos % d.fbPageSize + sz) / d.fbPageSize)) :
    ChunkFits d bitmap (pos + sz) (left - sz) := by
  intro hoff _
  have hsplit := Nat.div_add_mod' (pos % d.fbPageSize + sz) d.fbPageSize
  have hmod : (pos + sz) % d.fbPageSize = (pos % d.fbPageSize + sz) % d.fbPageSize :=
    (Nat.mod_add_mod _ _ _).symm
  rw [hmod] at hoff ⊢
  generalize (pos % d.fbPageSize + sz) / d.fbPageSize = c at hstart hsplit
  have hc : c < m := by
    have : c * d.fbPageSize < m * d.fbPageSize := by omega
    exact Nat.lt_of_mul_lt_mul_right this
  have hcm : m * d.fbPageSize = c * d.fbPageSize + (m - c) * d.fbPageSize := by
    rw [← Nat.add_mul, Nat.add_sub_cancel' hc.le]
  refine ⟨p + c, m - c, ?_, hmarked.shift, by omega⟩
  exact getElem?_of_drop_eq_setFrom hstart (hmarked c hc).1 (hmarked c hc).2

theorem ChunkFits.run {p k sz : Nat} (h : ChunkFits d bitmap pos left)
    (hpos : pos < (dirtyBytes d bitmap).length)
    (hpage : (setFrom bitmap d.fbBitmapBits 0)[pos / d.fbPageSize]? = some p)
    (hmarked : Marked bitmap d.fbBitmapBits p k) (hsz : sz ≤ k * d.fbPageSize)
    (hleft : sz ≤ left) :
    ∃ m, Marked bitmap d.fbBitmapBits p m ∧ pos % d.fbPageSize + sz ≤ m * d.fbPageSize ∧
      (pos % d.fbPageSize ≠ 0 → pos % d.fbPageSize + left ≤ m * d.fbPageSize) := by
  by_cases hoff : pos % d.fbPageSize = 0
  · exact ⟨k, hmarked, by omega, fun hne => absurd hoff hne⟩
  · obtain ⟨p', m, hpage', hmarked', hfits⟩ := h hoff hpos
    rw [hpage, Option.some.injEq] at hpage'
    subst hpage'
    exact ⟨m, hmarked', by omega, fun _ => hfits⟩

theorem dirtyFbCopyLoop_moves {fuel : Nat} (hat : At d bitmap pos f)
    (hfits : ChunkFits d bitmap pos left) (hleft : left ≤ ringBufSize) (hfuel : left < fuel)
    (hbitsCnt : 0 < left → bitsCnt = left / d.fbPageSize)
    (hok : (dirtyFbCopyLoop d fails gpuAddr fuel f bitsCnt left copied calls).size ≠ none) :
    Moves d bitmap pos f gpuAddr copied left calls
      (dirtyFbCopyLoop d fails gpuAddr fuel f bitsCnt left copied calls) := by
  induction fuel generalizing f bitsCnt left copied calls pos with
  | zero => omega
  | succ fuel ih =>
    have hpage := d.fbPageSize_pos
    rw [dirtyFbCopyLoop] at hok ⊢
    by_cases hzero : left = 0
    · subst hzero
      rw [if_pos rfl]
      exact {
        size := by simp
        done := by simp
        beyond := fun h => Bool.noConfusion h
        goes := fun _ => ⟨.refl f, hat⟩
        made := ⟨[], by simp, by simp, by simp, by simp⟩ }
    · rw [if_neg hzero] at hok ⊢
      have hover := hat.over_iff
      by_cases hend : (dirtyBytes d bitmap).length ≤ pos
      · simp only [if_pos (hover.mpr hend)] at hok ⊢
        have hnone : (dirtyBytes d bitmap).length - pos = 0 := by omega
        exact {
          size := by simp [hnone]
          done := by
            simp only [true_iff]
            omega
          beyond := fun _ => rfl
          goes := fun h => Bool.noConfusion h
          made := ⟨[], by simp, by simp [drop_eq_nil_of_le hend], by simp [hnone], by simp⟩ }
      · simp only [if_neg (mt hover.mp hend)] at hok ⊢
        obtain ⟨p, hnext, hp, hlt, hset, hstart, hsame⟩ := hat.next (by omega)
        rw [hnext] at hok ⊢
        generalize hround : roundSize d f bitsCnt left p = round at hok ⊢
        obtain ⟨sz, rest⟩ := round
        obtain ⟨k, hmarkedF, hk, hsize⟩ := roundSize_spec hleft (by omega) (hbitsCnt (by omega)) hlt
          (by rw [hat.kept p hp]; exact hset) hround
        have hmarkedK : Marked bitmap d.fbBitmapBits p k :=
          hmarkedF.congr fun q hq => (hat.kept q (by omega)).symm
        have hkpage : d.fbPageSize ≤ k * d.fbPageSize := Nat.le_mul_of_pos_left _ hk
        simp only [d.shiftLeft_eq] at hok ⊢
        have hindex := getElem?_of_drop_eq_setFrom (hstart.trans hsame) hlt hset
        obtain ⟨m, hmarked, hin, hrun⟩ :=
          hfits.run (by omega) hindex hmarkedK (show sz ≤ k * d.fbPageSize by omega)
            (show sz ≤ left by omega)
        obtain ⟨hat', hdrop, hbytes⟩ := hat.advance (hstart.trans hsame) hp hmarked hin
        have hlength := congrArg length hbytes
        rw [length_drop, length_append, length_range', length_drop] at hlength
        rw [hat.off] at hok ⊢
        generalize hcall : (⟨p * d.fbPageSize + pos % d.fbPageSize, sz, gpuAddr + copied,
          f.isTarget⟩ : FbCopy) = call at hok ⊢
        have hmovedCall : moved [call] =
            range' (p * d.fbPageSize + pos % d.fbPageSize) sz := by
          rw [moved_singleton, ← hcall]
        have hplacedCall : placed [call] = range' (gpuAddr + copied) sz := by
          rw [placed_singleton, ← hcall]
        by_cases hfail : fails call = true
        · rw [if_pos hfail] at hok
          exact absurd rfl hok
        · rw [if_neg hfail] at hok ⊢
          have hover' := hat'.over_iff
          by_cases hend' : (dirtyBytes d bitmap).length ≤ pos + sz
          · rw [if_pos (hover'.mpr hend')] at hok ⊢
            have hmin : min left ((dirtyBytes d bitmap).length - pos) = sz := by omega
            exact {
              size := by rw [hmin]
              done := by
                simp only [true_iff]
                omega
              beyond := fun _ => (advance_onlyMsg f p sz).endMessage
              goes := fun h => Bool.noConfusion h
              made := by
                refine ⟨[call], rfl, ?_, ?_, ?_⟩
                · rw [hmovedCall, hbytes, drop_eq_nil_of_le hend', append_nil,
                    take_of_length_le (by rw [length_range']; omega)]
                · rw [hplacedCall, hmin]
                · intro c hc
                  rw [mem_singleton.mp hc, ← hcall] }
          · rw [if_neg (mt hover'.mp hend')] at hok ⊢
            have hfits' : ChunkFits d bitmap (pos + sz) (left - sz) := by
              by_cases hoff : pos % d.fbPageSize = 0
              · intro hoff' _
                rcases hsize with ⟨hshort, rfl, rfl⟩ | ⟨hle, hsz, _⟩
                · obtain ⟨p', _, _, hlt', hset', hstart', hsame'⟩ := hat'.next (by omega)
                  refine ⟨p', 1, getElem?_of_drop_eq_setFrom (hstart'.trans hsame') hlt' hset',
                    ?_, ?_⟩
                  · intro j hj
                    rw [show j = 0 by omega]
                    exact ⟨hlt', hset'⟩
                  · have := Nat.mod_lt (pos + sz) hpage
                    omega
                · refine absurd ?_ hoff'
                  rw [hsz, Nat.add_mul_mod_self_right, hoff]
              · exact ChunkFits.advance hmarked (hrun hoff) (by omega) hdrop
            have hrest : 0 < left - sz → rest = (left - sz) / d.fbPageSize := by
              intro hmore
              rcases hsize with ⟨hshort, _, hsz⟩ | ⟨_, _, hrest⟩
              · omega
              · exact hrest
            have hmoves := ih hat' hfits' (by omega) (by omega) hrest hok
            generalize dirtyFbCopyLoop d fails gpuAddr fuel (Mig.advance d f p sz) rest (left - sz)
              (copied + sz) (calls ++ [call]) = r at hmoves ⊢
            have hmin : sz + min (left - sz) ((dirtyBytes d bitmap).length - (pos + sz)) =
                min left ((dirtyBytes d bitmap).length - pos) := by omega
            obtain ⟨new, hcalls, hmoved, hplaced, hdir⟩ := hmoves.made
            exact {
              size := by rw [hmoves.size, Nat.add_assoc, hmin]
              done := by
                rw [hmoves.done]
                omega
              beyond := fun h => by
                rw [hmoves.beyond h]
                exact (advance_onlyMsg f p sz).endMessage
              goes := fun h => by
                obtain ⟨honly, hat''⟩ := hmoves.goes h
                rw [Nat.add_assoc, Nat.add_sub_cancel' (by omega)] at hat''
                exact ⟨(advance_onlyMsg f p sz).trans honly, hat''⟩
              made := by
                refine ⟨call :: new, ?_, ?_, ?_, ?_⟩
                · rw [hcalls, append_assoc, singleton_append]
                · have hwhole : (range' (p * d.fbPageSize + pos % d.fbPageSize) sz).take left =
                      range' (p * d.fbPageSize + pos % d.fbPageSize) sz :=
                    take_of_length_le (by rw [length_range']; omega)
                  rw [← singleton_append, moved_append, hmovedCall, hmoved, hbytes,
                    take_append, length_range', hwhole]
                · rw [← singleton_append, placed_append, hplacedCall, hplaced, ← hmin,
                    ← Nat.add_assoc, range'_append_1]
                · intro c hc
                  rcases mem_cons.mp hc with rfl | hc
                  · rw [← hcall]
                  · exact hdir c hc }

theorem dirtyFbCopyLoop_calls (d : Device) (fails : FbCopy → Bool) (gpuAddr fuel : Nat) (f : File)
    (bitsCnt left copied : Nat) (calls : List FbCopy) :
    ∃ new, (dirtyFbCopyLoop d fails gpuAddr fuel f bitsCnt left copied calls).calls =
      calls ++ new := by
  induction fuel generalizing f bitsCnt left copied calls with
  | zero => exact ⟨[], (append_nil _).symm⟩
  | succ fuel ih =>
    rw [dirtyFbCopyLoop]
    split
    · exact ⟨[], (append_nil _).symm⟩
    · simp only
      split
      · exact ⟨[], (append_nil _).symm⟩
      · split
        · exact ⟨_, rfl⟩
        · split
          · exact ⟨_, rfl⟩
          · obtain ⟨new, hnew⟩ := ih _ _ _ _ _
            rw [hnew, append_assoc]
            exact ⟨_, rfl⟩

theorem dirtyFbCopyLoop_file (d : Device) (fails : FbCopy → Bool) (gpuAddr fuel : Nat) (f : File)
    (bitsCnt left copied : Nat) (calls : List FbCopy) :
    OnlyMsg f (dirtyFbCopyLoop d fails gpuAddr fuel f bitsCnt left copied calls).file ∨
      (dirtyFbCopyLoop d fails gpuAddr fuel f bitsCnt left copied calls).file = endMessage f := by
  induction fuel generalizing f bitsCnt left copied calls with
  | zero => exact .inl (.refl f)
  | succ fuel ih =>
    rw [dirtyFbCopyLoop]
    split
    · exact .inl (.refl f)
    · simp only
      split
      · exact .inr rfl
      · have honly := advance_onlyMsg (d := d) f
          (findNextBit f.msg.bitmap d.fbBitmapBits f.msg.bitPos)
          (roundSize d f bitsCnt left (findNextBit f.msg.bitmap d.fbBitmapBits f.msg.bitPos)).1
        split
        · exact .inl (.refl f)
        · split
          · exact .inr honly.endMessage
          · rcases ih (advance d f (findNextBit f.msg.bitmap d.fbBitmapBits f.msg.bitPos)
                (roundSize d f bitsCnt left
                  (findNextBit f.msg.bitmap d.fbBitmapBits f.msg.bitPos)).1) _ _ _ _ with
              hsame | hend
            · exact .inl (honly.trans hsame)
            · exact .inr (hend.trans honly.endMessage)

theorem lt_of_getElem? {p : Nat}
    (h : (setFrom bitmap d.fbBitmapBits 0)[pos / d.fbPageSize]? = some p) :
    pos < (dirtyBytes d bitmap).length := by
  have hlt := (List.getElem?_eq_some_iff.mp h).1
  rw [dirtyBytes_length]
  exact (Nat.div_lt_iff_lt_mul d.fbPageSize_pos).mp hlt

theorem dirtyFbCopyLoop_strays {fuel p m : Nat} (hat : At d bitmap pos f)
    (hpage : (setFrom bitmap d.fbBitmapBits 0)[pos / d.fbPageSize]? = some p)
    (hmarked : Marked bitmap d.fbBitmapBits p m)
    (hend : ¬ (p + m < d.fbBitmapBits ∧ bitmap (p + m) = true))
    (hoff : pos % d.fbPageSize ≠ 0) (hlong : m * d.fbPageSize < pos % d.fbPageSize + left)
    (hleft : left ≤ ringBufSize) (hfuel : left < fuel)
    (hbitsCnt : bitsCnt = left / d.fbPageSize)
    (hok : (dirtyFbCopyLoop d fails gpuAddr fuel f bitsCnt left copied calls).size ≠ none) :
    (p + m) * d.fbPageSize ∈
      moved (dirtyFbCopyLoop d fails gpuAddr fuel f bitsCnt left copied calls).calls := by
  induction fuel generalizing f bitsCnt left copied calls pos p m with
  | zero => omega
  | succ fuel ih =>
    have hsize := d.fbPageSize_pos
    have hmod := Nat.mod_lt pos hsize
    have hpos := lt_of_getElem? hpage
    obtain ⟨p', hnext, hp, hlt, hset, hstart, hsame⟩ := hat.next hpos
    have hpp : p' = p := by
      have hindex := getElem?_of_drop_eq_setFrom (hstart.trans hsame) hlt hset
      rw [hpage, Option.some.injEq] at hindex
      exact hindex.symm
    subst hpp
    have hm : 0 < m := by
      rcases Nat.eq_zero_or_pos m with rfl | hm
      · exact absurd ⟨hlt, hset⟩ hend
      · exact hm
    have hmpage : d.fbPageSize ≤ m * d.fbPageSize := Nat.le_mul_of_pos_left _ hm
    rw [dirtyFbCopyLoop] at hok ⊢
    rw [if_neg (by omega)] at hok ⊢
    simp only [if_neg (mt hat.over_iff.mp (by omega))] at hok ⊢
    rw [hnext] at hok ⊢
    generalize hround : roundSize d f bitsCnt left p' = round at hok ⊢
    obtain ⟨sz, rest⟩ := round
    obtain ⟨k, hmarkedF, hk, hsizes⟩ := roundSize_spec hleft (by omega) hbitsCnt hlt
      (by rw [hat.kept p' hp]; exact hset) hround
    have hkm : k ≤ m := by
      rcases Nat.lt_or_ge m k with hmk | hkm
      · have hbit := hmarkedF m hmk
        rw [hat.kept _ (by omega)] at hbit
        exact absurd hbit hend
      · exact hkm
    simp only [d.shiftLeft_eq] at hok ⊢
    rw [hat.off] at hok ⊢
    generalize hcall : (⟨p' * d.fbPageSize + pos % d.fbPageSize, sz, gpuAddr + copied,
      f.isTarget⟩ : FbCopy) = call at hok ⊢
    -- whatever comes after this call, its bytes stay moved
    have hstays : ∀ r : Copied, (∃ new, r.calls = calls ++ [call] ++ new) →
        p' * d.fbPageSize + pos % d.fbPageSize ≤ (p' + m) * d.fbPageSize →
        (p' + m) * d.fbPageSize < p' * d.fbPageSize + pos % d.fbPageSize + sz →
        (p' + m) * d.fbPageSize ∈ moved r.calls := by
      intro r hr hlo hhi
      obtain ⟨new, hnew⟩ := hr
      rw [hnew, moved_append, moved_append, moved_singleton, ← hcall]
      apply mem_append_left
      apply mem_append_right
      rw [mem_range'_1]
      exact ⟨hlo, hhi⟩
    have hadd : (p' + m) * d.fbPageSize = p' * d.fbPageSize + m * d.fbPageSize := Nat.add_mul ..
    by_cases hfail : fails call = true
    · rw [if_pos hfail] at hok
      exact absurd rfl hok
    rw [if_neg hfail] at hok ⊢
    by_cases hcover : (p' + m) * d.fbPageSize < p' * d.fbPageSize + pos % d.fbPageSize + sz
    · split
      · exact hstays _ ⟨[], (append_nil _).symm⟩ (by omega) hcover
      · exact hstays _ (dirtyFbCopyLoop_calls ..) (by omega) hcover
    · rcases hsizes with ⟨hshort, _, hsz⟩ | ⟨hle, hsz, hrest⟩
      · -- less than a page is left, so that the run ends with this page
        omega
      · have hkpage : d.fbPageSize ≤ k * d.fbPageSize := Nat.le_mul_of_pos_left _ hk
        have hlt' : k < m := by
          rcases Nat.eq_or_lt_of_le hkm with rfl | hlt'
          · omega
          · exact hlt'
        have hsum : m * d.fbPageSize = k * d.fbPageSize + (m - k) * d.fbPageSize := by
          rw [← Nat.add_mul, Nat.add_sub_cancel' hkm]
        obtain ⟨hat', hdrop, _⟩ :=
          hat.advance (hstart.trans hsame) hp hmarked
            (show pos % d.fbPageSize + sz ≤ m * d.fbPageSize by omega)
        have hpages : (pos % d.fbPageSize + sz) / d.fbPageSize = k := by
          rw [hsz, Nat.add_mul_div_right _ _ hsize, Nat.div_eq_of_lt hmod, Nat.zero_add]
        have hoff' : (pos + sz) % d.fbPageSize = pos % d.fbPageSize := by
          rw [hsz, Nat.add_mul_mod_self_right]
        rw [hpages] at hdrop
        have hpage' := getElem?_of_drop_eq_setFrom hdrop (hmarked k hlt').1 (hmarked k hlt').2
        rw [if_neg (mt hat'.over_iff.mp (by have := lt_of_getElem? hpage'; omega))] at hok ⊢
        have hmem := ih hat' hpage' hmarked.shift
          (by rwa [show p' + k + (m - k) = p' + m by omega])
          (by rwa [hoff']) (by rw [hoff']; omega) (by omega) (by omega) hrest hok
        rwa [show p' + k + (m - k) = p' + m by omega] at hmem

end chunk

end MxGpu.Mig
