import MxGpu.DirtyAcc

/- Runs of dirty-bit queries of one function (`amdgv_dirtybit.c`): the planes are cleared as they are
read, and the accumulated bits have to keep what no caller has received. -/
namespace MxGpu.Dirtybit

open Function

open Transition (Run)

variable {page : DirtyPage} {vf : VfFb}

/-- A function with its planes. A page is owed when a query has cleared it from the planes and no
caller that asked for that has received it. -/
structure AccSys where
  acc : Nat → UInt8
  plane : Nat → Bool
  owed : Nat → Bool
  isFirstQuery : Bool

def vfPages (page : DirtyPage) (vf : VfFb) : Nat := mbytesToBytes vf.fbSize / page.size

/-- The pages that the hardware looks at: `nr_pages` from the page of the offset on. -/
def InWindow (page : DirtyPage) (q : DirtyQuery) (p : Nat) : Prop :=
  q.queryFbOffset / page.size ≤ p ∧
    p < q.queryFbOffset / page.size + max 1 (divRoundUp q.querySize page.size)

instance (page : DirtyPage) (q : DirtyQuery) (p : Nat) : Decidable (InWindow page q p) :=
  inferInstanceAs (Decidable (_ ∧ _))

def InsideVf (vf : VfFb) (q : DirtyQuery) : Prop :=
  0 < q.querySize ∧ q.queryFbOffset + q.querySize ≤ mbytesToBytes vf.fbSize

/-- The bitmap has the pages of the window that are dirty in the planes, and what was in the buffer
of the caller before. -/
def Reports (page : DirtyPage) (q : DirtyQuery) (plane : Nat → Bool) (bitmap : Nat → UInt8) :
    Prop :=
  ∀ p, InWindow page q p → plane p = true →
    bitAt bitmap (p - q.queryFbOffset / page.size) = true

def cleared (page : DirtyPage) (q : DirtyQuery) (p : Nat) : Bool :=
  !q.dbitPreserve && decide (InWindow page q p)

def returnedBitmap (page : DirtyPage) (vf : VfFb) (s : AccSys) (q : DirtyQuery)
    (bitmap : Nat → UInt8) : Nat → UInt8 :=
  let bits := assignAccBits page vf
  if s.isFirstQuery then mergeToBitmap page bits q (mergeToAcc page bits q bitmap s.acc) bitmap
  else bitmap

def received (page : DirtyPage) (q : DirtyQuery) (bitmap : Nat → UInt8) (p : Nat) : Bool :=
  cleared page q p && bitAt bitmap (p - q.queryFbOffset / page.size)

/-- The query of the whole function that `amdgv_dirtybit_query_vf_fb_dbit` makes. -/
def wholeQuery (vf : VfFb) : DirtyQuery where
  queryFbOffset := 0
  querySize := mbytesToBytes vf.fbSize
  dbitPlaneDataSize := 0
  dbitPreserve := false

inductive AccEvent
  /-- the guest writes to a page -/
  | write (p : Nat)
  /-- a query for a caller comes back -/
  | query (q : DirtyQuery) (bitmap : Nat → UInt8)
  /-- a query for a caller fails, with pages that are gone from the planes -/
  | queryFails (q : DirtyQuery) (lost : Nat → Bool)
  /-- `amdgv_dirtybit_query_vf_fb_dbit`, before a reset of the function -/
  | flr (bitmap : Nat → UInt8)
  | flrFails (lost : Nat → Bool)
  /-- `amdgv_dirtybit_clear_fb_dbit`: the caller asks to forget, well or not -/
  | clear (lost : Nat → Bool)
  /-- a migration begins -/
  | firstQuery

/-- A failure of a query takes pages of its window out of the planes, or none if it was to preserve
them. -/
def LosesOf (page : DirtyPage) (q : DirtyQuery) (plane lost : Nat → Bool) : Prop :=
  ∀ p, lost p = true → plane p = true ∧ cleared page q p = true

def accStep (page : DirtyPage) (vf : VfFb) (s : AccSys) (e : AccEvent) (s' : AccSys) : Prop :=
  let bits := assignAccBits page vf
  match e with
  | .write p => p < vfPages page vf ∧ s' = { s with plane := update s.plane p true }
  | .query q bitmap =>
    InsideVf vf q ∧ Reports page q s.plane bitmap ∧
      s' = {
        acc := mergeToAcc page bits q bitmap s.acc
        plane := fun p => s.plane p && !cleared page q p
        owed := fun p => (s.owed p || s.plane p && cleared page q p) &&
          !received page q (returnedBitmap page vf s q bitmap) p
        isFirstQuery := false }
  | .queryFails q lost =>
    InsideVf vf q ∧ LosesOf page q s.plane lost ∧
      s' = { s with
        acc := setVfAccBits bits 0xff s.acc
        plane := fun p => s.plane p && !lost p
        owed := fun p => s.owed p || lost p }
  | .flr bitmap =>
    Reports page (wholeQuery vf) s.plane bitmap ∧
      s' = { s with
        acc := mergeToAcc page bits (wholeQuery vf) bitmap s.acc
        plane := fun p => s.plane p && !cleared page (wholeQuery vf) p
        owed := fun p => s.owed p || s.plane p && cleared page (wholeQuery vf) p }
  | .flrFails lost =>
    LosesOf page (wholeQuery vf) s.plane lost ∧
      s' = { s with
        acc := setVfAccBits bits 0xff s.acc
        plane := fun p => s.plane p && !lost p
        owed := fun p => s.owed p || lost p }
  | .clear lost =>
    LosesOf page (wholeQuery vf) s.plane lost ∧
      s' = { s with
        acc := setVfAccBits bits 0 s.acc
        plane := fun p => s.plane p && !lost p
        owed := fun _ => false }
  | .firstQuery => s' = { s with isFirstQuery := true }

def Survives (page : DirtyPage) (vf : VfFb) (s : AccSys) : Prop :=
  ∀ p, s.owed p = true → bitAt s.acc (8 * (assignAccBits page vf).ptr + p) = true

/-- The pages that have a bit in the slice: all but the last ones of a frame buffer that is not a
multiple of 8 pages. -/
def HasBit (page : DirtyPage) (vf : VfFb) (p : Nat) : Prop := p < 8 * (assignAccBits page vf).size

/-- Where a query takes pages out of the planes and no caller gets them, they have a bit. -/
def Kept (page : DirtyPage) (vf : VfFb) (s : AccSys) : AccEvent → Prop
  | .queryFails _ lost | .flrFails lost => ∀ p, lost p = true → HasBit page vf p
  | .flr _ =>
    ∀ p, s.plane p = true → cleared page (wholeQuery vf) p = true → HasBit page vf p
  | _ => True

def AccStart (s : AccSys) : Prop := ∀ p, s.owed p = false

def KeptRun (page : DirtyPage) (vf : VfFb) : AccSys → Prop :=
  Run AccStart (accStep page vf) (Kept page vf)

/-! ### Bits of the slice -/

theorem mergeToAcc_keeps {bits : AccBits} {q : DirtyQuery} {bitmap acc : Nat → UInt8} {i : Nat}
    (h : bitAt acc i = true) : bitAt (mergeToAcc page bits q bitmap acc) i = true := by
  unfold bitAt at h ⊢
  rw [mergeToAcc_apply]
  split
  · rw [UInt8.toNat_or, Nat.testBit_or, h, Bool.true_or]
  · exact h

theorem mergeToAcc_whole {bitmap acc : Nat → UInt8} {p : Nat} (hbit : HasBit page vf p)
    (h : bitAt bitmap p = true) :
    bitAt (mergeToAcc page (assignAccBits page vf) (wholeQuery vf) bitmap acc)
      (8 * (assignAccBits page vf).ptr + p) = true := by
  have hzero : fbSizeToByteSize (wholeQuery vf).queryFbOffset page.size = 0 := by
    unfold fbSizeToByteSize wholeQuery
    simp
  unfold HasBit at hbit
  have hbyte : (8 * (assignAccBits page vf).ptr + p) / 8 = (assignAccBits page vf).ptr + p / 8 := by
    omega
  have hrest : (8 * (assignAccBits page vf).ptr + p) % 8 = p % 8 := by omega
  have hin : p / 8 < fbSizeToByteSize (wholeQuery vf).querySize page.size := by
    show p / 8 < (assignAccBits page vf).size
    omega
  unfold bitAt at h ⊢
  rw [mergeToAcc_apply, hzero, hbyte, hrest, if_pos (by omega), Nat.add_zero,
    Nat.add_sub_cancel_left, UInt8.toNat_or, Nat.testBit_or, h, Bool.or_true]

theorem setVfAccBits_ones {bits : AccBits} {acc : Nat → UInt8} {p : Nat} (h : p < 8 * bits.size) :
    bitAt (setVfAccBits bits 0xff acc) (8 * bits.ptr + p) = true := by
  unfold bitAt setVfAccBits
  rw [if_pos (by omega)]
  have hones : ∀ k, k < 8 → (255 : UInt8).toNat.testBit k = true := by decide
  exact hones _ (Nat.mod_lt _ (by decide))

theorem setVfAccBits_keeps {bits : AccBits} {acc : Nat → UInt8} {i : Nat}
    (h : bitAt acc i = true) : bitAt (setVfAccBits bits 0xff acc) i = true := by
  unfold bitAt at h ⊢
  unfold setVfAccBits
  split
  · have hones : ∀ k, k < 8 → (255 : UInt8).toNat.testBit k = true := by decide
    exact hones _ (Nat.mod_lt _ (by decide))
  · exact h

theorem returnedBitmap_keeps {s : AccSys} {q : DirtyQuery} {bitmap : Nat → UInt8} {i : Nat}
    (h : bitAt bitmap i = true) : bitAt (returnedBitmap page vf s q bitmap) i = true := by
  unfold returnedBitmap
  simp only
  split
  · unfold mergeToBitmap bitAt at *
    rw [mergeBytes_apply]
    split
    · rw [UInt8.toNat_or, Nat.testBit_or, h, Bool.true_or]
    · exact h
  · exact h

theorem inWindow_of_cleared {q : DirtyQuery} {p : Nat} (h : cleared page q p = true) :
    InWindow page q p := by
  unfold cleared at h
  simp only [Bool.and_eq_true, decide_eq_true_eq] at h
  exact h.2

theorem received_of_reports {s : AccSys} {q : DirtyQuery} {bitmap : Nat → UInt8} {p : Nat}
    (hreports : Reports page q s.plane bitmap) (hplane : s.plane p = true)
    (hcleared : cleared page q p = true) :
    received page q (returnedBitmap page vf s q bitmap) p = true := by
  unfold received
  rw [hcleared, Bool.true_and]
  apply returnedBitmap_keeps
  exact hreports p (inWindow_of_cleared hcleared) hplane

theorem Survives.step {s s' : AccSys} (h : Survives page vf s) (e : AccEvent)
    (hkept : Kept page vf s e) (hstep : accStep page vf s e s') : Survives page vf s' := by
  intro p howed
  cases e with
  | write p' =>
    obtain ⟨_, rfl⟩ := hstep
    exact h p howed
  | query q bitmap =>
    obtain ⟨_, hreports, rfl⟩ := hstep
    simp only [Bool.and_eq_true, Bool.or_eq_true, Bool.not_eq_true'] at howed
    obtain ⟨howed | ⟨hplane, hcleared⟩, hmissing⟩ := howed
    · exact mergeToAcc_keeps (h p howed)
    · rw [received_of_reports hreports hplane hcleared] at hmissing
      exact absurd hmissing.symm Bool.false_ne_true
  | queryFails q lost =>
    obtain ⟨_, _, rfl⟩ := hstep
    simp only [Bool.or_eq_true] at howed
    rcases howed with howed | hlost
    · exact setVfAccBits_keeps (h p howed)
    · exact setVfAccBits_ones (hkept p hlost)
  | flr bitmap =>
    obtain ⟨hreports, rfl⟩ := hstep
    simp only [Bool.or_eq_true, Bool.and_eq_true] at howed
    rcases howed with howed | ⟨hplane, hcleared⟩
    · exact mergeToAcc_keeps (h p howed)
    · apply mergeToAcc_whole (hkept p hplane hcleared)
      have hbit := hreports p (inWindow_of_cleared hcleared) hplane
      simpa [wholeQuery] using hbit
  | flrFails lost =>
    obtain ⟨_, rfl⟩ := hstep
    simp only [Bool.or_eq_true] at howed
    rcases howed with howed | hlost
    · exact setVfAccBits_keeps (h p howed)
    · exact setVfAccBits_ones (hkept p hlost)
  | clear lost =>
    obtain ⟨_, rfl⟩ := hstep
    exact absurd howed Bool.false_ne_true
  | firstQuery =>
    obtain rfl := hstep
    exact h p howed

/-- In every run in which the pages that a reset query or a failing query takes out of the planes
have a bit in the slice, what is owed is in the accumulated bits. -/
theorem dirtyPages_survive (page : DirtyPage) (vf : VfFb) (s : AccSys) (hrun : KeptRun page vf s) :
    Survives page vf s := by
  apply hrun.invariant (Survives page vf)
  · intro s hstart p howed
    rw [hstart p] at howed
    exact absurd howed Bool.false_ne_true
  · intro before e after hinv hkept hstep
    exact hinv.step e hkept hstep

def cleanAcc : AccSys := ⟨fun _ => 0, fun _ => false, fun _ => false, false⟩

def thirdPage (j : Nat) : UInt8 := if j = 0 then 8 else 0

theorem eightPages_window {q : DirtyQuery} (hoffset : q.queryFbOffset = 0)
    (hsize : q.querySize = 2 ^ 25) {p : Nat} (h : InWindow .mb4 q p) : p < 8 := by
  have hlt := h.2
  rw [hoffset, hsize] at hlt
  have hpages : 0 / DirtyPage.mb4.size + max 1 (divRoundUp (2 ^ 25) DirtyPage.mb4.size) = 8 := by
    decide
  omega

/-- Page 3 of a function of 8 pages is dirty when it is reset; its next migration gets the page. -/
theorem dirtyPages_survive_reset : ∃ s s', KeptRun .mb4 ⟨0, 32⟩ s ∧ KeptRun .mb4 ⟨0, 32⟩ s' ∧
    Survives .mb4 ⟨0, 32⟩ s ∧ Survives .mb4 ⟨0, 32⟩ s' ∧ s.owed 3 = true ∧ s'.owed 3 = false := by
  have h0 : KeptRun .mb4 ⟨0, 32⟩ cleanAcc := .start fun _ => rfl
  have h1 : KeptRun .mb4 ⟨0, 32⟩ { cleanAcc with plane := update (fun _ => false) 3 true } :=
    .next (.write 3) h0 trivial ⟨by decide, rfl⟩
  have hplane : ∀ p, p < 8 →
      bitAt thirdPage p = update (fun _ : Nat => false) 3 true p := by decide
  have h2 : KeptRun .mb4 ⟨0, 32⟩ _ := .next (.flr thirdPage) h1
    (fun p _ hcleared => eightPages_window rfl rfl (inWindow_of_cleared hcleared))
    ⟨fun p hp => (hplane p (eightPages_window rfl rfl hp)).trans, rfl⟩
  have h3 : KeptRun .mb4 ⟨0, 32⟩ _ := .next .firstQuery h2 trivial rfl
  have h4 : KeptRun .mb4 ⟨0, 32⟩ _ := .next (.query ⟨0, 2 ^ 25, 4096, false⟩ fun _ => 0) h3 trivial
    ⟨⟨by decide, by decide⟩, fun p hp => by
      have hnone : ∀ p, p < 8 → bitAt (fun _ => 0) (p - 0) =
          (update (fun _ : Nat => false) 3 true p &&
            !cleared .mb4 (wholeQuery ⟨0, 32⟩) p) := by decide +kernel
      exact (hnone p (eightPages_window rfl rfl hp)).trans, rfl⟩
  exact ⟨_, _, h2, h4, dirtyPages_survive _ _ _ h2, dirtyPages_survive _ _ _ h4,
    by decide +kernel, by decide +kernel⟩

def AccRun (page : DirtyPage) (vf : VfFb) : AccSys → Prop :=
  Run AccStart (accStep page vf) Transition.always

/-- A function of 16 MiB has 4 pages of 4 MiB, and no byte in the accumulated bits: the page that
was dirty at its reset is in no bitmap any more. -/
theorem reset_drops_pages : ¬ ∀ (page : DirtyPage) (vf : VfFb) (s : AccSys), AccRun page vf s →
    Survives page vf s := by
  intro h
  have h0 : AccRun .mb4 ⟨0, 16⟩ cleanAcc := .start fun _ => rfl
  have h1 : AccRun .mb4 ⟨0, 16⟩ { cleanAcc with plane := update (fun _ => false) 3 true } :=
    .next (.write 3) h0 trivial ⟨by decide, rfl⟩
  have h2 : AccRun .mb4 ⟨0, 16⟩ _ := .next (.flr thirdPage) h1 trivial
    ⟨fun p hp => by
      have hlt : p < 4 := by
        have hpages : 0 / DirtyPage.mb4.size +
            max 1 (divRoundUp (mbytesToBytes 16) DirtyPage.mb4.size) = 4 := by decide
        have := hp.2
        simp only [wholeQuery] at this
        omega
      have hplane : ∀ p, p < 4 →
          bitAt thirdPage p = update (fun _ : Nat => false) 3 true p := by decide
      exact (hplane p hlt).trans, rfl⟩
  have hbit := h _ _ _ h2 3 (by decide +kernel)
  revert hbit
  decide +kernel

end MxGpu.Dirtybit
