import MxGpu.MigMessage
import MxGpu.Transition

/- The way of a dirty page on the source (`gim_mig.c`): reported once, kept in the shadow, taken
into a message. The entry points that refill the shadow and the copy thread that empties it run in
any order, statement by statement where they meet. -/
namespace MxGpu.Mig

open Transition (Run)

variable {d : Device} {f g : File}

/-- Where `gim_mig_update_msg_copy_info` is: outside, before its query, and after it with
`shadow_dirty_fb_len`. -/
inductive CallerPc
  | idle
  | marked
  | queried (len : Nat)

/-- Where `gim_mig_vf_data_export` is: outside, past the sections of the adapter, past the test of
the bitmap's bit, past the copy of the shadow, and before its last lines. -/
inductive ExporterPc
  | idle
  | check
  | take
  | taken
  | finish
  deriving DecidableEq

/-- The file, both sides at work on it, the pages that were reported and are in no message since,
and the messages: the length in the header and the bitmap. -/
structure DirtySys where
  file : File
  caller : CallerPc
  exporter : ExporterPc
  owed : Nat → Bool
  messages : List (Nat × (Nat → Bool))

inductive DirtyEvent
  | markSections (isDyna : Bool)
  | query (q : Query)
  | markBitmap
  | stateSize (q : Query)
  | exportSections (calls : ExportCalls)
  | exportCheck
  | exportTake
  | exportBitmap
  | exportFinish
  /-- the rest of the driver, and the copy thread on a message that it has exported -/
  | other (g : File)

def inFb (d : Device) (pages : Nat → Bool) (p : Nat) : Bool :=
  decide (p < d.fbBitmapBits) && pages p

/-- `g`, with the shadow of `f`. -/
def File.keepShadow (f g : File) : File :=
  { g with
    shadowBitmap := f.shadowBitmap
    shadowFbLen := f.shadowFbLen
    nextCopyMask := f.nextCopyMask }

def DirtySys.sends (s : DirtySys) (f : File) : DirtySys :=
  { s with
    file := f
    exporter := .idle
    owed := fun p => s.owed p && !f.msg.bitmap p
    messages := s.messages ++ [(f.hdr.length, f.msg.bitmap)] }

/-- One step of the caller, of the exporter or of anything else; `none` where it is not there. -/
def dirtyStep (d : Device) (s : DirtySys) : DirtyEvent → Option DirtySys
  | .markSections isDyna =>
    match s.caller with
    | .idle => some { s with file := markSections s.file isDyna, caller := .marked }
    | _ => none
  | .query q =>
    match s.caller with
    | .marked =>
      let (_, f, len) := updateShadowDirtybit d s.file q
      match q with
      | .reported pages =>
        some { s with
          file := f
          caller := .queried len
          owed := fun p => s.owed p || inFb d pages p }
      | .failed _ => some { s with file := { f with nextCopyMask := .zero }, caller := .idle }
    | _ => none
  | .markBitmap =>
    match s.caller with
    | .queried len => some { s with file := markBitmap s.file len, caller := .idle }
    | _ => none
  | .stateSize q =>
    match s.caller with
    | .idle =>
      let (_, f, _) := updateShadowDirtybit d s.file q
      match q with
      | .reported pages => some { s with file := f, owed := fun p => s.owed p || inFb d pages p }
      | .failed _ => some { s with file := f }
    | _ => none
  | .exportSections calls =>
    match s.exporter with
    | .idle =>
      if s.file.nextCopyMask.isZero then some (s.sends s.file)
      else
        let (ret, f) := exportSections d s.file calls
        some { s with file := f, exporter := if ret = 0 then .check else .idle }
    | _ => none
  | .exportCheck =>
    match s.exporter with
    | .check =>
      some { s with exporter := if s.file.nextCopyMask .vfFbBitmap then .take else .finish }
    | _ => none
  | .exportTake =>
    match s.exporter with
    | .take => some { s with file := exportTake s.file, exporter := .taken }
    | _ => none
  | .exportBitmap =>
    match s.exporter with
    | .taken => some { s with file := exportBitmap d s.file, exporter := .finish }
    | _ => none
  | .exportFinish =>
    match s.exporter with
    | .finish => some (s.sends (exportFinish d s.file))
    | _ => none
  | .other g =>
    some { s with
      file := s.file.keepShadow (if s.exporter = .idle then g else { g with msg := s.file.msg }) }

def DirtyStart (s : DirtySys) : Prop :=
  s.file.shadowBitmap = (fun _ => false) ∧ s.file.shadowFbLen = 0 ∧ s.caller = .idle ∧
    s.exporter = .idle ∧ s.owed = (fun _ => false) ∧ s.messages = []

/-- A query that succeeds reports again what the shadow holds, and one that fails leaves it. -/
def KeepsShadow (d : Device) (f : File) : Query → Prop
  | .reported pages => ∀ p, p < d.fbBitmapBits → f.shadowBitmap p = true → pages p = true
  | .failed buffer => ∀ p, p < d.fbBitmapBits → buffer p = f.shadowBitmap p

/-- The steps under which no page is lost: a query does not drop what the shadow holds, and one of
a precopy-info call, which forgets the mask where it fails, does so with an empty shadow; one for
the state size reports something only while the bitmap's bit is set and will be seen; an export
starts with an empty message and something to export; and it clears the bitmap's bit while the
shadow is empty, or while a caller is about to set it again. -/
def Careful (d : Device) (s : DirtySys) : DirtyEvent → Prop
  | .query q =>
    KeepsShadow d s.file q ∧
      ∀ buffer, q = .failed buffer → ∀ p, p < d.fbBitmapBits → s.file.shadowBitmap p = false
  | .stateSize q =>
    KeepsShadow d s.file q ∧
      ∀ pages, q = .reported pages → (∃ p, p < d.fbBitmapBits ∧ pages p = true) →
        s.file.nextCopyMask .vfFbBitmap = true ∧ s.exporter ≠ .taken
  | .exportSections _ =>
    s.file.nextCopyMask.isZero = false ∧ s.file.hdr.length = 0 ∧
      ∀ p, p < d.fbBitmapBits → s.file.msg.bitmap p = false
  | .exportBitmap =>
    (∀ p, p < d.fbBitmapBits → s.file.shadowBitmap p = false) ∨
      ∃ len, s.caller = .queried len ∧ 0 < len
  | _ => True

def CarefulRun (d : Device) : DirtySys → Prop :=
  Run DirtyStart (fun s e s' => dirtyStep d s e = some s') (Careful d)

/-- The bitmap's bit is set, or a caller is about to set it. -/
def DirtySys.Marked (s : DirtySys) : Prop :=
  s.file.nextCopyMask .vfFbBitmap = true ∨ ∃ len, s.caller = .queried len ∧ 0 < len

/-- The exporter has taken the shadow and has not sent the message yet. -/
def ExporterPc.Holds (e : ExporterPc) : Prop := e = .taken ∨ e = .finish

/-- Every page that is owed waits for a message, and every header tells the length of its own. -/
def NoneLost (d : Device) (s : DirtySys) : Prop :=
  (∀ p, s.owed p = true →
    s.file.shadowBitmap p = true ∧ s.Marked ∨ s.exporter.Holds ∧ s.file.msg.bitmap p = true) ∧
  (∀ m ∈ s.messages, m.1 = d.msgSize + getFbDirtySize m.2 d.fbBitmapBits d.fbPageSize) ∧
  (s.caller = .idle → s.exporter = .idle → ∀ calls, (vfDataExport d s.file calls).1 = 0 →
    ∀ p, s.owed p = true → (vfDataExport d s.file calls).2.msg.bitmap p = true)

/-! ### The steps of the model and the functions -/

theorem exportSection_shadow (f : File) {c : Content} (length offset : Nat) (fails : Bool)
    (hc : c ≠ .vfFbBitmap) :
    (exportSection f c length offset fails).2.shadowBitmap = f.shadowBitmap ∧
      (exportSection f c length offset fails).2.shadowFbLen = f.shadowFbLen ∧
      (exportSection f c length offset fails).2.nextCopyMask .vfFbBitmap =
        f.nextCopyMask .vfFbBitmap ∧
      (exportSection f c length offset fails).2.hdr.length = f.hdr.length := by
  unfold exportSection
  split
  · simp only
    split
    · exact ⟨rfl, rfl, rfl, rfl⟩
    · exact ⟨rfl, rfl, CopyMask.clear_of_ne _ hc.symm, rfl⟩
  · exact ⟨rfl, rfl, rfl, rfl⟩

theorem exportSections_shadow (d : Device) (f : File) (calls : ExportCalls) :
    (exportSections d f calls).2.shadowBitmap = f.shadowBitmap ∧
      (exportSections d f calls).2.shadowFbLen = f.shadowFbLen ∧
      (exportSections d f calls).2.nextCopyMask .vfFbBitmap = f.nextCopyMask .vfFbBitmap ∧
      (exportSections d f calls).2.hdr.length = f.hdr.length ∧
      (exportSections d f calls).2.msg.bitmap = f.msg.bitmap := by
  apply exportSections_induct (fun g => g.shadowBitmap = f.shadowBitmap ∧
    g.shadowFbLen = f.shadowFbLen ∧
    g.nextCopyMask .vfFbBitmap = f.nextCopyMask .vfFbBitmap ∧
    g.hdr.length = f.hdr.length ∧ g.msg.bitmap = f.msg.bitmap)
  · exact ⟨rfl, rfl, rfl, rfl, rfl⟩
  · intro g c length offset fails hc hg
    obtain ⟨hbitmap, hlen, hbit, hheader⟩ := exportSection_shadow g length offset fails hc
    exact ⟨hbitmap.trans hg.1, hlen.trans hg.2.1, hbit.trans hg.2.2.1, hheader.trans hg.2.2.2.1,
      (exportSection_bitmap g c length offset fails).trans hg.2.2.2.2⟩

/-! ### No page is lost -/

theorem bitmapWeight_eq_zero {bitmap : Nat → Bool} {bits : Nat} :
    bitmapWeight bitmap bits = 0 ↔ ∀ p, p < bits → bitmap p = false := by
  unfold bitmapWeight
  rw [List.countP_eq_zero]
  simp only [List.mem_range, Bool.not_eq_true]

theorem getFbDirtySize_empty {bitmap : Nat → Bool} {bits : Nat} (page : Nat)
    (h : ∀ p, p < bits → bitmap p = false) : getFbDirtySize bitmap bits page = 0 := by
  rw [getFbDirtySize, bitmapWeight_eq_zero.mpr h, Nat.mul_zero]

theorem getFbDirtySize_congr {a b : Nat → Bool} {bits : Nat} (page : Nat)
    (h : ∀ p, p < bits → a p = b p) : getFbDirtySize a bits page = getFbDirtySize b bits page := by
  unfold getFbDirtySize bitmapWeight
  rw [List.countP_congr fun p hp => by rw [h p (List.mem_range.mp hp)]]

theorem getFbDirtySize_pos {bitmap : Nat → Bool} {p : Nat} (hp : p < d.fbBitmapBits)
    (hset : bitmap p = true) : 0 < getFbDirtySize bitmap d.fbBitmapBits d.fbPageSize := by
  apply Nat.mul_pos d.fbPageSize_pos
  apply Nat.pos_of_ne_zero
  intro hzero
  rw [bitmapWeight_eq_zero.mp hzero p hp] at hset
  exact Bool.noConfusion hset

def HeaderAt (d : Device) (f : File) : ExporterPc → Prop
  | .idle => True
  | .check | .take =>
    f.hdr.length = 0 ∧ ∀ p, p < d.fbBitmapBits → f.msg.bitmap p = false
  | .taken | .finish => f.hdr.length = getFbDirtySize f.msg.bitmap d.fbBitmapBits d.fbPageSize

/-- Between two steps: the shadow has its length, somebody will see it, and every page that is
owed is in it or under way. -/
structure DirtyInv (d : Device) (s : DirtySys) : Prop where
  len : s.file.shadowFbLen =
    getFbDirtySize s.file.shadowBitmap d.fbBitmapBits d.fbPageSize
  marked : ∀ p, p < d.fbBitmapBits → s.file.shadowBitmap p = true → s.Marked
  owed : ∀ p, s.owed p = true → p < d.fbBitmapBits ∧
    (s.file.shadowBitmap p = true ∨ s.exporter.Holds ∧ s.file.msg.bitmap p = true)
  header : HeaderAt d s.file s.exporter
  messages : ∀ m ∈ s.messages,
    m.1 = d.msgSize + getFbDirtySize m.2 d.fbBitmapBits d.fbPageSize

theorem DirtyStart.inv {s : DirtySys} (h : DirtyStart s) : DirtyInv d s := by
  obtain ⟨hbitmap, hlen, _, hexporter, howed, hmessages⟩ := h
  refine ⟨?_, ?_, ?_, ?_, ?_⟩
  · rw [hlen, hbitmap, getFbDirtySize_empty _ fun _ _ => rfl]
  · intro p _ hset
    rw [hbitmap] at hset
    exact Bool.noConfusion hset
  · intro p hset
    rw [howed] at hset
    exact Bool.noConfusion hset
  · rw [hexporter]
    trivial
  · intro m hm
    rw [hmessages] at hm
    exact absurd hm List.not_mem_nil

section step

variable {s s' : DirtySys}

theorem markSections_bit (f : File) (isDyna : Bool) :
    (markSections f isDyna).nextCopyMask .vfFbBitmap = f.nextCopyMask .vfFbBitmap := by
  unfold markSections
  simp only
  split <;> split <;> split <;> simp [CopyMask.set]

theorem inFb_eq_true {pages : Nat → Bool} {p : Nat} :
    inFb d pages p = true ↔ p < d.fbBitmapBits ∧ pages p = true := by
  simp [inFb]

theorem DirtyInv.owed_query (h : DirtyInv d s) {pages : Nat → Bool}
    (hkeeps : KeepsShadow d s.file (.reported pages)) {p : Nat}
    (howed : (s.owed p || inFb d pages p) = true) :
    p < d.fbBitmapBits ∧
      (pages p = true ∨ s.exporter.Holds ∧ s.file.msg.bitmap p = true) := by
  rw [Bool.or_eq_true, inFb_eq_true] at howed
  rcases howed with howed | hnew
  · obtain ⟨hp, hshadow | hheld⟩ := h.owed p howed
    · exact ⟨hp, .inl (hkeeps p hp hshadow)⟩
    · exact ⟨hp, .inr hheld⟩
  · exact ⟨hnew.1, .inl hnew.2⟩

theorem DirtyInv.owed_failed (h : DirtyInv d s) {buffer : Nat → Bool}
    (hkeeps : KeepsShadow d s.file (.failed buffer)) {p : Nat} (howed : s.owed p = true) :
    p < d.fbBitmapBits ∧
      (buffer p = true ∨ s.exporter.Holds ∧ s.file.msg.bitmap p = true) := by
  obtain ⟨hp, hshadow | hheld⟩ := h.owed p howed
  · exact ⟨hp, .inl ((hkeeps p hp).trans hshadow)⟩
  · exact ⟨hp, .inr hheld⟩

theorem DirtyInv.len_failed (h : DirtyInv d s) {buffer : Nat → Bool}
    (hkeeps : KeepsShadow d s.file (.failed buffer)) :
    s.file.shadowFbLen = getFbDirtySize buffer d.fbBitmapBits d.fbPageSize := by
  rw [h.len, getFbDirtySize_congr _ fun p hp => (hkeeps p hp).symm]

theorem DirtyInv.sends (h : DirtyInv d s) {f : File} (hshadow : f.shadowBitmap = s.file.shadowBitmap)
    (hlen : f.shadowFbLen = s.file.shadowFbLen)
    (hmask : f.nextCopyMask .vfFbBitmap = s.file.nextCopyMask .vfFbBitmap)
    (hbitmap : f.msg.bitmap = s.file.msg.bitmap)
    (hheader : f.hdr.length =
      d.msgSize + getFbDirtySize f.msg.bitmap d.fbBitmapBits d.fbPageSize) :
    DirtyInv d (s.sends f) := by
  refine ⟨?_, ?_, ?_, trivial, ?_⟩
  · simp only [DirtySys.sends, hlen, hshadow]
    exact h.len
  · intro p hp hset
    rw [DirtySys.Marked]
    simp only [DirtySys.sends, hshadow, hmask] at hset ⊢
    exact h.marked p hp hset
  · intro p howed
    simp only [DirtySys.sends, Bool.and_eq_true, Bool.not_eq_true', hbitmap] at howed
    obtain ⟨hp, hset | hheld⟩ := h.owed p howed.1
    · exact ⟨hp, .inl (by rw [DirtySys.sends, hshadow]; exact hset)⟩
    · rw [howed.2] at hheld
      exact absurd hheld.2 Bool.false_ne_true
  · intro m hm
    simp only [DirtySys.sends, List.mem_append, List.mem_singleton] at hm
    rcases hm with hm | rfl
    · exact h.messages m hm
    · exact hheader

theorem DirtyInv.step (h : DirtyInv d s) (e : DirtyEvent) (hcareful : Careful d s e)
    (hstep : dirtyStep d s e = some s') : DirtyInv d s' := by
  cases e with
  | markSections isDyna =>
    cases hcaller : s.caller with
    | idle =>
      simp only [dirtyStep, hcaller, Option.some.injEq] at hstep
      subst hstep
      refine ⟨h.len, ?_, h.owed, ?_, h.messages⟩
      · intro p hp hset
        rcases h.marked p hp hset with hbit | ⟨len, hat, _⟩
        · exact .inl ((markSections_bit s.file isDyna).trans hbit)
        · rw [hcaller] at hat
          exact CallerPc.noConfusion hat
      · exact h.header
    | marked => simp [dirtyStep, hcaller] at hstep
    | queried len => simp [dirtyStep, hcaller] at hstep
  | query q =>
    cases hcaller : s.caller with
    | idle => simp [dirtyStep, hcaller] at hstep
    | queried len => simp [dirtyStep, hcaller] at hstep
    | marked =>
      cases q with
      | reported pages =>
        simp only [dirtyStep, hcaller, updateShadowDirtybit, Option.some.injEq] at hstep
        subst hstep
        refine ⟨rfl, ?_, fun p howed => h.owed_query hcareful.1 howed, h.header, h.messages⟩
        intro p hp hset
        exact .inr ⟨_, rfl, getFbDirtySize_pos hp hset⟩
      | failed buffer =>
        simp only [dirtyStep, hcaller, updateShadowDirtybit, Option.some.injEq] at hstep
        subst hstep
        refine ⟨h.len_failed hcareful.1, ?_, fun p howed => h.owed_failed hcareful.1 howed,
          h.header, h.messages⟩
        intro p hp hset
        have hnone := (hcareful.1 p hp).trans (hcareful.2 buffer rfl p hp)
        exact Bool.noConfusion (hnone.symm.trans hset)
  | markBitmap =>
    cases hcaller : s.caller with
    | idle => simp [dirtyStep, hcaller] at hstep
    | marked => simp [dirtyStep, hcaller] at hstep
    | queried len =>
      simp only [dirtyStep, hcaller, Option.some.injEq] at hstep
      subst hstep
      by_cases hlen : 0 < len
      · simp only [markBitmap, if_pos hlen]
        refine ⟨h.len, fun p _ _ => .inl ?_, h.owed, h.header, h.messages⟩
        exact CopyMask.set_self s.file.nextCopyMask .vfFbBitmap
      · simp only [markBitmap, if_neg hlen]
        refine ⟨h.len, ?_, h.owed, h.header, h.messages⟩
        intro p hp hset
        rcases h.marked p hp hset with hbit | ⟨len', hat, hpos⟩
        · exact .inl hbit
        · rw [hcaller, CallerPc.queried.injEq] at hat
          omega
  | stateSize q =>
    cases hcaller : s.caller with
    | marked => simp [dirtyStep, hcaller] at hstep
    | queried len => simp [dirtyStep, hcaller] at hstep
    | idle =>
      cases q with
      | reported pages =>
        simp only [dirtyStep, hcaller, updateShadowDirtybit, Option.some.injEq] at hstep
        subst hstep
        refine ⟨rfl, ?_, fun p howed => h.owed_query hcareful.1 howed, h.header, h.messages⟩
        intro p hp hset
        exact .inl (hcareful.2 pages rfl ⟨p, hp, hset⟩).1
      | failed buffer =>
        simp only [dirtyStep, hcaller, updateShadowDirtybit, Option.some.injEq] at hstep
        subst hstep
        refine ⟨h.len_failed hcareful.1, ?_, fun p howed => h.owed_failed hcareful.1 howed,
          h.header, h.messages⟩
        intro p hp hset
        have hmarked := h.marked p hp ((hcareful.1 p hp).symm.trans hset)
        rw [DirtySys.Marked, hcaller] at hmarked
        exact hmarked
  | exportSections calls =>
    obtain ⟨hmask, hempty, hbitmap⟩ := hcareful
    cases hexporter : s.exporter with
    | idle =>
      simp only [dirtyStep, hexporter, hmask, Bool.false_eq_true, if_false,
        Option.some.injEq] at hstep
      subst hstep
      obtain ⟨hshadow, hlen, hbit, hlength, hmsg⟩ := exportSections_shadow d s.file calls
      refine ⟨?_, ?_, ?_, ?_, h.messages⟩
      · simp only [hlen, hshadow]
        exact h.len
      · intro p hp hset
        simp only [hshadow] at hset
        rw [DirtySys.Marked]
        simp only [hbit]
        exact h.marked p hp hset
      · intro p howed
        obtain ⟨hp, hset | hheld⟩ := h.owed p howed
        · exact ⟨hp, .inl (by rw [hshadow]; exact hset)⟩
        · rw [hexporter] at hheld
          exact absurd hheld.1 (by simp [ExporterPc.Holds])
      · have hheader : HeaderAt d (exportSections d s.file calls).2 .check := by
          refine ⟨hlength.trans hempty, fun p hp => ?_⟩
          rw [hmsg]
          exact hbitmap p hp
        simp only
        split
        · exact hheader
        · trivial
    | _ => simp [dirtyStep, hexporter] at hstep
  | exportCheck =>
    cases hexporter : s.exporter with
    | check =>
      simp only [dirtyStep, hexporter, Option.some.injEq] at hstep
      subst hstep
      have hheader := h.header
      rw [hexporter] at hheader
      refine ⟨h.len, h.marked, ?_, ?_, h.messages⟩
      · intro p howed
        obtain ⟨hp, hset | hheld⟩ := h.owed p howed
        · exact ⟨hp, .inl hset⟩
        · rw [hexporter] at hheld
          exact absurd hheld.1 (by simp [ExporterPc.Holds])
      · simp only
        split
        · exact hheader
        · exact hheader.1.trans (getFbDirtySize_empty _ hheader.2).symm
    | _ => simp [dirtyStep, hexporter] at hstep
  | exportTake =>
    cases hexporter : s.exporter with
    | take =>
      simp only [dirtyStep, hexporter, Option.some.injEq] at hstep
      subst hstep
      have hheader := h.header
      rw [hexporter] at hheader
      refine ⟨?_, ?_, ?_, ?_, h.messages⟩
      · exact (getFbDirtySize_empty d.fbPageSize fun _ _ => rfl).symm
      · intro p _ hset
        exact Bool.noConfusion hset
      · intro p howed
        obtain ⟨hp, hset | hheld⟩ := h.owed p howed
        · exact ⟨hp, .inr ⟨.inl rfl, hset⟩⟩
        · rw [hexporter] at hheld
          exact absurd hheld.1 (by simp [ExporterPc.Holds])
      · show s.file.hdr.length + s.file.shadowFbLen = _
        rw [hheader.1, Nat.zero_add]
        exact h.len
    | _ => simp [dirtyStep, hexporter] at hstep
  | exportBitmap =>
    cases hexporter : s.exporter with
    | taken =>
      simp only [dirtyStep, hexporter, Option.some.injEq] at hstep
      subst hstep
      have hheader := h.header
      rw [hexporter] at hheader
      refine ⟨h.len, ?_, ?_, hheader, h.messages⟩
      · intro p hp hset
        rcases hcareful with hempty | hcaller
        · exact Bool.noConfusion ((hempty p hp).symm.trans hset)
        · exact .inr hcaller
      · intro p howed
        obtain ⟨hp, hset | hheld⟩ := h.owed p howed
        · exact ⟨hp, .inl hset⟩
        · exact ⟨hp, .inr ⟨.inr rfl, hheld.2⟩⟩
    | _ => simp [dirtyStep, hexporter] at hstep
  | exportFinish =>
    cases hexporter : s.exporter with
    | finish =>
      simp only [dirtyStep, hexporter, Option.some.injEq] at hstep
      subst hstep
      have hheader := h.header
      rw [hexporter] at hheader
      apply DirtyInv.sends h (f := exportFinish d s.file) rfl rfl rfl rfl
      show s.file.hdr.length + d.msgSize = _
      rw [hheader, Nat.add_comm]
      rfl
    | _ => simp [dirtyStep, hexporter] at hstep
  | other g =>
    simp only [dirtyStep, Option.some.injEq] at hstep
    subst hstep
    by_cases hexporter : s.exporter = .idle
    · simp only [if_pos hexporter]
      refine ⟨h.len, h.marked, ?_, ?_, h.messages⟩
      · intro p howed
        obtain ⟨hp, hset | hheld⟩ := h.owed p howed
        · exact ⟨hp, .inl hset⟩
        · rw [hexporter] at hheld
          exact absurd hheld.1 (by simp [ExporterPc.Holds])
      · simp only [hexporter]
        trivial
    · simp only [if_neg hexporter]
      refine ⟨h.len, h.marked, h.owed, ?_, h.messages⟩
      have hheader := h.header
      cases hat : s.exporter <;> rw [hat] at hheader <;> exact hheader

end step

theorem vfDataExport_takes {calls : ExportCalls} (hbit : f.nextCopyMask .vfFbBitmap = true)
    (hok : (vfDataExport d f calls).1 = 0) :
    (vfDataExport d f calls).2.msg.bitmap = f.shadowBitmap := by
  rcases vfDataExport_cases d f calls with ⟨hzero, _⟩ | ⟨_, _, heq⟩ | ⟨_, hne, heq⟩
  · rw [CopyMask.isZero_eq_false hbit] at hzero
    exact Bool.noConfusion hzero
  · obtain ⟨hshadow, _, hsame, _, _⟩ := exportSections_shadow d f calls
    rw [heq, exportBody, if_pos (hsame.trans hbit)]
    exact hshadow
  · rw [heq] at hok
    exact absurd hok hne

theorem DirtyInv.nothingLost {s : DirtySys} (h : DirtyInv d s) : NoneLost d s := by
  refine ⟨?_, h.messages, ?_⟩
  · intro p howed
    obtain ⟨hp, hset | hheld⟩ := h.owed p howed
    · exact .inl ⟨hset, h.marked p hp hset⟩
    · exact .inr hheld
  · intro hcaller hexporter calls hok p howed
    obtain ⟨hp, hset | hheld⟩ := h.owed p howed
    · rcases h.marked p hp hset with hbit | ⟨len, hat, _⟩
      · rw [vfDataExport_takes hbit hok]
        exact hset
      · rw [hcaller] at hat
        exact CallerPc.noConfusion hat
    · rw [hexporter] at hheld
      exact absurd hheld.1 (by simp [ExporterPc.Holds])

/-- In every careful run a page that was reported waits for the next message until a message has
it, and each header tells the length of its message. -/
theorem reportedPages_exported (d : Device) (s : DirtySys) (hrun : CarefulRun d s) :
    NoneLost d s := by
  apply DirtyInv.nothingLost
  apply hrun.invariant (DirtyInv d)
  · intro s hstart
    exact hstart.inv
  · intro before e after hinv hcareful hstep
    exact hinv.step e hcareful hstep

def freshSource : DirtySys where
  file := { twoDirtyFile false with
    nextCopyMask := .zero, shadowBitmap := fun _ => false, shadowFbLen := 0 }
  caller := .idle
  exporter := .idle
  owed := fun _ => false
  messages := []

theorem freshSource_start : DirtyStart freshSource := ⟨rfl, rfl, rfl, rfl, rfl, rfl⟩

theorem CarefulRun.step {s s' : DirtySys} (h : CarefulRun d s) (e : DirtyEvent)
    (hcareful : Careful d s e) (hstep : dirtyStep d s e = some s') : CarefulRun d s' :=
  .next e h hcareful hstep

/-- Two pages are reported and go out in a message. -/
theorem reportedPages_exported_once :
    ∃ s, CarefulRun fourPages s ∧ NoneLost fourPages s ∧ s.messages.length = 1 := by
  have h0 : CarefulRun fourPages freshSource := .start freshSource_start
  have h1 := h0.step (.markSections false) trivial rfl
  have h2 := h1.step (.query (.reported twoDirty))
    ⟨fun _ _ hset => Bool.noConfusion (show false = true from hset),
      fun _ hfailed => Query.noConfusion hfailed⟩ rfl
  have h3 := h2.step .markBitmap trivial rfl
  have h4 := h3.step (.exportSections ⟨false, false, false⟩)
    ⟨by decide +kernel, rfl, fun _ _ => rfl⟩ rfl
  have h5 := h4.step .exportCheck trivial rfl
  have h6 := h5.step .exportTake trivial rfl
  have h7 := h6.step .exportBitmap (.inl fun _ _ => rfl) rfl
  have h8 := h7.step .exportFinish trivial rfl
  exact ⟨_, h8, reportedPages_exported _ _ h8, rfl⟩

def DirtyRun (d : Device) : DirtySys → Prop :=
  Run DirtyStart (fun s e s' => dirtyStep d s e = some s') Transition.always

theorem DirtyRun.steps {s s' : DirtySys} {events : List DirtyEvent} (h : DirtyRun d s)
    (hsteps : events.foldlM (dirtyStep d) s = some s') : DirtyRun d s' := by
  induction events generalizing s with
  | nil =>
    obtain rfl : s = s' := Option.some.inj hsteps
    exact h
  | cons e events ih =>
    rw [List.foldlM_cons] at hsteps
    obtain ⟨middle, hstep, hrest⟩ := Option.bind_eq_some_iff.mp hsteps
    exact ih (.next e h trivial hstep) hrest

def twoQueries : List DirtyEvent :=
  [.markSections false, .query (.reported (· == 0)), .markBitmap,
    .markSections false, .query (.reported (· == 1)), .markBitmap,
    .exportSections ⟨false, false, false⟩, .exportCheck, .exportTake, .exportBitmap, .exportFinish]

/-- Page 0 is reported by the first of them only: no message has it, and the shadow has
forgotten it. -/
theorem second_query_drops : ¬ ∀ s, DirtyRun fourPages s → NoneLost fourPages s := by
  intro h
  have hend : (twoQueries.foldlM (dirtyStep fourPages) freshSource).map
      (fun s => (s.owed 0, s.file.shadowBitmap 0, s.exporter)) = some (true, false, .idle) := by
    decide +kernel
  obtain ⟨s, hsteps, hfacts⟩ := Option.map_eq_some_iff.mp hend
  obtain ⟨howed, hshadow, hexporter⟩ : s.owed 0 = true ∧ s.file.shadowBitmap 0 = false ∧
      s.exporter = .idle := by simpa using hfacts
  have hrun : DirtyRun fourPages s := DirtyRun.steps (.start freshSource_start) hsteps
  rcases (h s hrun).1 0 howed with ⟨hset, _⟩ | ⟨hheld, _⟩
  · rw [hshadow] at hset
    exact Bool.noConfusion hset
  · rw [hexporter] at hheld
    exact absurd hheld (by simp [ExporterPc.Holds])

end MxGpu.Mig
