import MxGpu.MemmgrUp

/- The manager of the frame buffer of the host over a live update: what the old driver
exports and what the new one makes of it. -/
namespace MxGpu.Fb

open List

inductive MemOwner
  | pf | gpu | sys
  deriving DecidableEq, Repr

/-- `struct amdgv_live_info_memmgr_mem`. -/
structure LiveMem where
  tag : MemTag
  owner : MemOwner
  allocOff : Addr
  len : Addr
  align : Addr
  deriving DecidableEq, Repr

/-- The part of `struct amdgv_live_info_memmgr` about the manager of the host. -/
structure LiveInfo where
  pfOffset : Addr
  pfSize : Addr
  pfAlign : Addr
  pfTom : Addr
  pfDown : Bool
  memAllocs : List LiveMem

/-- `roundup`. -/
def roundup (x y : Addr) : Addr := (x + (y - 1)) / y * y

/-- `MBYTES_TO_BYTES(AMDGV_FUNCTION_FB_ALIGNMENT)`. -/
def fbAlignmentByte (fbAlignment : BitVec 32) : Addr :=
  (if fbAlignment ≠ 0 then fbAlignment else 16).setWidth 64 <<< 20

def Mem.live (mem : Mem) (owner : MemOwner) : LiveMem :=
  { tag := mem.tag, owner, allocOff := mem.allocOff, len := mem.len, align := mem.align }

def LiveMem.mem (live : LiveMem) (handle : Nat) : Mem :=
  { handle, allocOff := live.allocOff, len := live.len, align := live.align, tag := live.tag }

/-- `amdgv_memmgr_export_mem_allocs` from the record `i` on; none when no room is left. -/
def exportMemAllocs (owner : MemOwner) : Nat → List Mem → Option (List LiveMem)
  | _, [] => some []
  | i, alloc :: rest =>
    if i ≥ memAllocsMax then none
    else if alloc.tag.id = memEccBadPage then exportMemAllocs owner i rest
    else (exportMemAllocs owner (i + 1) rest).map (alloc.live owner :: ·)

/-- `amdgv_memmgr_export_live_data`; `others` is what the managers of the whole frame
buffer and of system memory export behind. -/
def Adapt.exportLiveData (s : Adapt) (fbAlignment : BitVec 32) (others : List LiveMem) :
    Option LiveInfo :=
  (exportMemAllocs .pf 0 s.memmgr.allocs).map fun memAllocs =>
    { pfOffset := s.memmgr.offset
      pfSize := roundup s.memmgr.tom (fbAlignmentByte fbAlignment)
      pfAlign := s.memmgr.align
      pfTom := s.memmgr.tom
      pfDown := s.memmgr.down
      memAllocs := memAllocs ++ others }

/-- One record in `amdgv_memmgr_import_mem_allocs` for the manager of the host; none when
there is no memory. -/
def Adapt.importMem (noMemory : Bool) (s : Adapt) (live : LiveMem) : Option Adapt :=
  if live.owner ≠ .pf ∨ live.tag.id = memEccBadPage then some s
  else
    match findMemId s.memmgr.allocs live.tag with
    | some sameIdMem =>
      let allocs := s.memmgr.allocs.map fun mem =>
        if mem.handle = sameIdMem.handle then live.mem mem.handle else mem
      some { s with memmgr := { s.memmgr with allocs } }
    | none =>
      if noMemory then none
      else
        let memmgr := { s.memmgr with allocs := s.memmgr.allocs ++ [live.mem s.nextMem] }
        some { s with memmgr, nextMem := s.nextMem + 1 }

/-- `amdgv_memmgr_import_live_data`; none when it fails. -/
def Adapt.importLiveData (s : Adapt) (noMemory : Bool) (info : LiveInfo) : Option Adapt :=
  let memmgr := { s.memmgr with
    offset := info.pfOffset
    size := info.pfSize
    align := info.pfAlign
    tom := info.pfTom
    down := info.pfDown }
  info.memAllocs.foldlM (Adapt.importMem noMemory) { s with memmgr }

open AlignUp Tiling Transition

def exported (memmgr : Memmgr) : List Mem :=
  memmgr.allocs.filter fun mem => mem.tag.id ≠ memEccBadPage

def imports (records : List LiveMem) : List LiveMem :=
  records.filter fun live => live.owner = .pf ∧ live.tag.id ≠ memEccBadPage

variable {s s' fresh : Adapt} {noMemory : Bool} {records others : List LiveMem}
  {was news : List Mem} {info : LiveInfo} {fbAlignment : BitVec 32}

theorem exportMemAllocs_some {owner : MemOwner} {i : Nat} {allocs : List Mem}
    (h : exportMemAllocs owner i allocs = some records) :
    records = (allocs.filter fun mem => mem.tag.id ≠ memEccBadPage).map (Mem.live · owner) ∧
      records.length ≤ memAllocsMax - i := by
  induction allocs generalizing i records with
  | nil =>
    cases h
    exact ⟨rfl, Nat.zero_le _⟩
  | cons alloc rest ih =>
    unfold exportMemAllocs at h
    split at h
    · cases h
    · next hroom =>
      split at h
      · next hbad =>
        obtain ⟨hrest, hlen⟩ := ih h
        rw [filter_cons, if_neg (by simp [hbad])]
        exact ⟨hrest, hlen⟩
      · next hgood =>
        obtain ⟨tail, htail, rfl⟩ := Option.map_eq_some_iff.mp h
        obtain ⟨hrest, hlen⟩ := ih htail
        rw [filter_cons, if_pos (by simpa using hgood), map_cons, hrest]
        refine ⟨rfl, ?_⟩
        rw [← hrest, length_cons]
        omega

theorem foldlM_importMem (h : records.foldlM (Adapt.importMem noMemory) s = some s')
    (hnodup : ((imports records).map LiveMem.tag).Nodup)
    (hnew : ∀ live ∈ imports records, ∀ mem ∈ s.memmgr.allocs, mem.tag ≠ live.tag) :
    ∃ news, s' = { s with
        memmgr := { s.memmgr with allocs := s.memmgr.allocs ++ news }
        nextMem := s.nextMem + news.length } ∧
      news.map (Mem.live · .pf) = imports records ∧
      news.map Mem.handle = range' s.nextMem news.length := by
  induction records generalizing s with
  | nil =>
    cases h
    exact ⟨[], by simp, rfl, rfl⟩
  | cons live rest ih =>
    rw [foldlM_cons] at h
    obtain ⟨middle, hfirst, hrest⟩ := Option.bind_eq_some_iff.mp h
    unfold Adapt.importMem at hfirst
    split at hfirst
    · next hskip =>
      have himports : imports (live :: rest) = imports rest := by
        unfold imports
        rw [filter_cons, if_neg]
        simpa [or_iff_not_imp_left] using hskip
      cases hfirst
      rw [himports] at hnodup hnew ⊢
      exact ih hrest hnodup hnew
    · next htake =>
      have htake' : live.owner = .pf ∧ live.tag.id ≠ memEccBadPage := by
        simpa [not_or] using htake
      have himports : imports (live :: rest) = live :: imports rest := by
        unfold imports
        rw [filter_cons, if_pos (by simpa using htake')]
      rw [himports] at hnodup hnew ⊢
      obtain ⟨hout, hnodup'⟩ := nodup_cons.mp hnodup
      have hnone : findMemId s.memmgr.allocs live.tag = none := by
        apply find?_eq_none.mpr
        intro m hm
        simpa using hnew live (mem_cons_self ..) m hm
      simp only [hnone] at hfirst
      split at hfirst
      · cases hfirst
      · cases hfirst
        obtain ⟨tail, hafter, hlive, hhandles⟩ := ih hrest hnodup' (by
          intro other hother m hm
          rcases mem_append.mp hm with hm | hm
          · exact hnew other (mem_cons_of_mem _ hother) m hm
          · obtain rfl := mem_singleton.mp hm
            intro heq
            exact hout (mem_map.mpr ⟨other, hother, heq.symm⟩))
        refine ⟨live.mem s.nextMem :: tail, ?_, ?_, ?_⟩
        · rw [hafter]
          simp [Nat.add_assoc, Nat.add_comm 1]
        · rw [map_cons, hlive]
          obtain ⟨tag, owner, allocOff, len, align⟩ := live
          obtain rfl : owner = .pf := htake'.1
          rfl
        · rw [map_cons, hhandles, length_cons, range'_succ]
          rfl

structure Imported (s fresh s' : Adapt) (fbAlignment : BitVec 32) (noMemory : Bool) : Prop where
  initialised : ∃ nextMem size shift, fresh = init [] nextMem s.memmgr.offset size shift false
  done : ∃ others info, (∀ live ∈ others, live.owner ≠ .pf) ∧
    s.exportLiveData fbAlignment others = some info ∧
      fresh.importLiveData noMemory info = some s'

structure Carried (s s' : Adapt) (fbAlignment : BitVec 32) : Prop where
  live : s'.memmgr.allocs.map (Mem.live · .pf) = (exported s.memmgr).map (Mem.live · .pf)
  handles : Handles s'.memmgr.known s'.nextMem
  count : (exported s.memmgr).length ≤ memAllocsMax
  offset : s'.memmgr.offset = s.memmgr.offset
  size : s'.memmgr.size = roundup s.memmgr.tom (fbAlignmentByte fbAlignment)
  tom : s'.memmgr.tom = s.memmgr.tom
  headOff : s'.memmgr.headOff = s.memmgr.offset
  reserves : s'.memmgr.reserves = []
  down : s'.memmgr.down = s.memmgr.down
  inited : s'.memmgr.isInit = true
  mems : s'.mems = []

theorem Imported.carried (h : Imported s fresh s' fbAlignment noMemory)
    (hnodup : ((exported s.memmgr).map Mem.tag).Nodup) : Carried s s' fbAlignment := by
  obtain ⟨⟨nextMem, size, shift, rfl⟩, others, info, hothers, hexport, himport⟩ := h
  obtain ⟨records, hrecords, rfl⟩ := Option.map_eq_some_iff.mp hexport
  obtain ⟨hmap, hcount⟩ := exportMemAllocs_some hrecords
  have himports : imports (records ++ others) = (exported s.memmgr).map (Mem.live · .pf) := by
    have hnone : imports others = [] := by
      apply filter_eq_nil_iff.mpr
      intro live hlive
      simp [hothers live hlive]
    unfold imports at hnone ⊢
    rw [filter_append, hnone, append_nil, hmap]
    apply filter_eq_self.mpr
    intro live hlive
    obtain ⟨mem, hmem, rfl⟩ := mem_map.mp hlive
    have hgood := (mem_filter.mp hmem).2
    simpa [Mem.live] using hgood
  have htags : ((imports (records ++ others)).map LiveMem.tag).Nodup := by
    rw [himports, map_map]
    exact hnodup
  obtain ⟨news, rfl, hlive, hhandles⟩ := foldlM_importMem himport htags fun _ _ _ hm => nomatch hm
  rw [himports] at hlive
  refine ⟨hlive, ?_, ?_, rfl, rfl, rfl, rfl, rfl, rfl, rfl, rfl⟩
  · show Handles (([] ++ news) ++ []) (nextMem + news.length)
    rw [nil_append, append_nil]
    have hhandles' : news.map Mem.handle = range' nextMem news.length := hhandles
    refine ⟨hhandles' ▸ nodup_range', fun m hm => ?_⟩
    have hin := mem_map_of_mem (f := Mem.handle) hm
    rw [hhandles', mem_range'_1] at hin
    exact hin.2
  · have hlen := hcount
    rw [hmap, length_map] at hlen
    exact hlen

theorem Carried.old (h : Carried s s' fbAlignment) {mem : Mem} (hmem : mem ∈ s'.memmgr.allocs) :
    ∃ was ∈ exported s.memmgr, mem.allocOff = was.allocOff ∧ mem.len = was.len ∧
      mem.align = was.align ∧ mem.tag = was.tag := by
  have hin := mem_map_of_mem (f := (Mem.live · .pf)) hmem
  rw [h.live] at hin
  obtain ⟨was, hwas, heq⟩ := mem_map.mp hin
  simp only [Mem.live, LiveMem.mk.injEq, true_and] at heq
  exact ⟨was, hwas, heq.2.1.symm, heq.2.2.1.symm, heq.2.2.2.symm, heq.1.symm⟩

theorem Carried.new (h : Carried s s' fbAlignment) {was : Mem} (hwas : was ∈ exported s.memmgr) :
    ∃ mem ∈ s'.memmgr.allocs, mem.allocOff = was.allocOff ∧ mem.len = was.len ∧
      mem.align = was.align ∧ mem.tag = was.tag := by
  have hin := mem_map_of_mem (f := (Mem.live · .pf)) hwas
  rw [← h.live] at hin
  obtain ⟨mem, hmem, heq⟩ := mem_map.mp hin
  simp only [Mem.live, LiveMem.mk.injEq, true_and] at heq
  exact ⟨mem, hmem, heq.2.1, heq.2.2.1, heq.2.2.2, heq.1⟩

theorem endOf_live {first : Addr} (h : news.map (Mem.live · .pf) = was.map (Mem.live · .pf)) :
    endOf first news = endOf first was := by
  induction news generalizing was first with
  | nil =>
    cases was with
    | nil => rfl
    | cons old rest => cases h
  | cons mem others ih =>
    cases was with
    | nil => cases h
    | cons old rest =>
      injection h with hhead htail
      have hoff : mem.allocOff = old.allocOff := congrArg LiveMem.allocOff hhead
      rw [endOf, endOf, hoff]
      exact ih htail

theorem spans_live (h : news.map (Mem.live · .pf) = was.map (Mem.live · .pf)) :
    news.map Mem.span = was.map Mem.span := by
  have hspan : ∀ l : List Mem, l.map Mem.span = (l.map (Mem.live · .pf)).map fun live =>
      ((live.allocOff - live.len).toNat, live.len.toNat) := by
    intro l
    rw [map_map]
    rfl
  rw [hspan, hspan, h]

/-- The last exported block ends at the top of memory: no bad page lies above it. -/
def Kept (memmgr : Memmgr) : Prop := endOf memmgr.headOff (exported memmgr) = memmgr.tom

def Covered (memmgr : Memmgr) (fbAlignment : BitVec 32) : Prop :=
  exported memmgr ≠ [] → memmgr.tom.toNat ≤
    memmgr.offset.toNat + (roundup memmgr.tom (fbAlignmentByte fbAlignment)).toNat

theorem Carried.upSound (h : Carried s s' fbAlignment) (hsound : UpSound s)
    (hkept : Kept s.memmgr) (hcovered : Covered s.memmgr fbAlignment) : UpSound s' := by
  have hin : ∀ was ∈ exported s.memmgr, was ∈ s.memmgr.allocs := fun was hwas =>
    mem_of_mem_filter hwas
  have hknown : s'.memmgr.known = s'.memmgr.allocs := by
    rw [Memmgr.known, h.reserves, append_nil]
  have hhead : s'.memmgr.headOff = s.memmgr.headOff := h.headOff.trans hsound.sound.head.symm
  refine ⟨⟨?_, ?_, ?_, h.headOff.trans h.offset.symm, ?_⟩, ?_, ?_, ?_, h.down.trans hsound.up,
    h.inited, h.handles⟩
  · intro mem hmem
    obtain ⟨was, hwas, hoff, hlen, -, -⟩ := h.old hmem
    have hsized := hsound.sound.sized was (hin was hwas)
    unfold Mem.Sized at hsized ⊢
    rwa [hoff, hlen]
  · rw [spans_live h.live, hhead, h.tom]
    exact hsound.sound.laid.sublist (filter_sublist.map _)
  · rw [endOf_live h.live, hhead, h.tom]
    exact hkept
  · intro hne
    rw [h.tom, h.offset, h.size]
    apply hcovered
    intro hnil
    apply hne
    have hlen := congrArg length h.live
    rw [length_map, length_map, hnil] at hlen
    exact length_eq_zero_iff.mp hlen
  · intro mem hmem
    obtain ⟨was, hwas, hoff, hlen, halign, -⟩ := h.old hmem
    have hdvd := hsound.aligned was (hin was hwas)
    unfold Mem.start at hdvd ⊢
    rwa [hoff, hlen, halign]
  · intro mem hmem
    rw [hknown] at hmem
    obtain ⟨was, hwas, -, -, halign, -⟩ := h.old hmem
    rw [halign]
    exact hsound.powers was (mem_append_left _ (hin was hwas))
  · intro mem hmem
    rw [h.reserves] at hmem
    cases hmem

theorem Carried.kept (h : Carried s s' fbAlignment) (hsound : UpSound s)
    (hrow : Row s'.memmgr) : Kept s.memmgr ∧ Covered s.memmgr fbAlignment := by
  have hhead := hsound.sound.head
  by_cases hnil : exported s.memmgr = []
  · refine ⟨?_, fun hne => absurd hnil hne⟩
    have hempty : s'.memmgr.allocs = [] := by
      have hlive := h.live
      rw [hnil] at hlive
      exact map_eq_nil_iff.mp hlive
    have htom := hrow.empty hempty
    rw [h.tom, h.offset] at htom
    unfold Kept
    rw [hnil, htom]
    exact hhead
  · obtain ⟨first, hfirst⟩ := exists_mem_of_ne_nil _ hnil
    obtain ⟨mem₀, hmem₀, -⟩ := h.new hfirst
    obtain ⟨mem, hmem, htop⟩ := hrow.attained (ne_nil_of_mem hmem₀)
    obtain ⟨was, hwas, hoff, -⟩ := h.old hmem
    rw [h.tom] at htop
    constructor
    · -- the block at the top is among the exported, and none of these ends higher
      have hlaid := hsound.sound.laid.sublist (filter_sublist.map _ : ((exported s.memmgr).map
        Mem.span).Sublist (s.memmgr.allocs.map Mem.span))
      have hsized : ∀ m ∈ exported s.memmgr, m.Sized := fun m hm =>
        hsound.sound.sized m (mem_of_mem_filter hm)
      obtain ⟨hto, hle⟩ := endOf_le hsized hlaid
      have hspan := (hto.bounds le_nearness (mem_map_of_mem hwas)).2
      have hend := (hsized was hwas).start_add
      have hbelow : was.start + was.len.toNat ≤
        (endOf s.memmgr.headOff (exported s.memmgr)).toNat := hspan
      apply BitVec.eq_of_toNat_eq
      rw [← htop, hoff] at hle ⊢
      omega
    · intro _
      have hinside := (hrow.ranges.inside mem hmem).2
      rw [htop, h.offset, h.size] at hinside
      exact hinside

section Replay

variable {live pre requests : List Mem} {mems mems' : List MemWithBitmap} {env : Env}
  {len align : Addr} {id : MemId} {tag : MemTag} {mem : Mem}

def requested (pre : List Mem) (id : MemId) : Nat := pre.countP fun mem => mem.tag.id = id

/-- The ids of `requests` are requested one after another during the live update, and
each request is answered with the block that was imported for it. -/
def Replays (live : List Mem) : Adapt → List Mem → Prop
  | _, [] => True
  | s, mem :: rest => ∀ env len align, env.skipHwInit = true →
    (∃ answer ∈ live, (s.allocAlign env len align mem.tag.id).2 = some answer ∧
      answer.tag = mem.tag ∧ answer.allocOff = mem.allocOff ∧ answer.len = mem.len) ∧
    Replays live (s.allocAlign env len align mem.tag.id).1 rest

/-- The index of each block is the number of requests of its id before it, and its id is
not one that always gets a new block. -/
def Indexed (pre : List Mem) : List Mem → Prop
  | [] => True
  | mem :: rest => alwaysAllocNew mem.tag.id = false ∧ mem.tag.index = requested pre mem.tag.id ∧
    Indexed (pre ++ [mem]) rest

def Counted (pre : List Mem) (mems : List MemWithBitmap) : Prop :=
  ∀ id index, taken mems { id, index } = true ↔ index < requested pre id

theorem requested_append (pre : List Mem) (mem : Mem) (id : MemId) :
    requested (pre ++ [mem]) id = requested pre id + if mem.tag.id = id then 1 else 0 := by
  simp [requested, countP_append, countP_cons]

theorem requested_le (pre : List Mem) (id : MemId) : requested pre id ≤ pre.length :=
  countP_le_length

theorem Counted.add (h : Counted pre mems) (hadd : memIdAdd mems mem.tag.id = (mems', some tag)) :
    tag = { id := mem.tag.id, index := requested pre mem.tag.id } ∧
      Counted (pre ++ [mem]) mems' := by
  obtain ⟨hid, -, hfree, hbelow, htaken⟩ := memIdAdd_some hadd
  obtain ⟨tagId, tagIndex⟩ := tag
  obtain rfl : tagId = mem.tag.id := hid
  have hindex : tagIndex = requested pre mem.tag.id := by
    have hnot : ¬tagIndex < requested pre mem.tag.id := by
      rw [← h, hfree]
      decide
    have hlast : ¬requested pre mem.tag.id < tagIndex := by
      intro hlt
      have hset := hbelow _ hlt
      rw [h] at hset
      omega
    omega
  subst hindex
  refine ⟨rfl, fun id index => ?_⟩
  rw [htaken, requested_append]
  by_cases hid : mem.tag.id = id
  · subst hid
    by_cases hsame : index = requested pre mem.tag.id
    · simp [hsame]
    · rw [if_neg (by simp [hsame]), if_pos rfl, h]
      omega
  · rw [if_neg (by simp [Ne.symm hid]), if_neg hid, h, Nat.add_zero]

theorem Counted.next (h : Counted pre mems) (hmems : mems.length ≤ pre.length)
    (hcount : pre.length < memAllocsMax) (id : MemId) :
    ∃ mems' tag, memIdAdd mems id = (mems', some tag) ∧ mems'.length ≤ pre.length + 1 := by
  have hle := requested_le pre id
  have hlist : memAllocsMax < memIdCountMax := by decide
  have hbits : memAllocsMax < maxMemCount := by decide
  have hfree : taken mems { id, index := requested pre id } = false := by
    rw [Bool.eq_false_iff]
    intro hset
    exact absurd ((h id _).mp hset) (Nat.lt_irrefl _)
  obtain ⟨mems', tag, hadd, hlength⟩ := memIdAdd_exists (Or.inr (by omega)) (by omega) hfree
  exact ⟨mems', tag, hadd, by omega⟩

theorem allocAlign_known (hinit : s.memmgr.isInit = true) (hskip : env.skipHwInit = true)
    (hold : alwaysAllocNew id = false) (hadd : memIdAdd s.mems id = (mems, some tag))
    (hfound : findMemId s.memmgr.allocs tag = some mem) :
    s.allocAlign env len align id = ({ s with mems }, some mem) := by
  unfold Adapt.allocAlign Adapt.allocUnifyAlign
  simp [hinit, hskip, hold, hadd, hfound]

theorem replays_iff (hinit : s.memmgr.isInit = true)
    (hold : ∀ mem ∈ s.memmgr.allocs, mem.handle < s.nextMem)
    (hlive : ∀ mem ∈ requests, ∃ answer ∈ s.memmgr.allocs, answer.tag = mem.tag ∧
      answer.allocOff = mem.allocOff ∧ answer.len = mem.len)
    (htags : (s.memmgr.allocs.map Mem.tag).Nodup) (hcounted : Counted pre s.mems)
    (hmems : s.mems.length ≤ pre.length) (hcount : pre.length + requests.length ≤ memAllocsMax) :
    Replays s.memmgr.allocs s requests ↔ Indexed pre requests := by
  induction requests generalizing pre s with
  | nil => exact iff_of_true trivial trivial
  | cons mem rest ih =>
    rw [length_cons] at hcount
    obtain ⟨mems, tag, hadd, hlength⟩ := hcounted.next hmems (by omega) mem.tag.id
    obtain ⟨htag, hcounted'⟩ := hcounted.add hadd
    -- after a request that is answered only the numbering has changed
    have hrest : Replays s.memmgr.allocs { s with mems } rest ↔ Indexed (pre ++ [mem]) rest := by
      have hih := ih (s := { s with mems }) hinit hold
        (fun m hm => hlive m (mem_cons_of_mem _ hm)) htags hcounted'
      apply hih
      · rw [length_append]
        exact hlength
      · rw [length_append, length_singleton]
        omega
    constructor
    · intro hreplays
      let env : Env :=
        { mi350x := false, statusInvalid := false, skipHwInit := true, noMemory := false }
      obtain ⟨⟨answer, hin, hanswer, hsame, -⟩, hnext⟩ := hreplays env 0 0 rfl
      have hall := allocAlign_allocates env 0 0 mem.tag.id hinit
      generalize hresult : s.allocAlign env 0 0 mem.tag.id = result at hall hanswer hnext
      obtain ⟨after, some'⟩ := result
      simp only at hanswer hall hnext
      subst hanswer
      cases hall with
      | deferred mems' tag' later _ => exact absurd rfl later.2.2
      | known mems' tag' _ numbered update found =>
        rw [hadd] at numbered
        obtain ⟨rfl, htag'⟩ := Prod.mk.inj numbered
        obtain rfl := Option.some.inj htag'
        have hfound : answer.tag = tag := by simpa using find?_some found
        refine ⟨by simpa using update.2, ?_, hrest.mp hnext⟩
        rw [← hsame, hfound, htag]
      | placed mems' tag' before addr after searches place =>
        exact absurd (hold _ hin) (Nat.lt_irrefl _)
    · rintro ⟨hnew, hindex, hindexed⟩ env len align hskip
      have hsame : tag = mem.tag := by
        rw [htag, ← hindex]
      obtain ⟨answer, hin, hanswer, hoff, hlen⟩ := hlive mem (mem_cons_self ..)
      have hfound : findMemId s.memmgr.allocs tag = some answer := by
        cases hfind : findMemId s.memmgr.allocs tag with
        | none =>
          have hnone := find?_eq_none.mp hfind answer hin
          simp [hanswer, hsame] at hnone
        | some found =>
          have hfoundTag : found.tag = tag := by simpa using find?_some hfind
          have hfoundIn := mem_of_find?_eq_some hfind
          rw [inj_on_of_nodup_map htags hfoundIn hin (by rw [hfoundTag, hsame, hanswer])]
      rw [allocAlign_known hinit hskip hnew hadd hfound]
      exact ⟨⟨answer, hin, rfl, hanswer, hoff, hlen⟩, hrest.mpr hindexed⟩

end Replay

/-- What a live update should come to: the new manager is a row, it stays one whatever is
called next, and the blocks are handed out again in the order of their first requests. -/
structure RoundTrips (s s' : Adapt) (requests : List Mem) : Prop where
  row : Row s'.memmgr
  later : ∀ t, Run (· = s') Calls (fun s op => PfCall s op ∧ KeepsRow s op ∧ Renews s op) t →
    Row t.memmgr
  replays : Replays s'.memmgr.allocs s' requests

structure InOrder (memmgr : Memmgr) (requests : List Mem) : Prop where
  perm : requests.Perm (exported memmgr)
  sorted : requests.Pairwise fun a b => a.handle < b.handle

/-- A manager that the new driver initialises at the same offset takes over what the old
one exported just when no bad page lies above the last exported block, the rounded size
covers the top of memory, and the indices are those of the requests. -/
theorem roundTrips_iff (run : Run StartsUp Calls (fun s op => PfCall s op ∧ KeepsRow s op) s)
    (himported : Imported s fresh s' fbAlignment noMemory) {requests : List Mem}
    (horder : InOrder s.memmgr requests) :
    RoundTrips s s' requests ↔
      Kept s.memmgr ∧ Covered s.memmgr fbAlignment ∧ Indexed [] requests := by
  obtain ⟨hsound, htags⟩ := run_upSound run
  have hexported : ((exported s.memmgr).map Mem.tag).Nodup := by
    have hall := htags.nodup
    rw [Memmgr.known, map_append] at hall
    exact (nodup_append.mp hall).1.sublist (filter_sublist.map _)
  have hcarried := himported.carried hexported
  have hreplays : Replays s'.memmgr.allocs s' requests ↔ Indexed [] requests := by
    apply replays_iff hcarried.inited
    · exact fun mem hmem => hcarried.handles.old mem (mem_append_left _ hmem)
    · intro mem hmem
      obtain ⟨answer, hin, hoff, hlen, -, htag⟩ := hcarried.new (horder.perm.mem_iff.mp hmem)
      exact ⟨answer, hin, htag, hoff, hlen⟩
    · have htag : s'.memmgr.allocs.map Mem.tag = (exported s.memmgr).map Mem.tag := by
        have hmap := congrArg (map LiveMem.tag) hcarried.live
        rw [map_map, map_map] at hmap
        exact hmap
      rw [htag]
      exact hexported
    · intro id index
      rw [hcarried.mems]
      simp [taken, bitmapsOf, requested]
    · simp [hcarried.mems]
    · rw [horder.perm.length_eq, length_nil, Nat.zero_add]
      exact hcarried.count
  constructor
  · intro h
    obtain ⟨hkept, hcovered⟩ := hcarried.kept hsound h.row
    exact ⟨hkept, hcovered, hreplays.mp h.replays⟩
  · rintro ⟨hkept, hcovered, hindexed⟩
    have hnew := hcarried.upSound hsound hkept hcovered
    refine ⟨hnew.row, fun t hrun => ?_, hreplays.mpr hindexed⟩
    have hlater : UpSound t := by
      apply hrun.invariant UpSound
      · rintro _ rfl
        exact hnew
      · rintro before op _ hbefore ⟨hcall, hkeeps, hrenews⟩ rfl
        exact hbefore.step hcall hkeeps hrenews
    exact hlater.row

instance decidableIndexed : (pre requests : List Mem) → Decidable (Indexed pre requests)
  | _, [] => isTrue trivial
  | pre, mem :: rest =>
    haveI := decidableIndexed (pre ++ [mem]) rest
    inferInstanceAs (Decidable (_ ∧ _ ∧ _))

/-- What a new driver at the same offset imports, with memory for it. -/
def Adapt.imported (s : Adapt) : Option Adapt :=
  (s.exportLiveData 0 []).bind fun info =>
    (init [] 0 s.memmgr.offset 0x10000000 0 false).importLiveData false info

theorem imported_of_isSome (h : s.imported.isSome = true) :
    ∃ s', Imported s (init [] 0 s.memmgr.offset 0x10000000 0 false) s' 0 false := by
  obtain ⟨s', hs'⟩ := Option.isSome_iff_exists.mp h
  obtain ⟨info, hexport, himport⟩ := Option.bind_eq_some_iff.mp hs'
  have hnone : ∀ live ∈ ([] : List LiveMem), live.owner ≠ .pf := by simp
  exact ⟨s', ⟨0, 0x10000000, 0, rfl⟩, [], info, hnone, hexport, himport⟩

def pageManager : Adapt := pfManager.step pageCall

theorem pageManager_run : Run StartsUp Calls (fun s op => PfCall s op ∧ KeepsRow s op) pageManager :=
  .next pageCall (.start pfManager_starts) ⟨⟨12, by decide⟩, fun _ _ _ => by
    show alignUp 0 0x1000 + 0x1000 < 2 ^ 64
    decide⟩ rfl

/-- Two pages behind the first one, which is freed, and half a page into its hole. -/
def refilledManager : Adapt :=
  ((pageManager.step (.allocAlign plainEnv 0x2000 0x1000 1)).step (.free 0)).step
    (.allocAlign plainEnv 0x800 0x800 0)

theorem refilledManager_run :
    Run StartsUp Calls (fun s op => PfCall s op ∧ KeepsRow s op) refilledManager := by
  have next (s : Adapt) (op : Op) (run : Run StartsUp Calls
      (fun s op => PfCall s op ∧ KeepsRow s op) s) (call : PfCall s op) (keeps : KeepsRow s op) :
      Run StartsUp Calls (fun s op => PfCall s op ∧ KeepsRow s op) (s.step op) :=
    .next op run ⟨call, keeps⟩ rfl
  refine next _ _ (next _ _ (next _ _ pageManager_run ?_ ?_) ?_ ?_) ?_ ?_
  · exact ⟨12, by decide⟩
  · exact fun _ _ _ => by unfold NoWrap; decide +kernel
  · trivial
  · have hbelow : ∀ mem ∈ (pageManager.step (.allocAlign plainEnv 0x2000 0x1000 1)).memmgr.allocs,
        mem.handle = 0 →
          mem.allocOff ≠ (pageManager.step (.allocAlign plainEnv 0x2000 0x1000 1)).memmgr.tom := by
      decide +kernel
    exact fun _ mem _ hsplit hhandle htop =>
      absurd htop (hbelow mem (hsplit ▸ mem_append_cons_self) hhandle)
  · exact ⟨11, by decide⟩
  · exact fun _ _ _ => by unfold NoWrap; decide +kernel

/-- Both blocks come back where they were. -/
theorem roundTrips_page : ∃ fresh s', Imported refilledManager fresh s' 0 false ∧
    refilledManager.memmgr.allocs.length = 2 ∧
      RoundTrips refilledManager s' refilledManager.memmgr.allocs.reverse := by
  obtain ⟨s', himported⟩ : ∃ s', Imported refilledManager
      (init [] 0 refilledManager.memmgr.offset 0x10000000 0 false) s' 0 false :=
    imported_of_isSome (by decide +kernel)
  have hexported : exported refilledManager.memmgr = refilledManager.memmgr.allocs := by
    decide +kernel
  have horder : InOrder refilledManager.memmgr refilledManager.memmgr.allocs.reverse :=
    ⟨hexported ▸ reverse_perm _, by decide +kernel⟩
  refine ⟨_, s', himported, by decide +kernel,
    (roundTrips_iff refilledManager_run himported horder).mpr ⟨?_, ?_, ?_⟩⟩
  · show endOf _ _ = _
    decide +kernel
  · intro _
    decide +kernel
  · decide +kernel

def badPageManager : Adapt :=
  pageManager.step (.allocAlignAt plainEnv 0x8000 0x1000 memEccBadPage)

/-- The bad page is dropped, but the top of memory stays above it. -/
theorem badPage_dropped : ¬∀ s fresh s' requests,
    Run StartsUp Calls (fun s op => PfCall s op ∧ KeepsRow s op) s →
      Imported s fresh s' 0 false → InOrder s.memmgr requests → RoundTrips s s' requests := by
  intro h
  have hrun : Run StartsUp Calls (fun s op => PfCall s op ∧ KeepsRow s op) badPageManager := by
    refine .next (.allocAlignAt plainEnv 0x8000 0x1000 memEccBadPage) pageManager_run
      ⟨?_, fun _ _ _ _ => ⟨?_, ?_, ?_⟩⟩ rfl
    · show pageManager.memmgr.offset ≤ (0x8000 : Addr)
      decide +kernel
    all_goals decide +kernel
  obtain ⟨s', himported⟩ : ∃ s', Imported badPageManager
      (init [] 0 badPageManager.memmgr.offset 0x10000000 0 false) s' 0 false :=
    imported_of_isSome (by decide +kernel)
  have horder : InOrder badPageManager.memmgr (exported badPageManager.memmgr) :=
    ⟨.refl _, by decide +kernel⟩
  have hrow := (h badPageManager _ s' _ hrun himported horder).row
  have hcarried := himported.carried (by decide +kernel)
  have hkept := (hcarried.kept (run_upSound hrun).1 hrow).1
  have hnot : ¬endOf badPageManager.memmgr.headOff (exported badPageManager.memmgr) =
      badPageManager.memmgr.tom := by
    decide +kernel
  exact hnot hkept

end MxGpu.Fb
