import MxGpu.EepromRows

/- What the loader makes of the records of a table: it keeps a row for each change of the page,
until the buffer has as many pages as the table can have records, and the first page of each is
written back. -/
namespace MxGpu.UmcV12.Upgrade

section Translated

variable {adapt : Adapter} {record translated : EepromTableRecord} {page : Nat}

def InFrameBuffer (adapt : Adapter) (page : Nat) : Prop :=
  adapt.totalFbInMb ≠ 0 → page * 2 ^ 12 < adapt.totalFbInMb * 2 ^ 20

theorem InFrameBuffer.mono {page' : Nat} (inside : InFrameBuffer adapt page) (le : page' ≤ page) :
    InFrameBuffer adapt page' := by
  intro known
  exact Nat.lt_of_le_of_lt (Nat.mul_le_mul_right _ le) (inside known)

def translate (adapt : Adapter) (record : EepromTableRecord) : EepromTableRecord :=
  { record with
    retiredPage := setNpsToPa (eepromRecordToPa adapt record) (getNpsFromPa record.retiredPage) }

theorem untag_translate (adapt : Adapter) (narrow : record.retiredPage < 2 ^ 48) :
    setNpsToPa (translate adapt record).retiredPage 0 = eepromRecordToPa adapt record := by
  have untagged := setNpsToPa_zero (eepromRecordToPa adapt record)
    (getNpsFromPa_lt record.retiredPage)
  rwa [setNpsToPa_of_lt (eepromRecordToPa_lt adapt narrow)] at untagged

theorem getNpsFromPa_translate (adapt : Adapter) (record : EepromTableRecord) :
    getNpsFromPa (translate adapt record).retiredPage = getNpsFromPa record.retiredPage :=
  getNpsFromPa_setNpsToPa _ (getNpsFromPa_lt _)

theorem translate_lt (narrow : record.retiredPage < 2 ^ 48) :
    (translate adapt record).retiredPage < 2 ^ 48 :=
  setNpsToPa_lt_of_lt (eepromRecordToPa_lt adapt narrow) (getNpsFromPa_lt _)

theorem checkInvalidBp_eq_some (narrow : record.retiredPage < 2 ^ 48) :
    checkInvalidBp adapt record = some translated ↔
      record.ts ≠ 0 ∧ InFrameBuffer adapt (eepromRecordToPa adapt record) ∧
        translate adapt record = translated := by
  have page := untag_translate adapt narrow
  unfold translate at page
  unfold checkInvalidBp InFrameBuffer translate
  by_cases timeless : record.ts = 0
  · simp [timeless]
  · simp only [timeless, if_false, page]
    by_cases outside : adapt.totalFbInMb ≠ 0 ∧
        adapt.totalFbInMb * 2 ^ 20 ≤ eepromRecordToPa adapt record * 2 ^ 12
    · rw [if_pos outside]
      simp only [reduceCtorEq, false_iff]
      rintro ⟨-, inside, -⟩
      exact absurd (inside outside.1) (Nat.not_lt_of_le outside.2)
    · rw [if_neg outside, Option.some.injEq]
      have inside : adapt.totalFbInMb ≠ 0 →
          eepromRecordToPa adapt record * 2 ^ 12 < adapt.totalFbInMb * 2 ^ 20 := by
        intro known
        by_contra beyond
        exact outside ⟨known, Nat.le_of_not_lt beyond⟩
      exact ⟨fun same => ⟨timeless, inside, same⟩, fun facts => facts.2.2⟩

theorem checkInvalidBp_isSome (narrow : record.retiredPage < 2 ^ 48) :
    (checkInvalidBp adapt record).isSome = true ↔
      record.ts ≠ 0 ∧ InFrameBuffer adapt (eepromRecordToPa adapt record) := by
  rw [Option.isSome_iff_exists]
  simp only [checkInvalidBp_eq_some narrow, exists_and_left, exists_eq', and_true]

end Translated

section Loop

variable {adapt : Adapter}

def accepted (adapt : Adapter) (read : List EepromTableRecord) : List EepromTableRecord :=
  read.filterMap (checkInvalidBp adapt)

def runs : Nat → List EepromTableRecord → List EepromTableRecord
  | _, [] => []
  | last, record :: rest =>
    if setNpsToPa last 0 = setNpsToPa record.retiredPage 0 then runs last rest
    else record :: runs record.retiredPage rest

/-- How many rows are loaded before the number of pages reaches the largest number of records. -/
def room (adapt : Adapter) : Nat := (adapt.maxRecordNum + 15) / 16

def loaded (adapt : Adapter) (read : List EepromTableRecord) : List EepromTableRecord :=
  (runs invMemPfn (accepted adapt read)).take (room adapt)

def rowRecords (adapt : Adapter) (record : EepromTableRecord) : List EepromTableRecord :=
  (eepromRecordToPages adapt record).map fun page => { record with retiredPage := page }

theorem rowRecords_length (adapt : Adapter) (record : EepromTableRecord) :
    (rowRecords adapt record).length = 16 := by
  rw [rowRecords, List.length_map, eepromRecordToPages_length]

theorem addBadPages_bps (memory : ∀ n, adapt.grows n = true) (read : List EepromTableRecord) :
    ∀ (data : EhData) (k : Nat), data.bps.length = 16 * k →
      (addBadPages adapt read data).bps = data.bps ++
        ((runs data.lastRetiredPfn (accepted adapt read)).take (room adapt - k)).flatMap
          (rowRecords adapt) := by
  induction read with
  | nil =>
    intro data k _
    simp [addBadPages, accepted, runs]
  | cons record rest ih =>
    intro data k rows
    unfold addBadPages
    by_cases full : adapt.maxRecordNum ≤ data.bps.length
    · have none_ : room adapt - k = 0 := by
        unfold room
        omega
      rw [if_pos full, none_, List.take_zero, List.flatMap_nil, List.append_nil]
    · rw [if_neg full]
      cases checks : checkInvalidBp adapt record with
      | none =>
        have skipped : accepted adapt (record :: rest) = accepted adapt rest :=
          List.filterMap_cons_none checks
        rw [skipped]
        exact ih data k rows
      | some translated =>
        have kept : accepted adapt (record :: rest) = translated :: accepted adapt rest :=
          List.filterMap_cons_some checks
        dsimp only
        rw [if_pos (memory _), kept, runs]
        by_cases same :
            setNpsToPa data.lastRetiredPfn 0 = setNpsToPa translated.retiredPage 0
        · rw [if_pos same, if_pos same]
          exact ih _ k rows
        · rw [if_neg same, if_neg same, if_pos (memory _)]
          have more : (updateEepromRamData adapt translated data.bps).length = 16 * (k + 1) := by
            have row := rowRecords_length adapt translated
            unfold rowRecords at row
            rw [updateEepromRamData, List.length_append, row]
            omega
          have left : room adapt - k = room adapt - (k + 1) + 1 := by
            unfold room
            omega
          rw [ih _ (k + 1) more, left, List.take_succ_cons, List.flatMap_cons,
            ← List.append_assoc]
          rfl

theorem addBadPages_romData_length (adapt : Adapter) (read : List EepromTableRecord) :
    ∀ data : EhData,
    data.romData.length ≤ (addBadPages adapt read data).romData.length := by
  induction read with
  | nil => exact fun data => le_refl _
  | cons record rest ih =>
    intro data
    unfold addBadPages
    have step (translated : EepromTableRecord) (data' : EhData)
        (grown : data'.romData = data.romData ++ [translated]) :
        data.romData.length ≤ (addBadPages adapt rest data').romData.length := by
      have more := ih data'
      rw [grown, List.length_append] at more
      omega
    split
    · exact le_refl _
    · cases checkInvalidBp adapt record with
      | none => exact ih data
      | some translated =>
        dsimp only
        split
        · split
          · exact step translated _ rfl
          · split
            · exact step translated _ rfl
            · simp
        · exact le_refl _

theorem addBadPages_of_romData_nil (read : List EepromTableRecord) : ∀ data : EhData,
    (addBadPages adapt read data).romData = [] → (addBadPages adapt read data).bps = data.bps := by
  induction read with
  | nil => exact fun _ _ => rfl
  | cons record rest ih =>
    intro data
    have kept (translated : EepromTableRecord) (data' : EhData)
        (grown : data'.romData = data.romData ++ [translated]) :
        (addBadPages adapt rest data').romData ≠ [] := by
      intro nothing
      have more := addBadPages_romData_length adapt rest data'
      rw [nothing, grown] at more
      simp at more
    unfold addBadPages
    split
    · exact fun _ => rfl
    · cases checkInvalidBp adapt record with
      | none => exact ih data
      | some translated =>
        dsimp only
        split
        · split
          · exact fun nothing => absurd nothing (kept translated _ rfl)
          · split
            · exact fun nothing => absurd nothing (kept translated _ rfl)
            · exact fun _ => rfl
        · exact fun _ => rfl

theorem addBadPages_eq (memory : ∀ n, adapt.grows n = true) (read : List EepromTableRecord) :
    (addBadPages adapt read ⟨[], [], invMemPfn⟩).bps =
      (loaded adapt read).flatMap (rowRecords adapt) :=
  addBadPages_bps memory read ⟨[], [], invMemPfn⟩ 0 rfl

end Loop

section WriteBack

variable {adapt : Adapter}

theorem getElem?_rows {α β : Type} {f : α → List β} (sixteen : ∀ a, (f a).length = 16) :
    ∀ (list : List α) (i : Nat), (list.flatMap f)[i * 16]? = list[i]?.bind fun a => (f a)[0]? := by
  intro list
  induction list with
  | nil => simp
  | cons a rest ih =>
    intro i
    rw [List.flatMap_cons]
    cases i with
    | zero =>
      rw [Nat.zero_mul, List.getElem?_append_left (by rw [sixteen]; decide)]
      rfl
    | succ i =>
      rw [List.getElem?_append_right (by rw [sixteen]; omega), sixteen, List.getElem?_cons_succ,
        ← ih i]
      congr 1
      omega

theorem length_rows {α β : Type} {f : α → List β} (sixteen : ∀ a, (f a).length = 16)
    (list : List α) : (list.flatMap f).length = 16 * list.length := by
  induction list with
  | nil => rfl
  | cons a rest ih =>
    rw [List.flatMap_cons, List.length_append, sixteen, ih, List.length_cons]
    omega

def rewritten (adapt : Adapter) (record : EepromTableRecord) : EepromTableRecord :=
  { record with retiredPage := setNpsToPa (firstPage adapt record) adapt.nps }

theorem rowRecords_first (adapt : Adapter) (record : EepromTableRecord) :
    (rowRecords adapt record)[0]? =
      some { record with retiredPage := firstPage adapt record } := by
  rw [rowRecords, List.getElem?_map, eepromRecordToPages_first]
  rfl

theorem newRecords_rows (memory : ∀ n, adapt.grows n = true) (rows : List EepromTableRecord) :
    newRecords adapt (rows.flatMap (rowRecords adapt)) = some (rows.map (rewritten adapt)) := by
  have count : (rows.flatMap (rowRecords adapt)).length / 16 = rows.length := by
    rw [length_rows (rowRecords_length adapt)]
    omega
  have upTo : ∀ n, n ≤ rows.length → (List.range n).foldlM (fun romData i =>
      if adapt.grows (romData.length + 1) then
        (rows.flatMap (rowRecords adapt))[i * 16]?.map fun record =>
          romData ++ [{ record with retiredPage := setNpsToPa record.retiredPage adapt.nps }]
      else none) [] = some ((rows.take n).map (rewritten adapt)) := by
    intro n
    induction n with
    | zero => exact fun _ => rfl
    | succ n ih =>
      intro inside
      have here : rows[n]? = some rows[n] := List.getElem?_eq_getElem inside
      have first := getElem?_rows (rowRecords_length adapt) rows n
      rw [here, Option.bind_some, rowRecords_first] at first
      rw [List.range_succ, List.foldlM_append, ih (by omega), List.take_add_one, here]
      simp only [Option.bind_eq_bind, Option.bind_some, List.foldlM_cons, memory, if_true, first,
        Option.map_some, Option.toList_some, List.map_append]
      rfl
  rw [newRecords, count, upTo _ (le_refl _), List.take_length]

theorem loadBadPages_table (memory : ∀ n, adapt.grows n = true) (read : List EepromTableRecord)
    {outcome : Outcome} (resets : outcome.resets = true) (writes : outcome.writes = true) :
    (loadBadPages adapt outcome read).2 = (loaded adapt read).map (rewritten adapt) := by
  have rows := addBadPages_eq memory read
  unfold loadBadPages
  dsimp only
  rw [if_pos resets]
  split
  · rename_i nothing
    have empty : (loaded adapt read).flatMap (rowRecords adapt) = [] := by
      rw [← rows, addBadPages_of_romData_nil _ _ nothing]
    have count := length_rows (rowRecords_length adapt) (loaded adapt read)
    rw [empty, List.length_nil] at count
    have none_ : loaded adapt read = [] := List.eq_nil_of_length_eq_zero (by omega)
    rw [none_, List.map_nil]
  · rw [rows, newRecords_rows memory]

theorem loadBadPages_bps (memory : ∀ n, adapt.grows n = true) (read : List EepromTableRecord)
    (outcome : Outcome) :
    (loadBadPages adapt outcome read).1.bps = (loaded adapt read).flatMap (rowRecords adapt) := by
  rw [← addBadPages_eq memory]
  unfold loadBadPages
  dsimp only
  split
  · split
    · rfl
    · split
      · rfl
      · rfl
  · rfl

end WriteBack

end MxGpu.UmcV12.Upgrade
