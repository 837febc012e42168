import MxGpu.ConfSave

/-!
What a later start reads from a file that a save wrote over: the saved text first, then what the
save left of the older file behind it.
-/

namespace MxGpu.Conf

open Tokens Function List

/-! What the reader makes of a file, line by line. -/

abbrev Line := Text × List Text

def confLines : List Text → List Line
  | [] => []
  | [key] => [(key, [])]
  | key :: token :: rest => (key, token :: rest) :: confLines rest

/-- The reader goes on behind the line: it knows the key, and a value is given only to an array or
a persistent option. -/
def Line.Known (line : Line) : Prop :=
  ∃ o, searchConfigKey line.1 = some o ∧
    (line.2 = [] ∨ o.info.array = true ∨ o.info.persistent = true)

def lineValues (uninit : List Text → Int) (o : ConfOpt) (line : Line) : Option (Nat → Int) :=
  if searchConfigKey line.1 = some o then
    match line.2 with
    | [] => none
    | token :: rest =>
      if o.info.array then
        some (Opts.given o (((token.splitOn 44).take maxGpuNum).map (Opts.tokenValue o)))
      else
        let value := (kstrtoint token).getD (uninit (token :: rest))
        if validOpt o value then some fun _ => value else none
  else none

def lastGiven (uninit : List Text → Int) (o : ConfOpt) (lines : List Line) :
    Option (Nat → Int) :=
  (lines.filterMap (lineValues uninit o)).getLast?

variable {uninit : List Text → Int} {s s0 : Opts} {o other : ConfOpt}
  {pieces : List Text}

theorem lastGiven_cons (line : Line) (lines : List Line) :
    lastGiven uninit o (line :: lines) =
      (lastGiven uninit o lines).or (lineValues uninit o line) := by
  unfold lastGiven
  cases here : lineValues uninit o line with
  | none => rw [filterMap_cons_none here, Option.or_none]
  | some values =>
    rw [filterMap_cons_some here, getLast?_cons]
    cases (lines.filterMap (lineValues uninit o)).getLast? <;> rfl

theorem parse_kept_iff (uninit : List Text → Int) (s : Opts) :
    (parseConfFile uninit pieces s).truncated = false ↔
      ∀ line ∈ confLines pieces, line.Known := by
  fun_induction parseConfFile uninit pieces s with
  | case1 => simp [confLines]
  | case2 key s unknown => simp [confLines, Line.Known, unknown]
  | case3 key s o found => simp [confLines, Line.Known, found]
  | case4 key token rest s unknown => simp [confLines, Line.Known, unknown]
  | case5 key token rest s o found array ih =>
    simp [confLines, Line.Known, found, array, ih]
  | case6 key token rest s o found single fleeting =>
    simp only [Bool.not_eq_true'] at fleeting
    simp [confLines, Line.Known, found, single, fleeting]
  | case7 key token rest s o found single value persistent ih =>
    simp only [Bool.not_eq_true', Bool.not_eq_false] at persistent
    simp [confLines, Line.Known, found, persistent, ih]

theorem setConfOpt_ne (apart : other ≠ o) (value : Int) : s.setConfOpt o value other = s other :=
  update_of_ne apart ..

theorem setConfOpt_value (value : Int) : ((s.setConfOpt o value) o).value 0 = value := by
  unfold Opts.setConfOpt
  simp

theorem parse_value (kept : (parseConfFile uninit pieces s).truncated = false) (o : ConfOpt)
    {i : Nat} (below : i < o.info.width) :
    ((parseConfFile uninit pieces s).opts o).value i =
      ((lastGiven uninit o (confLines pieces)).getD (s o).value) i := by
  have behind : ∀ {rest : List Text} {line : Line} {s s1 : Opts},
      ((parseConfFile uninit rest s1).opts o).value i =
        ((lastGiven uninit o (confLines rest)).getD (s1 o).value) i →
      (s1 o).value i = ((lineValues uninit o line).getD (s o).value) i →
      ((parseConfFile uninit rest s1).opts o).value i =
        ((lastGiven uninit o (line :: confLines rest)).getD (s o).value) i := by
    intro rest line s s1 tail here
    rw [tail, lastGiven_cons]
    cases lastGiven uninit o (confLines rest) with
    | none => exact here
    | some values => rfl
  fun_induction parseConfFile uninit pieces s with
  | case1 => rfl
  | case2 => cases kept
  | case3 key s o' found => simp [confLines, lastGiven, lineValues]
  | case4 => cases kept
  | case5 key token rest s o' found array ih =>
    apply behind (ih kept)
    by_cases same : o = o'
    · subst same
      simp [lineValues, found, array, Opts.handleArrayToken]
    · rw [Opts.handleArrayToken, update_of_ne same]
      simp [lineValues, found, Ne.symm same]
  | case6 => cases kept
  | case7 key token rest s o' found single value persistent ih =>
    apply behind (ih kept)
    by_cases same : o = o'
    · subst same
      have first : i = 0 := by
        simp only [OptInfo.width, single] at below
        exact Nat.lt_one_iff.mp below
      subst first
      by_cases valid : validOpt o value = true
      · rw [if_pos valid, setConfOpt_value]
        simp [lineValues, found, single, value, valid]
      · rw [if_neg valid]
        simp [lineValues, found, single, value, valid]
    · have apart : searchConfigKey key ≠ some o := by
        rw [found]
        exact fun equal => same (Option.some.inj equal).symm
      have unset : ((if validOpt o' value = true then s.setConfOpt o' value else s) o).value i =
          (s o).value i := by
        split
        · rw [setConfOpt_ne same]
        · rfl
      rw [unset]
      simp [lineValues, apart]

theorem setConfOpt_changed (value : Int) :
    (s.setConfOpt o value other).changed = (s other).changed := by
  by_cases same : other = o
  · subst same
    simp [Opts.setConfOpt]
  · rw [setConfOpt_ne same]

theorem handleArrayToken_changed (token : Text) :
    (s.handleArrayToken token o other).changed = (s other).changed := by
  by_cases same : other = o
  · subst same
    simp [Opts.handleArrayToken]
  · rw [Opts.handleArrayToken, update_of_ne same]

theorem parse_changed (kept : (parseConfFile uninit pieces s).truncated = false) (o : ConfOpt) :
    ((parseConfFile uninit pieces s).opts o).changed = (s o).changed := by
  fun_induction parseConfFile uninit pieces s with
  | case1 => rfl
  | case2 => cases kept
  | case3 => rfl
  | case4 => cases kept
  | case5 key token rest s o' found array ih => rw [ih kept, handleArrayToken_changed]
  | case6 => cases kept
  | case7 key token rest s o' found single value persistent ih =>
    rw [ih kept]
    split
    · exact setConfOpt_changed value
    · rfl

/-! The saved lines. -/

/-- The tokens a save prints for one option, and what the reader does with them. -/
def readLine (s s0 : Opts) (o : ConfOpt) : Opts :=
  if o.info.array then s0.handleArrayToken (s.valueText o) o
  else s0.setConfOpt o ((s o).value 0)

/-- The values a save keeps: behind the last index that was set, an array has that value. -/
def savedValue (s : Opts) (o : ConfOpt) (i : Nat) : Int :=
  (s o).value (min i (if o.info.array then (s o).repeatValIdx - 1 else 0))

theorem name_token (persistent : o.info.persistent = true) : Token isDelimiter o.info.name := by
  revert persistent
  cases o <;> intro persistent <;> first
    | exact absurd persistent (by decide)
    | exact ⟨by decide +kernel, by decide +kernel⟩

theorem search_name (persistent : o.info.persistent = true) :
    searchConfigKey o.info.name = some o := by
  revert persistent
  cases o <;> decide

theorem mem_valueText {c : UInt8} (member : c ∈ s.valueText o) :
    (∃ i < o.info.width, c ∈ printInt ((s o).value i)) ∨ c = 44 := by
  rcases mem_append.mp member with first | rest
  · exact Or.inl ⟨0, width_pos, first⟩
  · obtain ⟨i, index, rest⟩ := mem_flatMap.mp rest
    rcases mem_cons.mp rest with comma | rest
    · exact Or.inr comma
    · exact Or.inl ⟨i, indices_lt index, rest⟩

theorem InRange.value_token (inRange : InRange s) (persistent : o.info.persistent = true) :
    Token isDelimiter (s.valueText o) := by
  constructor
  · intro empty
    exact (inRange.printed persistent width_pos).some (append_eq_nil_iff.mp empty).1
  · intro c member
    rcases mem_valueText member with ⟨i, below, printed⟩ | rfl
    · exact ((inRange.printed persistent below).free c printed).1
    · rfl

theorem InRange.tokens_line (inRange : InRange s) (persistent : o.info.persistent = true)
    (rest : Text) :
    tokens isDelimiter (s.line o ++ rest) =
      o.info.name :: s.valueText o :: tokens isDelimiter rest := by
  have layout : s.line o ++ rest = o.info.name ++ 61 :: (s.valueText o ++ 10 :: rest) := by
    simp [Opts.line]
  rw [layout, (name_token persistent).tokens_cons (by decide),
    (inRange.value_token persistent).tokens_cons (by decide)]

theorem valueText_single (single : ¬o.info.array = true) :
    s.valueText o = printInt ((s o).value 0) := by
  unfold Opts.valueText Opts.indices
  rw [if_neg single, flatMap_nil, append_nil]
  rfl

theorem InRange.parse_line (inRange : InRange s) (persistent : o.info.persistent = true)
    (rest : List Text) :
    parseConfFile uninit (o.info.name :: s.valueText o :: rest) s0 =
      parseConfFile uninit rest (readLine s s0 o) := by
  rw [parseConfFile, search_name persistent]
  dsimp only
  unfold readLine
  by_cases array : o.info.array = true
  · rw [if_pos array, if_pos array]
  · have valid := (inRange o persistent).valid 0 width_pos
    rw [if_neg array, if_neg array, if_neg (by simp [persistent]), valueText_single array,
      (inRange.printed persistent width_pos).reads, Option.getD_some, if_pos valid]

theorem InRange.parse_lines (inRange : InRange s) {os : List ConfOpt}
    (persistent : ∀ o ∈ os, o.info.persistent = true) (rest : Text) :
    parseConfFile uninit (tokens isDelimiter (os.flatMap s.line ++ rest)) s0 =
      parseConfFile uninit (tokens isDelimiter rest) (os.foldl (readLine s) s0) := by
  induction os generalizing s0 with
  | nil => rfl
  | cons o os ih =>
    have here := persistent o mem_cons_self
    rw [flatMap_cons, append_assoc, inRange.tokens_line here, inRange.parse_line here,
      ih fun other member => persistent other (mem_cons_of_mem o member), foldl_cons]

theorem splitOn_pieces {f : Nat → Text} {first : Text} (is : List Nat)
    (free : ∀ c ∈ first, c ≠ 44) (frees : ∀ i ∈ is, ∀ c ∈ f i, c ≠ 44) :
    (first ++ is.flatMap fun i => 44 :: f i).splitOn 44 = first :: is.map f := by
  induction is generalizing first with
  | nil =>
    rw [flatMap_nil, append_nil, map_nil]
    exact splitOn_eq_singleton fun member => free 44 member rfl
  | cons i is ih =>
    rw [flatMap_cons, cons_append,
      splitOn_append_cons_self_of_not_mem (fun member => free 44 member rfl),
      ih (frees i mem_cons_self) fun j member => frees j (mem_cons_of_mem i member),
      map_cons]

theorem InRange.readLine_value (inRange : InRange s) (persistent : o.info.persistent = true)
    {i : Nat} (below : i < o.info.width) :
    (readLine s s0 o o).value i = savedValue s o i := by
  unfold readLine savedValue
  by_cases array : o.info.array = true
  · obtain ⟨given, few⟩ := (inRange o persistent).given array
    have all : 0 :: s.indices o = range (s o).repeatValIdx := by
      unfold Opts.indices
      rw [if_pos array, Nat.min_eq_right few, range_eq_range',
        show (s o).repeatValIdx = ((s o).repeatValIdx - 1) + 1 by omega, range'_succ]
      rfl
    have free : ∀ j < o.info.width, ∀ c ∈ s.piece o j, c ≠ 44 := fun j inside c member =>
      ((inRange.printed persistent inside).free c member).2.1
    have pieces : (s.valueText o).splitOn 44 =
        (range (s o).repeatValIdx).map (s.piece o) := by
      rw [← all, map_cons]
      exact splitOn_pieces _ (free 0 width_pos) fun j member => free j (indices_lt member)
    have reads : ∀ j ∈ range (s o).repeatValIdx,
        Opts.tokenValue o (s.piece o j) = (s o).value j := by
      intro j member
      have inside : j < o.info.width := by
        unfold OptInfo.width
        rw [if_pos array]
        exact Nat.lt_of_lt_of_le (mem_range.mp member) few
      unfold Opts.tokenValue Opts.piece
      rw [(inRange.printed persistent inside).reads]
      dsimp only
      rw [if_pos ((inRange o persistent).valid j inside)]
    have values : (((s.valueText o).splitOn 44).take maxGpuNum).map (Opts.tokenValue o) =
        (range (s o).repeatValIdx).map (s o).value := by
      rw [pieces, take_of_length_le (by simpa using few), map_map]
      exact map_congr_left reads
    rw [if_pos array, if_pos array]
    unfold Opts.handleArrayToken
    rw [values, update_self]
    show Opts.given o _ i = _
    unfold Opts.given
    rw [getD_eq_getElem?_getD]
    by_cases set : i < (s o).repeatValIdx
    · rw [getElem?_map, getElem?_range set, Nat.min_eq_left (by omega)]
      rfl
    · rw [getElem?_eq_none (by simpa using set), Nat.min_eq_right (by omega),
        getLast?_map, getLast?_range, if_neg (by omega)]
      rfl
  · have first : i = 0 := by
      simp only [OptInfo.width, array] at below
      exact Nat.lt_one_iff.mp below
    rw [if_neg array, if_neg array, first, setConfOpt_value]
    rfl

theorem readLine_ne (apart : other ≠ o) : readLine s s0 o other = s0 other := by
  unfold readLine
  split
  · exact update_of_ne apart ..
  · exact setConfOpt_ne apart _

theorem readLine_changed : (readLine s s0 o other).changed = (s0 other).changed := by
  unfold readLine
  split
  · exact handleArrayToken_changed _
  · exact setConfOpt_changed _

theorem foldl_readLine_changed (os : List ConfOpt) :
    (os.foldl (readLine s) s0 other).changed = (s0 other).changed := by
  induction os generalizing s0 with
  | nil => rfl
  | cons o os ih => rw [foldl_cons, ih, readLine_changed]

theorem InRange.foldl_readLine (inRange : InRange s) (persistent : o.info.persistent = true)
    {i : Nat} (below : i < o.info.width) {os : List ConfOpt}
    (read : o ∈ os ∨ (s0 o).value i = savedValue s o i) :
    (os.foldl (readLine s) s0 o).value i = savedValue s o i := by
  induction os generalizing s0 with
  | nil => exact read.resolve_left not_mem_nil
  | cons first os ih =>
    apply ih
    by_cases same : o = first
    · subst same
      exact Or.inr (inRange.readLine_value persistent below)
    · rw [readLine_ne same]
      exact read.imp_left fun member => (mem_cons.mp member).resolve_left same

/-- What the older file still gives behind the saved text: every line is one the reader takes, and
an option has its values from the last line for it or from the save. -/
structure ReadsBack (uninit : List Text → Int) (s : Opts) (rest : Text) : Prop where
  known : ∀ line ∈ confLines (tokens isDelimiter (cstring rest)), line.Known
  kept : ∀ o : ConfOpt, o.info.persistent = true → ∀ i < o.info.width,
    (lastGiven uninit o (confLines (tokens isDelimiter (cstring rest)))).getD (savedValue s o) i =
      (s o).value i

/-- A start from the file that a save of `s` leaves: it does not throw the file away, and every
persistent option has the values it had. -/
def Restored (uninit : List Text → Int) (s : Opts) (old : Text) : Prop :=
  (confInit uninit [] (confSave s (some old))).truncated = false ∧
    ∀ o : ConfOpt, o.info.persistent = true → ∀ i < o.info.width,
      ((confInit uninit [] (confSave s (some old))).opts o).value i = (s o).value i

theorem InRange.text_ends (inRange : InRange s) : ∀ c ∈ s.text, (c != 0) = true := by
  intro c member
  obtain ⟨o, written, member⟩ := mem_flatMap.mp member
  have persistent := (mem_filter.mp written).2
  have name : ∀ o : ConfOpt, o.info.persistent = true → ∀ c ∈ o.info.name, (c != 0) = true := by
    intro o
    cases o <;> decide +kernel
  rcases mem_append.mp member with named | member
  · exact name o persistent c named
  · rcases mem_cons.mp member with rfl | member
    · rfl
    · rcases mem_append.mp member with printed | last
      · rcases mem_valueText printed with ⟨i, below, printed⟩ | rfl
        · exact bne_iff_ne.mpr ((inRange.printed persistent below).free c printed).2.2
        · rfl
      · rw [mem_singleton.mp last]
        rfl

theorem saved_persistent : ∀ o ∈ saved, o.info.persistent = true := fun _ written =>
  (mem_filter.mp written).2

theorem mem_saved (persistent : o.info.persistent = true) : o ∈ saved := by
  revert persistent
  cases o <;> decide

def afterSaved (s : Opts) : Opts := saved.foldl (readLine s) Opts.defaults

theorem InRange.parse_saved (inRange : InRange s) (rest : Text) :
    parseConfFile uninit (tokens isDelimiter (cstring (s.text ++ rest))) Opts.defaults =
      parseConfFile uninit (tokens isDelimiter (cstring rest)) (afterSaved s) := by
  have ends : cstring (s.text ++ rest) = s.text ++ cstring rest :=
    takeWhile_append_of_pos inRange.text_ends
  rw [ends]
  exact inRange.parse_lines saved_persistent (cstring rest)

theorem InRange.init_saved (inRange : InRange s) (uninit : List Text → Int) (old : Text) :
    let parsed := parseConfFile uninit
      (tokens isDelimiter (cstring (old.drop s.text.length))) (afterSaved s)
    let started := confInit uninit [] (confSave s (some old))
    started.truncated = parsed.truncated ∧
      (parsed.truncated = false → started.opts = parsed.opts) := by
  intro parsed started
  have file : confSave s (some old) = some (s.text ++ old.drop s.text.length) := by
    unfold confSave writeConfFile
    rw [inRange.saveBuf_eq]
    rfl
  have read : parseConfFile uninit
      (tokens isDelimiter (cstring (s.text ++ old.drop s.text.length))) Opts.defaults = parsed :=
    inRange.parse_saved _
  have init : started = confInit uninit [] (some (s.text ++ old.drop s.text.length)) := by
    show confInit uninit [] (confSave s (some old)) = _
    rw [file]
  rw [init]
  unfold confInit
  dsimp only
  rw [read]
  refine ⟨rfl, fun kept => ?_⟩
  have unchanged : (parsed.opts .vfNumber).changed = false := by
    show ((parseConfFile uninit _ (afterSaved s)).opts .vfNumber).changed = false
    rw [parse_changed kept]
    unfold afterSaved
    rw [foldl_readLine_changed]
    rfl
  show Opts.clearSavedPersistConfig parsed.opts false = parsed.opts
  unfold Opts.clearSavedPersistConfig
  simp [unchanged]

/-- Whatever the file held, a save fits its buffer, and a later start reads back what was saved
exactly when the text that the save leaves behind its own agrees with it. -/
theorem saved_reads_back (uninit : List Text → Int) {s : Opts} (reachable : Reachable s)
    (old : Text) :
    s.saveBuf.cursor < maxConfigFileLength ∧
      (Restored uninit s old ↔ ReadsBack uninit s (old.drop s.saveBuf.text.length)) := by
  have inRange := reachable.inRange
  rw [inRange.saveBuf_eq]
  refine ⟨inRange.text_length, ?_⟩
  obtain ⟨truncated, opts⟩ := inRange.init_saved uninit old
  have value : ∀ {i : Nat}, (parseConfFile uninit
      (tokens isDelimiter (cstring (old.drop s.text.length))) (afterSaved s)).truncated = false →
      ∀ o : ConfOpt, o.info.persistent = true → i < o.info.width →
        ((confInit uninit [] (confSave s (some old))).opts o).value i =
          (lastGiven uninit o (confLines
            (tokens isDelimiter (cstring (old.drop s.text.length))))).getD (savedValue s o) i := by
    intro i kept o persistent below
    rw [opts kept, parse_value kept o below]
    cases lastGiven uninit o _ with
    | some values => rfl
    | none => exact inRange.foldl_readLine persistent below (Or.inl (mem_saved persistent))
  constructor
  · rintro ⟨kept, same⟩
    rw [truncated] at kept
    refine ⟨(parse_kept_iff uninit _).mp kept, fun o persistent i below => ?_⟩
    rw [← value kept o persistent below]
    exact same o persistent i below
  · rintro ⟨known, same⟩
    have kept := (parse_kept_iff uninit (afterSaved s)).mpr known
    refine ⟨truncated.trans kept, fun o persistent i below => ?_⟩
    rw [value kept o persistent below]
    exact same o persistent i below

def tenEach : Text := ascii
  "vf_num=10,10\naccelerator_partition_mode=0\nmemory_partition_mode=0\ncc_mode=3\n"

def oneEach : Opts := (confInit (fun _ => 0) [.array .vfNumber [1, 1]] (some tenEach)).opts

def fiveFirst : Opts :=
  (confSetOpt (confInit (fun _ => 0) [] (some [])).opts (some []) .vfNumber 5).2.1

example : oneEach.saveBuf.text = ascii
    "vf_num=1,1\naccelerator_partition_mode=0\nmemory_partition_mode=0\ncc_mode=3\n" := by
  decide +kernel

theorem oneEach_reachable : Reachable oneEach := Reachable.start ..

theorem saved_reads_back_fresh :
    oneEach.saveBuf.cursor < maxConfigFileLength ∧
      (Restored (fun _ => 0) oneEach [] ↔
        ReadsBack (fun _ => 0) oneEach (([] : Text).drop oneEach.saveBuf.text.length)) :=
  saved_reads_back (fun _ => 0) (Reachable.start _ _ _) []

/-- The shorter text leaves the end of the longer one in the file, and the next start throws the
file away; and one value set for the first GPU is read back for all of them. -/
theorem save_not_read_back :
    (¬∀ (uninit : List Text → Int) (s : Opts), Reachable s → ∀ old, Restored uninit s old) ∧
      ¬Restored (fun _ => 0) oneEach tenEach ∧
        ¬Restored (fun _ => 0) fiveFirst [] := by
  have discarded : ¬Restored (fun _ => 0) oneEach tenEach := by
    rintro ⟨kept, -⟩
    exact absurd kept (by decide +kernel)
  refine ⟨fun claim => ?_, discarded, ?_⟩
  · exact discarded (claim _ _ oneEach_reachable _)
  · rintro ⟨-, same⟩
    exact absurd (same .vfNumber rfl 1 (by decide)) (by decide +kernel)

end MxGpu.Conf
