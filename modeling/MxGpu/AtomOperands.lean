import MxGpu.AtomFrames

/-
The words that operations of the interpreter have as their destinations: what reading one finds, and
what an operation should put there.
-/

namespace MxGpu.Atom

open Checked

/-- `atom_put_dst` with the place behind the operand, which no operation looks at. -/
def atomPutDstPtr (env : Env) (arg : Arg) (align : Align) (ptr : Nat) (val saved : Word) :
    M Nat := do
  atomPutDst env arg align ptr val saved
  pure (match arg with
    | .reg => ptr + 2
    | .ps | .ws | .fb | .pll | .mc => ptr + 1
    | .id | .imm => ptr)

def Align.width : Align → Nat
  | .dword => 32
  | .word0 | .word8 | .word16 => 16
  | .byte0 | .byte8 | .byte16 | .byte24 => 8

def Align.field (align : Align) (word : Word) : Word := (word &&& align.mask) >>> align.shift

/-- A word in which only the selected bits have changed, to a result without what is too high. -/
structure Changed (align : Align) (before after result : Word) : Prop where
  field : (align.field after).toNat = result.toNat % 2 ^ align.width
  others : ∀ i, i < align.shift ∨ align.shift + align.width ≤ i →
    after.getLsbD i = before.getLsbD i

section Fields

theorem Align.fits (align : Align) : align.shift + align.width ≤ 32 := by
  cases align <;> decide

theorem Align.mask_bit (align : Align) {i : Nat} (inside : i < 32) :
    align.mask.getLsbD i = decide (align.shift ≤ i ∧ i < align.shift + align.width) := by
  revert i
  cases align <;> decide

theorem field_bit (align : Align) (word : Word) (j : Nat) :
    (align.field word).getLsbD j = (decide (j < align.width) && word.getLsbD (align.shift + j)) := by
  unfold Align.field
  rw [BitVec.getLsbD_ushiftRight, BitVec.getLsbD_and]
  by_cases inside : align.shift + j < 32
  · rw [align.mask_bit inside, Bool.and_comm]
    congr 1
    apply decide_eq_decide.mpr
    omega
  · rw [BitVec.getLsbD_of_ge word _ (by omega), Bool.false_and, Bool.and_false]

/-- The word that `atom_put_dst` puts together. -/
def combined (align : Align) (val saved : Word) : Word :=
  ((val <<< align.shift) &&& align.mask) ||| (saved &&& ~~~align.mask)

theorem combined_bit (align : Align) (val saved : Word) {i : Nat} (inside : i < 32) :
    (combined align val saved).getLsbD i =
      if align.shift ≤ i ∧ i < align.shift + align.width then val.getLsbD (i - align.shift)
      else saved.getLsbD i := by
  unfold combined
  rw [BitVec.getLsbD_or, BitVec.getLsbD_and, BitVec.getLsbD_and, BitVec.getLsbD_not,
    BitVec.getLsbD_shiftLeft, align.mask_bit inside]
  split
  case isTrue selected =>
    simp [selected, inside, Nat.not_lt.mpr selected.1]
  case isFalse other =>
    simp [other, inside]

theorem combined_changed (align : Align) (val saved : Word) :
    Changed align saved (combined align val saved) val := by
  have fits := align.fits
  constructor
  · apply Nat.eq_of_testBit_eq
    intro j
    rw [BitVec.testBit_toNat, field_bit, Nat.testBit_mod_two_pow, BitVec.testBit_toNat]
    by_cases inside : j < align.width
    · have selected : align.shift ≤ align.shift + j ∧
          align.shift + j < align.shift + align.width := by omega
      rw [combined_bit align val saved (by omega), if_pos selected, Nat.add_sub_cancel_left]
    · simp [inside]
  · intro i outside
    by_cases inside : i < 32
    · rw [combined_bit align val saved inside, if_neg (by omega)]
    · rw [BitVec.getLsbD_of_ge _ _ (by omega), BitVec.getLsbD_of_ge _ _ (by omega)]

end Fields

section Words

variable (env : Env)

def Exec.cell (e : Exec) (idx : Nat) : Option Word := e.frame.ws.bind fun work => work.cells[idx]?

/-- What an index of the work space stands for: a field of the context or a cell. -/
def WorkWas (idx : Nat) (word : Word) (e : Exec) : Prop :=
  match e.context.workField env idx with
  | some val => word = val
  | none => idx < e.frame.table.wsSize → e.cell idx = some word

/-- What an operand that can be a destination holds: a parameter, a cell of the work space or a field
of the context, or else what the card answers. -/
def Was (arg : Arg) (ptr : Nat) (word : Word) (e : Exec) : Prop :=
  match arg with
  | .ps => env.u8 ptr < e.frame.table.psSize →
      e.params[e.frame.table.ps + env.u8 ptr]? = some word
  | .ws => WorkWas env (env.u8 ptr) word e
  | .reg =>
    match e.context.ioMode with
    | 0 => word = env.read e.reads
    | mode => ∃ after, atomIioExecute env
        (BitVec.ofNat 32 (env.u16 ptr) + e.context.regBlock.setWidth 32) 0 env.fuel
        (e.context.iio (mode &&& 0x7f)) unset e = .ok (word, after)
  | .fb | .pll | .mc => word = env.read e.reads
  | .id | .imm => True

/-- What the indices of the work space keep of a word; the two masks cannot be written. -/
def workKept (idx : Nat) (word : Word) : Option Word :=
  match idx with
  | 0x42 | 0x47 | 0x48 => some ((word.setWidth 16).setWidth 32)
  | 0x43 => some ((word.setWidth 8).setWidth 32)
  | 0x44 | 0x45 => none
  | _ => some word

/-- What a place of the work space takes of a word, and that nothing else changes. -/
def WorkTook (idx : Nat) (word : Word) (e e' : Exec) : Prop :=
  e'.params = e.params ∧ (∀ i, i ≠ idx → e'.cell i = e.cell i) ∧
    (∀ i, i ≠ idx → i ≠ 0x44 → i ≠ 0x45 →
      e'.context.workField env i = e.context.workField env i) ∧
    match workKept idx word with
    | some kept => WorkWas env idx kept e'
    | none => e'.context = e.context ∧ e'.frame.ws = e.frame.ws

/-- What a destination takes of a word, and that nothing else changes. -/
def Took (arg : Arg) (ptr : Nat) (word : Word) (e e' : Exec) : Prop :=
  match arg with
  | .ps => e'.context = e.context ∧ e'.frame.ws = e.frame.ws ∧
      e'.params = if env.u8 ptr < e.frame.table.psSize then
        e.params.set (e.frame.table.ps + env.u8 ptr) word else e.params
  | .ws => WorkTook env (env.u8 ptr) word e e'
  | .reg => e'.context = e.context ∧ e'.params = e.params ∧ e'.frame.ws = e.frame.ws ∧
      let idx := BitVec.ofNat 32 (env.u16 ptr) + e.context.regBlock.setWidth 32
      match e.context.ioMode with
      | 0 => e'.card.getLast? = some (.regWrite idx (if idx = 0 then word <<< 2 else word))
      | 1 => True
      | 2 => True
      | mode => mode &&& 0x80 = 0 ∨ e.context.iio (mode &&& 0xff) = 0 ∨
          ∃ before temp, atomIioExecute env idx word env.fuel (e.context.iio (mode &&& 0xff))
            unset before = .ok (temp, e')
  | .fb => e'.context = e.context ∧ e'.params = e.params ∧ e'.frame.ws = e.frame.ws ∧
      e'.card.getLast? =
        some (.fbWrite (e.context.fbBase + BitVec.ofNat 32 (4 * env.u8 ptr)) word)
  | .pll => e'.context = e.context ∧ e'.params = e.params ∧ e'.frame.ws = e.frame.ws ∧
      e'.card.getLast? = some (.pllWrite (env.u8 ptr) word)
  | .mc => e'.context = e.context ∧ e'.params = e.params ∧ e'.frame.ws = e.frame.ws ∧
      e'.card.getLast? = some (.mcWrite (env.u8 ptr) word)
  | .id | .imm => True

def Readable (c : Context) : Arg → Prop
  | .reg => c.ioMode = 0 ∨
      c.ioMode ≠ 1 ∧ c.ioMode ≠ 2 ∧ c.ioMode &&& 0x80 ≠ 0 ∧ c.iio (c.ioMode &&& 0x7f) ≠ 0
  | _ => True

end Words

section Results

variable (env : Env)

def Opcode.dest (attr : Nat) : Opcode → Option (Arg × Align)
  | .move arg | .bitAnd arg | .bitOr arg | .xor arg | .add arg | .sub arg | .mask arg | .shl arg
  | .shr arg => some (arg, dstAlign attr)
  | .clear arg | .shiftLeft arg | .shiftRight arg => some (arg, defAlign attr)
  | _ => none

/-- A move of a whole word does not read its destination. -/
def Opcode.overwrites (attr : Nat) : Opcode → Prop
  | .move _ => Align.ofAttr attr = .dword
  | _ => False

def Opcode.source (attr ptr : Nat) : Opcode → M (Word × Src)
  | .clear _ => pure (0, ⟨0, none, ptr⟩)
  | .shiftLeft _ | .shiftRight _ => pure (0, atomGetSrcDirect env .byte0 ptr)
  | .mask _ => do
    let mask := atomGetSrcDirect env (Align.ofAttr attr) ptr
    let src ← atomGetSrc env attr mask.ptr
    pure (mask.val, src)
  | _ => do
    let src ← atomGetSrc env attr ptr
    pure (0, src)

def Opcode.sourceEnd (attr ptr : Nat) : Opcode → Nat
  | .clear _ => ptr
  | .shiftLeft _ | .shiftRight _ => ptr + 1
  | .mask _ => atomSkipSrcInt env (Arg.ofAttr attr) (Align.ofAttr attr)
      (atomSkipSrcInt env .imm (Align.ofAttr attr) ptr)
  | _ => atomSkipSrcInt env (Arg.ofAttr attr) (Align.ofAttr attr) ptr

/-- The result of an operation, from the word that its destination holds, the mask and the source:
the shifts `shl` and `shr` are of the whole word, the others of the field. -/
def Opcode.result (align : Align) (word mask src : Word) : Opcode → Word
  | .move _ => src
  | .bitAnd _ => align.field word &&& src
  | .bitOr _ => align.field word ||| src
  | .xor _ => align.field word ^^^ src
  | .add _ => align.field word + src
  | .sub _ => align.field word - src
  | .mask _ => (align.field word &&& mask) ||| src
  | .shiftLeft _ => align.field word <<< src.toNat
  | .shiftRight _ => align.field word >>> src.toNat
  | .shl _ => align.field (word <<< (src.setWidth 8).toNat)
  | .shr _ => align.field (word >>> (src.setWidth 8).toNat)
  | _ => 0

def Opcode.Narrow (src : Word) : Opcode → Prop
  | .shiftLeft _ | .shiftRight _ => src.toNat < 32
  | .shl _ | .shr _ => (src.setWidth 8).toNat < 32
  | _ => True

end Results

section Reading

variable {env : Env} {arg : Arg} {align : Align} {ptr : Nat} {e e' : Exec}

theorem bind_ok {α β : Type} {prog : M α} {next : α → M β} {result : β}
    (done : (prog >>= next) e = .ok (result, e')) :
    ∃ first between, prog e = .ok (first, between) ∧ next first between = .ok (result, e') := by
  change (prog e >>= fun pair => next pair.1 pair.2) = .ok (result, e') at done
  cases ran : prog e with
  | error stop =>
    rw [ran] at done
    cases done
  | ok pair =>
    rw [ran] at done
    exact ⟨pair.1, pair.2, rfl, done⟩

/-- Reading leaves all but the requests to the card and the abort flag alone. -/
structure SameCells (e e' : Exec) : Prop where
  context : e'.context = e.context
  params : e'.params = e.params
  table : e'.frame.table = e.frame.table
  ws : e'.frame.ws = e.frame.ws

theorem SameCells.refl (e : Exec) : SameCells e e := ⟨rfl, rfl, rfl, rfl⟩

theorem SameCells.trans {e'' : Exec} (first : SameCells e e') (second : SameCells e' e'') :
    SameCells e e'' :=
  ⟨second.context.trans first.context, second.params.trans first.params,
    second.table.trans first.table, second.ws.trans first.ws⟩

abbrev Reads {α : Type} (e : Exec) (prog : M α) : Prop :=
  Holds (fun _ => True) (SameCells e) prog fun _ => True

theorem Reads.same {α : Type} {prog : M α} {result : α} (reads : Reads e prog)
    (done : prog e = .ok (result, e')) : SameCells e e' := by
  have kept := reads e (.refl e)
  rw [done] at kept
  exact kept.1

theorem reads_iio (e : Exec) (index data : Word) (fuel base : Nat) (temp : Word) :
    Reads e (atomIioExecute env index data fuel base temp) := by
  have asks : ∀ access, Reads e (cardRead env access) := fun access =>
    Holds.step fun _ same => ⟨same.trans ⟨rfl, rfl, rfl, rfl⟩, trivial⟩
  have tells : ∀ access, Reads e (cardWrite access) := fun access =>
    Holds.step fun _ same => ⟨same.trans ⟨rfl, rfl, rfl, rfl⟩, trivial⟩
  induction fuel generalizing base temp with
  | zero => exact Holds.stop trivial
  | succ fuel ih =>
    unfold atomIioExecute
    split
    · exact ih _ _
    · exact (asks _).bind fun _ _ => ih _ _
    · exact (tells _).bind fun _ _ => ih _ _
    · exact ih _ _
    · exact ih _ _
    · exact ih _ _
    · exact Holds.read fun _ _ => ih _ _
    · exact ih _ _
    · exact Holds.pure trivial
    · exact Holds.pure trivial

theorem regRead_spec {found : Option Word}
    (done : atomRegRead env (BitVec.ofNat 32 (env.u16 ptr) + e.context.regBlock.setWidth 32) e =
      .ok (found, e')) :
    SameCells e e' ∧ (∀ word, found = some word → Was env .reg ptr word e) ∧
      (Readable e.context .reg → found ≠ none) := by
  unfold atomRegRead at done
  obtain ⟨_, _, got, done⟩ := bind_ok done
  cases got
  generalize mode : e.context.ioMode = m at done
  match m, mode, done with
  | 0, mode, done =>
    obtain ⟨val, between, read, rest⟩ := bind_ok done
    cases read
    cases rest
    refine ⟨⟨rfl, rfl, rfl, rfl⟩, fun word same => ?_, fun _ => nofun⟩
    cases same
    unfold Was
    dsimp only
    rw [mode]
    rfl
  | 1, mode, done =>
    cases done
    refine ⟨.refl e, nofun, fun readable => ?_⟩
    rcases readable with direct | ⟨other, -⟩
    · omega
    · exact absurd mode other
  | 2, mode, done =>
    cases done
    refine ⟨.refl e, nofun, fun readable => ?_⟩
    rcases readable with direct | ⟨-, other, -⟩
    · omega
    · exact absurd mode other
  | m + 3, mode, done =>
    change (if (m + 3) &&& 0x80 = 0 then _ else if e.context.iio ((m + 3) &&& 0x7f) = 0 then _
      else _ : M (Option Word)) e = _ at done
    by_cases bad : (m + 3) &&& 0x80 = 0
    · rw [if_pos bad] at done
      cases done
      refine ⟨.refl e, nofun, fun readable => ?_⟩
      rcases readable with direct | ⟨-, -, good, -⟩
      · omega
      · exact absurd (mode ▸ bad) good
    rw [if_neg bad] at done
    by_cases missing : e.context.iio ((m + 3) &&& 0x7f) = 0
    · rw [if_pos missing] at done
      cases done
      refine ⟨.refl e, nofun, fun readable => ?_⟩
      rcases readable with direct | ⟨-, -, -, there⟩
      · omega
      · exact absurd (mode ▸ missing) there
    rw [if_neg missing] at done
    obtain ⟨val, between, ran, rest⟩ := bind_ok done
    cases rest
    refine ⟨(reads_iio e _ _ _ _ _).same ran, fun word same => ?_, fun _ => nofun⟩
    cases same
    unfold Was
    dsimp only
    rw [mode]
    exact ⟨_, ran⟩

theorem getPs_spec {word : Word} (done : atomGetPs (env.u8 ptr) e = .ok (word, e')) :
    SameCells e e' ∧ Was env .ps ptr word e := by
  obtain ⟨_, _, got, done⟩ := bind_ok done
  cases got
  by_cases outside : e.frame.table.psSize ≤ env.u8 ptr
  · rw [if_pos outside] at done
    obtain ⟨_, _, aborted, rest⟩ := bind_ok done
    cases aborted
    cases rest
    exact ⟨⟨rfl, rfl, rfl, rfl⟩, fun inside => absurd inside (Nat.not_lt.mpr outside)⟩
  · rw [if_neg outside] at done
    unfold paramRead at done
    rw [if_pos (Nat.lt_of_not_le outside)] at done
    cases there : e.params[e.frame.table.ps + env.u8 ptr]? with
    | none =>
      rw [there] at done
      cases done
    | some val =>
      rw [there] at done
      cases done
      exact ⟨.refl e, fun _ => there⟩

theorem getWs_spec {word : Word} (done : atomGetWs env (env.u8 ptr) e = .ok (word, e')) :
    SameCells e e' ∧ Was env .ws ptr word e := by
  obtain ⟨_, _, got, done⟩ := bind_ok done
  cases got
  unfold Was WorkWas
  dsimp only
  cases field : e.context.workField env (env.u8 ptr) with
  | some val =>
    rw [field] at done
    cases done
    exact ⟨.refl e, rfl⟩
  | none =>
    rw [field] at done
    dsimp only at done ⊢
    by_cases outside : e.frame.table.wsSize ≤ env.u8 ptr
    · rw [if_pos outside] at done
      obtain ⟨_, _, aborted, rest⟩ := bind_ok done
      cases aborted
      cases rest
      exact ⟨⟨rfl, rfl, rfl, rfl⟩, fun inside => absurd inside (Nat.not_lt.mpr outside)⟩
    · rw [if_neg outside] at done
      unfold workRead at done
      unfold Exec.cell
      cases space : e.frame.ws with
      | none =>
        rw [space] at done
        cases done
      | some work =>
        rw [space] at done
        dsimp only at done
        cases there : work.cells[env.u8 ptr]? with
        | none =>
          rw [there] at done
          cases done
        | some val =>
          rw [there] at done
          cases done
          exact ⟨.refl e, fun _ => there⟩

theorem getSrcInt_spec {src : Src} (done : atomGetSrcInt env arg align ptr e = .ok (src, e')) :
    src.ptr = atomSkipSrcInt env arg align ptr ∧ SameCells e e' ∧
      (∀ word, src.saved = some word → src.val = align.field word ∧ Was env arg ptr word e) ∧
      (Readable e.context arg → arg ≠ .imm → src.saved ≠ none) := by
  -- what the card answers
  have answered : ∀ {access : CardAccess}, (do
      let val ← cardRead env access
      pure (aligned align val (ptr + 1)) : M Src) e = .ok (src, e') →
      src = aligned align (env.read e.reads) (ptr + 1) ∧ SameCells e e' := by
    intro access ran
    obtain ⟨val, between, read, rest⟩ := bind_ok ran
    cases read
    cases rest
    exact ⟨rfl, rfl, rfl, rfl, rfl⟩
  cases arg with
  | reg =>
    obtain ⟨_, _, got, done⟩ := bind_ok done
    cases got
    obtain ⟨found, between, read, rest⟩ := bind_ok done
    cases rest
    obtain ⟨same, held, there⟩ := regRead_spec read
    cases found with
    | none => exact ⟨rfl, same, nofun, fun readable => absurd rfl (there readable)⟩
    | some val =>
      refine ⟨rfl, same, fun word saved => ?_, fun _ _ => nofun⟩
      cases saved
      exact ⟨rfl, held val rfl⟩
  | ps =>
    obtain ⟨val, between, read, rest⟩ := bind_ok done
    cases rest
    obtain ⟨same, held⟩ := getPs_spec read
    refine ⟨rfl, same, fun word saved => ?_, fun _ _ => nofun⟩
    cases saved
    exact ⟨rfl, held⟩
  | ws =>
    obtain ⟨val, between, read, rest⟩ := bind_ok done
    cases rest
    obtain ⟨same, held⟩ := getWs_spec read
    refine ⟨rfl, same, fun word saved => ?_, fun _ _ => nofun⟩
    cases saved
    exact ⟨rfl, held⟩
  | id =>
    obtain ⟨_, _, got, done⟩ := bind_ok done
    cases got
    cases done
    refine ⟨rfl, .refl e, fun word saved => ?_, fun _ _ => nofun⟩
    cases saved
    exact ⟨rfl, trivial⟩
  | imm =>
    cases done
    refine ⟨rfl, .refl e, fun word saved => ?_, fun _ other => absurd rfl other⟩
    cases align <;> cases saved
  | fb =>
    obtain ⟨_, _, got, done⟩ := bind_ok done
    cases got
    obtain ⟨rfl, same⟩ := answered done
    refine ⟨rfl, same, fun word saved => ?_, fun _ _ => nofun⟩
    cases saved
    exact ⟨rfl, rfl⟩
  | pll =>
    obtain ⟨rfl, same⟩ := answered done
    refine ⟨rfl, same, fun word saved => ?_, fun _ _ => nofun⟩
    cases saved
    exact ⟨rfl, rfl⟩
  | mc =>
    obtain ⟨rfl, same⟩ := answered done
    refine ⟨rfl, same, fun word saved => ?_, fun _ _ => nofun⟩
    cases saved
    exact ⟨rfl, rfl⟩

end Reading

end MxGpu.Atom
