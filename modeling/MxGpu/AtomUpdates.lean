import MxGpu.AtomOperands

/-
What an operation of the interpreter does to the word that it has as its destination.
-/

namespace MxGpu.Atom

open Checked

section Writing

variable {env : Env} {arg : Arg} {align : Align} {ptr : Nat} {e e' : Exec} {word : Word}

def Does (prog : M Unit) (post : Exec → Exec → Prop) : Prop :=
  ∀ e e', prog e = .ok ((), e') → post e e'

theorem workWrite_does (idx : Nat) :
    Does (workWrite idx word) fun e e' => e'.params = e.params ∧ e'.context = e.context ∧
      e'.frame.table = e.frame.table ∧ (∀ i, i ≠ idx → e'.cell i = e.cell i) ∧
      e'.cell idx = some word := by
  intro e e' done
  unfold workWrite at done
  cases space : e.frame.ws with
  | none =>
    rw [space] at done
    cases done
  | some work =>
    rw [space] at done
    dsimp only at done
    split at done
    case isFalse => cases done
    case isTrue inside =>
      cases done
      refine ⟨rfl, rfl, rfl, fun i other => ?_, ?_⟩
      · unfold Exec.cell
        rw [space]
        exact List.getElem?_set_ne (Ne.symm other)
      · unfold Exec.cell
        exact List.getElem?_set_self inside

theorem putWs_does (env : Env) (idx : Nat) : Does (atomPutWs idx word) (WorkTook env idx word) := by
  unfold atomPutWs
  split
  all_goals intro e e' done
  case h_10 q r d s o a f t p =>
    obtain ⟨_, _, got, done⟩ := bind_ok done
    cases got
    have plain : ∀ c : Context, c.workField env idx = none := by
      intro c
      unfold Context.workField
      split <;> first | contradiction | rfl
    have keeps : workKept idx word = some word := by
      unfold workKept
      split <;> first | contradiction | rfl
    by_cases outside : e.frame.table.wsSize ≤ idx
    · rw [if_pos outside] at done
      cases done
      refine ⟨rfl, fun _ _ => rfl, fun _ _ _ _ => rfl, ?_⟩
      rw [keeps]
      unfold WorkWas
      rw [plain]
      exact fun inside => absurd inside (Nat.not_lt.mpr outside)
    · rw [if_neg outside] at done
      obtain ⟨params, context, table, others, there⟩ := workWrite_does idx e e' done
      refine ⟨params, others, fun i _ _ _ => by rw [context], ?_⟩
      rw [keeps]
      unfold WorkWas
      rw [plain]
      exact fun _ => there
  case h_5 => 
    cases done
    exact ⟨rfl, fun _ _ => rfl, fun _ _ _ _ => rfl, rfl, rfl⟩
  case h_6 => 
    cases done
    exact ⟨rfl, fun _ _ => rfl, fun _ _ _ _ => rfl, rfl, rfl⟩
  all_goals
    cases done
    refine ⟨rfl, fun _ _ => rfl, fun i other noOr noAnd => ?_, rfl⟩
    unfold Context.workField
    split <;> first | rfl | exact absurd rfl other | exact absurd rfl noOr | exact absurd rfl noAnd

theorem putPs_does (env : Env) (ptr : Nat) :
    Does (atomPutPs (env.u8 ptr) word) (Took env .ps ptr word) := by
  intro e e' done
  obtain ⟨_, _, got, done⟩ := bind_ok done
  cases got
  by_cases outside : e.frame.table.psSize ≤ env.u8 ptr
  · rw [if_pos outside] at done
    cases done
    exact ⟨rfl, rfl, (if_neg (Nat.not_lt.mpr outside)).symm⟩
  · rw [if_neg outside] at done
    unfold paramWrite at done
    split at done
    case isTrue inside =>
      cases done
      exact ⟨rfl, rfl, (if_pos inside.1).symm⟩
    case isFalse => cases done

theorem regWrite_does (env : Env) (ptr : Nat) (e e' : Exec)
    (done : atomRegWrite env (BitVec.ofNat 32 (env.u16 ptr) + e.context.regBlock.setWidth 32) word
      e = .ok ((), e')) : Took env .reg ptr word e e' := by
  unfold atomRegWrite at done
  obtain ⟨_, _, got, done⟩ := bind_ok done
  cases got
  unfold Took
  dsimp only
  generalize mode : e.context.ioMode = m at done ⊢
  match m, done with
  | 0, done =>
    cases done
    exact ⟨rfl, rfl, rfl, List.getLast?_concat ..⟩
  | 1, done =>
    cases done
    exact ⟨rfl, rfl, rfl, trivial⟩
  | 2, done =>
    cases done
    exact ⟨rfl, rfl, rfl, trivial⟩
  | m + 3, done =>
    change (if (m + 3) &&& 0x80 = 0 then _ else if e.context.iio ((m + 3) &&& 0xff) = 0 then _
      else _ : M Unit) e = _ at done
    by_cases bad : (m + 3) &&& 0x80 = 0
    · rw [if_pos bad] at done
      cases done
      exact ⟨rfl, rfl, rfl, .inl bad⟩
    rw [if_neg bad] at done
    by_cases missing : e.context.iio ((m + 3) &&& 0xff) = 0
    · rw [if_pos missing] at done
      cases done
      exact ⟨rfl, rfl, rfl, .inr (.inl missing)⟩
    rw [if_neg missing] at done
    obtain ⟨temp, between, ran, rest⟩ := bind_ok done
    cases rest
    have same := (reads_iio e _ _ _ _ _).same ran
    exact ⟨same.context, same.params, same.ws, .inr (.inr ⟨e, temp, ran⟩)⟩

theorem putDst_does (env : Env) (arg : Arg) (align : Align) (ptr : Nat) (val saved : Word) :
    Does (atomPutDst env arg align ptr val saved)
      (Took env arg ptr (combined align val saved)) := by
  intro e e' done
  cases arg with
  | reg =>
    obtain ⟨_, _, got, done⟩ := bind_ok done
    cases got
    exact regWrite_does env ptr e e' done
  | ps => exact putPs_does env ptr e e' done
  | ws => exact putWs_does env (env.u8 ptr) e e' done
  | fb =>
    obtain ⟨_, _, got, done⟩ := bind_ok done
    cases got
    cases done
    exact ⟨rfl, rfl, rfl, List.getLast?_concat ..⟩
  | pll =>
    cases done
    exact ⟨rfl, rfl, rfl, List.getLast?_concat ..⟩
  | mc =>
    cases done
    exact ⟨rfl, rfl, rfl, List.getLast?_concat ..⟩
  | id => trivial
  | imm => trivial

theorem Took.before {e₀ : Exec} (same : SameCells e₀ e) (took : Took env arg ptr word e e') :
    Took env arg ptr word e₀ e' := by
  have cells : ∀ i, e.cell i = e₀.cell i := by
    intro i
    unfold Exec.cell
    rw [same.ws]
  unfold Took WorkTook at *
  rw [same.context, same.params, same.ws, same.table] at took
  cases arg with
  | ws =>
    obtain ⟨params, others, took⟩ := took
    exact ⟨params, fun i other => (others i other).trans (cells i), took⟩
  | _ => exact took

end Writing

section Operations

variable {env : Env} {op : Opcode} {arg : Arg} {align : Align} {ptr attr : Nat} {e e' : Exec}

theorem source_spec {mask : Word} {src : Src}
    (done : op.source env attr ptr e = .ok ((mask, src), e')) :
    src.ptr = op.sourceEnd env attr ptr ∧ SameCells e e' := by
  have plain : ∀ {at_ : Nat} {first : Word}, (do
      let src ← atomGetSrc env attr at_
      pure (first, src) : M (Word × Src)) e = .ok ((mask, src), e') →
      src.ptr = atomSkipSrcInt env (Arg.ofAttr attr) (Align.ofAttr attr) at_ ∧ SameCells e e' := by
    intro at_ first ran
    obtain ⟨found, between, read, rest⟩ := bind_ok ran
    cases rest
    obtain ⟨place, same, -⟩ := getSrcInt_spec read
    exact ⟨place, same⟩
  cases op with
  | clear arg =>
    cases done
    exact ⟨rfl, .refl e⟩
  | shiftLeft arg =>
    cases done
    exact ⟨rfl, .refl e⟩
  | shiftRight arg =>
    cases done
    exact ⟨rfl, .refl e⟩
  | _ => exact plain done

def Opcode.destSrc (env : Env) (arg : Arg) (align : Align) (attr ptr : Nat) : Opcode → M Src
  | .move _ => atomMoveDst env arg attr ptr
  | _ => atomGetSrcInt env arg align ptr

/-- The parts of a run of an operation: the destination is read, then the mask and the source, and
then the destination is written. -/
structure Parts (env : Env) (op : Opcode) (arg : Arg) (align : Align) (attr ptr next : Nat)
    (e e' : Exec) (dst src : Src) (mask val saved : Word) (between last : Exec) : Prop where
  dest : op.destSrc env arg align attr ptr e = .ok (dst, between)
  source : op.source env attr dst.ptr between = .ok ((mask, src), last)
  put : atomPutDst env arg align ptr val saved last = .ok ((), e')
  next : next = src.ptr
  saved : ∀ word, dst.saved = some word → saved = word
  result : ∀ word, dst.saved = some word → op.overwrites attr ∨ dst.val = align.field word →
    op.Narrow src.val → val = op.result align word mask src.val

theorem binary_parts {f : Word → Word → Word} {next : Nat}
    (reads : ¬ op.overwrites (env.u8 ptr))
    (plain : op.destSrc env arg (dstAlign (env.u8 ptr)) (env.u8 ptr) (ptr + 1) =
      atomGetSrcInt env arg (dstAlign (env.u8 ptr)) (ptr + 1))
    (source : ∀ at_, op.source env (env.u8 ptr) at_ = do
      let src ← atomGetSrc env (env.u8 ptr) at_
      pure (0, src))
    (result : ∀ word src, op.result (dstAlign (env.u8 ptr)) word 0 src =
      f ((dstAlign (env.u8 ptr)).field word) src)
    (done : atomOpBinary env f arg ptr e = .ok (next, e')) :
    ∃ dst src mask val saved between last, Parts env op arg (dstAlign (env.u8 ptr)) (env.u8 ptr)
      (ptr + 1) next e e' dst src mask val saved between last := by
  obtain ⟨dst, between, read, done⟩ := bind_ok done
  obtain ⟨src, last, found, done⟩ := bind_ok done
  obtain ⟨_, _, put, done⟩ := bind_ok done
  cases done
  refine ⟨dst, src, 0, _, _, between, last, plain ▸ read, ?_, put, rfl, ?_, ?_⟩
  · rw [source]
    change (atomGetSrc env (env.u8 ptr) dst.ptr between >>= _) = _
    rw [found]
    rfl
  · intro word saved
    rw [saved]
    rfl
  · intro word saved val narrow
    rw [result, val.resolve_left reads]

theorem shift_parts {f : Word → Nat → Word} {next : Nat}
    (reads : ¬ op.overwrites (env.u8 ptr))
    (plain : op.destSrc env arg (defAlign (env.u8 ptr)) (env.u8 ptr) (ptr + 1) =
      atomGetSrcInt env arg (defAlign (env.u8 ptr)) (ptr + 1))
    (source : ∀ at_, op.source env (env.u8 ptr) at_ = pure (0, atomGetSrcDirect env .byte0 at_))
    (result : ∀ word src, op.Narrow src → op.result (defAlign (env.u8 ptr)) word 0 src =
      f ((defAlign (env.u8 ptr)).field word) src.toNat)
    (done : atomOpShift env f arg ptr e = .ok (next, e')) :
    ∃ dst src mask val saved between last, Parts env op arg (defAlign (env.u8 ptr)) (env.u8 ptr)
      (ptr + 1) next e e' dst src mask val saved between last := by
  obtain ⟨dst, between, read, done⟩ := bind_ok done
  obtain ⟨_, _, put, done⟩ := bind_ok done
  cases done
  refine ⟨dst, _, 0, _, _, between, between, plain ▸ read, ?_, put, rfl, ?_, ?_⟩
  · rw [source]
    rfl
  · intro word saved
    rw [saved]
    rfl
  · intro word saved val narrow
    rw [result _ _ narrow, val.resolve_left reads]

theorem shiftWhole_parts {f : Word → Nat → Word} {next : Nat}
    (plain : op.destSrc env arg (dstAlign (env.u8 ptr)) (env.u8 ptr) (ptr + 1) =
      atomGetSrcInt env arg (dstAlign (env.u8 ptr)) (ptr + 1))
    (source : ∀ at_, op.source env (env.u8 ptr) at_ = do
      let src ← atomGetSrc env (env.u8 ptr) at_
      pure (0, src))
    (result : ∀ word src, op.Narrow src → op.result (dstAlign (env.u8 ptr)) word 0 src =
      (dstAlign (env.u8 ptr)).field (f word (src.setWidth 8).toNat))
    (done : atomOpShiftWhole env f arg ptr e = .ok (next, e')) :
    ∃ dst src mask val saved between last, Parts env op arg (dstAlign (env.u8 ptr)) (env.u8 ptr)
      (ptr + 1) next e e' dst src mask val saved between last := by
  obtain ⟨dst, between, read, done⟩ := bind_ok done
  obtain ⟨src, last, found, done⟩ := bind_ok done
  obtain ⟨_, _, put, done⟩ := bind_ok done
  cases done
  refine ⟨dst, src, 0, _, _, between, last, plain ▸ read, ?_, put, rfl, ?_, ?_⟩
  · rw [source]
    change (atomGetSrc env (env.u8 ptr) dst.ptr between >>= _) = _
    rw [found]
    rfl
  · intro word saved
    rw [saved]
    rfl
  · intro word saved val narrow
    rw [result _ _ narrow, saved]
    rfl

theorem func_parts {next : Nat} (dest : op.dest (env.u8 ptr) = some (arg, align))
    (done : op.func env ptr e = .ok (next, e')) :
    ∃ dst src mask val saved between last, Parts env op arg align (env.u8 ptr) (ptr + 1) next e e'
      dst src mask val saved between last := by
  have left : ∀ word n, n < 32 → env.shl word n = word <<< n := fun _ _ small => if_pos small
  have right : ∀ word n, n < 32 → env.shr word n = word >>> n := fun _ _ small => if_pos small
  cases op with
  | bitAnd arg =>
    cases dest
    exact binary_parts id rfl (fun _ => rfl) (fun _ _ => rfl) done
  | bitOr arg =>
    cases dest
    exact binary_parts id rfl (fun _ => rfl) (fun _ _ => rfl) done
  | xor arg =>
    cases dest
    exact binary_parts id rfl (fun _ => rfl) (fun _ _ => rfl) done
  | add arg =>
    cases dest
    exact binary_parts id rfl (fun _ => rfl) (fun _ _ => rfl) done
  | sub arg =>
    cases dest
    exact binary_parts id rfl (fun _ => rfl) (fun _ _ => rfl) done
  | shiftLeft arg =>
    cases dest
    exact shift_parts id rfl (fun _ => rfl) (fun _ _ narrow => (left _ _ narrow).symm) done
  | shiftRight arg =>
    cases dest
    exact shift_parts id rfl (fun _ => rfl) (fun _ _ narrow => (right _ _ narrow).symm) done
  | shl arg =>
    cases dest
    refine shiftWhole_parts rfl (fun _ => rfl) (fun word src narrow => ?_) done
    rw [left _ _ narrow]
    rfl
  | shr arg =>
    cases dest
    refine shiftWhole_parts rfl (fun _ => rfl) (fun word src narrow => ?_) done
    rw [right _ _ narrow]
    rfl
  | clear arg =>
    cases dest
    obtain ⟨dst, between, read, done⟩ := bind_ok done
    obtain ⟨_, _, put, done⟩ := bind_ok done
    cases done
    refine ⟨dst, ⟨0, none, dst.ptr⟩, 0, _, _, between, between, read, rfl, put, rfl, ?_, ?_⟩
    · intro word saved
      rw [saved]
      rfl
    · exact fun _ _ _ _ => rfl
  | mask arg =>
    cases dest
    obtain ⟨dst, between, read, done⟩ := bind_ok done
    obtain ⟨src, last, found, done⟩ := bind_ok done
    obtain ⟨_, _, put, done⟩ := bind_ok done
    cases done
    refine ⟨dst, src, (atomGetSrcDirect env (Align.ofAttr (env.u8 ptr)) dst.ptr).val, _, _, between,
      last, read, ?_, put, rfl, ?_, ?_⟩
    · change (atomGetSrc env (env.u8 ptr) _ between >>= _) = _
      rw [found]
      rfl
    · intro word saved
      rw [saved]
      rfl
    · intro word saved val narrow
      rw [val.resolve_left id]
      rfl
  | move arg =>
    cases dest
    obtain ⟨dst, between, read, done⟩ := bind_ok done
    obtain ⟨src, last, found, done⟩ := bind_ok done
    obtain ⟨_, _, put, done⟩ := bind_ok done
    cases done
    refine ⟨dst, src, 0, _, _, between, last, read, ?_, put, rfl, ?_, ?_⟩
    · change (atomGetSrc env (env.u8 ptr) dst.ptr between >>= _) = _
      rw [found]
      rfl
    · intro word saved
      rw [saved]
      rfl
    · exact fun _ _ _ _ => rfl
  | _ => cases dest

theorem dest_written (listed : op ∈ opcodes) (dest : op.dest attr = some (arg, align)) :
    arg ≠ .imm ∧ arg ≠ .id := by
  have table : ∀ op ∈ opcodes, (op.dest 0).map Prod.fst ≠ some .imm ∧
      (op.dest 0).map Prod.fst ≠ some .id := by decide +kernel
  have same : (op.dest attr).map Prod.fst = (op.dest 0).map Prod.fst := by
    cases op <;> rfl
  have known := table op listed
  rw [← same, dest] at known
  constructor
  · rintro rfl
    exact known.1 rfl
  · rintro rfl
    exact known.2 rfl

theorem destSrc_overwrites {dst : Src} (dest : op.dest attr = some (arg, align))
    (overwrites : op.overwrites attr)
    (read : op.destSrc env arg align attr ptr e = .ok (dst, e')) :
    align = .dword ∧ dst.ptr = atomSkipSrcInt env arg align ptr ∧ SameCells e e' ∧
      dst.saved = some unset := by
  cases op with
  | move arg =>
    cases dest
    have whole : Align.ofAttr attr = .dword := overwrites
    unfold Opcode.destSrc atomMoveDst at read
    dsimp only at read
    rw [if_neg (not_not.mpr whole)] at read
    cases read
    refine ⟨?_, rfl, .refl e, rfl⟩
    unfold dstAlign
    rw [whole]
    rfl
  | _ => exact absurd overwrites id

theorem destSrc_reads (reads : ¬ op.overwrites attr) (dest : op.dest attr = some (arg, align)) :
    op.destSrc env arg align attr ptr = atomGetSrcInt env arg align ptr := by
  cases op with
  | move arg =>
    cases dest
    exact if_pos reads
  | _ => rfl

end Operations

/-- Reading an operand and writing it end where skipping it does. When an operation of the opcode
table has ended, its destination has taken the word that it held with only the selected bits changed,
to the result of the operation. -/
theorem operands_consistent (env : Env) :
    (∀ arg align ptr e src e', atomGetSrcInt env arg align ptr e = .ok (src, e') →
      src.ptr = atomSkipSrcInt env arg align ptr) ∧
    (∀ arg align ptr val saved e next e', arg ≠ .imm → arg ≠ .id →
      atomPutDstPtr env arg align ptr val saved e = .ok (next, e') →
      next = atomSkipSrcInt env arg align ptr) ∧
    ∀ op ∈ opcodes, ∀ ptr e next e' arg align, op.dest (env.u8 ptr) = some (arg, align) →
      op.func env ptr e = .ok (next, e') →
      (¬ op.overwrites (env.u8 ptr) → Readable e.context arg) →
      ∃ before after mask src between last,
        (¬ op.overwrites (env.u8 ptr) → Was env arg (ptr + 1) before e) ∧
        SameCells e between ∧
        op.source env (env.u8 ptr) (atomSkipSrcInt env arg align (ptr + 1)) between =
          .ok ((mask, src), last) ∧
        next = op.sourceEnd env (env.u8 ptr) (atomSkipSrcInt env arg align (ptr + 1)) ∧
        (op.Narrow src.val →
          Changed align before after (op.result align before mask src.val)) ∧
        Took env arg (ptr + 1) after e e' := by
  refine ⟨fun arg align ptr e src e' done => (getSrcInt_spec done).1, ?_, ?_⟩
  · intro arg align ptr val saved e next e' noImm noId done
    obtain ⟨_, _, _, rest⟩ := bind_ok done
    cases rest
    cases arg with
    | imm => exact absurd rfl noImm
    | id => exact absurd rfl noId
    | _ => rfl
  · intro op listed ptr e next e' arg align dest done readable
    obtain ⟨dst, src, mask, val, saved, between, last, parts⟩ := func_parts dest done
    obtain ⟨word, there, place, same, was, val_eq⟩ : ∃ word, dst.saved = some word ∧
        dst.ptr = atomSkipSrcInt env arg align (ptr + 1) ∧ SameCells e between ∧
        (¬ op.overwrites (env.u8 ptr) → Was env arg (ptr + 1) word e) ∧
        (op.overwrites (env.u8 ptr) ∨ dst.val = align.field word) := by
      have read := parts.dest
      by_cases overwrites : op.overwrites (env.u8 ptr)
      · obtain ⟨-, place, same, there⟩ := destSrc_overwrites dest overwrites read
        exact ⟨unset, there, place, same, fun reads => absurd overwrites reads, .inl overwrites⟩
      · rw [destSrc_reads overwrites dest] at read
        obtain ⟨place, same, held, found⟩ := getSrcInt_spec read
        obtain ⟨word, there⟩ := Option.ne_none_iff_exists'.mp
          (found (readable overwrites) (dest_written listed dest).1)
        exact ⟨word, there, place, same, fun _ => (held word there).2, .inr (held word there).1⟩
    have kept := parts.saved word there
    have source := parts.source
    rw [place] at source
    obtain ⟨sourceEnd, same'⟩ := source_spec source
    refine ⟨word, combined align val saved, mask, src, between, last, was, same, source,
      parts.next.trans sourceEnd, fun narrow => ?_,
      (putDst_does env arg align (ptr + 1) val saved last e' parts.put).before
        (same.trans same')⟩
    have result := parts.result word there val_eq narrow
    rw [← result, kept]
    exact combined_changed align val word

section Runs

def codeEnv (code : List Nat) : Env :=
  ⟨fun ptr => BitVec.ofNat 8 (code.getD ptr 0), fun _ => 0, fun _ => 0, fun _ => true, 0, 100,
    fun _ _ => 0, fun _ _ => 0⟩

def oneParam (val : Word) : Exec where
  context := ⟨0, 0, fun _ => 0, 0, 0, (0, 0), 0, 0, 0, false, false, 0⟩
  params := [val]
  frame := ⟨⟨0, 0, 0, 0, 1, 0, 0⟩, none, false, 0, 0, 0, 0⟩
  reads := 0
  stamps := 0
  card := []

/-- Five is added to the second byte of a parameter. -/
theorem operands_consistent_add : ∃ before after mask src,
    Was (codeEnv [0x65, 0, 5]) .ps 1 before (oneParam 0x1234ff56) ∧
      Changed .byte8 before after (Opcode.result .byte8 before mask src (.add .ps)) ∧
      ∃ e', Took (codeEnv [0x65, 0, 5]) .ps 1 after (oneParam 0x1234ff56) e' := by
  obtain ⟨-, -, each⟩ := operands_consistent (codeEnv [0x65, 0, 5])
  obtain ⟨before, after, mask, src, between, last, was, -, -, -, changed, took⟩ :=
    each (.add .ps) (by decide +kernel) 0 (oneParam 0x1234ff56) 3 _ .ps .byte8 rfl rfl
      (fun _ => trivial)
  exact ⟨before, after, mask, src.val, was id, changed trivial, _, took⟩

/-- Five is moved to a mask, which stays what it was. -/
theorem mask_not_written : ¬ ∀ env, ∀ op ∈ opcodes, ∀ ptr e next e' align,
    op.dest (env.u8 ptr) = some (.ws, align) → op.func env ptr e = .ok (next, e') →
    ∃ before after mask src between last,
      op.source env (env.u8 ptr) (atomSkipSrcInt env .ws align (ptr + 1)) between =
        .ok ((mask, src), last) ∧
      Changed align before after (op.result align before mask src.val) ∧
      Was env .ws (ptr + 1) after e' := by
  intro all
  obtain ⟨before, after, mask, src, between, last, source, changed, was⟩ :=
    all (codeEnv [0x05, 0x44, 5]) (.move .ws) (by decide +kernel) 0 (oneParam 0) 6 _ .dword rfl rfl
  cases source
  have kept : after = 1 := was
  subst kept
  have same : (1 : Nat) = 5 := changed.field
  exact absurd same (by decide)

end Runs

end MxGpu.Atom
