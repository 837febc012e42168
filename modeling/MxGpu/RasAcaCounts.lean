import MxGpu.Transition
import Mathlib.Algebra.GroupWithZero.Nat
import Mathlib.Algebra.Order.BigOperators.Group.List
import Mathlib.Algebra.Order.Group.Nat

/- The error counts of the RAS core (`ras_aca.c`) and the queries that take the new ones. -/
namespace MxGpu.Aca

open Transition Function List

inductive ErrKind where
  | ce
  | ue
  | de
  deriving DecidableEq

/-- `struct aca_ecc_count`, for each kind of error. -/
structure EccCount where
  newCount : ErrKind → BitVec 32
  totalCount : ErrKind → BitVec 32

structure AidEcc where
  eccErr : EccCount
  xcd : List EccCount

/-- `struct aca_socket_ecc`: one entry for each AID. -/
abbrev SocketEcc := List AidEcc

/-- `RAS_BLOCK_ID__GFX`. -/
def rasBlockIdGfx : Nat := 2

/-- `struct aca_bank_ecc`, with whether the bank's socket is the one of the device. -/
structure BankEcc where
  count : ErrKind → BitVec 32
  socketMatches : Bool
  dieId : Nat
  xcdValid : Bool
  xcdId : Nat

def EccCount.zero : EccCount := ⟨fun _ => 0, fun _ => 0⟩

/-- What `aca_log_bad_bank` adds to an entry. -/
def EccCount.log (ecc : EccCount) (count : ErrKind → BitVec 32) : EccCount :=
  ⟨fun kind => ecc.newCount kind + count kind, fun kind => ecc.totalCount kind + count kind⟩

/-- `_add_ecc_count`. -/
def EccCount.add (des src : EccCount) : EccCount :=
  ⟨fun kind => des.newCount kind + src.newCount kind,
    fun kind => des.totalCount kind + src.totalCount kind⟩

def EccCount.clearNew (ecc : EccCount) : EccCount := { ecc with newCount := fun _ => 0 }

section Operations

variable (blk : Nat) (socket : SocketEcc)

/-- `aca_check_block_ecc_info`: whether the bank has an entry in the block. -/
def checkBlockEccInfo (bank : BankEcc) : Bool :=
  bank.socketMatches &&
    match socket[bank.dieId]? with
    | none => false
    | some aid => !(blk = rasBlockIdGfx && bank.xcdValid && bank.xcdId ≥ aid.xcd.length)

/-- `aca_log_bad_bank`, as far as it counts. -/
def logBadBank (bank : BankEcc) : SocketEcc :=
  if checkBlockEccInfo blk socket bank then
    socket.modify bank.dieId fun aid =>
      if blk = rasBlockIdGfx && bank.xcdValid then
        { aid with xcd := aid.xcd.modify bank.xcdId fun ecc => ecc.log bank.count }
      else { aid with eccErr := aid.eccErr.log bank.count }
  else socket

def getBlockSocketEccCount : EccCount :=
  socket.foldl (fun ecc aid =>
    let ecc := ecc.add aid.eccErr
    if blk = rasBlockIdGfx then aid.xcd.foldl EccCount.add ecc else ecc) .zero

def clearBlockNewEccCount : SocketEcc :=
  socket.map fun aid =>
    { eccErr := aid.eccErr.clearNew
      xcd := if blk = rasBlockIdGfx then aid.xcd.map EccCount.clearNew else aid.xcd }

end Operations

/-- What a query has answered, with the errors that had been logged for the block by then and those
that earlier queries had taken. -/
structure Answer where
  blk : Nat
  clear : Bool
  ecc : EccCount
  logged : ErrKind → Nat
  taken : ErrKind → Nat

/-- The counts of all blocks; the number of queries of a block that have read the counts and not yet
cleared the new ones; and, for each block, the errors that have been logged and the sum of what the
queries with `clear` have found new. -/
structure Counts where
  aca : Nat → SocketEcc
  clearing : Nat → Nat
  logged : Nat → ErrKind → Nat
  taken : Nat → ErrKind → Nat
  answers : List Answer

inductive Label where
  | logBank (blk : Nat) (bank : BankEcc)
  | getCount (blk : Nat) (clear : Bool)
  | clearNew (blk : Nat)

section Steps

variable (s : Counts)

def Counts.logBank (blk : Nat) (bank : BankEcc) : Counts :=
  { s with
    aca := update s.aca blk (logBadBank blk (s.aca blk) bank)
    logged := if checkBlockEccInfo blk (s.aca blk) bank then
        update s.logged blk fun kind => s.logged blk kind + (bank.count kind).toNat
      else s.logged }

/-- `ras_core_query_block_ecc_data` up to the end of `ras_aca_get_block_ecc_count`. -/
def Counts.getCount (blk : Nat) (clear : Bool) : Counts :=
  let ecc := getBlockSocketEccCount blk (s.aca blk)
  let answers := s.answers ++ [⟨blk, clear, ecc, s.logged blk, s.taken blk⟩]
  if clear then
    { s with
      answers
      clearing := update s.clearing blk (s.clearing blk + 1)
      taken := update s.taken blk fun kind =>
        s.taken blk kind + (ecc.newCount kind).toNat }
  else { s with answers }

def Counts.clearNew (blk : Nat) : Counts :=
  { s with
    aca := update s.aca blk (clearBlockNewEccCount blk (s.aca blk))
    clearing := update s.clearing blk (s.clearing blk - 1) }

def Counts.next : Label → Option Counts
  | .logBank blk bank => some (s.logBank blk bank)
  | .getCount blk clear => some (s.getCount blk clear)
  | .clearNew blk => if s.clearing blk = 0 then none else some (s.clearNew blk)

end Steps

/-- `ras_aca_sw_init`: every count is 0. -/
def Initial (s : Counts) : Prop :=
  (∀ blk, ∀ aid ∈ s.aca blk, aid.eccErr = .zero ∧ ∀ ecc ∈ aid.xcd, ecc = .zero) ∧
    (∀ blk, s.clearing blk = 0) ∧ (∀ blk kind, s.logged blk kind = 0) ∧
      (∀ blk kind, s.taken blk kind = 0) ∧ s.answers = []

def Step (s : Counts) (label : Label) (s' : Counts) : Prop := s.next label = some s'

/-- Every logged error is found new by one query that takes it or still to be found, and every
total is the number of errors that had been logged. -/
structure ExactlyOnce (s : Counts) : Prop where
  once : ∀ blk kind, s.clearing blk = 0 → s.taken blk kind +
    ((getBlockSocketEccCount blk (s.aca blk)).newCount kind).toNat = s.logged blk kind
  totals : ∀ a ∈ s.answers, ∀ kind, (a.ecc.totalCount kind).toNat = a.logged kind
  news : ∀ a ∈ s.answers, a.clear = true → ∀ kind,
    a.taken kind + (a.ecc.newCount kind).toNat = a.logged kind

/-- No bank is counted for a block, and no other query with `clear` reads the block, while a query
is between its two critical sections; and the 32-bit counts do not overflow. -/
def Meets (s : Counts) : Label → Prop
  | .logBank blk bank => checkBlockEccInfo blk (s.aca blk) bank = true →
      s.clearing blk = 0 ∧ ∀ kind, s.logged blk kind + (bank.count kind).toNat < 2 ^ 32
  | .getCount blk clear => clear = true → s.clearing blk = 0
  | .clearNew _ => True

section Sums

variable {blk : Nat} {socket : SocketEcc} {bank : BankEcc}

def entries (blk : Nat) (socket : SocketEcc) : List EccCount :=
  socket.flatMap fun aid => aid.eccErr :: if blk = rasBlockIdGfx then aid.xcd else []

def entrySum (field : EccCount → BitVec 32) (blk : Nat) (socket : SocketEcc) : Nat :=
  ((entries blk socket).map fun ecc => (field ecc).toNat).sum

theorem getBlockSocketEccCount_entries :
    getBlockSocketEccCount blk socket = (entries blk socket).foldl EccCount.add .zero := by
  unfold getBlockSocketEccCount entries
  rw [foldl_flatMap]
  congr 1
  funext ecc aid
  by_cases hgfx : blk = rasBlockIdGfx
  · simp [hgfx]
  · simp [hgfx]

theorem foldl_add (l : List EccCount) (ecc : EccCount) (kind : ErrKind) :
    (l.foldl EccCount.add ecc).newCount kind =
        ecc.newCount kind + BitVec.ofNat 32 (l.map fun e => (e.newCount kind).toNat).sum ∧
      (l.foldl EccCount.add ecc).totalCount kind =
        ecc.totalCount kind + BitVec.ofNat 32 (l.map fun e => (e.totalCount kind).toNat).sum := by
  induction l generalizing ecc with
  | nil => simp
  | cons e l ih =>
    obtain ⟨hnew, htotal⟩ := ih (ecc.add e)
    rw [foldl_cons, hnew, htotal]
    simp only [EccCount.add, map_cons, sum_cons, BitVec.ofNat_add, BitVec.ofNat_toNat,
      BitVec.setWidth_eq, BitVec.add_assoc]
    exact ⟨trivial, trivial⟩

theorem count_new {kind : ErrKind} (h : entrySum (·.newCount kind) blk socket < 2 ^ 32) :
    ((getBlockSocketEccCount blk socket).newCount kind).toNat =
      entrySum (·.newCount kind) blk socket := by
  rw [getBlockSocketEccCount_entries, (foldl_add _ _ _).1]
  show (0#32 + _).toNat = _
  rw [BitVec.zero_add, BitVec.toNat_ofNat]
  exact Nat.mod_eq_of_lt h

theorem count_total {kind : ErrKind} (h : entrySum (·.totalCount kind) blk socket < 2 ^ 32) :
    ((getBlockSocketEccCount blk socket).totalCount kind).toNat =
      entrySum (·.totalCount kind) blk socket := by
  rw [getBlockSocketEccCount_entries, (foldl_add _ _ _).2]
  show (0#32 + _).toNat = _
  rw [BitVec.zero_add, BitVec.toNat_ofNat]
  exact Nat.mod_eq_of_lt h

def aidSum (field : EccCount → BitVec 32) (blk : Nat) (aid : AidEcc) : Nat :=
  (field aid.eccErr).toNat +
    if blk = rasBlockIdGfx then (aid.xcd.map fun ecc => (field ecc).toNat).sum else 0

theorem entrySum_aids (field : EccCount → BitVec 32) :
    entrySum field blk socket = (socket.map (aidSum field blk)).sum := by
  induction socket with
  | nil => rfl
  | cons aid socket ih =>
    have hcons : entrySum field blk (aid :: socket) =
        aidSum field blk aid + entrySum field blk socket := by
      unfold entrySum entries aidSum
      rw [flatMap_cons, map_append, sum_append, map_cons, sum_cons]
      split
      · rfl
      · rfl
    rw [hcons, ih, map_cons, sum_cons]

theorem sum_modify {α : Type} (g : α → Nat) (f : α → α) {l : List α} {i : Nat} {a : α}
    (h : l[i]? = some a) : ((l.modify i f).map g).sum + g a = (l.map g).sum + g (f a) := by
  induction l generalizing i with
  | nil => simp at h
  | cons b l ih =>
    cases i with
    | zero =>
      rw [getElem?_cons_zero, Option.some.injEq] at h
      rw [h, modify_zero_cons, map_cons, map_cons, sum_cons, sum_cons]
      omega
    | succ i =>
      have hrest := ih h
      rw [modify_succ_cons, map_cons, map_cons, sum_cons, sum_cons]
      omega

theorem le_sum {α : Type} (g : α → Nat) {l : List α} {i : Nat} {a : α} (h : l[i]? = some a) :
    g a ≤ (l.map g).sum :=
  single_le_sum (fun _ _ => Nat.zero_le _) _ (mem_map_of_mem (mem_of_getElem? h))

theorem logBadBank_sum {field : EccCount → BitVec 32} {c : BitVec 32}
    (hlog : ∀ ecc : EccCount, field (ecc.log bank.count) = field ecc + c)
    (hcheck : checkBlockEccInfo blk socket bank = true)
    (hfit : entrySum field blk socket + c.toNat < 2 ^ 32) :
    entrySum field blk (logBadBank blk socket bank) = entrySum field blk socket + c.toNat := by
  have hadd : ∀ ecc : EccCount, (field ecc).toNat + c.toNat < 2 ^ 32 →
      (field (ecc.log bank.count)).toNat = (field ecc).toNat + c.toNat := by
    intro ecc hlt
    rw [hlog, BitVec.toNat_add]
    exact Nat.mod_eq_of_lt hlt
  unfold logBadBank
  rw [if_pos hcheck]
  unfold checkBlockEccInfo at hcheck
  rw [Bool.and_eq_true] at hcheck
  have hentry := hcheck.2
  cases haid : socket[bank.dieId]? with
  | none =>
    rw [haid] at hentry
    cases hentry
  | some aid =>
    rw [haid] at hentry
    have hle := le_sum (aidSum field blk) haid
    rw [← entrySum_aids] at hle
    have hmodify := @sum_modify AidEcc (aidSum field blk) (fun aid =>
      if blk = rasBlockIdGfx && bank.xcdValid then
        { aid with xcd := aid.xcd.modify bank.xcdId fun ecc => ecc.log bank.count }
      else { aid with eccErr := aid.eccErr.log bank.count }) socket bank.dieId aid haid
    rw [← entrySum_aids, ← entrySum_aids] at hmodify
    have haidSum : aidSum field blk (if blk = rasBlockIdGfx && bank.xcdValid then
        { aid with xcd := aid.xcd.modify bank.xcdId fun ecc => ecc.log bank.count }
      else { aid with eccErr := aid.eccErr.log bank.count }) = aidSum field blk aid + c.toNat := by
      cases hxcd : (decide (blk = rasBlockIdGfx) && bank.xcdValid) with
      | true =>
        have hgfx : blk = rasBlockIdGfx := by
          rw [Bool.and_eq_true, decide_eq_true_eq] at hxcd
          exact hxcd.1
        have hin : bank.xcdId < aid.xcd.length := by
          simp only [hxcd, Bool.true_and, Bool.not_eq_true', decide_eq_false_iff_not] at hentry
          omega
        have hecc : aid.xcd[bank.xcdId]? = some aid.xcd[bank.xcdId] :=
          getElem?_eq_getElem hin
        have hxcdSum := sum_modify (fun ecc => (field ecc).toNat)
          (fun ecc => ecc.log bank.count) hecc
        have hsmall := le_sum (fun ecc => (field ecc).toNat) hecc
        unfold aidSum at hle ⊢
        rw [if_pos hgfx] at hle ⊢
        rw [if_pos rfl, if_pos hgfx]
        have hone := hadd aid.xcd[bank.xcdId] (by omega)
        dsimp only at hxcdSum ⊢
        omega
      | false =>
        unfold aidSum at hle ⊢
        have hone := hadd aid.eccErr (by omega)
        rw [if_neg Bool.false_ne_true]
        dsimp only
        omega
    rw [haidSum] at hmodify
    omega

theorem clearBlock_new (kind : ErrKind) :
    entrySum (·.newCount kind) blk (clearBlockNewEccCount blk socket) = 0 := by
  unfold entrySum
  apply sum_eq_zero
  intro n hn
  obtain ⟨ecc, hecc, rfl⟩ := mem_map.mp hn
  obtain ⟨aid', haid', hecc⟩ := mem_flatMap.mp hecc
  obtain ⟨aid, _, rfl⟩ := mem_map.mp haid'
  rcases mem_cons.mp hecc with rfl | hecc
  · rfl
  · split at hecc
    · obtain ⟨before, _, rfl⟩ := mem_map.mp hecc
      rfl
    · exact absurd hecc not_mem_nil

theorem clearBlock_total (kind : ErrKind) :
    entrySum (·.totalCount kind) blk (clearBlockNewEccCount blk socket) =
      entrySum (·.totalCount kind) blk socket := by
  rw [entrySum_aids, entrySum_aids]
  unfold clearBlockNewEccCount
  rw [map_map]
  congr 1
  apply map_congr_left
  intro aid _
  unfold aidSum
  by_cases hgfx : blk = rasBlockIdGfx
  · simp only [comp, if_pos hgfx, map_map]
    rfl
  · simp only [comp, if_neg hgfx]
    rfl

end Sums

def Counts.newSum (s : Counts) (blk : Nat) (kind : ErrKind) : Nat :=
  entrySum (·.newCount kind) blk (s.aca blk)

def Counts.totalSum (s : Counts) (blk : Nat) (kind : ErrKind) : Nat :=
  entrySum (·.totalCount kind) blk (s.aca blk)

/-- A query that has read the counts has taken everything. -/
structure BlockInv (s : Counts) (blk : Nat) : Prop where
  totals : ∀ kind, s.totalSum blk kind = s.logged blk kind
  small : ∀ kind, s.logged blk kind < 2 ^ 32
  news : ∀ kind, s.newSum blk kind ≤ s.logged blk kind
  one : s.clearing blk ≤ 1
  once : ∀ kind, s.clearing blk = 0 → s.taken blk kind + s.newSum blk kind = s.logged blk kind
  taking : ∀ kind, s.clearing blk = 1 → s.taken blk kind = s.logged blk kind

structure AnswerInv (a : Answer) : Prop where
  totals : ∀ kind, (a.ecc.totalCount kind).toNat = a.logged kind
  news : a.clear = true → ∀ kind, a.taken kind + (a.ecc.newCount kind).toNat = a.logged kind

structure CountsInv (s : Counts) : Prop where
  blocks : ∀ blk, BlockInv s blk
  answers : ∀ a ∈ s.answers, AnswerInv a

section Invariant

variable {s s' : Counts} {label : Label} {blk : Nat}

theorem BlockInv.found (h : BlockInv s blk) (kind : ErrKind) :
    ((getBlockSocketEccCount blk (s.aca blk)).newCount kind).toNat = s.newSum blk kind ∧
      ((getBlockSocketEccCount blk (s.aca blk)).totalCount kind).toNat = s.totalSum blk kind := by
  have hnews := h.news kind
  have htotals := h.totals kind
  have hsmall := h.small kind
  constructor
  · apply count_new
    unfold Counts.newSum at hnews
    omega
  · apply count_total
    unfold Counts.totalSum at htotals
    omega

theorem CountsInv.exactlyOnce (h : CountsInv s) : ExactlyOnce s where
  once blk kind hidle := by
    rw [((h.blocks blk).found kind).1]
    exact (h.blocks blk).once kind hidle
  totals a ha := (h.answers a ha).totals
  news a ha := (h.answers a ha).news

theorem BlockInv.congr (h : BlockInv s blk) (haca : s'.aca blk = s.aca blk)
    (hclearing : s'.clearing blk = s.clearing blk) (hlogged : s'.logged blk = s.logged blk)
    (htaken : s'.taken blk = s.taken blk) : BlockInv s' blk := by
  have hnew : ∀ kind, s'.newSum blk kind = s.newSum blk kind := by
    intro kind
    unfold Counts.newSum
    rw [haca]
  have htotal : ∀ kind, s'.totalSum blk kind = s.totalSum blk kind := by
    intro kind
    unfold Counts.totalSum
    rw [haca]
  refine ⟨fun kind => ?_, fun kind => ?_, fun kind => ?_, ?_, fun kind => ?_, fun kind => ?_⟩
  · rw [htotal, hlogged]
    exact h.totals kind
  · rw [hlogged]
    exact h.small kind
  · rw [hnew, hlogged]
    exact h.news kind
  · rw [hclearing]
    exact h.one
  · rw [hclearing, htaken, hnew, hlogged]
    exact h.once kind
  · rw [hclearing, htaken, hlogged]
    exact h.taking kind

theorem CountsInv.logBank (h : CountsInv s) (bank : BankEcc)
    (hmeets : Meets s (.logBank blk bank)) : CountsInv (s.logBank blk bank) := by
  refine ⟨fun other => ?_, h.answers⟩
  cases hcheck : checkBlockEccInfo blk (s.aca blk) bank with
  | false =>
    have hsame : logBadBank blk (s.aca blk) bank = s.aca blk := by
      unfold logBadBank
      rw [hcheck]
      rfl
    apply (h.blocks other).congr
    · show update s.aca blk (logBadBank blk (s.aca blk) bank) other = _
      rw [hsame, update_eq_self]
    · rfl
    · show (if checkBlockEccInfo blk (s.aca blk) bank = true then _ else s.logged) other = _
      rw [hcheck]
      rfl
    · rfl
  | true =>
    obtain ⟨hidle, hfit⟩ := hmeets hcheck
    by_cases hother : other = blk
    · subst hother
      have hb := h.blocks other
      have hlogged : ∀ kind, (s.logBank other bank).logged other kind =
          s.logged other kind + (bank.count kind).toNat := by
        intro kind
        show (if checkBlockEccInfo other (s.aca other) bank = true then _ else s.logged) other kind
          = _
        rw [if_pos hcheck, update_self]
      have haca : (s.logBank other bank).aca other =
          logBadBank other (s.aca other) bank := update_self ..
      have htotal : ∀ kind, (s.logBank other bank).totalSum other kind =
          s.totalSum other kind + (bank.count kind).toNat := by
        intro kind
        have hsum := hb.totals kind
        have hlt := hfit kind
        unfold Counts.totalSum at hsum ⊢
        rw [haca]
        exact logBadBank_sum (fun _ => rfl) hcheck (by rw [hsum]; exact hlt)
      have hnew : ∀ kind, (s.logBank other bank).newSum other kind =
          s.newSum other kind + (bank.count kind).toNat := by
        intro kind
        have hsum := hb.news kind
        have hlt := hfit kind
        unfold Counts.newSum at hsum ⊢
        rw [haca]
        exact logBadBank_sum (fun _ => rfl) hcheck (by omega)
      refine ⟨fun kind => ?_, fun kind => ?_, fun kind => ?_, hb.one, fun kind _ => ?_,
        fun kind hbusy => ?_⟩
      · rw [htotal, hlogged, hb.totals]
      · rw [hlogged]
        exact hfit kind
      · rw [hnew, hlogged]
        exact Nat.add_le_add_right (hb.news kind) _
      · have honce := hb.once kind hidle
        show s.taken other kind + _ = _
        rw [hnew, hlogged]
        omega
      · exact absurd (hidle.symm.trans hbusy) (by decide)
    · apply (h.blocks other).congr
      · exact update_of_ne hother ..
      · rfl
      · show (if checkBlockEccInfo blk (s.aca blk) bank = true then _ else s.logged) other = _
        rw [if_pos hcheck, update_of_ne hother]
      · rfl

theorem CountsInv.getCount (h : CountsInv s) (clear : Bool)
    (hmeets : Meets s (.getCount blk clear)) : CountsInv (s.getCount blk clear) := by
  have hb := h.blocks blk
  have hanswer : AnswerInv ⟨blk, clear, getBlockSocketEccCount blk (s.aca blk), s.logged blk,
      s.taken blk⟩ := by
    refine ⟨fun kind => (hb.found kind).2.trans (hb.totals kind), fun hclear kind => ?_⟩
    show s.taken blk kind + _ = s.logged blk kind
    rw [(hb.found kind).1]
    exact hb.once kind (hmeets hclear)
  have hanswers : ∀ a ∈ s.answers ++ [⟨blk, clear, getBlockSocketEccCount blk (s.aca blk),
      s.logged blk, s.taken blk⟩], AnswerInv a :=
    forall_mem_append.mpr ⟨h.answers, forall_mem_singleton.mpr hanswer⟩
  unfold Counts.getCount
  cases clear with
  | false => exact ⟨fun other => (h.blocks other).congr rfl rfl rfl rfl, hanswers⟩
  | true =>
    refine ⟨fun other => ?_, hanswers⟩
    have hidle : s.clearing blk = 0 := hmeets rfl
    by_cases hother : other = blk
    · subst hother
      have hclearing : update s.clearing other (s.clearing other + 1) other = 1 := by
        rw [update_self, hidle]
      refine ⟨hb.totals, hb.small, hb.news, Nat.le_of_eq hclearing, fun kind hzero => ?_,
        fun kind _ => ?_⟩
      · exact absurd (hclearing.symm.trans hzero) (by decide)
      · show update s.taken other _ other kind = _
        rw [update_self, (hb.found kind).1]
        exact hb.once kind hidle
    · exact (h.blocks other).congr rfl (update_of_ne hother ..) rfl
        (update_of_ne hother ..)

theorem CountsInv.clearNew (h : CountsInv s) (hbusy : s.clearing blk ≠ 0) :
    CountsInv (s.clearNew blk) := by
  refine ⟨fun other => ?_, h.answers⟩
  by_cases hother : other = blk
  · subst hother
    have hb := h.blocks other
    have hone := hb.one
    have hclearing : (s.clearNew other).clearing other = 0 := by
      show update s.clearing other (s.clearing other - 1) other = 0
      rw [update_self]
      omega
    have haca : (s.clearNew other).aca other = clearBlockNewEccCount other (s.aca other) :=
      update_self ..
    have hnew : ∀ kind, (s.clearNew other).newSum other kind = 0 := by
      intro kind
      unfold Counts.newSum
      rw [haca]
      exact clearBlock_new kind
    have htotal : ∀ kind, (s.clearNew other).totalSum other kind = s.totalSum other kind := by
      intro kind
      unfold Counts.totalSum
      rw [haca]
      exact clearBlock_total kind
    refine ⟨fun kind => (htotal kind).trans (hb.totals kind), hb.small, fun kind => ?_,
      Nat.le_of_lt (by rw [hclearing]; decide), fun kind _ => ?_, fun kind hone' => ?_⟩
    · rw [hnew]
      exact Nat.zero_le _
    · rw [hnew]
      exact hb.taking kind (by omega)
    · exact absurd (hclearing.symm.trans hone') (by decide)
  · exact (h.blocks other).congr (update_of_ne hother ..)
      (update_of_ne hother ..) rfl rfl

theorem CountsInv.step (h : CountsInv s) (hmeets : Meets s label) (hstep : Step s label s') :
    CountsInv s' := by
  unfold Step at hstep
  cases label with
  | logBank blk bank =>
    cases hstep
    exact h.logBank bank hmeets
  | getCount blk clear =>
    cases hstep
    exact h.getCount clear hmeets
  | clearNew blk =>
    simp only [Counts.next, Option.ite_none_left_eq_some, Option.some.injEq] at hstep
    exact hstep.2 ▸ h.clearNew hstep.1

theorem Initial.inv (h : Initial s) : CountsInv s := by
  obtain ⟨hzero, hclearing, hlogged, htaken, hanswers⟩ := h
  have hentries : ∀ blk, ∀ ecc ∈ entries blk (s.aca blk), ecc = .zero := by
    intro blk ecc hecc
    obtain ⟨aid, haid, hecc⟩ := mem_flatMap.mp hecc
    rcases mem_cons.mp hecc with rfl | hecc
    · exact (hzero blk aid haid).1
    · split at hecc
      · exact (hzero blk aid haid).2 ecc hecc
      · exact absurd hecc not_mem_nil
  have hnew : ∀ blk kind, s.newSum blk kind = 0 := by
    intro blk kind
    apply sum_eq_zero
    intro n hn
    obtain ⟨ecc, hecc, rfl⟩ := mem_map.mp hn
    rw [hentries blk ecc hecc]
    rfl
  have htotal : ∀ blk kind, s.totalSum blk kind = 0 := by
    intro blk kind
    apply sum_eq_zero
    intro n hn
    obtain ⟨ecc, hecc, rfl⟩ := mem_map.mp hn
    rw [hentries blk ecc hecc]
    rfl
  refine ⟨fun blk => ⟨fun kind => ?_, fun kind => ?_, fun kind => ?_, ?_, fun kind _ => ?_,
    fun kind hone => ?_⟩, fun a ha => ?_⟩
  · rw [htotal, hlogged]
  · rw [hlogged]
    exact Nat.two_pow_pos 32
  · rw [hnew]
    exact Nat.zero_le _
  · rw [hclearing]
    exact Nat.zero_le _
  · rw [htaken, hnew, hlogged]
  · exact absurd ((hclearing blk).symm.trans hone) (by decide)
  · rw [hanswers] at ha
    exact absurd ha not_mem_nil

/-- However counting and queries interleave, each error is found new by exactly one query that takes
it, and the totals are those of all logged errors, as long as nothing comes between the two critical
sections of a query. -/
theorem counts_exactlyOnce : ∀ s, Run Initial Step Meets s → ExactlyOnce s := by
  intro s run
  refine CountsInv.exactlyOnce (run.invariant CountsInv (fun s h => h.inv) ?_)
  intro before label after h hmeets hstep
  exact h.step hmeets hstep

def freshCounts : Counts :=
  ⟨fun _ => [⟨.zero, [.zero]⟩], fun _ => 0, fun _ _ => 0, fun _ _ => 0, []⟩

theorem freshCounts_initial : Initial freshCounts := by
  refine ⟨fun blk aid haid => ?_, fun _ => rfl, fun _ _ => rfl, fun _ _ => rfl, rfl⟩
  rw [mem_singleton.mp haid]
  exact ⟨rfl, fun ecc hecc => mem_singleton.mp hecc⟩

def oneBank : BankEcc := ⟨fun _ => 1, true, 0, true, 0⟩

/-- An error that is counted and taken. -/
theorem counts_exactlyOnce_one :
    ExactlyOnce (((freshCounts.logBank 2 oneBank).getCount 2 true).clearNew 2) := by
  have logged : Run Initial Step Meets (freshCounts.logBank 2 oneBank) :=
    .next (.logBank 2 oneBank) (.start freshCounts_initial)
      (fun _ => ⟨rfl, fun _ => show 0 + 1 < 2 ^ 32 by decide⟩) rfl
  have read : Run Initial Step Meets ((freshCounts.logBank 2 oneBank).getCount 2 true) :=
    .next (.getCount 2 true) logged (fun _ => rfl) rfl
  exact counts_exactlyOnce _ (.next (.clearNew 2) read trivial rfl)

/-- An error that is counted between the two critical sections is taken by no query. -/
theorem counts_lost : ¬ ∀ s, Run Initial Step always s → ExactlyOnce s := by
  intro hall
  have read : Run Initial Step always (freshCounts.getCount 2 true) :=
    .next (.getCount 2 true) (.start freshCounts_initial) trivial rfl
  have logged : Run Initial Step always ((freshCounts.getCount 2 true).logBank 2 oneBank) :=
    .next (.logBank 2 oneBank) read trivial rfl
  have cleared : Run Initial Step always
      (((freshCounts.getCount 2 true).logBank 2 oneBank).clearNew 2) :=
    .next (.clearNew 2) logged trivial rfl
  have honce := (hall _ cleared).once 2 .ue (by decide)
  exact absurd honce (by decide)

end Invariant

end MxGpu.Aca
