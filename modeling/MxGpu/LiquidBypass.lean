import Mathlib.Data.List.Count
import Mathlib.Data.List.Nodup
import MxGpu.SwitchTypes
import MxGpu.Transition

namespace MxGpu.Switch

open Transition (Path)
open WorldSwitch Function List

/-! Who is ahead of whom in a list. -/

section ahead

variable {x y : Nat} {list : List Nat}

/-- The part of the list before `x`. -/
def ahead (x : Nat) (list : List Nat) : List Nat := list.takeWhile (· ≠ x)

theorem ahead_cons_self (x : Nat) (list : List Nat) : ahead x (x :: list) = [] := by
  simp [ahead]

theorem ahead_cons_of_ne (h : y ≠ x) : ahead x (y :: list) = y :: ahead x list := by
  simp [ahead, h]

theorem ahead_split (h : x ∈ list) : ∃ after, list = ahead x list ++ x :: after := by
  induction list with
  | nil => cases h
  | cons y rest ih =>
    by_cases hy : y = x
    · subst hy
      exact ⟨rest, by rw [ahead_cons_self, nil_append]⟩
    · obtain ⟨after, hafter⟩ := ih (by simpa [Ne.symm hy] using h)
      refine ⟨after, ?_⟩
      rw [ahead_cons_of_ne hy, cons_append, ← hafter]

theorem ahead_append (h : x ∈ list) (more : List Nat) :
    ahead x (list ++ more) = ahead x list := by
  induction list with
  | nil => cases h
  | cons y rest ih =>
    by_cases hy : y = x
    · subst hy
      rw [cons_append, ahead_cons_self, ahead_cons_self]
    · rw [cons_append, ahead_cons_of_ne hy, ahead_cons_of_ne hy,
        ih (by simpa [Ne.symm hy] using h)]

theorem ahead_erase (h : y ≠ x) : ahead x (list.erase y) = (ahead x list).erase y := by
  induction list with
  | nil => rfl
  | cons z rest ih =>
    by_cases hz : z = x
    · subst hz
      rw [erase_cons_tail (by simpa using Ne.symm h), ahead_cons_self, ahead_cons_self,
        erase_nil]
    · rw [ahead_cons_of_ne hz]
      by_cases hzy : z = y
      · subst hzy
        rw [erase_cons_head, erase_cons_head]
      · rw [erase_cons_tail (by simpa using hzy), erase_cons_tail (by simpa using hzy),
          ahead_cons_of_ne hz, ih]

theorem ahead_length_lt (h : x ∈ list) : (ahead x list).length < list.length := by
  obtain ⟨after, hafter⟩ := ahead_split h
  have hlength := congrArg length hafter
  rw [length_append, length_cons] at hlength
  omega

theorem mem_of_mem_ahead (h : y ∈ ahead x list) : y ∈ list :=
  (takeWhile_sublist _).subset h

end ahead

/-- A world switch between its decisions: `due` has been chosen and not yet moved to the tail of
the list, `picks` are the choices made. -/
structure Rota where
  ws : WorldSwitch
  due : Option Nat
  picks : List Nat

/-- What happens to a world switch in hybrid liquid mode: a decision, the move of the chosen entry,
functions that come and go, and any change of the hardware's and the scheduler's words. -/
inductive Turn
  | decide
  | moveTail
  | add (idxVf : Nat) (timeSlice : BitVec 32) (gfx : Bool)
  | remove (idxVf : Nat) (suspended : Bool)
  | words (vfBusyStatus vfTimeout vfInited : BitVec 32) (currIdxVf : Nat)
      (loaded pfActive : Bool)
  deriving DecidableEq, Repr

def Turn.isDecide : Turn → Bool
  | .decide => true
  | _ => false

/-- One turn; `none` is the use of an empty list. -/
def Rota.turn (r : Rota) : Turn → Option Rota
  | .decide => r.ws.scheduleVfsLiquid.map fun c => ⟨c.1, some c.2.1, r.picks ++ [c.2.1]⟩
  | .moveTail =>
    match r.due with
    | none => some r
    | some idxVf => some { r with ws := r.ws.moveTail idxVf, due := none }
  | .add idxVf timeSlice gfx => some { r with ws := r.ws.addVf idxVf timeSlice gfx }
  | .remove idxVf suspended =>
    some { r with
      ws := r.ws.removeVf idxVf suspended
      due := r.due.filter (· ∈ (r.ws.removeVf idxVf suspended).activeVfList) }
  | .words busy timeout inited curr loaded pfActive =>
    some { r with ws := { r.ws with
      vfBusyStatus := busy
      vfTimeout := timeout
      vfInited := inited
      currIdxVf := curr
      loaded := loaded
      pfActive := pfActive } }

def Turns (before : Rota) (t : Turn) (after : Rota) : Prop := before.turn t = some after

/-- The turns the bound is about: the chosen entry is moved before the next decision, the physical
function is not in the list or active, no function is added twice, and `x` stays. -/
def Keeps (x : Nat) (r : Rota) : Turn → Prop
  | .decide => r.due = none ∧ (pfIdx ∈ r.ws.activeVfList → r.ws.pfActive = true)
  | .add idxVf _ _ => idxVf ∉ r.ws.activeVfList
  | .remove idxVf _ => idxVf ≠ x
  | _ => True

/-! The walk over the list. -/

section walk

variable {vfStatus : BitVec 32} {pfActive : Bool} {first last x : Nat} {arrayVf : Nat → Entry}

theorem bumpSkip_self (arrayVf : Nat → Entry) (x : Nat) :
    (bumpSkip arrayVf x x).skipCnt = (arrayVf x).skipCnt + 1 := by
  simp [bumpSkip]

theorem bumpSkip_of_ne {i : Nat} (h : x ≠ i) : bumpSkip arrayVf i x = arrayVf x := by
  simp [bumpSkip, update_of_ne h]

theorem skipCnt_le_bumpSkip (arrayVf : Nat → Entry) (i x : Nat) :
    (arrayVf x).skipCnt ≤ (bumpSkip arrayVf i x).skipCnt := by
  by_cases h : x = i
  · subst h
    rw [bumpSkip_self]
    omega
  · exact Nat.le_of_eq (by rw [bumpSkip_of_ne h])

theorem skipCnt_le_liquidWalk (list : List Nat) (x : Nat) : (arrayVf x).skipCnt ≤
    ((liquidWalk vfStatus pfActive first last list arrayVf).1 x).skipCnt := by
  induction list generalizing arrayVf with
  | nil => exact Nat.le_refl _
  | cons i rest ih =>
    unfold liquidWalk
    split
    · exact Nat.le_refl _
    · split
      · exact Nat.le_refl _
      · split
        · exact ih
        · split
          · exact Nat.le_refl _
          · exact Nat.le_trans (skipCnt_le_bumpSkip arrayVf i x) ih

theorem liquidWalk_cases {list : List Nat} (hx : x ∈ list) (hpf : x = pfIdx → pfActive = true) :
    (liquidWalk vfStatus pfActive first last list arrayVf).2 ∈ x :: first :: ahead x list ∨
      (arrayVf x).skipCnt < maxVfSkipCnt ∧ (arrayVf x).skipCnt + 1 ≤
        ((liquidWalk vfStatus pfActive first last list arrayVf).1 x).skipCnt := by
  induction list generalizing arrayVf with
  | nil => cases hx
  | cons i rest ih =>
    by_cases hi : i = x
    · subst hi
      unfold liquidWalk
      split
      · exact .inl (by simp)
      · split
        · exact .inl (by simp)
        · split
          · rename_i hskip
            exact absurd (hpf hskip.1) (by simpa using hskip.2)
          · split
            · exact .inl (by simp)
            · rename_i hskip
              have hgrown : (bumpSkip arrayVf i i).skipCnt ≤ ((liquidWalk vfStatus pfActive
                  first last rest (bumpSkip arrayVf i)).1 i).skipCnt :=
                skipCnt_le_liquidWalk rest i
              rw [bumpSkip_self] at hgrown
              exact .inr ⟨Nat.lt_of_not_le hskip, hgrown⟩
    · have hrest : x ∈ rest := by simpa [Ne.symm hi] using hx
      have hdeeper : ∀ j, j ∈ x :: first :: ahead x rest →
          j ∈ x :: first :: ahead x (i :: rest) := by
        intro j hj
        rw [ahead_cons_of_ne hi]
        grind
      unfold liquidWalk
      split
      · exact .inl (by simp [ahead_cons_of_ne hi])
      · split
        · exact .inl (by simp)
        · split
          · exact (ih hrest).imp (hdeeper _) id
          · split
            · exact .inl (by simp [ahead_cons_of_ne hi])
            · have hpassed := @ih (bumpSkip arrayVf i) hrest
              rw [bumpSkip_of_ne (Ne.symm hi)] at hpassed
              exact hpassed.imp (hdeeper _) id

end walk

theorem head_ahead {x head : Nat} {rest : List Nat} :
    head = x ∨ head ∈ ahead x (head :: rest) := by
  by_cases h : head = x
  · exact .inl h
  · rw [ahead_cons_of_ne h]
    exact .inr (mem_cons_self ..)

section decide

variable {ws next : WorldSwitch} {x c : Nat} {ts : Time}

theorem liquidPick_cases {head : Nat} {rest : List Nat} (hlist : ws.activeVfList = head :: rest)
    (hx : x ∈ ws.activeVfList) (hpf : x = pfIdx → ws.pfActive = true) (last : Nat) :
    (ws.arrayVf x).skipCnt ≤ ((ws.liquidPick head last).1 x).skipCnt ∧
      ((ws.liquidPick head last).2 ∈ x :: ahead x ws.activeVfList ∨
        (ws.arrayVf x).skipCnt < maxVfSkipCnt ∧
          (ws.arrayVf x).skipCnt + 1 ≤ ((ws.liquidPick head last).1 x).skipCnt) := by
  have hfirst : head ∈ x :: ahead x ws.activeVfList := by
    rw [hlist, mem_cons]
    exact head_ahead
  unfold liquidPick
  dsimp only
  split
  · exact ⟨Nat.le_refl _, .inl hfirst⟩
  · refine ⟨skipCnt_le_liquidWalk _ x, ?_⟩
    refine (liquidWalk_cases hx hpf).imp (fun hmem => ?_) id
    rcases mem_cons.mp hmem with heq | hmem
    · rw [heq]
      exact mem_cons_self ..
    · rcases mem_cons.mp hmem with heq | hmem
      · rw [heq]
        exact hfirst
      · exact mem_cons_of_mem _ hmem

theorem scheduleVfsLiquid_cases (hx : x ∈ ws.activeVfList)
    (hpf : pfIdx ∈ ws.activeVfList → ws.pfActive = true)
    (h : ws.scheduleVfsLiquid = some (next, c, ts)) (hc : c ≠ x) :
    next.activeVfList = ws.activeVfList ∧
      (ws.arrayVf x).skipCnt ≤ (next.arrayVf x).skipCnt ∧
      (c ∈ ahead x ws.activeVfList ∨ (ws.arrayVf x).skipCnt < maxVfSkipCnt ∧
        (ws.arrayVf x).skipCnt + 1 ≤ (next.arrayVf x).skipCnt) := by
  unfold scheduleVfsLiquid at h
  split at h
  · cases h
  · rename_i head rest hlist
    have hactive : ¬(head = pfIdx ∧ ¬ws.pfActive = true) := by
      intro hidle
      apply hidle.2
      apply hpf
      rw [hlist, ← hidle.1]
      exact mem_cons_self ..
    have hhead : ws.activeVfList.head?.getD head = head := by
      rw [hlist]
      rfl
    rw [if_neg hactive] at h
    dsimp only at h
    rw [hhead] at h
    cases h
    have hpick := liquidPick_cases hlist hx (fun heq => hpf (heq ▸ hx))
      (ws.activeVfList.getLast?.getD head)
    refine ⟨rfl, ?_⟩
    dsimp only
    rw [update_of_ne (Ne.symm hc)]
    refine ⟨hpick.1, hpick.2.imp (fun hmem => ?_) id⟩
    exact (mem_cons.mp hmem).resolve_left hc

end decide

section bypass

variable {x : Nat} {r r' : Rota} {t : Turn} {turns : List Turn}

/-- How many decisions `x` may still be passed over in: those ahead of it that are not on their
way to the tail, and what its count leaves. -/
def Rota.waiting (x : Nat) (r : Rota) : Nat :=
  (ahead x r.ws.activeVfList).countP (fun y => r.due ≠ some y) +
    (maxVfSkipCnt - (r.ws.arrayVf x).skipCnt)

/-- `x` is in the list, which holds no function twice, and is not the one chosen last. -/
def Rota.Waits (x : Nat) (r : Rota) : Prop :=
  x ∈ r.ws.activeVfList ∧ r.ws.activeVfList.Nodup ∧ r.due ≠ some x

theorem countP_due_lt {list : List Nat} {c : Nat} (h : c ∈ list) :
    list.countP (fun y => some c ≠ some y) < list.length := by
  rw [countP_lt_length_iff]
  exact ⟨c, h, by simp⟩

theorem Waits.decide (hwaits : r.Waits x) (hkeeps : Keeps x r .decide)
    (h : Turns r .decide r') : x ∈ r'.picks ∨ r'.Waits x ∧ r'.waiting x + 1 ≤ r.waiting x := by
  obtain ⟨hx, hnodup, hdue⟩ := hwaits
  obtain ⟨hnone, hpf⟩ := hkeeps
  obtain ⟨⟨next, c, ts⟩, hsched, rfl⟩ := Option.map_eq_some_iff.mp h
  by_cases hc : c = x
  · subst hc
    exact .inl (by simp)
  · obtain ⟨hlist, hgrown, hcases⟩ := scheduleVfsLiquid_cases hx hpf hsched hc
    refine .inr ⟨⟨?_, ?_, ?_⟩, ?_⟩
    · rw [hlist]
      exact hx
    · rw [hlist]
      exact hnodup
    · simpa using hc
    · have hall : (ahead x r.ws.activeVfList).countP (fun y => r.due ≠ some y) =
          (ahead x r.ws.activeVfList).length := by
        rw [countP_eq_length]
        intro y _
        simp [hnone]
      rw [Rota.waiting, Rota.waiting, hall]
      dsimp only
      rw [hlist]
      rcases hcases with hahead | ⟨hsmall, hmore⟩
      · have hfewer := countP_due_lt hahead
        omega
      · have hle := countP_le_length (p := fun y => decide (some c ≠ some y))
          (l := ahead x r.ws.activeVfList)
        omega

theorem Waits.moveTail (hwaits : r.Waits x) (h : Turns r .moveTail r') :
    r'.Waits x ∧ r'.waiting x ≤ r.waiting x := by
  obtain ⟨hx, hnodup, hdue⟩ := hwaits
  rcases hc : r.due with _ | c
  · simp only [Turns, Rota.turn, hc, Option.some.injEq] at h
    subst h
    exact ⟨⟨hx, hnodup, hdue⟩, Nat.le_refl _⟩
  · simp only [Turns, Rota.turn, hc, Option.some.injEq] at h
    subst h
    have hne : c ≠ x := fun heq => hdue (by rw [hc, heq])
    have hmem : x ∈ r.ws.activeVfList.erase c := (mem_erase_of_ne (Ne.symm hne)).mpr hx
    refine ⟨⟨?_, ?_, by simp⟩, ?_⟩
    · exact mem_append_left _ hmem
    · have hgone : c ∉ r.ws.activeVfList.erase c := by
        rw [hnodup.mem_erase_iff]
        exact fun hmem => hmem.1 rfl
      show (r.ws.activeVfList.erase c ++ [c]).Nodup
      rw [← concat_eq_append]
      exact List.Nodup.concat hgone (hnodup.erase c)
    · have hahead : ahead x (r.ws.moveTail c).activeVfList =
          (ahead x r.ws.activeVfList).erase c := by
        rw [← ahead_erase hne]
        exact ahead_append hmem [c]
      have hcount : ((ahead x r.ws.activeVfList).erase c).countP (fun y => none ≠ some y) ≤
          (ahead x r.ws.activeVfList).countP (fun y => some c ≠ some y) := by
        have hsub : (ahead x r.ws.activeVfList).Nodup :=
          hnodup.sublist (takeWhile_sublist _)
        rw [hsub.erase_eq_filter, countP_filter]
        apply countP_mono_left
        intro y _ hy
        have hyc : y ≠ c := by simpa using hy
        simpa using Ne.symm hyc
      rw [Rota.waiting, Rota.waiting, hahead, hc]
      exact Nat.add_le_add_right hcount _

theorem addVf_cases (ws : WorldSwitch) (i : Nat) (slice : BitVec 32) (gfx : Bool) :
    ((ws.addVf i slice gfx).activeVfList = ws.activeVfList ∨
        (ws.addVf i slice gfx).activeVfList = ws.activeVfList ++ [i]) ∧
      ∀ j, j ≠ i → (ws.addVf i slice gfx).arrayVf j = ws.arrayVf j := by
  unfold addVf
  split
  · exact ⟨.inl rfl, fun _ _ => rfl⟩
  · dsimp only
    split <;> split
    · exact ⟨.inl rfl, fun j hj => update_of_ne hj ..⟩
    · exact ⟨.inr rfl, fun j hj => update_of_ne hj ..⟩
    · exact ⟨.inl rfl, fun j hj => update_of_ne hj ..⟩
    · exact ⟨.inr rfl, fun j hj => update_of_ne hj ..⟩

theorem removeVf_cases (ws : WorldSwitch) (i : Nat) (suspended : Bool) :
    ((ws.removeVf i suspended).activeVfList = ws.activeVfList ∨
        (ws.removeVf i suspended).activeVfList = ws.activeVfList.erase i) ∧
      ∀ j, j ≠ i → (ws.removeVf i suspended).arrayVf j = ws.arrayVf j := by
  unfold removeVf
  split
  · exact ⟨.inl rfl, fun _ _ => rfl⟩
  · dsimp only
    split <;> split
    · exact ⟨.inl rfl, fun j hj => update_of_ne hj ..⟩
    · exact ⟨.inr rfl, fun _ _ => rfl⟩
    · exact ⟨.inl rfl, fun j hj => update_of_ne hj ..⟩
    · exact ⟨.inr rfl, fun _ _ => rfl⟩

theorem Waits.add {i : Nat} {slice : BitVec 32} {gfx : Bool} (hwaits : r.Waits x)
    (hkeeps : Keeps x r (.add i slice gfx)) (h : Turns r (.add i slice gfx) r') :
    r'.Waits x ∧ r'.waiting x ≤ r.waiting x := by
  obtain ⟨hx, hnodup, hdue⟩ := hwaits
  cases h
  have hi : i ∉ r.ws.activeVfList := hkeeps
  have hne : x ≠ i := fun heq => hi (heq ▸ hx)
  obtain ⟨hlist, hentry⟩ := addVf_cases r.ws i slice gfx
  unfold Rota.Waits Rota.waiting
  dsimp only
  rw [hentry x hne]
  rcases hlist with hlist | hlist
  · rw [hlist]
    exact ⟨⟨hx, hnodup, hdue⟩, Nat.le_refl _⟩
  · rw [hlist, ahead_append hx]
    refine ⟨⟨mem_append_left _ hx, ?_, hdue⟩, Nat.le_refl _⟩
    rw [← concat_eq_append]
    exact List.Nodup.concat hi hnodup

theorem countP_filter_due {part list : List Nat} (hsub : ∀ y ∈ part, y ∈ list)
    (due : Option Nat) : part.countP (fun y => due.filter (· ∈ list) ≠ some y) =
      part.countP (fun y => due ≠ some y) := by
  apply countP_congr
  intro y hy
  rcases due with _ | c
  · rfl
  · by_cases hc : c ∈ list
    · simp [Option.filter, hc]
    · have hne : c ≠ y := fun heq => hc (heq ▸ hsub y hy)
      simp [Option.filter, hc, hne]

theorem Waits.remove {i : Nat} {suspended : Bool} (hwaits : r.Waits x)
    (hkeeps : Keeps x r (.remove i suspended)) (h : Turns r (.remove i suspended) r') :
    r'.Waits x ∧ r'.waiting x ≤ r.waiting x := by
  obtain ⟨hx, hnodup, hdue⟩ := hwaits
  cases h
  have hne : i ≠ x := hkeeps
  obtain ⟨hlist, hentry⟩ := removeVf_cases r.ws i suspended
  have hdue' : r.due.filter (· ∈ (r.ws.removeVf i suspended).activeVfList) ≠ some x := by
    intro heq
    exact hdue (Option.filter_eq_some_iff.mp heq).1
  have hcount := countP_filter_due
    (fun y hy => mem_of_mem_ahead hy : ∀ y ∈ ahead x (r.ws.removeVf i suspended).activeVfList,
      y ∈ (r.ws.removeVf i suspended).activeVfList) r.due
  unfold Rota.Waits Rota.waiting
  dsimp only
  rw [hcount, hentry x (Ne.symm hne)]
  rcases hlist with hlist | hlist
  · rw [hlist] at hdue' ⊢
    exact ⟨⟨hx, hnodup, hdue'⟩, Nat.le_refl _⟩
  · rw [hlist] at hdue' ⊢
    refine ⟨⟨(mem_erase_of_ne (Ne.symm hne)).mpr hx, hnodup.erase i, hdue'⟩, ?_⟩
    rw [ahead_erase hne]
    exact Nat.add_le_add_right (erase_sublist.countP_le) _

theorem Waits.turn (hwaits : r.Waits x) (hkeeps : Keeps x r t) (h : Turns r t r') :
    x ∈ r'.picks ∨ r'.Waits x ∧ (if t.isDecide then r'.waiting x + 1 ≤ r.waiting x
      else r'.waiting x ≤ r.waiting x + 0) := by
  cases t with
  | decide => exact Waits.decide hwaits hkeeps h
  | moveTail => exact .inr (Waits.moveTail hwaits h)
  | add i slice gfx => exact .inr (Waits.add hwaits hkeeps h)
  | remove i suspended => exact .inr (Waits.remove hwaits hkeeps h)
  | words busy timeout inited curr loaded pfActive =>
    cases h
    exact .inr ⟨hwaits, Nat.le_refl _⟩

theorem Turns.picks (h : Turns r t r') : ∀ y ∈ r.picks, y ∈ r'.picks := by
  intro y hy
  cases t with
  | decide =>
    obtain ⟨c, _, rfl⟩ := Option.map_eq_some_iff.mp h
    exact mem_append_left _ hy
  | moveTail =>
    rcases hdue : r.due with _ | c
    · simp only [Turns, Rota.turn, hdue, Option.some.injEq] at h
      exact h ▸ hy
    · simp only [Turns, Rota.turn, hdue, Option.some.injEq] at h
      exact h ▸ hy
  | add i slice gfx =>
    cases h
    exact hy
  | remove i suspended =>
    cases h
    exact hy
  | words busy timeout inited curr loaded pfActive =>
    cases h
    exact hy

theorem path_picks (hpath : Path Turns (Keeps x) r turns r') :
    ∀ y ∈ r.picks, y ∈ r'.picks := by
  induction hpath with
  | nil => exact fun _ hy => hy
  | cons _ hturn _ ih => exact fun y hy => ih y (hturn.picks y hy)

/-- A world switch whose last choice has been moved to the tail, before any decision. -/
def WorldSwitch.watch (ws : WorldSwitch) : Rota := ⟨ws, none, []⟩

/-- Bounded bypass: a function that stays in a list of `n` is chosen within `n` and
`MAX_VF_SKIP_CNT` decisions, whatever the busy and timeout words do. -/
theorem bounded_bypass {ws : WorldSwitch} (hx : x ∈ ws.activeVfList)
    (hnodup : ws.activeVfList.Nodup) (hpath : Path Turns (Keeps x) ws.watch turns r')
    (hcount : turns.countP Turn.isDecide = ws.activeVfList.length + maxVfSkipCnt) :
    x ∈ r'.picks := by
  have hwaits : ws.watch.Waits x := ⟨hx, hnodup, by simp [WorldSwitch.watch]⟩
  rcases Path.meets_or_bounded (fun r => x ∈ r.picks) (Rota.Waits x) (Rota.waiting x)
      Turn.isDecide 0 (fun _ _ _ => Waits.turn) hpath hwaits with hmeets | ⟨_, hbound⟩
  · obtain ⟨early, late, middle, _, _, hlate, hchosen⟩ := hmeets
    exact path_picks hlate x hchosen
  · have hahead := ahead_length_lt hx
    have hfew : ws.watch.waiting x ≤ (ahead x ws.activeVfList).length + maxVfSkipCnt :=
      Nat.add_le_add countP_le_length (Nat.sub_le _ _)
    omega

instance (x : Nat) (r : Rota) (t : Turn) : Decidable (Keeps x r t) := by
  cases t <;> unfold Keeps <;> infer_instance

/-- Turns one after another, as long as they keep `x`. -/
def Rota.follow (x : Nat) : Rota → List Turn → Option Rota
  | r, [] => some r
  | r, t :: rest => if Keeps x r t then (r.turn t).bind fun r => Rota.follow x r rest else none

theorem path_follow (h : Rota.follow x r turns = some r') : Path Turns (Keeps x) r turns r' := by
  induction turns generalizing r with
  | nil =>
    cases h
    exact .nil _
  | cons t rest ih =>
    unfold Rota.follow at h
    split at h
    · rename_i hkeeps
      obtain ⟨middle, hturn, hrest⟩ := Option.bind_eq_some_iff.mp h
      exact .cons hkeeps hturn (ih hrest)
    · cases h

def oneBusy : WorldSwitch where
  fairnessMode := false
  vfBusyStatus := 1
  vfTimeout := 0
  vfInited := 3
  currIdxVf := 0
  loaded := true
  activeVfList := [0, 1]
  arrayVf := fun _ => ⟨5000, 0, false, 0, 0, 0, false, 0⟩
  pfActive := false
  usePf := false
  bpMode := false
  gfxTimeSlice := fun _ => 5000

def tenDecisions : List Turn := (replicate 10 [.decide, .moveTail]).flatten

/-- The idle one gets its turn behind nine of the busy one. -/
theorem bounded_bypass_busy : ∃ r', Rota.follow 1 oneBusy.watch tenDecisions = some r' ∧
    r'.picks = [0, 0, 0, 0, 0, 0, 0, 0, 0, 1] ∧ 1 ∈ r'.picks := by
  obtain ⟨r', hr'⟩ := Option.isSome_iff_exists.mp
    (show (Rota.follow 1 oneBusy.watch tenDecisions).isSome = true by decide +kernel)
  have hpicks : (Rota.follow 1 oneBusy.watch tenDecisions).map Rota.picks =
      some [0, 0, 0, 0, 0, 0, 0, 0, 0, 1] := by decide +kernel
  rw [hr', Option.map_some, Option.some.injEq] at hpicks
  exact ⟨r', hr', hpicks, bounded_bypass (by decide) (by decide) (path_follow hr') (by decide)⟩

end bypass

end MxGpu.Switch
