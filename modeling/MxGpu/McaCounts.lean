import MxGpu.Transition
import Mathlib.Algebra.Group.Nat.Defs
import Mathlib.Tactic.Common

/- The error counts that the driver keeps for the host and for each guest (`amdgv_mca.c`). -/
namespace MxGpu.McaCounts

inductive VfPolicy where
  | logOnGuestLoad
  | logOnHostLoad
  | disable
  deriving DecidableEq

inductive ErrorType where
  | ce
  | ue
  | de
  deriving DecidableEq

structure Cache where
  ceCount : BitVec 32
  ueCount : BitVec 32
  deCount : BitVec 32
  ceOverflowCount : BitVec 32
  ueOverflowCount : BitVec 32
  deOverflowCount : BitVec 32
  deriving DecidableEq

def Cache.zero : Cache := ⟨0, 0, 0, 0, 0, 0⟩

structure Client where
  enabled : Bool
  cache : Nat → Cache

structure Adapter where
  rasCap : Nat
  vfPolicy : VfPolicy
  numVf : Fin 32
  client : Nat → Client

abbrev pfIdx : Nat := 31

def testOverflow (oldCnt newCnt : BitVec 32) : Bool := decide (oldCnt + newCnt < oldCnt)

section Clients

variable (adapt : Adapter)

def Adapter.setClient (idxVf : Nat) (client : Client) : Adapter :=
  { adapt with client := Function.update adapt.client idxVf client }

def resetClient (idxVf : Nat) : Adapter :=
  adapt.setClient idxVf { adapt.client idxVf with cache := fun _ => .zero }

def addClient (idxVf : Nat) : Adapter :=
  if adapt.vfPolicy = .disable ∧ idxVf ≠ pfIdx then adapt
  else adapt.setClient idxVf { adapt.client idxVf with enabled := true }

def removeClient (idxVf : Nat) : Adapter :=
  let adapt := resetClient adapt idxVf
  adapt.setClient idxVf { adapt.client idxVf with enabled := false }

def Cache.put (cache : Cache) (ceCount ueCount deCount : BitVec 32) : Cache :=
  { ceCount := cache.ceCount + ceCount
    ueCount := cache.ueCount + ueCount
    deCount := cache.deCount + deCount
    ceOverflowCount :=
      cache.ceOverflowCount + if testOverflow cache.ceCount ceCount then 1 else 0
    ueOverflowCount :=
      cache.ueOverflowCount + if testOverflow cache.ueCount ueCount then 1 else 0
    deOverflowCount :=
      cache.deOverflowCount + if testOverflow cache.deCount deCount then 1 else 0 }

def putClient (ceCount ueCount deCount : BitVec 32) (block idxVf : Nat) : Adapter :=
  let client := adapt.client idxVf
  if client.enabled then
    adapt.setClient idxVf { client with
      cache := Function.update client.cache block
        ((client.cache block).put ceCount ueCount deCount) }
  else adapt

/-- `amdgv_mca_count_cache_put` -/
def put (ceCount ueCount deCount : BitVec 32) (block : Nat) : Adapter :=
  if adapt.rasCap.testBit block then
    let adapt' := (List.range adapt.numVf).foldl
      (fun adapt idxVf => putClient adapt ceCount ueCount deCount block idxVf) adapt
    putClient adapt' ceCount ueCount deCount block pfIdx
  else adapt

/-- `amdgv_mca_count_cache_client_get`: the return code, and what is written to the caller's
variables, which hold `out` before. -/
def clientGet (block idxVf : Nat) (out : Cache) : Int × Cache :=
  if adapt.rasCap.testBit block then
    let client := adapt.client idxVf
    if client.enabled then (0, client.cache block) else (-1, out)
  else (0, out)

/-- `amdgv_mca_count_cache_reset` -/
def reset : Adapter :=
  resetClient ((List.range adapt.numVf).foldl resetClient adapt) pfIdx

inductive CacheEvent where
  | guestLoad
  | hostLoad
  | numVfChange
  | disableCache
  | enableCache

def notifyEvent (event : CacheEvent) (idxVf param : Nat) : Adapter :=
  match event with
  | .hostLoad =>
    let adapt' := addClient adapt pfIdx
    if adapt'.vfPolicy = .logOnHostLoad then (List.range adapt'.numVf).foldl addClient adapt'
    else adapt'
  | .guestLoad =>
    let adapt' :=
      if adapt.vfPolicy = .logOnGuestLoad then resetClient adapt idxVf else adapt
    addClient adapt' idxVf
  | .numVfChange =>
    if 1 < param then (List.range adapt.numVf).foldl removeClient adapt
    else if adapt.vfPolicy = .logOnHostLoad then
      (List.range param).foldl addClient ((List.range adapt.numVf).foldl removeClient adapt)
    else adapt
  | .disableCache | .enableCache => adapt

/-- `amdgv_mca_count_cache_init` -/
def init : Adapter := notifyEvent (addClient adapt pfIdx) .hostLoad pfIdx 0

/-- The part of `amdgv_sched_set_vf_num` that the counts see. -/
def setVfNum (numVf : Fin 32) : Adapter :=
  { notifyEvent adapt .numVfChange pfIdx numVf with numVf := numVf }

end Clients

inductive Call where
  | put (ceCount ueCount deCount : BitVec 32) (block : Nat)
  | enable (idxVf : Nat)
  | disable (idxVf : Nat)
  | reset (idxVf : Nat)
  | get (block idxVf : Nat)
  | resize (numVf : Fin 32)

def Call.run (adapt : Adapter) : Call → Adapter
  | .put ceCount ueCount deCount block => McaCounts.put adapt ceCount ueCount deCount block
  | .enable idxVf => addClient adapt idxVf
  | .disable idxVf => removeClient adapt idxVf
  | .reset idxVf => resetClient adapt idxVf
  | .get _ _ => adapt
  | .resize numVf => { adapt with numVf := numVf }

def Cache.count (cache : Cache) : ErrorType → BitVec 32
  | .ce => cache.ceCount
  | .ue => cache.ueCount
  | .de => cache.deCount

def Cache.overflowCount (cache : Cache) : ErrorType → BitVec 32
  | .ce => cache.ceOverflowCount
  | .ue => cache.ueOverflowCount
  | .de => cache.deOverflowCount

def Cache.value (cache : Cache) (type : ErrorType) : Nat :=
  (cache.overflowCount type).toNat * 2 ^ 32 + (cache.count type).toNat

def Call.errors (block : Nat) (type : ErrorType) : Call → Nat
  | .put ceCount ueCount deCount at' =>
    if at' = block then
      match type with
      | .ce => ceCount.toNat
      | .ue => ueCount.toNat
      | .de => deCount.toNat
    else 0
  | _ => 0

def Call.resets (idxVf : Nat) : Call → Bool
  | .reset i | .disable i => i = idxVf
  | _ => false

structure History where
  adapt : Adapter
  reported : Nat → Nat → ErrorType → Nat

def Step (h : History) (call : Call) (h' : History) : Prop :=
  h'.adapt = call.run h.adapt ∧
    ∀ idxVf block type, h'.reported idxVf block type =
      if call.resets idxVf ∨
        (h.adapt.client idxVf).enabled = false ∧ (h'.adapt.client idxVf).enabled = true then 0
      else h.reported idxVf block type + call.errors block type

/-- A fresh adapter: no client is enabled, and nothing has been reported. -/
def Started (h : History) : Prop :=
  (∀ idxVf, h.adapt.client idxVf = ⟨false, fun _ => .zero⟩) ∧
    ∀ idxVf block type, h.reported idxVf block type = 0

section Counter

variable {overflow count n : BitVec 32}

theorem counter_add :
    (overflow + if testOverflow count n then 1 else 0).toNat * 2 ^ 32 + (count + n).toNat =
      (overflow.toNat * 2 ^ 32 + count.toNat + n.toNat) % 2 ^ 64 := by
  have hcount := count.isLt
  have hn := n.isLt
  have hoverflow := overflow.isLt
  unfold testOverflow
  by_cases h : count.toNat + n.toNat < 2 ^ 32
  · have hsum : (count + n).toNat = count.toNat + n.toNat := by
      rw [BitVec.toNat_add, Nat.mod_eq_of_lt h]
    have hno : ¬ count + n < count := by
      rw [BitVec.lt_def, hsum]
      omega
    have hsame : overflow + 0 = overflow := BitVec.add_zero overflow
    simp only [hno, decide_false, Bool.false_eq_true, if_false, hsame, hsum]
    omega
  · have hsum : (count + n).toNat = count.toNat + n.toNat - 2 ^ 32 := by
      rw [BitVec.toNat_add]
      omega
    have hyes : count + n < count := by
      rw [BitVec.lt_def, hsum]
      omega
    simp only [hyes, decide_true, if_true, BitVec.toNat_add, hsum]
    have : (1 : BitVec 32).toNat = 1 := rfl
    omega

theorem Cache.put_value (cache : Cache) (ceCount ueCount deCount : BitVec 32)
    (type : ErrorType) (block : Nat) :
    (cache.put ceCount ueCount deCount).value type =
      (cache.value type +
        (Call.put ceCount ueCount deCount block).errors block type) % 2 ^ 64 := by
  cases type <;> simp only [Call.errors, if_true] <;> exact counter_add

theorem Cache.value_lt (cache : Cache) (type : ErrorType) : cache.value type < 2 ^ 64 := by
  have hcount := (cache.count type).isLt
  have hoverflow := (cache.overflowCount type).isLt
  unfold Cache.value
  omega

end Counter

section Loops

theorem foldl_each {visit : Adapter → Nat → Adapter} {change : Client → Client}
    (hvisit : ∀ adapt i, visit adapt i = adapt.setClient i (change (adapt.client i)))
    (adapt : Adapter) (list : List Nat) (hlist : list.Nodup) :
    list.foldl visit adapt = { adapt with
      client := fun i => if i ∈ list then change (adapt.client i) else adapt.client i } := by
  induction list generalizing adapt with
  | nil => simp
  | cons i list ih =>
    obtain ⟨hnot, hrest⟩ := List.nodup_cons.mp hlist
    rw [List.foldl_cons, ih _ hrest, hvisit]
    unfold Adapter.setClient
    congr 1
    funext j
    by_cases hj : j = i
    · subst hj
      simp [hnot]
    · simp [hj]

def Client.put (client : Client) (ceCount ueCount deCount : BitVec 32) (block : Nat) : Client :=
  if client.enabled then
    { client with
      cache := Function.update client.cache block
        ((client.cache block).put ceCount ueCount deCount) }
  else client

theorem putClient_eq (adapt : Adapter) (ceCount ueCount deCount : BitVec 32) (block i : Nat) :
    putClient adapt ceCount ueCount deCount block i =
      adapt.setClient i ((adapt.client i).put ceCount ueCount deCount block) := by
  unfold putClient Client.put
  by_cases h : (adapt.client i).enabled = true
  · simp only [h, if_true]
  · simp [h, Adapter.setClient]

theorem put_client (adapt : Adapter) (ceCount ueCount deCount : BitVec 32) (block : Nat) :
    (put adapt ceCount ueCount deCount block) = { adapt with
      client := fun i =>
        if adapt.rasCap.testBit block = true ∧ (i < adapt.numVf.val ∨ i = pfIdx) then
          (adapt.client i).put ceCount ueCount deCount block
        else adapt.client i } := by
  unfold put
  by_cases hcap : adapt.rasCap.testBit block = true
  · have hloop := (@foldl_each
      (fun (adapt : Adapter) (i : Nat) => putClient adapt ceCount ueCount deCount block i)
      (fun client : Client => client.put ceCount ueCount deCount block))
      (fun adapt i => putClient_eq adapt ceCount ueCount deCount block i)
      adapt (List.range adapt.numVf) List.nodup_range
    dsimp only
    rw [if_pos hcap, hloop, putClient_eq]
    unfold Adapter.setClient
    congr 1
    funext i
    have hnumVf := adapt.numVf.isLt
    by_cases hi : i = pfIdx
    · subst hi
      have hnot : ¬ pfIdx < adapt.numVf.val := by
        unfold pfIdx
        omega
      simp [hcap, hnot]
    · simp [hi, hcap]
  · rw [if_neg hcap]
    simp [hcap]

end Loops

section Invariant

variable {h h' : History} {call : Call}

/-- An enabled client holds what has been reported for it, as far as two words go; a disabled one
holds nothing. -/
def Inv (h : History) : Prop :=
  ∀ idxVf, ((h.adapt.client idxVf).enabled = true → ∀ block type,
      ((h.adapt.client idxVf).cache block).value type =
        if h.adapt.rasCap.testBit block then h.reported idxVf block type % 2 ^ 64 else 0) ∧
    ((h.adapt.client idxVf).enabled = false → (h.adapt.client idxVf).cache = fun _ => .zero)

/-- When errors are reported, only the PF and the VFs in use are enabled. -/
def InUse (h : History) : Call → Prop
  | .put _ _ _ _ => ∀ idxVf, (h.adapt.client idxVf).enabled = true →
      idxVf = pfIdx ∨ idxVf < h.adapt.numVf
  | _ => True

theorem quiet_client {adapt : Adapter} (hquiet : ∀ ce ue de block, call ≠ .put ce ue de block)
    (idxVf : Nat) :
    (call.run adapt).rasCap = adapt.rasCap ∧
      (call.resets idxVf = true ∧
          ((call.run adapt).client idxVf).cache = (fun _ => .zero) ∨
        call.resets idxVf = false ∧
          ((call.run adapt).client idxVf).cache = (adapt.client idxVf).cache ∧
          ((adapt.client idxVf).enabled = true → ((call.run adapt).client idxVf).enabled = true)) := by
  cases call with
  | put ce ue de block => exact absurd rfl (hquiet ce ue de block)
  | enable i =>
    simp only [Call.run, Call.resets, addClient]
    split
    · simp
    · by_cases hi : idxVf = i
      · subst hi
        simp [Adapter.setClient]
      · simp [Adapter.setClient, hi]
  | disable i =>
    simp only [Call.run, Call.resets, removeClient, resetClient]
    by_cases hi : i = idxVf
    · subst hi
      simp [Adapter.setClient]
    · simp [Adapter.setClient, hi, Ne.symm hi]
  | reset i =>
    simp only [Call.run, Call.resets, resetClient]
    by_cases hi : i = idxVf
    · subst hi
      simp [Adapter.setClient]
    · simp [Adapter.setClient, hi, Ne.symm hi]
  | get block i => simp [Call.run, Call.resets]
  | resize numVf => simp [Call.run, Call.resets]

theorem zero_value (type : ErrorType) : Cache.zero.value type = 0 := by
  cases type <;> rfl

theorem Inv.quiet (hinv : Inv h) (hstep : Step h call h')
    (hquiet : ∀ ce ue de block, call ≠ .put ce ue de block) : Inv h' := by
  obtain ⟨hadapt, hreported⟩ := hstep
  intro idxVf
  obtain ⟨hcap, hclient⟩ := (@quiet_client call h.adapt) hquiet idxVf
  rw [← hadapt] at hcap hclient
  have herrors : ∀ block type, call.errors block type = 0 := by
    intro block type
    cases call with
    | put ce ue de block => exact absurd rfl (hquiet ce ue de block)
    | _ => rfl
  obtain ⟨henabled, hdisabled⟩ := hinv idxVf
  rcases hclient with ⟨hresets, hempty⟩ | ⟨hresets, hsame, hstays⟩
  · refine ⟨fun _ block type => ?_, fun _ => hempty⟩
    rw [hreported, hresets, hempty, zero_value]
    simp
  · cases hbefore : (h.adapt.client idxVf).enabled with
    | true =>
      have hafter := hstays hbefore
      refine ⟨fun _ block type => ?_, fun hnot => by rw [hafter] at hnot; cases hnot⟩
      rw [hreported, hresets, hbefore, hsame, hcap, herrors, henabled hbefore]
      simp
    | false =>
      have hempty := hdisabled hbefore
      refine ⟨fun hnow block type => ?_, fun _ => by rw [hsame, hempty]⟩
      rw [hreported, hresets, hbefore, hnow, hsame, hempty, zero_value]
      simp

theorem Inv.put {ce ue de : BitVec 32} {block : Nat} (hinv : Inv h)
    (hstep : Step h (.put ce ue de block) h') (hinUse : InUse h (.put ce ue de block)) :
    Inv h' := by
  obtain ⟨hadapt, hreported⟩ := hstep
  intro idxVf
  obtain ⟨henabled, hdisabled⟩ := hinv idxVf
  simp only [Call.run, put_client] at hadapt
  have hcap : h'.adapt.rasCap = h.adapt.rasCap := by rw [hadapt]
  cases hbefore : (h.adapt.client idxVf).enabled with
  | false =>
    have hsame : h'.adapt.client idxVf = h.adapt.client idxVf := by
      rw [hadapt]
      simp [Client.put, hbefore]
    rw [hsame, hbefore]
    exact ⟨nofun, fun _ => hdisabled hbefore⟩
  | true =>
    have hserved := hinUse idxVf hbefore
    have hclient : h'.adapt.client idxVf =
        if h.adapt.rasCap.testBit block = true then (h.adapt.client idxVf).put ce ue de block
        else h.adapt.client idxVf := by
      rw [hadapt]
      simp only [or_comm.mp hserved, and_true]
    have hafter : (h'.adapt.client idxVf).enabled = true := by
      rw [hclient]
      split
      · simp [Client.put, hbefore]
      · exact hbefore
    refine ⟨fun _ at' type => ?_, fun hnot => by rw [hafter] at hnot; cases hnot⟩
    have hvalue := henabled hbefore at' type
    have hresets : (Call.put ce ue de block).resets idxVf = false := rfl
    rw [hreported, hresets, hbefore, hcap, hclient]
    simp only [Bool.false_eq_true, false_and, or_self, if_false, reduceCtorEq]
    by_cases hat : block = at'
    · subst hat
      by_cases hbit : h.adapt.rasCap.testBit block = true
      · rw [if_pos hbit] at hvalue ⊢
        rw [if_pos hbit]
        simp only [Client.put, hbefore, if_true, Function.update_self]
        rw [Cache.put_value _ _ _ _ _ block, hvalue]
        omega
      · rw [if_neg hbit] at hvalue ⊢
        rw [if_neg hbit]
        exact hvalue
    · have hnone : (Call.put ce ue de block).errors at' type = 0 := by
        simp [Call.errors, hat]
      have hsame : ((if h.adapt.rasCap.testBit block = true then
          (h.adapt.client idxVf).put ce ue de block else h.adapt.client idxVf).cache at') =
          (h.adapt.client idxVf).cache at' := by
        split
        · simp [Client.put, hbefore, Ne.symm hat]
        · rfl
      rw [hsame, hnone, Nat.add_zero]
      exact hvalue

theorem Inv.step (hinv : Inv h) (hinUse : InUse h call) (hstep : Step h call h') : Inv h' := by
  cases call with
  | put ce ue de block => exact hinv.put hstep hinUse
  | _ => exact hinv.quiet hstep nofun

theorem Inv.run (hrun : Transition.Run Started Step InUse h) : Inv h := by
  apply hrun.invariant Inv
  · intro h ⟨hclient, hreported⟩ idxVf
    rw [hclient]
    exact ⟨nofun, fun _ => rfl⟩
  · intro before call after hinv hinUse hstep
    exact hinv.step hinUse hstep

theorem Inv.disabled (hinv : Inv h) {idxVf : Nat}
    (hdisabled : (h.adapt.client idxVf).enabled = false) (call : Call) :
    ((call.run h.adapt).client idxVf).cache = (h.adapt.client idxVf).cache := by
  have hempty := (hinv idxVf).2 hdisabled
  have hquiet : (∀ ce ue de block, call ≠ .put ce ue de block) →
      ((call.run h.adapt).client idxVf).cache = (h.adapt.client idxVf).cache := by
    intro hquiet
    rcases ((@quiet_client call h.adapt) hquiet idxVf).2 with ⟨_, hzero⟩ | ⟨_, hsame, _⟩
    · rw [hzero, hempty]
    · exact hsame
  cases call with
  | put ce ue de block =>
    simp only [Call.run, put_client]
    split
    · simp [Client.put, hdisabled]
    · rfl
  | _ => exact hquiet nofun

end Invariant

section Events

variable {adapt adapt' adapt'' : Adapter}

def Quiet (adapt adapt' : Adapter) : Prop :=
  ∃ calls : List Call, (∀ call ∈ calls, ∀ ce ue de block, call ≠ .put ce ue de block) ∧
    calls.foldl Call.run adapt = adapt'

theorem Quiet.refl (adapt : Adapter) : Quiet adapt adapt := ⟨[], nofun, rfl⟩

theorem Quiet.trans (h : Quiet adapt adapt') (h' : Quiet adapt' adapt'') : Quiet adapt adapt'' := by
  obtain ⟨calls, hcalls, rfl⟩ := h
  obtain ⟨calls', hcalls', rfl⟩ := h'
  refine ⟨calls ++ calls', ?_, by rw [List.foldl_append]⟩
  intro call hcall
  rcases List.mem_append.mp hcall with hmem | hmem
  · exact hcalls call hmem
  · exact hcalls' call hmem

theorem Quiet.call (call : Call) (hquiet : ∀ ce ue de block, call ≠ .put ce ue de block) :
    Quiet adapt (call.run adapt) :=
  ⟨[call], by simpa using hquiet, rfl⟩

theorem Quiet.loop {call : Nat → Call} (hquiet : ∀ i ce ue de block, call i ≠ .put ce ue de block)
    (list : List Nat) : Quiet adapt (list.foldl (fun adapt i => (call i).run adapt) adapt) := by
  refine ⟨list.map call, ?_, by rw [List.foldl_map]⟩
  intro c hc
  obtain ⟨i, _, rfl⟩ := List.mem_map.mp hc
  exact hquiet i

theorem notifyEvent_quiet (event : CacheEvent) (idxVf param : Nat) :
    Quiet adapt (notifyEvent adapt event idxVf param) := by
  have henables := fun (adapt : Adapter) list =>
    (@Quiet.loop adapt Call.enable) (by nofun) list
  have hdisables := fun (adapt : Adapter) list =>
    (@Quiet.loop adapt Call.disable) (by nofun) list
  cases event with
  | hostLoad =>
    have hpf : Quiet adapt (addClient adapt pfIdx) := Quiet.call (.enable pfIdx) nofun
    simp only [notifyEvent]
    split
    · exact hpf.trans (henables _ _)
    · exact hpf
  | guestLoad =>
    simp only [notifyEvent]
    split
    · exact (Quiet.call (.reset idxVf) nofun).trans (Quiet.call (.enable idxVf) nofun)
    · exact Quiet.call (.enable idxVf) nofun
  | numVfChange =>
    simp only [notifyEvent]
    split
    · exact hdisables _ _
    · split
      · exact (hdisables _ _).trans (henables _ _)
      · exact Quiet.refl adapt
  | disableCache => exact Quiet.refl adapt
  | enableCache => exact Quiet.refl adapt

theorem init_quiet : Quiet adapt (init adapt) :=
  (Quiet.call (.enable pfIdx) nofun).trans (notifyEvent_quiet ..)

theorem reset_quiet : Quiet adapt (reset adapt) :=
  ((@Quiet.loop adapt Call.reset) (by nofun) _).trans (Quiet.call (.reset pfIdx) nofun)

theorem setVfNum_quiet (numVf : Fin 32) : Quiet adapt (setVfNum adapt numVf) :=
  (notifyEvent_quiet ..).trans (Quiet.call (.resize numVf) nofun)

def History.next (h : History) (call : Call) : History :=
  { adapt := call.run h.adapt
    reported := fun idxVf block type =>
      if call.resets idxVf ∨ (h.adapt.client idxVf).enabled = false ∧
        ((call.run h.adapt).client idxVf).enabled = true then 0
      else h.reported idxVf block type + call.errors block type }

theorem Quiet.run {h : History} (hquiet : Quiet h.adapt adapt')
    (hrun : Transition.Run Started Step InUse h) :
    ∃ h', Transition.Run Started Step InUse h' ∧ h'.adapt = adapt' := by
  obtain ⟨calls, hcalls, rfl⟩ := hquiet
  induction calls generalizing h with
  | nil => exact ⟨h, hrun, rfl⟩
  | cons call calls ih =>
    have hmet : InUse h call := by
      cases call with
      | put ce ue de block => exact absurd rfl (hcalls _ (by simp) ce ue de block)
      | _ => trivial
    apply ih (.next call hrun hmet (show Step h call (h.next call) from ⟨rfl, fun _ _ _ => rfl⟩))
    intro c hc
    exact hcalls c (List.mem_cons_of_mem _ hc)

end Events

section Runs

/-- What a read of an enabled client gives is what has been reported for it since it was enabled or
last reset. -/
def Exact (h : History) (idxVf block : Nat) : Prop :=
  ∀ out, ∃ cache, clientGet h.adapt block idxVf out = (0, cache) ∧
    ∀ type, cache.value type = h.reported idxVf block type % 2 ^ 64

theorem counts_exact (h : History) (hrun : Transition.Run Started Step InUse h) :
    (∀ idxVf block, (h.adapt.client idxVf).enabled = true →
        h.adapt.rasCap.testBit block = true → Exact h idxVf block) ∧
      (∀ idxVf, (h.adapt.client idxVf).enabled = false →
        ∀ call : Call, ((call.run h.adapt).client idxVf).cache = (h.adapt.client idxVf).cache) ∧
      (∀ idxVf other, other ≠ idxVf →
        (resetClient h.adapt idxVf).client other = h.adapt.client other) ∧
      ∀ event idxVf param numVf, ∀ adapt ∈ [notifyEvent h.adapt event idxVf param,
          setVfNum h.adapt numVf, init h.adapt, reset h.adapt],
        ∃ h', Transition.Run Started Step InUse h' ∧ h'.adapt = adapt := by
  have hinv := Inv.run hrun
  refine ⟨?_, ?_, ?_, ?_⟩
  · intro idxVf block henabled hcap out
    refine ⟨(h.adapt.client idxVf).cache block, ?_, fun type => ?_⟩
    · simp [clientGet, hcap, henabled]
    · rw [(hinv idxVf).1 henabled, if_pos hcap]
  · intro idxVf hdisabled call
    exact hinv.disabled hdisabled call
  · intro idxVf other hother
    simp [resetClient, Adapter.setClient, hother]
  · intro event idxVf param numVf adapt hadapt
    simp only [List.mem_cons, List.not_mem_nil, or_false] at hadapt
    rcases hadapt with rfl | rfl | rfl | rfl
    · exact (notifyEvent_quiet ..).run hrun
    · exact (setVfNum_quiet numVf).run hrun
    · exact init_quiet.run hrun
    · exact reset_quiet.run hrun

theorem reported_any (rasCap n : Nat) : ∃ h, Transition.Run Started Step InUse h ∧
    h.adapt.rasCap = rasCap ∧ (∀ i, (h.adapt.client i).enabled = true ↔ i = pfIdx) ∧
      h.reported pfIdx 0 .ce = n := by
  induction n with
  | zero =>
    have hstart : Transition.Run Started Step InUse
        ⟨⟨rasCap, .disable, 0, fun _ => ⟨false, fun _ => .zero⟩⟩, fun _ _ _ => 0⟩ :=
      .start ⟨fun _ => rfl, fun _ _ _ => rfl⟩
    refine ⟨_, .next (.enable pfIdx) hstart trivial
      (show Step _ _ (History.next _ (.enable pfIdx)) from ⟨rfl, fun _ _ _ => rfl⟩), rfl, ?_, ?_⟩
    · intro i
      by_cases hi : i = pfIdx
      · simp [hi, History.next, Call.run, addClient, Adapter.setClient]
      · simp [hi, History.next, Call.run, addClient, Adapter.setClient]
    · simp [History.next, Call.run, addClient, Adapter.setClient]
  | succ n ih =>
    obtain ⟨h, hrun, hcap, henabled, hreported⟩ := ih
    refine ⟨h.next (.put 1 0 0 0), .next (.put 1 0 0 0) hrun
      (fun i hi => .inl ((henabled i).mp hi)) ⟨rfl, fun _ _ _ => rfl⟩, ?_, ?_, ?_⟩
    · simp [History.next, Call.run, put_client, hcap]
    · intro i
      rw [← henabled i]
      simp only [History.next, Call.run, put_client]
      split
      · unfold Client.put
        split <;> simp_all
      · rfl
    · have hpf := (henabled pfIdx).mpr rfl
      simp [History.next, hpf, hreported, Call.resets, Call.errors]

def twoClients : History :=
  ⟨⟨1, .logOnGuestLoad, 2, fun _ => ⟨false, fun _ => .zero⟩⟩, fun _ _ _ => 0⟩

/-- Errors are reported to the PF and a guest, before and after a reset of the guest. -/
theorem counts_exact_two : ∃ h : History, Exact h pfIdx 0 ∧ Exact h 1 0 ∧
    h.reported pfIdx 0 .ce = 7 ∧ h.reported 1 0 .ce = 2 := by
  have next {h : History} (call : Call) (hrun : Transition.Run Started Step InUse h)
      (hinUse : InUse h call) : Transition.Run Started Step InUse (h.next call) :=
    .next call hrun hinUse ⟨rfl, fun _ _ _ => rfl⟩
  have h0 : Transition.Run Started Step InUse twoClients := .start ⟨fun _ => rfl, fun _ _ _ => rfl⟩
  have h2 := next (.enable 1) (next (.enable pfIdx) h0 trivial) trivial
  have h4 := next (.reset 1) (next (.put 5 1 0 0) h2 fun i henabled => by
    simp [History.next, Call.run, addClient, Adapter.setClient, twoClients, Function.update_apply]
      at henabled ⊢
    grind) trivial
  have h5 := next (.put 2 0 3 0) h4 fun i henabled => by
    simp [History.next, Call.run, addClient, resetClient, put_client, Client.put, Adapter.setClient,
      twoClients, Function.update_apply] at henabled ⊢
    grind
  exact ⟨_, (counts_exact _ h5).1 pfIdx 0 (by decide) (by decide),
    (counts_exact _ h5).1 1 0 (by decide) (by decide), by decide, by decide⟩

def guestLoads : History :=
  ⟨⟨1, .logOnGuestLoad, 0, fun _ => ⟨false, fun _ => .zero⟩⟩, fun _ _ _ => 0⟩

def lateCalls : List Call := [.resize 2, .reset 1, .enable 1, .resize 1, .put 1 0 0 0]

theorem next_run {h : History} (calls : List Call)
    (hrun : Transition.Run Started Step Transition.always h) :
    Transition.Run Started Step Transition.always (calls.foldl History.next h) := by
  induction calls generalizing h with
  | nil => exact hrun
  | cons call calls ih =>
    exact ih (.next call hrun trivial (show Step h call (h.next call) from ⟨rfl, fun _ _ _ => rfl⟩))

/-- A block that the adapter's capabilities leave out is not counted; two words do not hold every
number; and a guest that stays enabled while the number of VFs goes below it is passed by. -/
theorem counts_inexact :
    (¬ ∀ h, Transition.Run Started Step InUse h → ∀ idxVf block type,
      (h.adapt.client idxVf).enabled = true →
        ((h.adapt.client idxVf).cache block).value type = h.reported idxVf block type) ∧
      (¬ ∀ h, Transition.Run Started Step InUse h → ∀ idxVf block type,
        (h.adapt.client idxVf).enabled = true → h.adapt.rasCap.testBit block = true →
          ((h.adapt.client idxVf).cache block).value type = h.reported idxVf block type) ∧
      ¬ ∀ h, Transition.Run Started Step Transition.always h → ∀ idxVf block type,
        (h.adapt.client idxVf).enabled = true → h.adapt.rasCap.testBit block = true →
          ((h.adapt.client idxVf).cache block).value type =
            h.reported idxVf block type % 2 ^ 64 := by
  refine ⟨fun hall => ?_, fun hall => ?_, fun hall => ?_⟩
  · obtain ⟨h, hrun, hcap, henabled, hreported⟩ := reported_any 0 1
    have hpf := (henabled pfIdx).mpr rfl
    have hvalue := hall h hrun pfIdx 0 .ce hpf
    rw [(Inv.run hrun pfIdx).1 hpf, hcap, hreported] at hvalue
    simp at hvalue
  · obtain ⟨h, hrun, hcap, henabled, hreported⟩ := reported_any 1 (2 ^ 64)
    have hvalue := hall h hrun pfIdx 0 .ce ((henabled pfIdx).mpr rfl) (by rw [hcap]; decide)
    have hlt := Cache.value_lt ((h.adapt.client pfIdx).cache 0) .ce
    omega
  · have hstart : Transition.Run Started Step Transition.always guestLoads :=
      .start ⟨fun _ => rfl, fun _ _ _ => rfl⟩
    have hvalue := hall _ (next_run lateCalls hstart) 1 0 .ce (by decide) (by decide)
    revert hvalue
    decide

end Runs

end MxGpu.McaCounts
