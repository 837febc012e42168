import MxGpu.SharedExclusion

/- What each step does to the invariant of the lock, and what follows for every run. -/
namespace MxGpu.SharedExclusion

open Tally Function Place

section Steps

variable {Thread : Type} [Fintype Thread] [DecidableEq Thread] {group : Thread → Fin 2}
  {s s' : Sys Thread} {t : Thread} {g : Fin 2} {dest : Place}

variable {src : Place}

theorem Inv.goes (h : Inv group s) (hsrc : s.place t = src)
    (hplace : s'.place = update s.place t dest)
    (hlock : s'.lock = s.lock) (hlocked : dest.locked = src.locked)
    (hothers : ∀ g, group t ≠ g →
      s'.count g = s.count g ∧ s'.gate g = s.gate g ∧ s'.active g = s.active g)
    (hcount : s'.count (group t) + src.member.toNat = s.count (group t) + dest.member.toNat)
    (hstays : src.locked = false → dest.member = src.member)
    (hpermit : s'.sem + dest.holds.toNat + (s'.active (group t)).toNat =
      s.sem + src.holds.toNat + (s.active (group t)).toNat) :
    Goes group s s' t dest := by
  subst hsrc
  refine ⟨hplace, hothers, hcount, ?_, fun h => .inl (hlocked ▸ h), hstays, hpermit⟩
  rw [hlock, hlocked]
  cases hsrc : (s.place t).locked with
  | true => simp [(h.owner t).mp hsrc]
  | false => simp

theorem Inv.acquire (h : Inv group s) (hplace : s.place t = src)
    (hstep : s.acquire t dest = some s') (halike : Alike src dest) (hsrc : src.locked = false)
    (hdest : dest.locked = true) (hholds : dest.holds = src.holds)
    (howes : ∀ count, dest.owes count = 0) : Inv group s' := by
  subst hplace
  unfold Sys.acquire at hstep
  simp only [Option.ite_none_right_eq_some, Option.some.injEq] at hstep
  obtain ⟨hfree, rfl⟩ := hstep
  have hgoes : Goes group s { s.move t dest with lock := some t } t dest := by
    refine ⟨rfl, fun g _ => ⟨rfl, rfl, rfl⟩, ?_, ?_, fun _ => .inr hfree,
      fun _ => halike.member, ?_⟩
    · rw [halike.member]
      rfl
    · rw [if_pos hdest]
    · rw [hholds]
      rfl
  apply hgoes.idle h halike rfl rfl
  rw [howes, owes_unlocked hsrc]

theorem Inv.unlock (h : Inv group s) (hplace : s.place t = src)
    (hstep : s.unlock t dest = some s') (halike : Alike src dest) (hsrc : src.locked = true)
    (hdest : dest.locked = false) (hholds : dest.holds = src.holds)
    (howes : ∀ count, src.owes count = 0) : Inv group s' := by
  subst hplace
  unfold Sys.unlock at hstep
  cases Option.some.inj hstep
  have hgoes : Goes group s { s.move t dest with lock := none } t dest := by
    refine ⟨rfl, fun g _ => ⟨rfl, rfl, rfl⟩, ?_, ?_, ?_, fun _ => halike.member, ?_⟩
    · rw [halike.member]
      rfl
    · simp [hsrc, hdest]
    · intro hlocked
      rw [hdest] at hlocked
      cases hlocked
    · rw [hholds]
      rfl
  apply hgoes.idle h halike rfl rfl
  rw [howes, owes_unlocked hdest]

theorem Inv.semaphore (h : Inv group s) {sem : Nat} (hplace : s.place t = src)
    (hstep : { s.move t dest with sem := sem } = s') (halike : Alike src dest)
    (hlocked : dest.locked = src.locked) (hsem : sem + dest.holds.toNat = s.sem + src.holds.toNat)
    (howes : dest.owes (s.count (group t)) = src.owes (s.count (group t))) : Inv group s' := by
  subst hplace hstep
  have hgoes : Goes group s { s.move t dest with sem := sem } t dest := by
    refine h.goes rfl rfl rfl hlocked (fun g _ => ⟨rfl, rfl, rfl⟩) ?_ (fun _ => halike.member) ?_
    · rw [halike.member]
      rfl
    · show sem + _ + (s.active (group t)).toNat = _
      omega
  exact hgoes.idle h halike rfl rfl howes

omit [DecidableEq Thread] in
theorem Inv.alone (h : Inv group s) (hlocked : (s.place t).locked = true) {u : Thread}
    (hu : u ≠ t) : (s.place u).locked = false := by
  cases hother : (s.place u).locked with
  | false => rfl
  | true =>
    have ht := (h.owner t).mp hlocked
    rw [(h.owner u).mp hother] at ht
    exact absurd (Option.some.inj ht) hu

omit [DecidableEq Thread] in
theorem Inv.counted_lt (h : Inv group s) (hsmall : Small group) (g : Fin 2) :
    0 ≤ s.count g ∧ s.count g < 256 := by
  have hle := threads_le group s.place g member
  have hlt := hsmall g
  have hcounted := h.counted g
  omega

theorem Inv.present_eq (h : Inv group s) (hlocked : (s.place t).locked = true)
    (hplace : s.place t ≠ .deactivating) :
    threads group s.place (group t) present =
      threads group s.place (group t) member := by
  apply tally_congr
  intro u
  have hu : s.place u ≠ .deactivating := by
    intro heq
    by_cases hut : u = t
    · rw [hut] at heq
      exact hplace heq
    · have := h.alone hlocked hut
      rw [heq] at this
      cases this
  simp [present, hu]

theorem Goes.numbers (h : Goes group s s' t dest) (hinv : Inv group s) {src : Place}
    (hplace : s.place t = src) :
    threads group s'.place (group t) leads + src.leads.toNat =
        threads group s.place (group t) leads + dest.leads.toNat ∧
      threads group s'.place (group t) present + src.present.toNat =
        threads group s.place (group t) present + dest.present.toNat ∧
      threads group s'.place (group t) served + src.served.toNat =
        threads group s.place (group t) served + dest.served.toNat ∧
      threads group s'.place (group t) waits + src.waits.toNat =
        threads group s.place (group t) waits + dest.waits.toNat ∧
      threads group s'.place (group t) member + src.member.toNat =
        threads group s.place (group t) member + dest.member.toNat ∧
      s'.owed group (group t) + src.owes (s.count (group t)) =
        s.owed group (group t) + dest.owes (s'.count (group t)) := by
  subst hplace
  exact ⟨h.threads_self _, h.threads_self _, h.threads_self _, h.threads_self _, h.threads_self _,
    h.owed_self hinv⟩

theorem Goes.joins (h : Goes group s s' t dest) (hinv : Inv group s)
    (hplace : s.place t = .counting) (hdest : dest = .dropping ∨ dest = .testing)
    (hgate : s'.gate = s.gate) (hactive : s'.active = s.active)
    (hsession : threads group s.place (group t) leads + dest.leads.toNat +
      (s.active (group t)).toNat = 1) : Inv group s' := by
  have hnumbers := h.numbers hinv hplace
  have hasleep := hinv.asleep (group t)
  have hawake := hinv.awake (group t)
  rw [← hactive, ← hgate] at hasleep hawake
  rw [← hactive] at hsession
  rcases hdest with rfl | rfl
  all_goals
    simp [leads, present, member, served, waits, owes]
      at hnumbers hsession
    apply h.inv hinv
    · omega
    · intro hnot
      have := hasleep hnot
      omega
    · intro hnot
      have := hawake hnot
      omega
    · exact Place.noConfusion

theorem Inv.counting (h : Inv group s) (hsmall : Small group) (hplace : s.place t = .counting)
    (hstep : advance group s t = some s') : Inv group s' := by
  have hcounted := h.counted (group t)
  have hbound := h.counted_lt hsmall (group t)
  have hroom : s.count (group t) + 1 < 256 := by
    have hmove := (@threads_move _ _ _ group) s.place t .inside (group t) member
    have hle := threads_le group (update s.place t .inside) (group t) member
    have hlt := hsmall (group t)
    simp [hplace, member] at hmove
    omega
  have hfirst : u8 (s.count (group t) + 1) = 1 ↔ s.count (group t) = 0 := by
    unfold u8
    omega
  have hsession := h.session (group t)
  have hpresent := h.present_eq (t := t) (by rw [hplace]; rfl)
    (by rw [hplace]; exact Place.noConfusion)
  simp only [advance, hplace, Option.some.injEq] at hstep
  have hgoes : ∀ dest, (dest = .dropping ∨ dest = .testing) →
      s' = { s.move t dest with
        count := update s.count (group t) (s.count (group t) + 1) } →
      Goes group s s' t dest := by
    rintro dest hdest rfl
    refine h.goes hplace rfl rfl ?_ ?_ ?_ nofun ?_
    · rcases hdest with rfl | rfl <;> rfl
    · intro g hg
      exact ⟨update_of_ne (Ne.symm hg) _ _, rfl, rfl⟩
    · rcases hdest with rfl | rfl <;> simp [member]
    · rcases hdest with rfl | rfl <;> rfl
  by_cases hzero : s.count (group t) = 0
  · rw [if_pos (hfirst.mpr hzero)] at hstep
    apply (hgoes _ (.inl rfl) hstep.symm).joins h hplace (.inl rfl)
    · rw [← hstep]
      rfl
    · rw [← hstep]
      rfl
    · simp only [leads, Bool.toNat_true]
      omega
  · rw [if_neg fun heq => hzero (hfirst.mp heq)] at hstep
    apply (hgoes _ (.inr rfl) hstep.symm).joins h hplace (.inr rfl)
    · rw [← hstep]
      rfl
    · rw [← hstep]
      rfl
    · simp only [leads, Bool.toNat_false]
      omega

omit [DecidableEq Thread] in
theorem threads_mono {place : Thread → Place} {kind wider : Place → Bool}
    (h : ∀ p, kind p = true → wider p = true) :
    threads group place g kind ≤ threads group place g wider := by
  apply tally_mono
  intro t ht
  simp only [Bool.and_eq_true] at ht ⊢
  exact ⟨ht.1, h _ ht.2⟩

theorem Inv.rest_waits (h : Inv group s) (hplace : s.place t = .activating) :
    threads group s.place (group t) member =
      1 + threads group s.place (group t) waits := by
  have hlocked : (s.place t).locked = true := by rw [hplace]; rfl
  have hleads : 0 < threads group s.place (group t) leads :=
    threads_some.mpr ⟨t, rfl, by rw [hplace]; rfl⟩
  have hsession := h.session (group t)
  have hserved : threads group s.place (group t) served = 0 := by
    apply (h.asleep _ _).2
    cases hactive : s.active (group t) with
    | false => rfl
    | true =>
      rw [hactive] at hsession
      simp only [Bool.toNat_true] at hsession
      omega
  have hsplit : threads group s.place (group t) member =
      threads group s.place (group t) leads +
        threads group s.place (group t) waits := by
    unfold threads tally
    rw [← Finset.sum_add_distrib]
    apply Finset.sum_congr rfl
    intro u _
    by_cases hg : group u = group t
    · have hnot := threads_none.mp hserved u hg
      by_cases hut : u = t
      · subst hut
        simp [hplace, member, leads, waits]
      · have hfree := h.alone hlocked hut
        cases hu : s.place u <;> rw [hu] at hnot hfree
        all_goals
          simp [served, locked] at hnot hfree
        all_goals
          simp [member, leads, waits]
    · simp [hg]
  omega

theorem Inv.activating (h : Inv group s) (hplace : s.place t = .activating)
    (hstep : advance group s t = some s') : Inv group s' := by
  have hrest := h.rest_waits hplace
  have hsession := h.session (group t)
  have hcounted := h.counted (group t)
  have hleads : 0 < threads group s.place (group t) leads :=
    threads_some.mpr ⟨t, rfl, by rw [hplace]; rfl⟩
  have hactive : s.active (group t) = false := by
    cases hactive : s.active (group t) with
    | false => rfl
    | true =>
      rw [hactive] at hsession
      simp only [Bool.toNat_true] at hsession
      omega
  have hasleep := h.asleep (group t) hactive
  simp only [advance, hplace, Option.some.injEq] at hstep
  have hgoes : Goes group s s' t .reading := by
    subst hstep
    refine h.goes hplace rfl rfl rfl ?_ rfl nofun ?_
    · intro g hg
      exact ⟨rfl, rfl, update_of_ne (Ne.symm hg) _ _⟩
    · simp [hactive, holds, Sys.move]
  have hnumbers := hgoes.numbers h hplace
  have howed : s.owed group (group t) = 0 := by
    unfold Sys.owed
    rw [(h.owner t).mp (by rw [hplace]; rfl)]
    simp [hplace, owes]
  have hcount : s'.count = s.count := by rw [← hstep]; rfl
  have hgate : s'.gate = s.gate := by rw [← hstep]; rfl
  have hactive' : s'.active (group t) = true := by simp [← hstep]
  rw [hactive] at hsession
  simp [leads, present, member, served, waits, owes, hcount]
    at hnumbers hsession
  apply hgoes.inv h
  · rw [hactive', Bool.toNat_true]
    omega
  · intro hnot
    rw [hactive'] at hnot
    cases hnot
  · intro _
    rw [hgate]
    omega
  · nofun

theorem Inv.signalling (h : Inv group s) {waiters : Nat}
    (hplace : s.place t = .signalling (waiters + 1))
    (hstep : advance group s t = some s') : Inv group s' := by
  simp only [advance, hplace, Option.some.injEq] at hstep
  have hgoes : Goes group s s' t (.signalling waiters) := by
    subst hstep
    refine h.goes hplace rfl rfl rfl ?_ rfl nofun rfl
    intro g hg
    exact ⟨rfl, update_of_ne (Ne.symm hg) _ _, rfl⟩
  have hnumbers := hgoes.numbers h hplace
  have hserved : 0 < threads group s.place (group t) served :=
    threads_some.mpr ⟨t, rfl, by rw [hplace]; rfl⟩
  have hsession := h.session (group t)
  have hasleep := h.asleep (group t)
  have hawake := h.awake (group t)
  have hactive : s'.active = s.active := by rw [← hstep]; rfl
  have hgate : s'.gate (group t) = s.gate (group t) + 1 := by simp [← hstep]
  rw [← hactive] at hsession hasleep hawake
  simp [leads, present, member, served, waits, owes]
    at hnumbers
  apply hgoes.inv h
  · omega
  · intro hnot
    have := hasleep hnot
    omega
  · intro hyes
    have := hawake hyes
    omega
  · nofun

theorem Inv.testing (h : Inv group s) (hplace : s.place t = .testing)
    (hstep : advance group s t = some s') : Inv group s' := by
  have hsession := h.session (group t)
  have hasleep := h.asleep (group t)
  have hawake := h.awake (group t)
  simp only [advance, hplace, Option.some.injEq] at hstep
  have hgoes : ∀ dest, (dest = .droppingForGate ∨ dest = .passing) → s' = s.move t dest →
      Goes group s s' t dest := by
    rintro dest hdest rfl
    refine h.goes hplace rfl rfl ?_ (fun g _ => ⟨rfl, rfl, rfl⟩) ?_ nofun ?_
    · rcases hdest with rfl | rfl <;> rfl
    · rcases hdest with rfl | rfl <;> rfl
    · rcases hdest with rfl | rfl <;> rfl
  cases hactive : s.active (group t) with
  | false =>
    rw [if_pos hactive] at hstep
    have hgoes := hgoes _ (.inl rfl) hstep.symm
    have hnumbers := hgoes.numbers h hplace
    subst hstep
    simp [leads, present, member, served, waits, owes]
      at hnumbers
    apply hgoes.inv h
    · show _ + (s.active (group t)).toNat = _
      omega
    · intro hnot
      have := hasleep hnot
      exact ⟨this.1, by omega⟩
    · intro hyes
      have hno : (s.move t .droppingForGate).active (group t) = false := hactive
      rw [hno] at hyes
      cases hyes
    · exact Place.noConfusion
  | true =>
    rw [if_neg (by rw [hactive]; decide)] at hstep
    have hgoes := hgoes _ (.inr rfl) hstep.symm
    have hnumbers := hgoes.numbers h hplace
    subst hstep
    simp [leads, present, member, served, waits, owes]
      at hnumbers
    apply hgoes.inv h
    · show _ + (s.active (group t)).toNat = _
      omega
    · intro hnot
      have hyes : (s.move t .passing).active (group t) = true := hactive
      rw [hyes] at hnot
      cases hnot
    · intro hyes
      have := hawake hyes
      show s.gate (group t) + _ = _
      omega
    · exact Place.noConfusion

theorem Inv.atGate (h : Inv group s) (hplace : s.place t = .atGate)
    (hstep : advance group s t = some s') : Inv group s' := by
  simp only [advance, hplace, Option.ite_none_right_eq_some, Option.some.injEq] at hstep
  obtain ⟨hpermit, hstep⟩ := hstep
  have hactive : s.active (group t) = true := by
    cases hactive : s.active (group t) with
    | true => rfl
    | false =>
      have := (h.asleep (group t) hactive).1
      omega
  have hgoes : Goes group s s' t .inside := by
    subst hstep
    refine h.goes hplace rfl rfl rfl ?_ rfl (fun _ => rfl) rfl
    intro g hg
    exact ⟨rfl, update_of_ne (Ne.symm hg) _ _, rfl⟩
  have hnumbers := hgoes.numbers h hplace
  have hsession := h.session (group t)
  have hawake := h.awake (group t) hactive
  have hactive' : s'.active = s.active := by rw [← hstep]; rfl
  have hgate : s'.gate (group t) + 1 = s.gate (group t) := by
    rw [← hstep]
    simp only [update_self]
    omega
  simp [leads, present, member, served, waits, owes]
    at hnumbers
  apply hgoes.inv h
  · rw [hactive']
    omega
  · intro hnot
    rw [hactive', hactive] at hnot
    cases hnot
  · intro _
    omega
  · nofun

theorem Inv.uncounting (h : Inv group s) (hsmall : Small group)
    (hplace : s.place t = .uncounting) (hstep : advance group s t = some s') :
    Inv group s' := by
  have hcounted := h.counted (group t)
  have hbound := h.counted_lt hsmall (group t)
  have hmember : 0 < threads group s.place (group t) member :=
    threads_some.mpr ⟨t, rfl, by rw [hplace]; rfl⟩
  have hfinal : u8 (s.count (group t) - 1) = 0 ↔ s.count (group t) = 1 := by
    unfold u8
    omega
  have hpresent := h.present_eq (t := t) (by rw [hplace]; rfl)
    (by rw [hplace]; exact Place.noConfusion)
  have hsession := h.session (group t)
  have hasleep := h.asleep (group t)
  have hawake := h.awake (group t)
  simp only [advance, hplace, Option.some.injEq] at hstep
  have hgoes : ∀ dest, (dest = .deactivating ∨ dest = .unlocking) →
      s' = { s.move t dest with
        count := update s.count (group t) (s.count (group t) - 1) } →
      Goes group s s' t dest := by
    rintro dest hdest rfl
    refine h.goes hplace rfl rfl ?_ ?_ ?_ nofun ?_
    · rcases hdest with rfl | rfl <;> rfl
    · intro g hg
      exact ⟨update_of_ne (Ne.symm hg) _ _, rfl, rfl⟩
    · rcases hdest with rfl | rfl <;> simp [member]
    · rcases hdest with rfl | rfl <;> rfl
  have hactive : s'.active = s.active := by rw [← hstep]; rfl
  have hgate : s'.gate = s.gate := by rw [← hstep]; rfl
  rw [← hactive] at hsession hasleep hawake
  rw [← hgate] at hasleep hawake
  by_cases hone : s.count (group t) = 1
  · rw [if_pos (hfinal.mpr hone)] at hstep
    have hgoes := hgoes _ (.inl rfl) hstep.symm
    have hnumbers := hgoes.numbers h hplace
    simp [leads, present, member, served, waits, owes]
      at hnumbers
    apply hgoes.inv h
    · omega
    · intro hnot
      have := hasleep hnot
      omega
    · intro hyes
      have := hawake hyes
      omega
    · intro _
      omega
  · rw [if_neg fun heq => hone (hfinal.mp heq)] at hstep
    have hgoes := hgoes _ (.inr rfl) hstep.symm
    have hnumbers := hgoes.numbers h hplace
    simp [leads, present, member, served, waits, owes]
      at hnumbers
    apply hgoes.inv h
    · omega
    · intro hnot
      have := hasleep hnot
      omega
    · intro hyes
      have := hawake hyes
      omega
    · exact Place.noConfusion

theorem Inv.deactivating (h : Inv group s) (hplace : s.place t = .deactivating)
    (hstep : advance group s t = some s') : Inv group s' := by
  have hlast := h.last t hplace
  have hsession := h.session (group t)
  have hpresent : 0 < threads group s.place (group t) present :=
    threads_some.mpr ⟨t, rfl, by rw [hplace]; rfl⟩
  have hleads : threads group s.place (group t) leads ≤
      threads group s.place (group t) member :=
    threads_mono fun p hp => by cases p <;> simp [leads, member] at hp ⊢
  have hwaits : threads group s.place (group t) waits ≤
      threads group s.place (group t) member :=
    threads_mono fun p hp => by cases p <;> simp [waits, member] at hp ⊢
  have hactive : s.active (group t) = true := by
    cases hactive : s.active (group t) with
    | true => rfl
    | false =>
      rw [hactive] at hsession
      simp only [Bool.toNat_false] at hsession
      omega
  have hawake := h.awake (group t) hactive
  simp only [advance, hplace, Option.some.injEq] at hstep
  have hgoes : Goes group s s' t .releasing := by
    subst hstep
    refine h.goes hplace rfl rfl rfl ?_ rfl (fun _ => rfl) ?_
    · intro g hg
      exact ⟨rfl, rfl, update_of_ne (Ne.symm hg) _ _⟩
    · simp [hactive, holds, Sys.move]
  have hnobody : threads group s'.place (group t) present = 0 := by
    apply threads_none.mpr
    intro u hg
    by_cases hut : u = t
    · rw [hut, hgoes.place_self]
      rfl
    · rw [hgoes.place_other hut]
      have hmember := threads_none.mp hlast u hg
      have hfree := h.alone (t := t) (by rw [hplace]; rfl) hut
      have hnot : s.place u ≠ .deactivating := by
        intro heq
        rw [heq] at hfree
        cases hfree
      simp [present, hmember, hnot]
  have hserved : threads group s'.place (group t) served ≤
      threads group s'.place (group t) present :=
    threads_mono fun p hp => by
      cases p <;> simp [served, present, member] at hp ⊢
  have hnumbers := hgoes.numbers h hplace
  have hactive' : s'.active (group t) = false := by simp [← hstep]
  have hgate : s'.gate = s.gate := by rw [← hstep]; rfl
  simp [leads, member, served, waits, owes] at hnumbers
  apply hgoes.inv h
  · rw [hactive', Bool.toNat_false]
    omega
  · intro _
    rw [hgate]
    omega
  · intro hyes
    rw [hactive'] at hyes
    cases hyes
  · nofun

theorem Inv.advance (h : Inv group s) (hsmall : Small group) (hstep : advance group s t = some s') :
    Inv group s' := by
  cases hplace : s.place t with
  | counting => exact h.counting hsmall hplace hstep
  | activating => exact h.activating hplace hstep
  | testing => exact h.testing hplace hstep
  | atGate => exact h.atGate hplace hstep
  | uncounting => exact h.uncounting hsmall hplace hstep
  | deactivating => exact h.deactivating hplace hstep
  | signalling waiters =>
    cases waiters with
    | zero =>
      simp only [SharedExclusion.advance, hplace] at hstep
      exact h.unlock hplace hstep ⟨rfl, rfl, rfl, rfl, nofun, nofun⟩ rfl rfl rfl fun _ => rfl
    | succ waiters => exact h.signalling hplace hstep
  | reading =>
    have hbound := h.counted_lt hsmall (group t)
    have hcounted := h.counted (group t)
    have hmember : 0 < threads group s.place (group t) member :=
      threads_some.mpr ⟨t, rfl, by rw [hplace]; rfl⟩
    simp only [SharedExclusion.advance, hplace, Option.some.injEq] at hstep
    apply h.semaphore hplace hstep ⟨rfl, rfl, rfl, rfl, nofun, nofun⟩ rfl rfl
    simp only [owes, u8]
    omega
  | atSem =>
    simp only [SharedExclusion.advance, hplace, Option.ite_none_right_eq_some,
      Option.some.injEq] at hstep
    apply h.semaphore hplace hstep.2 ⟨rfl, rfl, rfl, rfl, nofun, nofun⟩ rfl _ rfl
    show s.sem - 1 + 1 = s.sem + 0
    omega
  | releasing =>
    simp only [SharedExclusion.advance, hplace, Option.some.injEq] at hstep
    exact h.semaphore hplace hstep ⟨rfl, rfl, rfl, rfl, nofun, nofun⟩ rfl rfl rfl
  | outside | inside =>
    simp only [SharedExclusion.advance, hplace, Option.some.injEq] at hstep
    exact h.semaphore hplace hstep ⟨rfl, rfl, rfl, rfl, nofun, nofun⟩ rfl rfl rfl
  | wantsLock | relocking | exiting =>
    simp only [SharedExclusion.advance, hplace] at hstep
    exact h.acquire hplace hstep ⟨rfl, rfl, rfl, rfl, nofun, nofun⟩ rfl rfl rfl fun _ => rfl
  | dropping | droppingForGate | passing | unlocking =>
    simp only [SharedExclusion.advance, hplace] at hstep
    exact h.unlock hplace hstep ⟨rfl, rfl, rfl, rfl, nofun, nofun⟩ rfl rfl rfl fun _ => rfl

omit [DecidableEq Thread] in
theorem Inv.exclusive (h : Inv group s) : Exclusive group s := by
  intro t u ht hu
  have hactive : ∀ v, s.place v = .inside → 0 < s.holders group (group v) := by
    intro v hv
    unfold Sys.holders
    cases hactive : s.active (group v) with
    | true =>
      rw [Bool.toNat_true]
      omega
    | false =>
      have hserved := (h.asleep (group v) hactive).2
      have := threads_none.mp hserved v rfl
      rw [hv] at this
      cases this
  have hone := h.permit
  have ht := hactive t ht
  have hu := hactive u hu
  by_contra hne
  have htwo : s.holders group (group t) + s.holders group (group u) =
      s.holders group 0 + s.holders group 1 := by
    have := (group t).isLt
    have := (group u).isLt
    have hcases : group t = 0 ∧ group u = 1 ∨ group t = 1 ∧ group u = 0 := by omega
    rcases hcases with ⟨h0, h1⟩ | ⟨h1, h0⟩
    · rw [h0, h1]
    · rw [h0, h1]
      omega
  omega

omit [DecidableEq Thread] in
theorem Inv.clean (h : Inv group s) : Clean group s := by
  intro g hnone
  have hmember : threads group s.place g member = 0 := threads_none.mpr hnone
  have hwaits : threads group s.place g waits ≤ threads group s.place g member :=
    threads_mono fun p hp => by cases p <;> simp [waits, member] at hp ⊢
  refine ⟨by rw [h.counted, hmember]; rfl, ?_⟩
  cases hactive : s.active g with
  | false => exact (h.asleep g hactive).1
  | true =>
    have := h.awake g hactive
    omega

omit [Fintype Thread] in
theorem advance_isSome : (advance group s t).isSome ∨
    s.lock ≠ none ∧ (s.place t).locked = false ∨ s.place t = .atSem ∧ s.sem = 0 ∨
      s.place t = .atGate ∧ s.gate (group t) = 0 := by
  unfold SharedExclusion.advance
  cases hplace : s.place t with
  | signalling waiters => cases waiters <;> exact .inl rfl
  | wantsLock =>
    simp only [Sys.acquire]
    cases s.lock <;> simp [locked]
  | relocking =>
    simp only [Sys.acquire]
    cases s.lock <;> simp [locked]
  | exiting =>
    simp only [Sys.acquire]
    cases s.lock <;> simp [locked]
  | atSem =>
    rcases Nat.eq_zero_or_pos s.sem with hzero | hpos
    · exact .inr (.inr (.inl ⟨rfl, hzero⟩))
    · simp [hpos]
  | atGate =>
    rcases Nat.eq_zero_or_pos (s.gate (group t)) with hzero | hpos
    · exact .inr (.inr (.inr ⟨rfl, hzero⟩))
    · simp [hpos]
  | _ => exact .inl rfl

theorem Inv.live (h : Inv group s) : Live group s := by
  intro t ht
  cases hlock : s.lock with
  | some u =>
    have hlocked : (s.place u).locked = true := (h.owner u).mpr hlock
    refine ⟨u, fun hout => ?_, ?_⟩
    · rw [hout] at hlocked
      cases hlocked
    · rcases (@advance_isSome _ _ group s u) with hmoves | ⟨_, hnot⟩ | ⟨hat, _⟩ | ⟨hat, _⟩
      · exact hmoves
      · rw [hlocked] at hnot
        cases hnot
      · rw [hat] at hlocked
        cases hlocked
      · rw [hat] at hlocked
        cases hlocked
  | none =>
    by_contra hnone
    have hstuck : ∀ u, s.place u ≠ .outside → s.place u = .atSem ∧ s.sem = 0 ∨
        s.place u = .atGate ∧ s.gate (group u) = 0 := by
      intro u hu
      rcases (@advance_isSome _ _ group s u) with hmoves | ⟨hheld, _⟩ | hat | hat
      · exact absurd ⟨u, hu, hmoves⟩ hnone
      · exact absurd hlock hheld
      · exact .inl hat
      · exact .inr hat
    have hasleep : ∀ g, s.active g = false := by
      intro g
      cases hactive : s.active g with
      | false => rfl
      | true =>
        have hsession := h.session g
        have hawake := h.awake g hactive
        have howed : s.owed group g = 0 := by
          unfold Sys.owed
          rw [hlock]
        rw [hactive, Bool.toNat_true] at hsession
        obtain ⟨u, hg, hpresent⟩ := (@threads_some _ _ group g s.place present).mp (by omega)
        have hleads := threads_none.mp
          (show threads group s.place g leads = 0 by omega) u hg
        have hout : s.place u ≠ .outside := by
          intro hout
          rw [hout] at hpresent
          cases hpresent
        rcases hstuck u hout with ⟨hat, _⟩ | ⟨hat, hgate⟩
        · rw [hat] at hleads
          cases hleads
        · have hwaits : 0 < threads group s.place g waits :=
            threads_some.mpr ⟨u, hg, by rw [hat]; rfl⟩
          rw [hg] at hgate
          omega
    have hholders : ∀ g, s.holders group g = 0 := by
      intro g
      unfold Sys.holders
      rw [hasleep g, Bool.toNat_false, Nat.add_zero]
      apply threads_none.mpr
      intro u _
      by_cases hout : s.place u = .outside
      · rw [hout]
        rfl
      · rcases hstuck u hout with ⟨hat, _⟩ | ⟨hat, _⟩
        · rw [hat]
          rfl
        · rw [hat]
          rfl
    have hpermit := h.permit
    rw [hholders 0, hholders 1] at hpermit
    rcases hstuck t ht with ⟨_, hsem⟩ | ⟨hat, _⟩
    · omega
    · have hpresent : 0 < threads group s.place (group t) present :=
        threads_some.mpr ⟨t, rfl, by rw [hat]; rfl⟩
      have hsession := h.session (group t)
      rw [hasleep, Bool.toNat_false] at hsession
      obtain ⟨u, _, hleads⟩ := (@threads_some _ _ group (group t) s.place leads).mp (by omega)
      have hout : s.place u ≠ .outside := by
        intro hout
        rw [hout] at hleads
        cases hleads
      rcases hstuck u hout with ⟨_, hsem⟩ | ⟨hat, _⟩
      · omega
      · rw [hat] at hleads
        cases hleads

end Steps

section Runs

variable {Thread : Type} [Fintype Thread] [DecidableEq Thread]

/-- At every moment of every run: no two groups are inside, a group without members has left
nothing at its gate, and nobody waits in vain. -/
theorem shared_exclusion (group : Thread → Fin 2) (hsmall : Small group) (s : Sys Thread)
    (hrun : Transition.Run Started (Step group) Transition.always s) :
    Exclusive group s ∧ Clean group s ∧ Live group s := by
  have h : Inv group s := by
    apply hrun.invariant (Inv group)
    · rintro _ rfl
      exact start_inv
    · intro before t after h _ hstep
      exact h.advance hsmall hstep
  exact ⟨h.exclusive, h.clean, h.live⟩

/-- One thread of each group: the first is inside, the second at the semaphore. -/
theorem shared_exclusion_two : ∃ s : Sys (Fin 2), s.place 0 = .inside ∧ s.place 1 = .atSem ∧
    Exclusive id s ∧ Clean id s ∧ Live id s := by
  have hsmall : Small (id : Fin 2 → Fin 2) := by
    intro g
    have := Fintype.card_subtype_le (fun t : Fin 2 => id t = g)
    rw [Fintype.card_fin] at this
    omega
  have hrun : ∃ s, [0, 0, 0, 0, 0, 0, 0, 0, 0, 1, 1, 1, 1].foldlM (advance id)
      (sharedExclusionInit : Sys (Fin 2)) = some s ∧ s.place 0 = .inside ∧ s.place 1 = .atSem :=
    ⟨_, rfl, rfl, rfl⟩
  obtain ⟨s, hfollow, hfirst, hsecond⟩ := hrun
  exact ⟨s, hfirst, hsecond, shared_exclusion id hsmall s (.follow _ (.start rfl) hfollow)⟩

end Runs

end MxGpu.SharedExclusion
