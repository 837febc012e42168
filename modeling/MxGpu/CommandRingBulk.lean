import Mathlib.Data.List.Induction
import Mathlib.Data.Nat.Bitwise
import MxGpu.AlignUp
import MxGpu.CommandRing

/- Words in bulk are the same words one at a time, and what a caller reserves covers its words and
the padding. -/
namespace MxGpu.CommandRing

open AmdgvRing Function

variable {r : AmdgvRing} {k p a : Nat} {src : List Word} {v : Word}

/-- The sizes of a ring as powers of two: `2 ^ k` words, pointers up to `2 ^ p`, and fetches of
`2 ^ a` words. -/
structure Shape (r : AmdgvRing) (k p a : Nat) : Prop where
  buf : r.bufMask.toNat = 2 ^ k - 1
  buf_le : k ≤ 31
  ptr : r.ptrMask.toNat = 2 ^ p - 1
  ptr_le : p ≤ 64
  le_ptr : k ≤ p
  fetch : r.fetchMask.toNat = 2 ^ a - 1
  fetch_le : a ≤ 31
  fetch_buf : a ≤ k
  positive : r.maxDw.toNat < 2 ^ 31

theorem toNat_and_mask {w : Nat} {mask : BitVec w} (x : BitVec w) (whole : mask.toNat = 2 ^ k - 1) :
    (x &&& mask).toNat = x.toNat % 2 ^ k := by
  rw [BitVec.toNat_and, whole, Nat.and_two_pow_sub_one_eq_mod]

theorem toNat_and_wide {mask : Word} (x : BitVec 64) (whole : mask.toNat = 2 ^ k - 1) :
    (x &&& mask.setWidth 64).toNat = x.toNat % 2 ^ k := by
  apply toNat_and_mask
  rw [BitVec.toNat_setWidth, whole]
  apply Nat.mod_eq_of_lt
  have small := mask.isLt
  rw [whole] at small
  omega

section Memcpy

variable {mem : Nat → Word} {dst : Nat}

@[simp] theorem memcpy_nil (mem : Nat → Word) (dst : Nat) : memcpy mem dst [] = mem := by
  funext at_
  simp [memcpy]

theorem memcpy_concat (mem : Nat → Word) (dst : Nat) (src : List Word) (v : Word) :
    memcpy mem dst (src ++ [v]) = update (memcpy mem dst src) (dst + src.length) v := by
  funext at_
  by_cases here : at_ = dst + src.length
  · subst here
    rw [update_self, memcpy, if_pos (Nat.le_add_right ..), Nat.add_sub_cancel_left]
    simp
  · rw [update_of_ne here, memcpy, memcpy]
    by_cases low : dst ≤ at_
    · rw [if_pos low, if_pos low, List.getD_eq_getElem?_getD, List.getD_eq_getElem?_getD,
        List.getElem?_append]
      by_cases inside : at_ - dst < src.length
      · rw [if_pos inside]
      · rw [if_neg inside, List.getElem?_eq_none (by simp; omega),
          List.getElem?_eq_none (Nat.le_of_not_lt inside)]
    · rw [if_neg low, if_neg low]

end Memcpy

section Writes

structure Written (r after : AmdgvRing) (count : Nat) : Prop where
  same : after = { r with ring := after.ring, wptr := after.wptr, countDw := after.countDw }
  wptr : after.wptr = (r.wptr + BitVec.ofNat 64 count) &&& r.ptrMask
  countDw : after.countDw = r.countDw - BitVec.ofNat 32 count

theorem and_add_and {w : Nat} {mask : BitVec w} (whole : mask.toNat = 2 ^ k - 1) (le : k ≤ w)
    (x y : BitVec w) : ((x &&& mask) + y) &&& mask = (x + y) &&& mask := by
  have wide : (2 : Nat) ^ k ∣ 2 ^ w := Nat.pow_dvd_pow 2 le
  apply BitVec.eq_of_toNat_eq
  rw [toNat_and_mask _ whole, toNat_and_mask _ whole, BitVec.toNat_add, BitVec.toNat_add,
    toNat_and_mask _ whole, Nat.mod_mod_of_dvd _ wide, Nat.mod_mod_of_dvd _ wide, Nat.mod_add_mod]

theorem written_foldl (shape : Shape r k p a) (masked : r.wptr &&& r.ptrMask = r.wptr)
    (src : List Word) : Written r (src.foldl AmdgvRing.write r) src.length := by
  induction src using List.reverseRecOn with
  | nil =>
    refine ⟨rfl, ?_, ?_⟩
    · simpa using masked.symm
    · simp
  | append_singleton src v ih =>
    rw [List.foldl_append, List.length_append]
    refine ⟨?_, ?_, ?_⟩
    · simp only [List.foldl_cons, List.foldl_nil, AmdgvRing.write]
      rw [ih.same]
    · have ptrMask : (src.foldl AmdgvRing.write r).ptrMask = r.ptrMask := by rw [ih.same]
      change ((src.foldl AmdgvRing.write r).wptr + 1) &&& (src.foldl AmdgvRing.write r).ptrMask = _
      rw [ptrMask, ih.wptr, and_add_and shape.ptr shape.ptr_le, BitVec.ofNat_add, BitVec.add_assoc]
      rfl
    · change (src.foldl AmdgvRing.write r).countDw - 1 = _
      rw [ih.countDw, BitVec.ofNat_add, BitVec.sub_sub]
      rfl

theorem written_wptr_toNat (shape : Shape r k p a) {after : AmdgvRing} {count : Nat}
    (written : Written r after count) : after.wptr.toNat = (r.wptr.toNat + count) % 2 ^ p := by
  have wide : (2 : Nat) ^ p ∣ 2 ^ 64 := Nat.pow_dvd_pow 2 shape.ptr_le
  rw [written.wptr, toNat_and_mask _ shape.ptr, BitVec.toNat_add, BitVec.toNat_ofNat,
    Nat.add_mod_mod, Nat.mod_mod_of_dvd _ wide]

theorem Shape.written (shape : Shape r k p a) {after : AmdgvRing} {count : Nat}
    (written : Written r after count) : Shape after k p a := by
  rw [written.same]
  exact ⟨shape.buf, shape.buf_le, shape.ptr, shape.ptr_le, shape.le_ptr, shape.fetch,
    shape.fetch_le, shape.fetch_buf, shape.positive⟩

theorem foldl_write_ring (shape : Shape r k p a) (masked : r.wptr &&& r.ptrMask = r.wptr)
    (src : List Word) (fits : r.wptr.toNat % 2 ^ k + src.length ≤ 2 ^ k) :
    (src.foldl AmdgvRing.write r).ring = memcpy r.ring (r.wptr.toNat % 2 ^ k) src := by
  induction src using List.reverseRecOn with
  | nil => exact (memcpy_nil ..).symm
  | append_singleton src v ih =>
    rw [List.length_append, List.length_singleton] at fits
    have before := written_foldl shape masked src
    have shape' := shape.written before
    have mask : (src.foldl AmdgvRing.write r).bufMask = r.bufMask := by rw [before.same]
    have place : (src.foldl AmdgvRing.write r).wptr.toNat % 2 ^ k =
        r.wptr.toNat % 2 ^ k + src.length := by
      rw [written_wptr_toNat shape before,
        Nat.mod_mod_of_dvd _ (Nat.pow_dvd_pow 2 shape.le_ptr), Nat.add_mod]
      rw [Nat.mod_eq_of_lt (by omega : src.length < 2 ^ k), Nat.mod_eq_of_lt (by omega)]
    rw [List.foldl_append, memcpy_concat, ← ih (by omega)]
    simp only [List.foldl_cons, List.foldl_nil, AmdgvRing.write]
    rw [mask, toNat_and_wide _ shape.buf, place]

theorem writeMultiple_eq (shape : Shape r k p a) (masked : r.wptr &&& r.ptrMask = r.wptr)
    (few : src.length ≤ 2 ^ k) : r.writeMultiple src = src.foldl AmdgvRing.write r := by
  have size : (2 : Nat) ^ k ≤ 2 ^ 31 := Nat.pow_le_pow_right (by decide) shape.buf_le
  have positive := Nat.two_pow_pos k
  have short := Nat.mod_lt r.wptr.toNat positive
  have count : (BitVec.ofNat 32 src.length).toNat = src.length := by
    rw [BitVec.toNat_ofNat]
    exact Nat.mod_eq_of_lt (by omega)
  have occupied : ((r.wptr &&& r.bufMask.setWidth 64).setWidth 32).toNat =
      r.wptr.toNat % 2 ^ k := by
    rw [BitVec.toNat_setWidth, toNat_and_wide _ shape.buf]
    exact Nat.mod_eq_of_lt (by omega)
  have whole : (r.bufMask + 1).toNat = 2 ^ k := by
    rw [BitVec.toNat_add, shape.buf]
    change (2 ^ k - 1 + 1) % 2 ^ 32 = 2 ^ k
    rw [Nat.sub_add_cancel positive]
    exact Nat.mod_eq_of_lt (by omega)
  have left : (r.bufMask + 1 - (r.wptr &&& r.bufMask.setWidth 64).setWidth 32).toNat =
      2 ^ k - r.wptr.toNat % 2 ^ k := by
    rw [BitVec.toNat_sub_of_le, whole, occupied]
    rw [BitVec.le_def, whole, occupied]
    omega
  have written := written_foldl shape masked src
  unfold writeMultiple
  dsimp only
  generalize r.bufMask + 1 - (r.wptr &&& r.bufMask.setWidth 64).setWidth 32 = chunk at left
  have chunk1 : (if chunk ≥ BitVec.ofNat 32 src.length then BitVec.ofNat 32 src.length
      else chunk).toNat = min (2 ^ k - r.wptr.toNat % 2 ^ k) src.length := by
    split
    · rename_i enough
      rw [ge_iff_le, BitVec.le_def, count, left] at enough
      rw [count, Nat.min_eq_right enough]
    · rename_i less
      rw [ge_iff_le, BitVec.le_def, count, left] at less
      rw [left, Nat.min_eq_left (by omega)]
  generalize (if chunk ≥ BitVec.ofNat 32 src.length then BitVec.ofNat 32 src.length
      else chunk) = chunk1' at chunk1
  have chunk2 : (BitVec.ofNat 32 src.length - chunk1').toNat = src.length - chunk1'.toNat := by
    rw [BitVec.toNat_sub_of_le, count]
    rw [BitVec.le_def, count, chunk1]
    exact Nat.min_le_right ..
  -- a copy of nothing changes nothing
  have copy (mem : Nat → Word) (dst : Nat) (chunk : Word) (list : List Word) :
      (if chunk ≠ 0 then memcpy mem dst (list.take chunk.toNat) else mem) =
        memcpy mem dst (list.take chunk.toNat) := by
    by_cases none_ : chunk = 0
    · subst none_
      simp
    · rw [if_pos none_]
  have behind : (src.drop chunk1'.toNat).take (src.length - chunk1'.toNat) =
      src.drop chunk1'.toNat := List.take_of_length_le (by rw [List.length_drop])
  rw [copy, copy, occupied, chunk2, behind]
  have memory : (src.foldl AmdgvRing.write r).ring =
      memcpy (memcpy r.ring (r.wptr.toNat % 2 ^ k) (src.take chunk1'.toNat)) 0
        (src.drop chunk1'.toNat) := by
    have split := List.take_append_drop chunk1'.toNat src
    have front : (src.take chunk1'.toNat).length = chunk1'.toNat := by
      rw [List.length_take, chunk1]
      omega
    have first := written_foldl shape masked (src.take chunk1'.toNat)
    have part := foldl_write_ring shape masked (src.take chunk1'.toNat) (by omega)
    conv_lhs => rw [← split]
    rw [List.foldl_append, ← part]
    by_cases all : src.length ≤ 2 ^ k - r.wptr.toNat % 2 ^ k
    · rw [List.drop_eq_nil_of_le (by omega), memcpy_nil]
      rfl
    · have turn : ((src.take chunk1'.toNat).foldl AmdgvRing.write r).wptr.toNat % 2 ^ k = 0 := by
        rw [written_wptr_toNat shape first, front,
          Nat.mod_mod_of_dvd _ (Nat.pow_dvd_pow 2 shape.le_ptr), chunk1,
          Nat.min_eq_left (by omega)]
        have whole' : r.wptr.toNat + (2 ^ k - r.wptr.toNat % 2 ^ k) =
            2 ^ k * (r.wptr.toNat / 2 ^ k + 1) := by
          have parts := Nat.div_add_mod r.wptr.toNat (2 ^ k)
          rw [Nat.mul_succ]
          omega
        rw [whole', Nat.mul_mod_right]
      have masked' : ((src.take chunk1'.toNat).foldl AmdgvRing.write r).wptr &&&
          ((src.take chunk1'.toNat).foldl AmdgvRing.write r).ptrMask =
          ((src.take chunk1'.toNat).foldl AmdgvRing.write r).wptr := by
        have same : ((src.take chunk1'.toNat).foldl AmdgvRing.write r).ptrMask = r.ptrMask := by
          rw [first.same]
        rw [same, first.wptr, BitVec.and_assoc, BitVec.and_self]
      have rest := foldl_write_ring (shape.written first) masked' (src.drop chunk1'.toNat) (by
        rw [turn, List.length_drop]
        omega)
      rw [rest, turn]
  rw [← memory]
  have fields := written.same
  rw [written.wptr, written.countDw] at fields
  rw [fields]
  congr 1
  rw [BitVec.setWidth_ofNat_of_le_of_lt (by decide) (by omega)]

end Writes

section Sessions

variable {s : Sys} {start : BitVec 64} {left count ndw : Nat}

theorem AmdgvRing.Fit.shape (fit : r.Fit) : ∃ k p a, Shape r k p a := by
  obtain ⟨k, few, size⟩ := fit.size
  obtain ⟨a, few', fetch⟩ := fit.fetch
  have buf : r.bufMask.toNat = 2 ^ k - 1 := by
    have next := fit.bufMask
    omega
  have within : a ≤ k := by
    have less := BitVec.lt_def.mp fit.within
    rw [size] at less
    have short : (2 : Nat) ^ a ≤ 2 ^ k := by omega
    exact (Nat.pow_le_pow_iff_right (by decide)).mp short
  rcases fit.ptrMask with wide | narrow
  · refine ⟨k, 64, a, buf, few, ?_, le_refl _, by omega, by omega, few', within, fit.positive⟩
    rw [wide, BitVec.toNat_allOnes]
  · refine ⟨k, k, a, buf, few, ?_, by omega, le_refl _, by omega, few', within, fit.positive⟩
    rw [narrow, BitVec.toNat_setWidth, buf]
    omega

def Aligned (r : AmdgvRing) (wptr : BitVec 64) : Prop := wptr &&& r.fetchMask.setWidth 64 = 0

theorem aligned_iff (shape : Shape r k p a) (wptr : BitVec 64) :
    Aligned r wptr ↔ 2 ^ a ∣ wptr.toNat := by
  unfold Aligned
  rw [← BitVec.toNat_inj, toNat_and_wide _ shape.fetch]
  exact (Nat.dvd_iff_mod_eq_zero ..).symm

/-- Between a reservation and its end: `count` words are written, `left` more may be. -/
structure Open (r : AmdgvRing) (k p a : Nat) (start : BitVec 64) (count left ndw : Nat) : Prop where
  shape : Shape r k p a
  aligned : 2 ^ a ∣ start.toNat
  whole : 2 ^ a ∣ ndw
  fits : count + left ≤ ndw
  frame : ndw ≤ r.maxDw.toNat
  wptrOld : r.wptrOld = start
  started : start.toNat % 2 ^ p = start.toNat
  wptr : r.wptr.toNat = (start.toNat + count) % 2 ^ p
  countDw : r.countDw.toNat = ndw - count

inductive Inv (s : Sys) : Prop
  | idle (k p a : Nat) (shape : Shape s.ring k p a) (free : s.left = none)
      (masked : s.ring.wptr.toNat % 2 ^ p = s.ring.wptr.toNat)
      (aligned : 2 ^ a ∣ s.ring.wptr.toNat) (reserved : s.ring.countDw.toNat < 2 ^ 31)
  | open_ (k p a count left ndw : Nat) (taken : s.left = some left)
      (inside : Open s.ring k p a s.start count left ndw)

theorem toInt_nonneg_iff (x : Word) : 0 ≤ x.toInt ↔ x.toNat < 2 ^ 31 := by
  have small := x.isLt
  rw [BitVec.toInt_eq_toNat_cond]
  split <;> omega

theorem Inv.reserved (inv : Inv s) : 0 ≤ s.ring.countDw.toInt := by
  rw [toInt_nonneg_iff]
  cases inv with
  | idle k p a shape free masked aligned reserved => exact reserved
  | open_ k p a count left ndw taken inside =>
    have positive := inside.shape.positive
    have frame := inside.frame
    rw [inside.countDw]
    omega

theorem masked_iff (shape : Shape r k p a) :
    r.wptr &&& r.ptrMask = r.wptr ↔ r.wptr.toNat % 2 ^ p = r.wptr.toNat := by
  rw [← BitVec.toNat_inj, toNat_and_mask _ shape.ptr]

theorem Open.masked (inside : Open r k p a start count left ndw) :
    r.wptr &&& r.ptrMask = r.wptr := by
  rw [masked_iff inside.shape, inside.wptr, Nat.mod_mod]

theorem Open.written (inside : Open r k p a start count left ndw) {after : AmdgvRing} {more : Nat}
    (written : Written r after more) (few : more ≤ left) :
    Open after k p a start (count + more) (left - more) ndw := by
  have fits := inside.fits
  have frame := inside.frame
  have positive := inside.shape.positive
  have maxDw : after.maxDw = r.maxDw := by rw [written.same]
  have wptrOld : after.wptrOld = r.wptrOld := by rw [written.same]
  refine ⟨inside.shape.written written, inside.aligned, inside.whole, by omega, ?_, ?_,
    inside.started, ?_, ?_⟩
  · rw [maxDw]
    exact frame
  · rw [wptrOld]
    exact inside.wptrOld
  · rw [written_wptr_toNat inside.shape written, inside.wptr, Nat.mod_add_mod, Nat.add_assoc]
  · have small : (BitVec.ofNat 32 more).toNat = more := by
      rw [BitVec.toNat_ofNat]
      exact Nat.mod_eq_of_lt (by omega)
    rw [written.countDw, BitVec.toNat_sub_of_le, small, inside.countDw]
    · omega
    · rw [BitVec.le_def, small, inside.countDw]
      omega

theorem Open.commit (inside : Open r k p a start count left ndw) :
    2 ^ a ∣ r.commit.wptr.toNat ∧ r.commit.countDw.toNat < 2 ^ 31 ∧
      r.commit.wptr.toNat % 2 ^ p = r.commit.wptr.toNat ∧ Shape r.commit k p a ∧
      r.commit.fetchMask = r.fetchMask := by
  have shape := inside.shape
  have fits := inside.fits
  have frame := inside.frame
  have positive := shape.positive
  have unit := Nat.two_pow_pos a
  have few : (2 : Nat) ^ a ≤ 2 ^ 31 := Nat.pow_le_pow_right (by decide) shape.fetch_le
  obtain ⟨blocks, whole⟩ := inside.whole
  have turn : 2 ^ a ∣ 2 ^ p := Nat.pow_dvd_pow 2 (shape.fetch_buf.trans shape.le_ptr)
  have place : r.wptr.toNat % 2 ^ a = count % 2 ^ a := by
    obtain ⟨blocks', start'⟩ := inside.aligned
    rw [inside.wptr, Nat.mod_mod_of_dvd _ turn, start', Nat.mul_add_mod]
  generalize padding : ((((r.fetchMask + 1).setWidth 64 -
    (r.wptr &&& r.fetchMask.setWidth 64)).setWidth 32 : Word) % (r.fetchMask + 1)).toNat = pad
  have size : (r.fetchMask + 1).toNat = 2 ^ a := by
    rw [BitVec.toNat_add, shape.fetch]
    change (2 ^ a - 1 + 1) % 2 ^ 32 = 2 ^ a
    rw [Nat.sub_add_cancel unit]
    exact Nat.mod_eq_of_lt (by omega)
  have pads : pad = (2 ^ a - count % 2 ^ a) % 2 ^ a := by
    have wide : ((r.fetchMask + 1).setWidth 64).toNat = 2 ^ a := by
      rw [BitVec.toNat_setWidth, size]
      exact Nat.mod_eq_of_lt (by omega)
    rw [← padding, BitVec.toNat_umod, size, BitVec.toNat_setWidth, BitVec.toNat_sub_of_le, wide,
      toNat_and_wide _ shape.fetch, place]
    · rw [Nat.mod_eq_of_lt (by omega : 2 ^ a - count % 2 ^ a < 2 ^ 32)]
    · rw [BitVec.le_def, wide, toNat_and_wide _ shape.fetch]
      omega
  have whole' : 2 ^ a ∣ count + pad := by
    have parts := Nat.div_add_mod count (2 ^ a)
    rcases Nat.eq_zero_or_pos (count % 2 ^ a) with zero | some_
    · rw [zero, Nat.sub_zero, Nat.mod_self] at pads
      rw [pads, Nat.add_zero]
      exact Nat.dvd_of_mod_eq_zero zero
    · rw [Nat.mod_eq_of_lt (by omega)] at pads
      refine ⟨count / 2 ^ a + 1, ?_⟩
      rw [Nat.mul_succ]
      omega
  have inRoom : count + pad ≤ ndw := by
    obtain ⟨blocks', total⟩ := whole'
    rw [total, whole]
    apply Nat.mul_le_mul_left
    by_contra more
    have next : 2 ^ a * (blocks + 1) ≤ 2 ^ a * blocks' := Nat.mul_le_mul_left _ (by omega)
    rw [Nat.mul_succ] at next
    omega
  have nops : r.commit = (List.replicate pad r.funcs.insertedNop).foldl AmdgvRing.write r := by
    rw [AmdgvRing.commit, AmdgvRing.insertNop, padding]
  have written := written_foldl shape inside.masked (List.replicate pad r.funcs.insertedNop)
  rw [← nops, List.length_replicate] at written
  have wptr := written_wptr_toNat shape written
  have shape' := shape.written written
  have fetch : r.commit.fetchMask = r.fetchMask := by
    rw [written.same]
    rfl
  refine ⟨?_, ?_, ?_, shape', fetch⟩
  · rw [wptr, inside.wptr, Nat.mod_add_mod, Nat.add_assoc, Nat.dvd_mod_iff turn]
    exact Nat.dvd_add inside.aligned whole'
  · have small : (BitVec.ofNat 32 pad).toNat = pad := by
      rw [BitVec.toNat_ofNat]
      exact Nat.mod_eq_of_lt (by omega)
    rw [written.countDw, BitVec.toNat_sub_of_le, small, inside.countDw]
    · omega
    · rw [BitVec.le_def, small, inside.countDw]
      omega
  · rw [wptr, Nat.mod_mod]

theorem alloc_some (shape : Shape r k p a) {n : Word} {after : AmdgvRing}
    (fits : n.toNat + r.fetchMask.toNat < 2 ^ 32) (gives : r.alloc n = some after) :
    after = { r with countDw := after.countDw, wptrOld := r.wptr } ∧
      n.toNat ≤ after.countDw.toNat ∧ 2 ^ a ∣ after.countDw.toNat ∧
      after.countDw.toNat ≤ r.maxDw.toNat := by
  have unit := Nat.two_pow_pos a
  have few : (2 : Nat) ^ a ≤ 2 ^ 31 := Nat.pow_le_pow_right (by decide) shape.fetch_le
  have size : (r.fetchMask + 1).toNat = 2 ^ a := by
    rw [BitVec.toNat_add, shape.fetch]
    change (2 ^ a - 1 + 1) % 2 ^ 32 = 2 ^ a
    rw [Nat.sub_add_cancel unit]
    exact Nat.mod_eq_of_lt (by omega)
  have rounded := AlignUp.toNat_and_not (n + r.fetchMask) size
  rw [BitVec.add_sub_cancel] at rounded
  have sum : (n + r.fetchMask).toNat = n.toNat + (2 ^ a - 1) := by
    rw [BitVec.toNat_add, Nat.mod_eq_of_lt fits, shape.fetch]
  have value : ((n + r.fetchMask) &&& ~~~r.fetchMask).toNat = AlignUp.alignUp n.toNat (2 ^ a) := by
    have parts := Nat.div_add_mod' (n.toNat + (2 ^ a - 1)) (2 ^ a)
    rw [sum] at rounded
    unfold AlignUp.alignUp
    omega
  unfold AmdgvRing.alloc at gives
  dsimp only at gives
  split at gives
  · cases gives
  · rename_i inside
    cases gives
    refine ⟨rfl, ?_, ?_, ?_⟩
    · rw [value]
      exact AlignUp.le_alignUp _ unit
    · rw [value]
      exact AlignUp.dvd_alignUp ..
    · rw [BitVec.lt_def] at inside
      exact Nat.le_of_not_lt inside

theorem Inv.next (inv : Inv s) {call : Call} {after : Sys} (meets : s.Meets call)
    (fired : s.next call = some after) : Inv after ∧ after.kept := by
  cases inv with
  | idle k p a shape free masked aligned reserved =>
    cases call with
    | alloc n =>
      simp only [Sys.next, free] at fired
      cases gives : s.ring.alloc n with
      | none =>
        rw [gives] at fired
        cases fired
        exact ⟨.idle k p a shape rfl masked aligned reserved, trivial⟩
      | some ring =>
        rw [gives] at fired
        cases fired
        obtain ⟨same, enough, whole, frame⟩ := alloc_some shape meets gives
        refine ⟨.open_ k p a 0 n.toNat ring.countDw.toNat rfl ?_, trivial⟩
        have shape' : Shape ring k p a := by
          rw [same]
          exact ⟨shape.buf, shape.buf_le, shape.ptr, shape.ptr_le, shape.le_ptr, shape.fetch,
            shape.fetch_le, shape.fetch_buf, shape.positive⟩
        have maxDw : ring.maxDw = s.ring.maxDw := by rw [same]
        have wptr : ring.wptr = s.ring.wptr := by rw [same]
        have wptrOld : ring.wptrOld = s.ring.wptr := by rw [same]
        refine ⟨shape', aligned, whole, by omega, by rw [maxDw]; exact frame, wptrOld, masked, ?_,
          rfl⟩
        rw [wptr, Nat.add_zero, masked]
    | write v => simp [Sys.next, free] at fired
    | writeMultiple src => simp [Sys.next, free] at fired
    | commit => simp [Sys.next, free] at fired
    | undo => simp [Sys.next, free] at fired
  | open_ k p a count left ndw taken inside =>
    have shape := inside.shape
    cases call with
    | alloc n => simp [Sys.next, taken] at fired
    | write v =>
      cases left with
      | zero => simp [Sys.next, taken] at fired
      | succ left =>
        simp only [Sys.next, taken] at fired
        cases fired
        have one := inside.written (written_foldl shape inside.masked [v]) (Nat.succ_pos left)
        exact ⟨.open_ k p a _ _ ndw rfl one, trivial⟩
    | writeMultiple src =>
      simp only [Sys.next, taken] at fired
      split at fired
      · rename_i few
        cases fired
        have room : src.length ≤ 2 ^ k := by
          have positive := Nat.two_pow_pos k
          have short : src.length ≤ s.ring.bufMask.toNat + 1 := meets
          rw [shape.buf] at short
          omega
        have same : s.ring.writeMultiple src = _ := writeMultiple_eq shape inside.masked room
        have more := inside.written (written_foldl shape inside.masked src) few
        rw [← same] at more
        exact ⟨.open_ k p a _ _ ndw rfl more, same⟩
      · cases fired
    | commit =>
      simp only [Sys.next, taken] at fired
      cases fired
      obtain ⟨aligned, reserved, masked, shape', fetch⟩ := inside.commit
      exact ⟨.idle k p a shape' rfl masked aligned reserved, (aligned_iff shape' _).mpr aligned⟩
    | undo =>
      simp only [Sys.next, taken] at fired
      cases fired
      have back : s.ring.undo.wptr = s.start := inside.wptrOld
      refine ⟨.idle k p a ⟨shape.buf, shape.buf_le, shape.ptr, shape.ptr_le, shape.le_ptr,
        shape.fetch, shape.fetch_le, shape.fetch_buf, shape.positive⟩ rfl ?_ ?_ ?_, back⟩
      · change s.ring.undo.wptr.toNat % 2 ^ p = s.ring.undo.wptr.toNat
        rw [back]
        exact inside.started
      · change 2 ^ a ∣ s.ring.undo.wptr.toNat
        rw [back]
        exact inside.aligned
      · have positive := shape.positive
        have frame := inside.frame
        change s.ring.countDw.toNat < 2 ^ 31
        rw [inside.countDw]
        omega

theorem Sys.Initial.inv (initial : s.Initial) : Inv s := by
  obtain ⟨fit, free, -⟩ := initial
  obtain ⟨k, p, a, shape⟩ := fit.shape
  exact .idle k p a shape free ((masked_iff shape).mp fit.wptr)
    ((aligned_iff shape _).mp fit.aligned) ((toInt_nonneg_iff _).mp fit.unused)

end Sessions

section Init

variable {size : Word}

theorem and_mask_ne_zero {m : Nat} {mask : Word} (single : mask.toNat = 2 ^ m)
    (below : size.toNat < 2 ^ (m + 1)) : size &&& mask ≠ 0 ↔ 2 ^ m ≤ size.toNat := by
  have pick : (size &&& mask).toNat = 2 ^ m * (size.toNat / 2 ^ m % 2) := by
    rw [BitVec.toNat_and, single]
    have bit := Nat.and_two_pow size.toNat m
    rw [Nat.toNat_testBit] at bit
    rw [bit, Nat.mul_comm]
  have positive := Nat.two_pow_pos m
  have quotient : size.toNat / 2 ^ m < 2 := by
    rw [Nat.div_lt_iff_lt_mul positive]
    rw [Nat.pow_succ] at below
    omega
  rw [ne_eq, ← BitVec.toNat_inj, pick, Nat.mod_eq_of_lt quotient]
  change ¬ 2 ^ m * (size.toNat / 2 ^ m) = 0 ↔ _
  rw [Nat.mul_eq_zero, not_or, Nat.div_eq_zero_iff_lt positive]
  omega

theorem log2Loop_eq {m : Nat} : ∀ {mask : Word} {rounds log2RingSize : Nat}, mask.toNat = 2 ^ m →
    0 < size.toNat → size.toNat < 2 ^ (m + 1) → m < rounds →
    log2Loop size rounds mask log2RingSize = log2RingSize - (m - size.toNat.log2) := by
  induction m with
  | zero =>
    intro mask rounds log2RingSize single positive below more
    obtain ⟨rounds, rfl⟩ := Nat.exists_eq_add_one_of_ne_zero (Nat.ne_of_gt more)
    have found := (and_mask_ne_zero single below).mpr positive
    rw [log2Loop, if_pos found]
    omega
  | succ m ih =>
    intro mask rounds log2RingSize single positive below more
    obtain ⟨rounds, rfl⟩ := Nat.exists_eq_add_one_of_ne_zero (Nat.ne_of_gt (Nat.zero_lt_of_lt more))
    by_cases found : 2 ^ (m + 1) ≤ size.toNat
    · rw [log2Loop, if_pos ((and_mask_ne_zero single below).mpr found)]
      have high := (Nat.le_log2 positive.ne').mpr found
      omega
    · rw [log2Loop, if_neg (mt (and_mask_ne_zero single below).mp found)]
      have half : (mask >>> 1).toNat = 2 ^ m := by
        rw [BitVec.toNat_ushiftRight, single, Nat.shiftRight_eq_div_pow, Nat.pow_succ, Nat.pow_one,
          Nat.mul_div_cancel _ (by decide)]
      have low := (Nat.log2_lt positive.ne').mpr (Nat.lt_of_not_le found)
      rw [ih half positive (Nat.lt_of_not_le found) (by omega)]
      omega

theorem le_log2RingSize (positive : size ≠ 0) :
    log2RingSize size ≤ 24 ∧ min size.toNat (2 ^ 24) ≤ 2 ^ log2RingSize size := by
  have some_ : 0 < size.toNat := by
    apply Nat.pos_of_ne_zero
    intro zero
    exact positive (BitVec.eq_of_toNat_eq zero)
  unfold log2RingSize
  by_cases large : 0x1000000 ≤ size
  · rw [if_pos large]
    exact ⟨le_refl _, Nat.min_le_right ..⟩
  · rw [if_neg large]
    have below : size.toNat < 2 ^ 24 := by
      rw [BitVec.le_def] at large
      exact Nat.lt_of_not_le large
    have log := (Nat.log2_lt some_.ne').mpr below
    have high := Nat.lt_log2_self (n := size.toNat)
    rw [log2Loop_eq rfl some_ below (by decide)]
    split
    · have exact_ : 24 - (23 - size.toNat.log2) = size.toNat.log2 + 1 := by omega
      rw [exact_]
      refine ⟨by omega, ?_⟩
      omega
    · rename_i power
      have exact_ : 23 - (23 - size.toNat.log2) = size.toNat.log2 := by omega
      rw [exact_]
      refine ⟨by omega, ?_⟩
      have whole : size.toNat &&& (size.toNat - 1) = 0 := by
        have zero := congrArg BitVec.toNat (not_not.mp power)
        rw [BitVec.toNat_and, BitVec.toNat_sub_of_le] at zero
        · exact zero
        · rw [BitVec.le_def]
          exact some_
      obtain ⟨k, single⟩ := (Nat.and_sub_one_eq_zero_iff_isPowerOfTwo some_.ne').mp whole
      rw [single, Nat.log2_two_pow]
      exact Nat.min_le_left ..

theorem amdgvRingInit_fit {funcs : RingFuncs} {aqlEnable : Bool} {memory : Nat → Word}
    {maxDw frames : Word} (inits : amdgvRingInit funcs aqlEnable memory maxDw frames = some r)
    (fetch : ∃ a ≤ 24, r.fetchMask.toNat + 1 = 2 ^ a) (least : r.fetchMask < r.maxDw)
    (product : r.maxDw.toNat * max frames.toNat 2 < 2 ^ 32) : r.Fit := by
  unfold amdgvRingInit at inits
  dsimp only at inits
  obtain ⟨positive, inits⟩ := Option.ite_none_left_eq_some.mp inits
  cases inits
  obtain ⟨few, room⟩ := le_log2RingSize positive
  have number : (if frames < 2 then (2 : Word) else frames).toNat = max frames.toNat 2 := by
    split
    · rename_i less
      rw [BitVec.lt_def] at less
      change frames.toNat < 2 at less
      rw [Nat.max_eq_right less.le]
      rfl
    · rename_i more
      rw [BitVec.lt_def] at more
      change ¬ frames.toNat < 2 at more
      rw [Nat.max_eq_left (Nat.le_of_not_lt more)]
  obtain ⟨a, small, fetch⟩ := fetch
  have short : (2 : Nat) ^ a ≤ 2 ^ 24 := Nat.pow_le_pow_right (by decide) small
  have least := BitVec.lt_def.mp least
  dsimp only [AmdgvRing.fetchMask] at fetch least product
  rw [BitVec.toNat_mul, number, Nat.mod_eq_of_lt product] at room
  generalize log2RingSize _ = log at few room ⊢
  generalize (if maxDw = 0 then (1024 : Word) else maxDw) = dwords at least product room ⊢
  have size : ((1 : Word) <<< log).toNat = 2 ^ log := by
    have less : (2 : Nat) ^ log ≤ 2 ^ 24 := Nat.pow_le_pow_right (by decide) few
    rw [BitVec.toNat_shiftLeft, Nat.shiftLeft_eq]
    change 1 * 2 ^ log % 2 ^ 32 = _
    rw [Nat.one_mul]
    exact Nat.mod_eq_of_lt (by omega)
  have one : (1 : Word) ≤ (1 : Word) <<< log := by
    rw [BitVec.le_def, size]
    exact Nat.two_pow_pos log
  have whole : dwords.toNat * 2 ≤ dwords.toNat * max frames.toNat 2 :=
    Nat.mul_le_mul_left _ (Nat.le_max_right ..)
  refine ⟨⟨log, by omega, size⟩, ?_, ?_, ⟨a, by omega, fetch⟩, ?_, ?_, ?_, ?_, ?_⟩
  · have positive' := Nat.two_pow_pos log
    rw [BitVec.toNat_sub_of_le one, size]
    change 2 ^ log - 1 + 1 = 2 ^ log
    omega
  · dsimp only
    split
    · exact .inl rfl
    · exact .inr rfl
  · rw [BitVec.lt_def, size]
    dsimp only [AmdgvRing.fetchMask]
    omega
  · change dwords.toNat < 2 ^ 31
    omega
  · exact BitVec.zero_and
  · exact BitVec.zero_and
  · exact le_refl 0

end Init

abbrev Runs (ok : Sys → Call → Prop) : Sys → Prop :=
  Transition.Run Sys.Initial (fun before call after => before.next call = some after) ok

/-- With requests that do not wrap when they are rounded up, and nothing in bulk that is longer than
the ring, words in bulk are the words one at a time, a commit ends where a fetch starts, no more is
taken than was reserved, and what is undone is as before. -/
theorem command_ring_lawful {s : Sys} (run : Runs Sys.Meets s) : s.Lawful := by
  have facts : Inv s ∧ s.kept := by
    apply run.invariant fun s => Inv s ∧ s.kept
    · exact fun s initial => ⟨initial.inv, initial.2.2⟩
    · exact fun before call after kept meets fired => kept.1.next meets fired
  exact ⟨facts.2, facts.1.reserved⟩

def sdmaFuncs : RingFuncs := ⟨0xff, 0, 0, true⟩

def newRingCalls (calls : List Call) : Option Sys :=
  (amdgvRingInit sdmaFuncs false (fun _ => 0) 1024 2).bind fun ring =>
    calls.foldlM Sys.next ⟨ring, none, 0, True⟩

theorem newRing_initial {s : Sys} (new : newRingCalls [] = some s) : s.Initial := by
  obtain ⟨ring, inits, same⟩ := Option.bind_eq_some_iff.mp new
  cases same
  refine ⟨amdgvRingInit_fit inits ?_ ?_ ?_, rfl, trivial⟩
  · cases inits
    exact ⟨8, by decide, rfl⟩
  · cases inits
    decide
  · cases inits
    decide

/-- Seven short submissions, and a long one behind them that goes over the end of the ring. -/
def crossing : List Call :=
  (List.replicate 7 [.alloc 3, .writeMultiple [1, 2, 3], .commit]).flatten ++
    [.alloc 300, .write 4, .writeMultiple (List.replicate 299 5), .commit]

theorem command_ring_lawful_crossing :
    ∃ s : Sys, s.Lawful ∧ s.start = 7 * 256 ∧ s.ring.ringSize = 2048 ∧ s.ring.wptr = 9 * 256 := by
  obtain ⟨new, made⟩ : ∃ s, newRingCalls [] = some s := ⟨_, rfl⟩
  have ends : (((newRingCalls []).bind fun s => crossing.foldlM (fun before call =>
      if before.Meets call then before.next call else none) s).map fun s =>
        (s.start, s.ring.ringSize, s.ring.wptr)) = some (7 * 256, 2048, 9 * 256) := by
    decide +kernel
  rw [made] at ends
  obtain ⟨s, follows, facts⟩ := Option.map_eq_some_iff.mp ends
  simp only [Prod.mk.injEq] at facts
  exact ⟨s, command_ring_lawful (.followMet crossing (.start (newRing_initial made)) follows), facts⟩

/-- A request near `2 ^ 32` is rounded up to nothing: the first word is more than was reserved. -/
theorem wrapped_request_overdrawn : ¬ ∀ s, Runs Transition.always s → s.Lawful := by
  intro all
  have new : Runs Transition.always _ := .start (newRing_initial rfl)
  have asked : Runs Transition.always _ := .next (.alloc 0xffffffff) new trivial rfl
  have written : Runs Transition.always _ := .next (.write 7) asked trivial rfl
  have reserved := (all _ written).reserved
  revert reserved
  decide

end MxGpu.CommandRing
