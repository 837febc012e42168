import Mathlib.Data.List.GetD
import MxGpu.CircularBuffer

/- A ring of `n` slots between one producer and one consumer, each with a published pointer and
work it has not published yet. Nothing here knows what flows through the ring. -/
namespace RingStream

open CircularBuffer (Holds slot_ne)

variable {α : Type} {n gap r w : Nat} {mem mem' : Nat → α} {taken queue pending news : List α}

/-- From the consumer's pointer `r` on lie the elements it has taken out but not given back, those
waiting for it, and those the producer has put in but not published. `gap` slots stay free. -/
structure Flow (n gap : Nat) (mem : Nat → α) (r w : Nat) (taken queue pending : List α) :
    Prop where
  gap_pos : 0 < gap
  origin : r < n
  room : (taken ++ queue ++ pending).length + gap ≤ n
  holds : Holds n r mem (taken ++ queue ++ pending)
  target : w = (r + (taken ++ queue).length) % n

theorem Flow.start (hgap : 0 < gap) (hn : gap ≤ n) (mem : Nat → α) :
    Flow n gap mem 0 0 [] [] [] where
  gap_pos := hgap
  origin := by omega
  room := by simpa using hn
  holds := CircularBuffer.holds_nil
  target := by simp

namespace Flow

theorem target_lt (h : Flow n gap mem r w taken queue pending) : w < n := by
  have := h.origin
  rw [h.target]
  exact Nat.mod_lt _ (by omega)

theorem read_lt (h : Flow n gap mem r w taken queue pending) :
    (r + taken.length) % n < n := by
  have := h.origin
  exact Nat.mod_lt _ (by omega)

theorem waiting (h : Flow n gap mem r w taken queue pending) :
    (w + n - (r + taken.length) % n) % n = queue.length := by
  have hr := h.origin
  have hroom := h.room
  have hgap := h.gap_pos
  have htarget := h.target
  rw [List.length_append] at htarget
  rw [List.length_append, List.length_append] at hroom
  rcases Nat.lt_or_ge (r + taken.length) n with hlt | hge
  · rw [Nat.mod_eq_of_lt hlt]
    rcases Nat.lt_or_ge (r + (taken.length + queue.length)) n with hlt' | hge'
    · rw [Nat.mod_eq_of_lt hlt'] at htarget
      rw [show w + n - (r + taken.length) = queue.length + n by omega, Nat.add_mod_right,
        Nat.mod_eq_of_lt (by omega)]
    · rw [Nat.mod_eq_sub_mod hge', Nat.mod_eq_of_lt (by omega)] at htarget
      rw [show w + n - (r + taken.length) = queue.length by omega, Nat.mod_eq_of_lt (by omega)]
  · have hplace : (r + taken.length) % n = r + taken.length - n := by
      rw [Nat.mod_eq_sub_mod hge, Nat.mod_eq_of_lt (by omega)]
    rw [Nat.mod_eq_sub_mod (by omega), Nat.mod_eq_of_lt (by omega)] at htarget
    rw [hplace, show w + n - (r + taken.length - n) = queue.length + n by omega,
      Nat.add_mod_right, Nat.mod_eq_of_lt (by omega)]

theorem write_eq (h : Flow n gap mem r w taken queue pending) :
    (w + pending.length) % n = (r + (taken ++ queue ++ pending).length) % n := by
  rw [h.target, Nat.mod_add_mod, @List.length_append _ (taken ++ queue) pending, Nat.add_assoc]

theorem slot (h : Flow n gap mem r w taken queue pending) {j : Nat} (hj : j < queue.length) :
    mem (((r + taken.length) % n + j) % n) = queue[j] := by
  have hslot := h.holds.slot (taken.length + j) (by simp; omega)
  rw [List.getElem_append_left (by simp; omega), List.getElem_append_right (by omega)] at hslot
  rw [Nat.mod_add_mod, Nat.add_assoc, hslot]
  simp

theorem take (h : Flow n gap mem r w taken queue pending) (k : Nat) :
    Flow n gap mem r w (taken ++ queue.take k) (queue.drop k) pending := by
  have hsame : taken ++ queue.take k ++ queue.drop k = taken ++ queue := by
    rw [List.append_assoc, List.take_append_drop]
  exact {
    gap_pos := h.gap_pos
    origin := h.origin
    room := by rw [hsame]; exact h.room
    holds := by rw [hsame]; exact h.holds
    target := by rw [hsame]; exact h.target }

theorem release (h : Flow n gap mem r w taken queue pending) :
    Flow n gap mem ((r + taken.length) % n) w [] queue pending := by
  have hroom := h.room
  refine ⟨h.gap_pos, h.read_lt, ?_, ⟨?_, ?_⟩, ?_⟩
  · simp only [List.length_append, List.nil_append] at hroom ⊢
    omega
  · simp only [List.length_append, List.nil_append] at hroom ⊢
    omega
  · intro i hi
    have hslot := h.holds.slot (taken.length + i) (by simp at hi ⊢; omega)
    rw [Nat.mod_add_mod, Nat.add_assoc, hslot]
    simp only [List.append_assoc, List.nil_append]
    rw [List.getElem_append_right (by omega)]
    simp
  · rw [h.target, Nat.mod_add_mod, List.length_append, List.nil_append, Nat.add_assoc]

theorem publish (h : Flow n gap mem r w taken queue pending) :
    Flow n gap mem r ((w + pending.length) % n) taken (queue ++ pending) [] where
  gap_pos := h.gap_pos
  origin := h.origin
  room := by simpa using h.room
  holds := by simpa using h.holds
  target := by rw [h.write_eq, List.append_assoc]

theorem unput (h : Flow n gap mem r w taken queue pending) :
    Flow n gap mem r w taken queue [] where
  gap_pos := h.gap_pos
  origin := h.origin
  room := by
    have := h.room
    simp only [List.length_append, List.append_nil] at this ⊢
    omega
  holds := by
    rw [List.append_nil]
    refine ⟨?_, ?_⟩
    · have := h.holds.fits
      rw [List.length_append] at this
      omega
    · intro i hi
      have hslot := h.holds.slot i (by rw [List.length_append]; omega)
      rwa [List.getElem_append_left hi] at hslot
  target := h.target

theorem put (h : Flow n gap mem r w taken queue pending)
    (hroom : (taken ++ queue ++ pending).length + news.length + gap ≤ n)
    (hnew : ∀ j, (hj : j < news.length) →
      mem' (((w + pending.length) % n + j) % n) = news[j])
    (hold : ∀ i, (∀ j, j < news.length → i ≠ ((w + pending.length) % n + j) % n) →
      mem' i = mem i) :
    Flow n gap mem' r w taken queue (pending ++ news) := by
  have hlength : (taken ++ queue ++ (pending ++ news)).length =
      (taken ++ queue ++ pending).length + news.length := by
    simp only [List.length_append]
    omega
  refine ⟨h.gap_pos, h.origin, by omega, ⟨by omega, ?_⟩, h.target⟩
  intro i hi
  rw [hlength] at hi
  have hgap := h.gap_pos
  have hassoc : taken ++ queue ++ (pending ++ news) = taken ++ queue ++ pending ++ news :=
    (List.append_assoc _ _ _).symm
  have hwrite : ∀ j, ((w + pending.length) % n + j) % n =
      (r + ((taken ++ queue ++ pending).length + j)) % n := by
    intro j
    rw [h.write_eq, Nat.mod_add_mod, Nat.add_assoc]
  simp only [hassoc]
  rcases Nat.lt_or_ge i (taken ++ queue ++ pending).length with hlt | hge
  · rw [List.getElem_append_left hlt, hold, h.holds.slot i hlt]
    intro j hj
    rw [hwrite]
    exact slot_ne (by omega) (by omega)
  · rw [List.getElem_append_right hge]
    have hslot := hnew (i - (taken ++ queue ++ pending).length) (by omega)
    rw [hwrite] at hslot
    rwa [Nat.add_sub_cancel' hge] at hslot

end Flow

end RingStream
