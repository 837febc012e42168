import Mathlib.Algebra.BigOperators.Group.List.Basic
import Mathlib.Data.List.Rotate
import Mathlib.Data.UInt

/- Bytes at addresses, numbers as bytes, and arrays of cells of one size. Nothing here knows
what the bytes stand for. -/
namespace ByteStore

open List

abbrev Store := Nat → UInt8

variable {m : Store} {off n : Nat} {bytes : List UInt8}

/-- The `n` bytes from `off`. -/
def read (m : Store) (off n : Nat) : List UInt8 := (range n).map fun i => m (off + i)

/-- Put `bytes` from `off` on. -/
def write (m : Store) (off : Nat) (bytes : List UInt8) : Store :=
  fun i => if off ≤ i then bytes[i - off]?.getD (m i) else m i

@[simp] theorem read_length : (read m off n).length = n := by
  simp [read]

@[simp] theorem read_zero : read m off 0 = [] := by
  simp [read]

theorem read_getElem {i : Nat} (h : i < (read m off n).length) :
    (read m off n)[i] = m (off + i) := by
  simp [read]

theorem read_congr {m' : Store} (h : ∀ i < n, m' (off + i) = m (off + i)) :
    read m' off n = read m off n := by
  apply map_congr_left
  intro i hi
  exact h i (mem_range.mp hi)

theorem read_shift {m' : Store} {off' : Nat} (h : ∀ i < n, m' (off' + i) = m (off + i)) :
    read m' off' n = read m off n := by
  apply map_congr_left
  intro i hi
  exact h i (mem_range.mp hi)

theorem read_add (m : Store) (off a b : Nat) :
    read m off (a + b) = read m off a ++ read m (off + a) b := by
  unfold read
  rw [range_add, map_append, map_map]
  congr 2
  funext i
  simp [Nat.add_assoc]

theorem write_inside {i : Nat} (h : i < bytes.length) :
    write m off bytes (off + i) = bytes[i] := by
  simp [write, h]

theorem write_outside {i : Nat} (h : i < off ∨ off + bytes.length ≤ i) :
    write m off bytes i = m i := by
  unfold write
  by_cases hle : off ≤ i
  · rw [if_pos hle, getElem?_eq_none (by omega)]
    rfl
  · rw [if_neg hle]

theorem write_read_inside {m' : Store} {off' i : Nat} (h : i < n) :
    write m off (read m' off' n) (off + i) = m' (off' + i) := by
  rw [write_inside (by rw [read_length]; exact h), read_getElem]

@[simp] theorem write_nil : write m off [] = m := by
  funext i
  apply write_outside
  rw [length_nil]
  omega

theorem read_write_self (h : bytes.length = n) : read (write m off bytes) off n = bytes := by
  subst h
  apply ext_getElem
  · simp
  · intro i hi _
    rw [read_getElem]
    apply write_inside

theorem read_write_outside {at_ : Nat} (h : at_ + n ≤ off ∨ off + bytes.length ≤ at_) :
    read (write m off bytes) at_ n = read m at_ n := by
  apply read_congr
  intro i hi
  apply write_outside
  omega

section Frames

/-- The two memories are the same but from `a` on and before `b`. -/
def SameOutside (a b : Nat) (m m' : Store) : Prop := ∀ i, i < a ∨ b ≤ i → m' i = m i

variable {a b : Nat} {m' m'' : Store}

theorem SameOutside.refl (a b : Nat) (m : Store) : SameOutside a b m m := fun _ _ => rfl

theorem SameOutside.trans (first : SameOutside a b m m') (second : SameOutside a b m' m'') :
    SameOutside a b m m'' := by
  intro i outside
  rw [second i outside, first i outside]

theorem SameOutside.mono {c d : Nat} (same : SameOutside a b m m') (low : c ≤ a) (high : b ≤ d) :
    SameOutside c d m m' := by
  intro i outside
  apply same
  omega

theorem SameOutside.write (same : SameOutside a b m m') (low : a ≤ off)
    (high : off + bytes.length ≤ b) : SameOutside a b m (write m' off bytes) := by
  intro i outside
  rw [write_outside (by omega)]
  exact same i outside

theorem SameOutside.read (same : SameOutside a b m m') (outside : off + n ≤ a ∨ b ≤ off) :
    read m' off n = read m off n := by
  apply read_congr
  intro i inside
  apply same
  omega

theorem SameOutside.restored (same : SameOutside off (off + n) m m') :
    ByteStore.write m' off (ByteStore.read m off n) = m := by
  funext i
  by_cases inside : off ≤ i ∧ i < off + n
  · obtain ⟨k, rfl⟩ := Nat.exists_eq_add_of_le inside.1
    rw [write_inside (by rw [read_length]; omega), read_getElem]
  · rw [write_outside (by rw [read_length]; omega)]
    apply same
    omega

end Frames

section Numbers

/-- The `w` low bytes of a number, the lowest first. -/
def leBytes : Nat → Nat → List UInt8
  | 0, _ => []
  | w + 1, value => UInt8.ofNat value :: leBytes w (value / 256)

def ofLe : List UInt8 → Nat
  | [] => 0
  | b :: rest => b.toNat + 256 * ofLe rest

@[simp] theorem leBytes_length (w value : Nat) : (leBytes w value).length = w := by
  induction w generalizing value with
  | zero => rfl
  | succ w ih => simp [leBytes, ih]

theorem ofLe_lt (bytes : List UInt8) : ofLe bytes < 256 ^ bytes.length := by
  induction bytes with
  | nil => simp [ofLe]
  | cons b rest ih =>
    have hb : b.toNat < 256 := b.toNat_lt
    simp only [ofLe, length_cons, Nat.pow_succ]
    omega

theorem leBytes_ofLe (bytes : List UInt8) : leBytes bytes.length (ofLe bytes) = bytes := by
  induction bytes with
  | nil => rfl
  | cons b rest ih =>
    have low : b.toNat < 256 := b.toNat_lt
    have digit : (b.toNat + 256 * ofLe rest) % 256 = b.toNat := by omega
    have further : (b.toNat + 256 * ofLe rest) / 256 = ofLe rest := by omega
    have first : UInt8.ofNat (b.toNat + 256 * ofLe rest) = b := by
      apply UInt8.toNat_inj.mp
      rw [UInt8.toNat_ofNat']
      exact digit
    rw [length_cons, ofLe, leBytes, first, further, ih]

theorem ofLe_leBytes (w value : Nat) : ofLe (leBytes w value) = value % 256 ^ w := by
  induction w generalizing value with
  | zero => simp [leBytes, ofLe, Nat.mod_one]
  | succ w ih =>
    have hmod : value % 256 ^ (w + 1) = value % 256 + 256 * (value / 256 % 256 ^ w) := by
      rw [Nat.pow_succ']
      apply Nat.mod_mul
    simp only [leBytes, ofLe, ih, hmod, UInt8.toNat_ofNat']

theorem take_drop_field {before field after : List UInt8} {at_ width : Nat}
    (hat : before.length = at_) (hwidth : field.length = width) :
    ((before ++ (field ++ after)).drop at_).take width = field := by
  rw [← hat, drop_left, ← hwidth, take_left]

end Numbers

section Cells

/-- Cell `i` of an array of cells of `size` bytes from `base` on. -/
def cell (m : Store) (base size i : Nat) : List UInt8 := read m (base + i * size) size

variable {base size : Nat}

theorem read_cells (m : Store) (base size a count : Nat) :
    read m (base + a * size) (count * size) =
      (range count).flatMap fun i => cell m base size (a + i) := by
  induction count with
  | zero => simp
  | succ count ih =>
    rw [Nat.succ_mul, read_add, ih, range_succ, flatMap_append, flatMap_singleton]
    unfold cell
    rw [Nat.add_mul a count size, Nat.add_assoc]

variable {cells : List (List UInt8)}

theorem flatten_length (h : ∀ c ∈ cells, c.length = size) :
    cells.flatten.length = cells.length * size := by
  induction cells with
  | nil => simp
  | cons c rest ih =>
    rw [flatten_cons, length_append, h c mem_cons_self,
      ih fun d hd => h d (mem_cons_of_mem _ hd), length_cons, Nat.succ_mul, Nat.add_comm]

/-- Put cells one after the other from cell `a` on. -/
def writeCells (m : Store) (base size a : Nat) (cells : List (List UInt8)) : Store :=
  write m (base + a * size) cells.flatten

theorem writeCells_cons {c : List UInt8} {rest : List (List UInt8)} {a : Nat}
    (hc : c.length = size) : writeCells m base size a (c :: rest) =
      writeCells (write m (base + a * size) c) base size (a + 1) rest := by
  funext i
  have hnext : base + (a + 1) * size = base + a * size + c.length := by
    rw [hc, Nat.succ_mul, Nat.add_assoc]
  unfold writeCells
  rw [hnext, flatten_cons]
  unfold write
  by_cases hle : base + a * size ≤ i
  · by_cases hin : i - (base + a * size) < c.length
    · rw [if_pos hle, if_neg (by omega), if_pos hle, getElem?_append_left hin]
    · rw [if_pos hle, if_pos (by omega), if_pos hle, getElem?_append_right (by omega),
        getElem?_eq_none (l := c) (by omega), Nat.sub_sub]
      rfl
  · rw [if_neg hle, if_neg (by omega), if_neg hle]

theorem cell_writeCells_outside {a i : Nat} (h : ∀ c ∈ cells, c.length = size)
    (hout : i < a ∨ a + cells.length ≤ i) :
    cell (writeCells m base size a cells) base size i = cell m base size i := by
  apply read_write_outside
  rw [flatten_length h]
  rcases hout with hlt | hge
  · have := Nat.mul_le_mul_right size (Nat.succ_le_of_lt hlt)
    rw [Nat.succ_mul] at this
    omega
  · have := Nat.mul_le_mul_right size hge
    rw [Nat.add_mul] at this
    omega

theorem cell_writeCells_inside {a j : Nat} (h : ∀ c ∈ cells, c.length = size)
    (hj : j < cells.length) :
    cell (writeCells m base size a cells) base size (a + j) = cells[j] := by
  induction cells generalizing m a j with
  | nil => exact absurd hj (Nat.not_lt_zero _)
  | cons c rest ih =>
    have hc : c.length = size := h c mem_cons_self
    have hrest : ∀ d ∈ rest, d.length = size := fun d hd => h d (mem_cons_of_mem _ hd)
    rw [writeCells_cons hc]
    cases j with
    | zero =>
      rw [cell_writeCells_outside hrest (by omega)]
      exact read_write_self hc
    | succ j =>
      have hnext : a + (j + 1) = a + 1 + j := by omega
      rw [hnext]
      exact ih hrest (Nat.lt_of_succ_lt_succ hj)

theorem take_flatten (h : ∀ c ∈ cells, c.length = size) (count : Nat) :
    cells.flatten.take (count * size) = (cells.take count).flatten := by
  induction cells generalizing count with
  | nil => simp
  | cons c rest ih =>
    have hc : c.length = size := h c mem_cons_self
    cases count with
    | zero => simp
    | succ count =>
      have hmore : (count + 1) * size = c.length + count * size := by
        rw [hc, Nat.succ_mul, Nat.add_comm]
      rw [flatten_cons, hmore, take_length_add_append, take_succ_cons,
        flatten_cons, ih fun d hd => h d (mem_cons_of_mem _ hd)]

theorem drop_flatten (h : ∀ c ∈ cells, c.length = size) (count : Nat) :
    cells.flatten.drop (count * size) = (cells.drop count).flatten := by
  induction cells generalizing count with
  | nil => simp
  | cons c rest ih =>
    have hc : c.length = size := h c mem_cons_self
    cases count with
    | zero => simp
    | succ count =>
      have hmore : (count + 1) * size = c.length + count * size := by
        rw [hc, Nat.succ_mul, Nat.add_comm]
      rw [flatten_cons, hmore, drop_length_add_append, drop_succ_cons,
        ih fun d hd => h d (mem_cons_of_mem _ hd)]

theorem map_cell_of_read (h : ∀ c ∈ cells, c.length = size)
    (hread : read m base (cells.length * size) = cells.flatten) :
    (range cells.length).map (cell m base size) = cells := by
  induction cells generalizing base with
  | nil => rfl
  | cons c rest ih =>
    have hc : c.length = size := h c mem_cons_self
    have hmore : (rest.length + 1) * size = size + rest.length * size := by
      rw [Nat.succ_mul, Nat.add_comm]
    rw [length_cons, hmore, read_add, flatten_cons] at hread
    obtain ⟨hfirst, hrest⟩ := append_inj hread (read_length.trans hc.symm)
    rw [length_cons, range_succ_eq_map, map_cons, map_map]
    congr 1
    · unfold cell
      rw [Nat.zero_mul, Nat.add_zero, hfirst]
    · have htail := ih (fun d hd => h d (mem_cons_of_mem _ hd)) hrest
      refine Eq.trans (map_congr_left ?_) htail
      intro i _
      show read m (base + (i + 1) * size) size = read m (base + size + i * size) size
      rw [Nat.succ_mul, Nat.add_comm (i * size), Nat.add_assoc]

/-- Put cells from cell `a` on, going round behind cell `last`. -/
def writeRound (m : Store) (base size last a : Nat) (cells : List (List UInt8)) : Store :=
  writeCells (writeCells m base size a (cells.take (last - a))) base size 0
    (cells.drop (last - a))

variable {last a : Nat}

theorem writeRound_short (hfits : a + cells.length ≤ last) :
    writeRound m base size last a cells = writeCells m base size a cells := by
  unfold writeRound
  rw [take_of_length_le (by omega), drop_eq_nil_of_le (by omega)]
  exact write_nil

theorem writeRound_inside (h : ∀ c ∈ cells, c.length = size) (ha : a < last)
    (hlast : cells.length ≤ last) {j : Nat} (hj : j < cells.length) :
    cell (writeRound m base size last a cells) base size ((a + j) % last) = cells[j] := by
  have htake : ∀ c ∈ cells.take (last - a), c.length = size :=
    fun c hc => h c (mem_of_mem_take hc)
  have hdrop : ∀ c ∈ cells.drop (last - a), c.length = size :=
    fun c hc => h c (mem_of_mem_drop hc)
  unfold writeRound
  by_cases hin : a + j < last
  · rw [Nat.mod_eq_of_lt hin, cell_writeCells_outside hdrop (by rw [length_drop]; omega),
      cell_writeCells_inside htake (by rw [length_take]; omega), getElem_take]
  · have hround : (a + j) % last = 0 + (j - (last - a)) := by
      rw [Nat.mod_eq_sub_mod (by omega), Nat.mod_eq_of_lt (by omega)]
      omega
    rw [hround, cell_writeCells_inside hdrop (by rw [length_drop]; omega), getElem_drop]
    congr 1
    omega

theorem writeRound_outside (h : ∀ c ∈ cells, c.length = size) (ha : a < last) {i : Nat}
    (hi : i < last) (hout : ∀ j < cells.length, i ≠ (a + j) % last) :
    cell (writeRound m base size last a cells) base size i = cell m base size i := by
  have htake : ∀ c ∈ cells.take (last - a), c.length = size :=
    fun c hc => h c (mem_of_mem_take hc)
  have hdrop : ∀ c ∈ cells.drop (last - a), c.length = size :=
    fun c hc => h c (mem_of_mem_drop hc)
  have hlow : 0 + (cells.drop (last - a)).length ≤ i := by
    rw [length_drop]
    by_contra hlt
    apply hout (last - a + i) (by omega)
    have hsum : a + (last - a + i) = i + last := by omega
    rw [hsum, Nat.add_mod_right, Nat.mod_eq_of_lt hi]
  have hhigh : i < a ∨ a + (cells.take (last - a)).length ≤ i := by
    rw [length_take]
    by_contra hin
    apply hout (i - a) (by omega)
    have hsum : a + (i - a) = i := by omega
    rw [hsum, Nat.mod_eq_of_lt hi]
  unfold writeRound
  rw [cell_writeCells_outside hdrop (.inr hlow), cell_writeCells_outside htake hhigh]

end Cells

end ByteStore
