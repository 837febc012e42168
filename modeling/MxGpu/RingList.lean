import Mathlib.Data.List.Perm.Basic

/- Circular doubly linked lists whose links live in the nodes. A node that is no
head and in no list may hold anything in its links. -/
namespace RingList

open Function List

structure Links (α : Type) where
  next : α → α
  prev : α → α

namespace Links

variable {α : Type} [DecidableEq α] (l : Links α)

def init (x : α) : Links α := ⟨update l.next x x, update l.prev x x⟩

/-- The four writes that put `entry` between two nodes, in the order C makes them. -/
def insert (entry prev next : α) : Links α where
  prev := update (update l.prev next entry) entry prev
  next := update (update l.next entry next) prev entry

/-- Put `entry` after `head`. -/
def add (entry head : α) : Links α := l.insert entry head (l.next head)

/-- Put `entry` before `head`. -/
def addTail (entry head : α) : Links α := l.insert entry (l.prev head) head

def unlink (prev next : α) : Links α where
  prev := update l.prev next prev
  next := update l.next prev next

/-- Take `entry` out and leave it alone in a ring. -/
def delInit (entry : α) : Links α := (l.unlink (l.prev entry) (l.next entry)).init entry

def isEmpty (head : α) : Bool := l.next head = head

/-- Follow the ring of `head` to the first node that stops the walk, or to the head.
A ring that never comes back to its head uses the fuel up. -/
def walk (stop : α → Bool) (head : α) : Nat → α → Option α
  | 0, _ => none
  | fuel + 1, x =>
    if x = head then some head
    else if stop x then some x
    else walk stop head fuel (l.next x)

end Links

variable {α : Type}

/-- From `a` through `nodes` to `b`, each link matched by its inverse. -/
def Linked (l : Links α) : α → List α → α → Prop
  | a, [], b => l.next a = b ∧ l.prev b = a
  | a, x :: rest, b => l.next a = x ∧ l.prev x = a ∧ Linked l x rest b

/-- The ring of `head`: its nodes in order, each once. -/
structure Rings (l : Links α) (head : α) (nodes : List α) : Prop where
  nodup : (head :: nodes).Nodup
  linked : Linked l head nodes head

variable {l l' : Links α} {a b head x : α} {nodes pre post : List α}

theorem linked_append :
    Linked l a (pre ++ x :: post) b ↔ Linked l a pre x ∧ Linked l x post b := by
  induction pre generalizing a with
  | nil => exact and_assoc.symm
  | cons first rest ih =>
    constructor
    · rintro ⟨next, prev, tail⟩
      obtain ⟨before, after⟩ := ih.mp tail
      exact ⟨⟨next, prev, before⟩, after⟩
    · rintro ⟨⟨next, prev, before⟩, after⟩
      exact ⟨next, prev, ih.mpr ⟨before, after⟩⟩

theorem Linked.frame (next : ∀ y ∈ a :: nodes, l'.next y = l.next y)
    (prev : ∀ y ∈ nodes ++ [b], l'.prev y = l.prev y) (linked : Linked l a nodes b) :
    Linked l' a nodes b := by
  induction nodes generalizing a with
  | nil =>
    exact ⟨(next a (mem_cons_self ..)).trans linked.1, (prev b (by simp)).trans linked.2⟩
  | cons first rest ih =>
    obtain ⟨toFirst, back, tail⟩ := linked
    refine ⟨(next a (mem_cons_self ..)).trans toFirst,
      (prev first (mem_cons_self ..)).trans back,
      ih (fun y member => next y (mem_cons_of_mem _ member))
        (fun y member => prev y (mem_cons_of_mem _ member)) tail⟩

theorem Linked.restart {a' : α} (first : l'.next a' = l.next a) (back : l'.prev (l.next a) = a')
    (next : ∀ y ∈ nodes, l'.next y = l.next y)
    (prev : ∀ y ∈ nodes ++ [b], y ≠ l.next a → l'.prev y = l.prev y)
    (distinct : (nodes ++ [b]).Nodup) (linked : Linked l a nodes b) : Linked l' a' nodes b := by
  cases nodes with
  | nil =>
    obtain ⟨toEnd, _⟩ := linked
    rw [toEnd] at first back
    exact ⟨first, back⟩
  | cons y rest =>
    obtain ⟨toFirst, _, tail⟩ := linked
    rw [toFirst] at first back prev
    rw [cons_append] at distinct
    refine ⟨first, back, tail.frame next fun z member => ?_⟩
    refine prev z (mem_cons_of_mem _ member) ?_
    rintro rfl
    exact (nodup_cons.mp distinct).1 member

theorem Rings.frame (next : ∀ y ∈ head :: nodes, l'.next y = l.next y)
    (prev : ∀ y ∈ head :: nodes, l'.prev y = l.prev y) (rings : Rings l head nodes) :
    Rings l' head nodes where
  nodup := rings.nodup
  linked := rings.linked.frame next fun y member => prev y <| by
    rcases mem_append.mp member with inside | last
    · exact mem_cons_of_mem _ inside
    · rw [mem_singleton.mp last]
      exact mem_cons_self ..

theorem Linked.next_mem (linked : Linked l a nodes b) (member : x ∈ a :: nodes) :
    l.next x ∈ nodes ++ [b] ∧ l.prev (l.next x) = x := by
  induction nodes generalizing a with
  | nil =>
    obtain rfl := mem_singleton.mp member
    rw [linked.1]
    exact ⟨mem_cons_self .., linked.2⟩
  | cons first rest ih =>
    obtain ⟨toFirst, back, tail⟩ := linked
    rcases mem_cons.mp member with rfl | later
    · rw [toFirst]
      exact ⟨mem_cons_self .., back⟩
    · obtain ⟨inside, inverse⟩ := ih tail later
      exact ⟨mem_cons_of_mem _ inside, inverse⟩

theorem Rings.next_mem (rings : Rings l head nodes) (member : x ∈ head :: nodes) :
    l.next x ∈ head :: nodes ∧ l.prev (l.next x) = x := by
  obtain ⟨inside, inverse⟩ := rings.linked.next_mem member
  refine ⟨?_, inverse⟩
  rcases mem_append.mp inside with there | last
  · exact mem_cons_of_mem _ there
  · rw [mem_singleton.mp last]
    exact mem_cons_self ..

theorem Linked.prev_mem (linked : Linked l a nodes b) (member : x ∈ nodes ++ [b]) :
    l.prev x ∈ a :: nodes ∧ l.next (l.prev x) = x := by
  induction nodes generalizing a with
  | nil =>
    obtain rfl := mem_singleton.mp member
    rw [linked.2]
    exact ⟨mem_cons_self .., linked.1⟩
  | cons first rest ih =>
    obtain ⟨toFirst, back, tail⟩ := linked
    rcases mem_cons.mp member with rfl | later
    · rw [back]
      exact ⟨mem_cons_self .., toFirst⟩
    · obtain ⟨inside, inverse⟩ := ih tail later
      exact ⟨mem_cons_of_mem _ inside, inverse⟩

theorem Rings.prev_mem (rings : Rings l head nodes) (member : x ∈ head :: nodes) :
    l.prev x ∈ head :: nodes ∧ l.next (l.prev x) = x := by
  refine rings.linked.prev_mem ?_
  rcases mem_cons.mp member with rfl | inside
  · simp
  · exact mem_append_left _ inside

theorem Rings.nodup_end (rings : Rings l head nodes) : (nodes ++ [head]).Nodup :=
  (perm_append_singleton head nodes).nodup_iff.mpr rings.nodup

theorem Linked.next_last {last : α} (linked : Linked l a (pre ++ post) b)
    (isLast : (a :: pre).getLast (cons_ne_nil a pre) = last) :
    l.next last ∈ post ++ [b] := by
  induction pre generalizing a with
  | nil =>
    obtain rfl : a = last := isLast
    cases post with
    | nil => exact linked.1 ▸ mem_cons_self ..
    | cons y rest => exact linked.1 ▸ mem_cons_self ..
  | cons y rest ih =>
    rw [getLast_cons (cons_ne_nil y rest)] at isLast
    exact ih linked.2.2 isLast

theorem Rings.next_eq {y : α} (rings : Rings l head (pre ++ x :: y :: post)) :
    l.next x = y ∧ l.prev y = x := by
  obtain ⟨_, next, prev, _⟩ := linked_append.mp rings.linked
  exact ⟨next, prev⟩

theorem Rings.split_prev {y : α} (rings : Rings l head nodes) (member : x ∈ nodes)
    (back : l.prev x = y) (apart : y ≠ head) : ∃ pre post, nodes = pre ++ y :: x :: post := by
  obtain ⟨pre, post, rfl⟩ := append_of_mem member
  obtain ⟨before, _⟩ := linked_append.mp rings.linked
  rcases eq_nil_or_concat pre with rfl | ⟨early, last, rfl⟩
  · exact absurd (back.symm.trans before.2) apart
  · rw [concat_eq_append] at before ⊢
    obtain ⟨_, _, last_⟩ := linked_append.mp before
    obtain rfl : y = last := back.symm.trans last_
    exact ⟨early, post, by simp⟩

theorem Rings.split_next {y : α} (rings : Rings l head nodes) (member : x ∈ nodes)
    (onward : l.next x = y) (apart : y ≠ head) : ∃ pre post, nodes = pre ++ x :: y :: post := by
  obtain ⟨pre, post, rfl⟩ := append_of_mem member
  obtain ⟨_, after⟩ := linked_append.mp rings.linked
  cases post with
  | nil => exact absurd (onward.symm.trans after.1) apart
  | cons z rest =>
    obtain rfl : y = z := onward.symm.trans after.1
    exact ⟨pre, rest, rfl⟩

variable [DecidableEq α]

theorem Linked.add {new pos : α} (linked : Linked l a (pre ++ post) b)
    (isLast : (a :: pre).getLast (cons_ne_nil a pre) = pos)
    (nexts : (a :: (pre ++ post)).Nodup) (prevs : (pre ++ post ++ [b]).Nodup)
    (fresh : new ∉ a :: (pre ++ post)) (apart : new ≠ b) :
    Linked (l.add new pos) a (pre ++ new :: post) b := by
  have onward := linked.next_last isLast
  have notNext : l.next pos ≠ new := by
    intro same
    rw [same] at onward
    rcases mem_append.mp onward with inside | last
    · exact fresh (mem_cons_of_mem _ (mem_append_right _ inside))
    · exact apart (mem_singleton.mp last)
  have nextOther : ∀ y, y ≠ pos → y ≠ new → (l.add new pos).next y = l.next y := by
    intro y apart apart'
    simp [Links.add, Links.insert, apart, apart']
  have prevOther : ∀ y, y ≠ l.next pos → y ≠ new → (l.add new pos).prev y = l.prev y := by
    intro y apart apart'
    simp [Links.add, Links.insert, apart, apart']
  have isFresh : ∀ y ∈ a :: (pre ++ post), y ≠ new := fun y there same => fresh (same ▸ there)
  induction pre generalizing a with
  | nil =>
    obtain rfl : a = pos := isLast
    have atPos : (l.add new a).next a = new := by simp [Links.add, Links.insert]
    have backNew : (l.add new a).prev new = a := by simp [Links.add, Links.insert]
    have atNew : (l.add new a).next new = l.next a := by
      simp [Links.add, Links.insert, (isFresh a (mem_cons_self ..)).symm]
    have backNext : (l.add new a).prev (l.next a) = new := by
      simp [Links.add, Links.insert, notNext]
    refine ⟨atPos, backNew, linked.restart atNew backNext (fun y there => nextOther y ?_ ?_)
      (fun y there apart' => prevOther y apart' ?_) prevs⟩
    · rintro rfl
      exact (nodup_cons.mp nexts).1 there
    · exact isFresh y (mem_cons_of_mem _ there)
    · rcases mem_append.mp there with inside | last
      · exact isFresh y (mem_cons_of_mem _ inside)
      · exact mem_singleton.mp last ▸ apart.symm
  | cons y rest ih =>
    obtain ⟨toFirst, back, tail⟩ := linked
    rw [getLast_cons (cons_ne_nil y rest)] at isLast
    have lastIn : pos ∈ y :: rest := isLast ▸ getLast_mem (cons_ne_nil y rest)
    have nodup := nodup_cons.mp nexts
    have nodup' := nodup_cons.mp prevs
    refine ⟨(nextOther a ?_ (isFresh a (mem_cons_self ..))).trans toFirst,
      (prevOther y ?_ (isFresh y (by simp))).trans back,
      ih tail isLast nodup.2 nodup'.2 (fun there => fresh (mem_cons_of_mem _ there))
        fun z there => isFresh z (mem_cons_of_mem _ there)⟩
    · rintro rfl
      refine nodup.1 ?_
      rcases mem_cons.mp lastIn with rfl | inside
      · exact mem_cons_self ..
      · exact mem_cons_of_mem _ (mem_append_left _ inside)
    · rintro rfl
      refine nodup'.1 ?_
      rcases mem_append.mp (tail.next_last isLast) with inside | last
      · exact mem_append_left _ (mem_append_right _ inside)
      · exact mem_append_right _ last

theorem Rings.add_part {new pos : α} (rings : Rings l head (pre ++ post))
    (isLast : (head :: pre).getLast (cons_ne_nil head pre) = pos)
    (fresh : new ∉ head :: (pre ++ post)) : Rings (l.add new pos) head (pre ++ new :: post) where
  nodup := by
    have perm : (head :: (pre ++ new :: post)).Perm (new :: head :: (pre ++ post)) :=
      (List.Perm.cons head perm_middle).trans (List.Perm.swap new head _)
    exact perm.nodup_iff.mpr (nodup_cons.mpr ⟨fresh, rings.nodup⟩)
  linked := rings.linked.add isLast rings.nodup rings.nodup_end fresh
    fun same => fresh (same ▸ mem_cons_self ..)

theorem Rings.add_head {new : α} (rings : Rings l head nodes) (fresh : new ∉ head :: nodes) :
    Rings (l.add new head) head (new :: nodes) := by
  have unsplit : Rings l head ([] ++ nodes) := rings
  exact unsplit.add_part rfl fresh

theorem Rings.add_after {new pos : α} (rings : Rings l head (pre ++ pos :: post))
    (fresh : new ∉ head :: (pre ++ pos :: post)) :
    Rings (l.add new pos) head (pre ++ pos :: new :: post) := by
  have same : pre ++ pos :: post = (pre ++ [pos]) ++ post := by simp
  rw [same] at rings fresh
  have isLast : (head :: (pre ++ [pos])).getLast (cons_ne_nil _ _) = pos := by simp
  have added := rings.add_part isLast fresh
  rwa [append_assoc] at added

theorem Linked.unlink (before : Linked l a pre x) (after : Linked l x post b)
    (nexts : (a :: (pre ++ post)).Nodup) (prevs : (pre ++ post ++ [b]).Nodup) :
    Linked (l.unlink (l.prev x) (l.next x)) a (pre ++ post) b := by
  have nextOther : ∀ y, y ≠ l.prev x → (l.unlink (l.prev x) (l.next x)).next y = l.next y := by
    intro y apart
    simp [Links.unlink, apart]
  have prevOther : ∀ y, y ≠ l.next x → (l.unlink (l.prev x) (l.next x)).prev y = l.prev y := by
    intro y apart
    simp [Links.unlink, apart]
  induction pre generalizing a with
  | nil =>
    have back : l.prev x = a := before.2
    have joined : (l.unlink (l.prev x) (l.next x)).next a = l.next x := by
      simp [Links.unlink, back]
    have joined' : (l.unlink (l.prev x) (l.next x)).prev (l.next x) = a := by
      simp [Links.unlink, back]
    refine after.restart joined joined' (fun y there => nextOther y ?_)
      (fun y _ apart => prevOther y apart) prevs
    rw [back]
    rintro rfl
    exact (nodup_cons.mp nexts).1 there
  | cons y rest ih =>
    obtain ⟨toFirst, back, tail⟩ := before
    have nodup := nodup_cons.mp nexts
    have nodup' := nodup_cons.mp prevs
    have lastIn := (tail.prev_mem (mem_append_right _ (mem_singleton_self x))).1
    have nextIn := (after.next_mem (mem_cons_self ..)).1
    refine ⟨(nextOther a ?_).trans toFirst, (prevOther y ?_).trans back,
      ih tail nodup.2 nodup'.2⟩
    · rintro rfl
      refine nodup.1 ?_
      rcases mem_cons.mp lastIn with same | inside
      · exact same ▸ mem_cons_self ..
      · exact mem_cons_of_mem _ (mem_append_left _ inside)
    · rintro rfl
      refine nodup'.1 ?_
      rcases mem_append.mp nextIn with inside | last
      · exact mem_append_left _ (mem_append_right _ inside)
      · exact mem_append_right _ last

theorem Rings.unlink (rings : Rings l head (pre ++ x :: post)) :
    Rings (l.unlink (l.prev x) (l.next x)) head (pre ++ post) := by
  have nodup : (head :: (pre ++ post)).Nodup :=
    (rings.nodup.sublist (List.Sublist.cons_cons head
      (List.Sublist.append_left (sublist_cons_self x post) pre)))
  obtain ⟨before, after⟩ := linked_append.mp rings.linked
  exact ⟨nodup, before.unlink after nodup
    ((perm_append_singleton head (pre ++ post)).nodup_iff.mpr nodup)⟩

theorem Rings.frame_init (rings : Rings l head nodes) (outside : x ∉ head :: nodes) :
    Rings (l.init x) head nodes := by
  refine rings.frame (fun y there => ?_) fun y there => ?_
  · exact update_of_ne (fun same => outside (by rwa [← same])) ..
  · exact update_of_ne (fun same => outside (by rwa [← same])) ..

theorem rings_init (l : Links α) (head : α) : Rings (l.init head) head [] where
  nodup := nodup_cons.mpr ⟨not_mem_nil, .nil⟩
  linked := by simp [Linked, Links.init]

theorem Linked.walk_eq (stop : α → Bool) (linked : Linked l a nodes head)
    (apart : head ∉ nodes) {fuel : Nat} (enough : nodes.length < fuel) :
    l.walk stop head fuel (l.next a) = some ((nodes.find? stop).getD head) := by
  induction nodes generalizing a fuel with
  | nil =>
    obtain ⟨toEnd, _⟩ := linked
    cases fuel with
    | zero => exact absurd enough (Nat.not_lt_zero _)
    | succ fuel => simp [Links.walk, toEnd]
  | cons y rest ih =>
    obtain ⟨toFirst, _, tail⟩ := linked
    obtain ⟨notFirst, notRest⟩ := ne_and_not_mem_of_not_mem_cons apart
    cases fuel with
    | zero => exact absurd enough (Nat.not_lt_zero _)
    | succ fuel =>
      have later := ih tail notRest (Nat.lt_of_succ_lt_succ enough)
      rw [toFirst, Links.walk, if_neg (Ne.symm notFirst)]
      cases stops : stop y with
      | true => simp [stops]
      | false => simpa [stops] using later

theorem Rings.walk_eq (rings : Rings l head nodes) (stop : α → Bool) {fuel : Nat}
    (enough : nodes.length < fuel) :
    l.walk stop head fuel (l.next head) = some ((nodes.find? stop).getD head) :=
  rings.linked.walk_eq stop (nodup_cons.mp rings.nodup).1 enough

end RingList
