import MxGpu.RingList

/- The end of a ring: nodes that join there, and nodes that are moved there. -/
namespace RingList

variable {α : Type} {l : Links α} {head x a b : α} {nodes pre post : List α}

theorem Linked.prev_end (linked : Linked l a nodes b) :
    (a :: nodes).getLast (List.cons_ne_nil a nodes) = l.prev b := by
  induction nodes generalizing a with
  | nil => exact linked.2.symm
  | cons y rest ih =>
    rw [List.getLast_cons (List.cons_ne_nil y rest)]
    exact ih linked.2.2

theorem Rings.not_mem_others (rings : Rings l head (pre ++ x :: post)) :
    x ∉ head :: (pre ++ post) := by
  have perm : (head :: (pre ++ x :: post)).Perm (x :: head :: (pre ++ post)) :=
    (List.Perm.cons head List.perm_middle).trans (List.Perm.swap x head _)
  exact (List.nodup_cons.mp (perm.nodup_iff.mp rings.nodup)).1

variable [DecidableEq α]

theorem Rings.addTail_head {new : α} (rings : Rings l head nodes) (fresh : new ∉ head :: nodes) :
    Rings (l.addTail new head) head (nodes ++ [new]) := by
  have inverse := (rings.prev_mem (List.mem_cons_self ..)).2
  have same : l.addTail new head = l.add new (l.prev head) := by
    rw [Links.addTail, Links.add, inverse]
  have unsplit : Rings l head (nodes ++ []) := by rwa [List.append_nil]
  have outside : new ∉ head :: (nodes ++ []) := by rwa [List.append_nil]
  rw [same]
  exact unsplit.add_part rings.linked.prev_end outside

theorem Rings.moveTail (rings : Rings l head (pre ++ x :: post)) :
    Rings ((l.unlink (l.prev x) (l.next x)).addTail x head) head (pre ++ post ++ [x]) :=
  rings.unlink.addTail_head rings.not_mem_others

theorem Rings.join {new : α} (rings : Rings l head nodes) (fresh : new ∉ head :: nodes) :
    Rings ((l.init new).addTail new head) head (nodes ++ [new]) :=
  (rings.frame_init fresh).addTail_head fresh

end RingList
