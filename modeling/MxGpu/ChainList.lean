import Mathlib.Data.List.Nodup

/- Singly linked lists whose links live in the nodes: a first node or none, and from each node the
next one or none. -/
namespace ChainList

variable {α : Type} {next next' : α → Option α} {first last target : Option α} {node : α}
  {nodes nodes' pre post : List α}

/-- From `first` through `nodes` to `last`. -/
def Leads (next : α → Option α) : Option α → List α → Option α → Prop
  | first, [], last => first = last
  | first, node :: rest, last => first = some node ∧ Leads next (next node) rest last

theorem leads_append : Leads next first (pre ++ post) last ↔
    ∃ middle, Leads next first pre middle ∧ Leads next middle post last := by
  induction pre generalizing first with
  | nil => exact ⟨fun leads => ⟨first, rfl, leads⟩, fun ⟨_, here, leads⟩ => here ▸ leads⟩
  | cons node rest ih =>
    constructor
    · intro leads
      obtain ⟨middle, before, after⟩ := ih.mp leads.2
      exact ⟨middle, ⟨leads.1, before⟩, after⟩
    · intro ⟨middle, before, after⟩
      exact ⟨before.1, ih.mpr ⟨middle, before.2, after⟩⟩

theorem Leads.frame (leads : Leads next first nodes last)
    (same : ∀ node ∈ nodes, next' node = next node) : Leads next' first nodes last := by
  induction nodes generalizing first with
  | nil => exact leads
  | cons node rest ih =>
    refine ⟨leads.1, ?_⟩
    rw [same node List.mem_cons_self]
    exact ih leads.2 fun other listed => same other (List.mem_cons_of_mem _ listed)

section Relink

variable [DecidableEq α]

/-- The last link of a part of a list goes elsewhere: that of its last node, or the first one. -/
def relinkNext (next : α → Option α) (prev target : Option α) : α → Option α :=
  match prev with
  | none => next
  | some node => Function.update next node target

def relinkFirst (first prev target : Option α) : Option α :=
  match prev with
  | none => target
  | some _ => first

theorem relinkNext_of_not_mem (outside : node ∉ pre) :
    relinkNext next pre.getLast? target node = next node := by
  cases ends : pre.getLast? with
  | none => rfl
  | some last =>
    apply Function.update_of_ne
    rintro rfl
    exact outside (List.mem_of_getLast? ends)

theorem Leads.relink (leads : Leads next first pre last) (nodup : pre.Nodup)
    (target : Option α) : Leads (relinkNext next pre.getLast? target)
      (relinkFirst first pre.getLast? target) pre target := by
  rcases List.eq_nil_or_concat pre with rfl | ⟨front, node, rfl⟩
  · rfl
  · rw [List.concat_eq_append, List.getLast?_concat]
    rw [List.concat_eq_append] at leads nodup
    have apart : node ∉ front := by
      intro listed
      exact (List.disjoint_of_nodup_append nodup) listed List.mem_cons_self
    obtain ⟨middle, before, here, -⟩ := leads_append.mp leads
    refine leads_append.mpr ⟨middle, ?_, here, ?_⟩
    · apply before.frame
      intro other listed
      apply Function.update_of_ne
      rintro rfl
      exact apart listed
    · exact Function.update_self ..

theorem Leads.splice (leads : Leads next first pre last) (nodup : pre.Nodup)
    (rest : Leads next target post none) (apart : pre.Disjoint post) :
    Leads (relinkNext next pre.getLast? target) (relinkFirst first pre.getLast? target)
      (pre ++ post) none := by
  refine leads_append.mpr ⟨target, leads.relink nodup target, ?_⟩
  apply rest.frame
  intro node listed
  exact relinkNext_of_not_mem fun inside => apart inside listed

end Relink

section Walk

variable {found : α → Bool} {prev : Option α}

/-- Follow a list to the first node that is found, with the node before it. A list that goes on
uses the fuel up. -/
def walk (next : α → Option α) (found : α → Bool) :
    Nat → Option α → Option α → Option (Option α × Option α)
  | 0, _, _ => none
  | _ + 1, prev, none => some (prev, none)
  | fuel + 1, prev, some node =>
    if found node then some (prev, some node) else walk next found fuel (some node) (next node)

theorem walk_none (leads : Leads next first nodes none) (missing : ∀ node ∈ nodes, found node = false)
    {fuel : Nat} (enough : nodes.length < fuel) :
    walk next found fuel prev first = some (nodes.getLast?.or prev, none) := by
  induction nodes generalizing first prev fuel with
  | nil =>
    obtain ⟨fuel, rfl⟩ := Nat.exists_eq_add_of_lt enough
    have ends : first = none := leads
    rw [ends]
    rfl
  | cons node rest ih =>
    cases fuel with
    | zero => exact absurd enough (Nat.not_lt_zero _)
    | succ fuel =>
      rw [leads.1, walk, missing node List.mem_cons_self, if_neg Bool.false_ne_true]
      rw [ih leads.2 (fun other listed => missing other (List.mem_cons_of_mem _ listed))
        (Nat.lt_of_succ_lt_succ enough)]
      cases rest with
      | nil => rfl
      | cons second rest => simp [List.getLast?_cons]

theorem walk_some (leads : Leads next first (pre ++ node :: post) none)
    (missing : ∀ node ∈ pre, found node = false) (here : found node = true)
    {fuel : Nat} (enough : pre.length < fuel) :
    walk next found fuel prev first = some (pre.getLast?.or prev, some node) := by
  induction pre generalizing first prev fuel with
  | nil =>
    obtain ⟨fuel, rfl⟩ := Nat.exists_eq_add_of_lt enough
    rw [leads.1, walk, here]
    rfl
  | cons first' rest ih =>
    cases fuel with
    | zero => exact absurd enough (Nat.not_lt_zero _)
    | succ fuel =>
      rw [leads.1, walk, missing first' List.mem_cons_self, if_neg Bool.false_ne_true]
      rw [ih leads.2 (fun other listed => missing other (List.mem_cons_of_mem _ listed))
        (Nat.lt_of_succ_lt_succ enough)]
      cases rest with
      | nil => rfl
      | cons second rest => simp [List.getLast?_cons]

end Walk

end ChainList
