import Mathlib.Data.List.FinRange
import MxGpu.HashTable

/- The table keeps its rows apart, and every call changes one key of the map that it is. -/
namespace MxGpu.SmiHash

open ChainList Function List

variable {rows : Nat} {t : HashTable rows} {map : DataMap} {chains : Fin rows → List Addr}
  {key : Key} {data element new : Addr} {pre post : List Addr} {index : Fin rows}

/-- The rows and the map: an element is in the row of its key, and is not freed. -/
structure Inv (t : HashTable rows) (map : DataMap) (chains : Fin rows → List Addr) : Prop where
  chained : t.Chains chains
  placed : ∀ index, ∀ element ∈ chains index, t.hashFunction (t.key element) = index
  distinct : ∀ index, ((chains index).map t.key).Nodup
  live : ∀ index, ∀ element ∈ chains index, element ∈ t.live
  once : t.live.Nodup
  holds : ∀ key data, map key = some data ↔
    ∃ element ∈ chains (t.hashFunction key), t.key element = key ∧ t.data element = data

theorem Inv.nodup (inv : Inv t map chains) (index : Fin rows) : (chains index).Nodup :=
  (inv.distinct index).of_map _

theorem Inv.apart (inv : Inv t map chains) {other : Fin rows} (ne : other ≠ index) :
    (chains other).Disjoint (chains index) := by
  intro element here there
  exact ne ((inv.placed other element here).symm.trans (inv.placed index element there))

theorem Inv.length_le (inv : Inv t map chains) (index : Fin rows) :
    (chains index).length ≤ t.live.length :=
  List.Nodup.length_le_of_subset (inv.nodup index) fun element listed =>
    inv.live index element listed

theorem Inv.represents (inv : Inv t map chains) : t.Represents map := by
  refine ⟨chains, inv.chained, ?_, fun key data => (inv.holds key data).trans ?_⟩
  · rw [map_flatMap, nodup_flatMap]
    refine ⟨fun index _ => inv.distinct index, ?_⟩
    apply (nodup_finRange rows).imp
    intro index other ne key here there
    obtain ⟨element, listed, rfl⟩ := mem_map.mp here
    obtain ⟨element', listed', same⟩ := mem_map.mp there
    apply ne
    rw [← inv.placed index element listed, ← inv.placed other element' listed', same]
  · constructor
    · intro ⟨element, listed, facts⟩
      exact ⟨_, element, listed, facts⟩
    · intro ⟨index, element, listed, same, facts⟩
      refine ⟨element, ?_, same, facts⟩
      rw [← same, inv.placed index element listed]
      exact listed

theorem Inv.find_cases (inv : Inv t map chains) (key : Key) :
    (∃ pre element post, chains (t.hashFunction key) = pre ++ element :: post ∧
      t.key element = key ∧ map key = some (t.data element) ∧
      t.find key = some (pre.getLast?, some element)) ∨
    map key = none ∧ (∀ element ∈ chains (t.hashFunction key), t.key element ≠ key) ∧
      t.find key = some ((chains (t.hashFunction key)).getLast?, none) := by
  have chained := inv.chained (t.hashFunction key)
  have enough := inv.length_le (t.hashFunction key)
  have start (last : Option Addr) : last.or none = last := Option.or_none
  by_cases listed : ∃ element ∈ chains (t.hashFunction key), t.key element = key
  · left
    obtain ⟨element, inside, same⟩ := listed
    obtain ⟨pre, post, split⟩ := append_of_mem inside
    have stored := (inv.holds key (t.data element)).mpr ⟨element, inside, same, rfl⟩
    have distinct := inv.distinct (t.hashFunction key)
    rw [split] at chained enough distinct
    refine ⟨pre, element, post, split, same, stored, ?_⟩
    unfold HashTable.find
    rw [walk_some chained ?_ (decide_eq_true same) ?_, start]
    · intro other before
      apply decide_eq_false
      intro same'
      rw [map_append, map_cons] at distinct
      apply disjoint_of_nodup_append distinct (mem_map_of_mem before)
      rw [same', ← same]
      exact mem_cons_self
    · rw [length_append] at enough
      omega
  · right
    have missing : ∀ element ∈ chains (t.hashFunction key), t.key element ≠ key :=
      fun element inside same => listed ⟨element, inside, same⟩
    refine ⟨?_, missing, ?_⟩
    · rw [Option.eq_none_iff_forall_ne_some]
      intro data stored
      obtain ⟨element, inside, same, -⟩ := (inv.holds key data).mp stored
      exact missing element inside same
    · unfold HashTable.find
      rw [walk_none chained (fun element inside => decide_eq_false (missing element inside))
        (by omega), start]

section Link

@[simp] theorem link_hashFunction (prev target : Option Addr) :
    (t.link index prev target).hashFunction = t.hashFunction := by
  cases prev <;> rfl

@[simp] theorem link_key (prev target : Option Addr) :
    (t.link index prev target).key = t.key := by
  cases prev <;> rfl

@[simp] theorem link_data (prev target : Option Addr) :
    (t.link index prev target).data = t.data := by
  cases prev <;> rfl

@[simp] theorem link_live (prev target : Option Addr) :
    (t.link index prev target).live = t.live := by
  cases prev <;> rfl

theorem link_nextElement (prev target : Option Addr) :
    (t.link index prev target).nextElement = relinkNext t.nextElement prev target := by
  cases prev <;> rfl

theorem link_table (prev target : Option Addr) :
    (t.link index prev target).table index = relinkFirst (t.table index) prev target := by
  cases prev with
  | none => exact update_self ..
  | some prev => rfl

theorem link_table_of_ne {other : Fin rows} (ne : other ≠ index) (prev target : Option Addr) :
    (t.link index prev target).table other = t.table other := by
  cases prev with
  | none => exact update_of_ne ne ..
  | some prev => rfl

theorem chains_link {last target : Option Addr}
    (leads : Leads t.nextElement (t.table index) pre last) (nodup : pre.Nodup)
    (rest : Leads t.nextElement target post none) (apart : pre.Disjoint post)
    (others : ∀ other, other ≠ index → Leads t.nextElement (t.table other) (chains other) none ∧
      (chains other).Disjoint pre) :
    (t.link index pre.getLast? target).Chains (update chains index (pre ++ post)) := by
  intro other
  by_cases same : other = index
  · subst same
    rw [update_self, link_nextElement, link_table]
    exact leads.splice nodup rest apart
  · obtain ⟨chained, disjoint⟩ := others other same
    rw [update_of_ne same, link_nextElement, link_table_of_ne same]
    apply chained.frame
    intro element listed
    exact relinkNext_of_not_mem (disjoint listed)

end Link

theorem Inv.chained_of_ne (inv : Inv t map chains) (inside : ∀ element ∈ pre, element ∈ chains index)
    (other : Fin rows) (ne : other ≠ index) :
    Leads t.nextElement (t.table other) (chains other) none ∧ (chains other).Disjoint pre :=
  ⟨inv.chained other, fun _ listed listed' => inv.apart ne listed (inside _ listed')⟩

theorem Inv.unlink (inv : Inv t map chains) (split : chains index = pre ++ element :: post) :
    Inv ((t.link index pre.getLast? (t.nextElement element)).free element)
      (update map (t.key element) none)
      (update chains index (pre ++ post)) := by
  have listed : element ∈ chains index := by
    rw [split]
    exact mem_append_right _ mem_cons_self
  have place := inv.placed index element listed
  have nodup := inv.nodup index
  have distinct := inv.distinct index
  have chained := inv.chained index
  rw [split] at nodup distinct chained
  have kept : (pre ++ post).Sublist (chains index) := by
    rw [split]
    exact (sublist_cons_self element post).append_left pre
  have absent : element ∉ pre ++ post := (nodup_middle.mp nodup).notMem
  obtain ⟨last, before, rest⟩ := leads_append.mp chained
  have left (other : Fin rows) (element' : Addr)
      (inside : element' ∈ update chains index (pre ++ post) other) :
      element' ∈ chains other ∧ element' ≠ element := by
    by_cases same : other = index
    · subst same
      rw [update_self] at inside
      refine ⟨kept.subset inside, ?_⟩
      rintro rfl
      exact absent inside
    · rw [update_of_ne same] at inside
      refine ⟨inside, ?_⟩
      rintro rfl
      exact inv.apart same inside listed
  refine ⟨?_, ?_, ?_, ?_, ?_, ?_⟩
  · exact chains_link before (nodup_append.mp nodup).1 rest.2
      (disjoint_of_nodup_append (nodup.sublist (by rw [← split]; exact kept)))
      (inv.chained_of_ne fun other inside => by
        rw [split]
        exact mem_append_left _ inside)
  · intro other element' inside
    simp only [HashTable.free, link_hashFunction, link_key]
    exact inv.placed other element' (left other element' inside).1
  · intro other
    simp only [HashTable.free, link_key]
    by_cases same : other = index
    · subst same
      rw [update_self]
      exact (inv.distinct other).sublist (kept.map _)
    · rw [update_of_ne same]
      exact inv.distinct other
  · intro other element' inside
    obtain ⟨old, ne⟩ := left other element' inside
    simp only [HashTable.free, link_live]
    exact (mem_erase_of_ne ne).mpr (inv.live other element' old)
  · simp only [HashTable.free, link_live]
    exact inv.once.erase element
  · intro key data
    simp only [HashTable.free, link_hashFunction, link_key, link_data]
    by_cases same : key = t.key element
    · subst same
      rw [update_self]
      refine iff_of_false nofun ?_
      rintro ⟨element', inside, same, -⟩
      obtain ⟨old, ne⟩ := left _ element' inside
      rw [place] at old
      exact ne (inj_on_of_nodup_map (inv.distinct index) old listed same)
    · rw [update_of_ne same, inv.holds]
      constructor
      · rintro ⟨element', old, same', stored⟩
        refine ⟨element', ?_, same', stored⟩
        by_cases row : t.hashFunction key = index
        · rw [row, update_self]
          rw [row, split] at old
          have other : element' ≠ element := by
            rintro rfl
            exact same same'.symm
          rcases mem_append.mp old with front | back
          · exact mem_append_left _ front
          · exact mem_append_right _ ((mem_cons.mp back).resolve_left other)
        · rw [update_of_ne row]
          exact old
      · rintro ⟨element', inside, facts⟩
        exact ⟨element', (left _ element' inside).1, facts⟩

theorem Inv.not_mem (inv : Inv t map chains) (fresh : new ∉ t.live) (index : Fin rows) :
    new ∉ chains index :=
  fun listed => fresh (inv.live index new listed)

theorem Inv.allocated (inv : Inv t map chains) (fresh : new ∉ t.live) (key : Key) (data : Addr) :
    Inv (t.allocated key data new) map chains := by
  have other {index : Fin rows} {element : Addr} (listed : element ∈ chains index) :
      element ≠ new := by
    rintro rfl
    exact inv.not_mem fresh index listed
  have keys (index : Fin rows) : (chains index).map (t.allocated key data new).key =
      (chains index).map t.key :=
    map_congr_left fun element listed => update_of_ne (other listed) ..
  refine ⟨?_, ?_, ?_, ?_, ?_, ?_⟩
  · intro index
    apply (inv.chained index).frame
    intro element listed
    exact update_of_ne (other listed) ..
  · intro index element listed
    have same : (t.allocated key data new).key element = t.key element :=
      update_of_ne (other listed) ..
    rw [same]
    exact inv.placed index element listed
  · intro index
    rw [keys]
    exact inv.distinct index
  · intro index element listed
    exact mem_cons_of_mem _ (inv.live index element listed)
  · exact nodup_cons.mpr ⟨fresh, inv.once⟩
  · intro key' data'
    rw [inv.holds]
    refine exists_congr fun element => and_congr_right fun listed => ?_
    have same : (t.allocated key data new).key element = t.key element :=
      update_of_ne (other listed) ..
    have same' : (t.allocated key data new).data element = t.data element :=
      update_of_ne (other listed) ..
    rw [same, same']

theorem Inv.refused (inv : Inv t map chains) (fresh : new ∉ t.live) (key : Key) (data : Addr) :
    Inv ((t.allocated key data new).free new) map chains := by
  have kept := inv.allocated fresh key data
  refine ⟨kept.chained, kept.placed, kept.distinct, ?_, ?_, kept.holds⟩
  · intro index element listed
    have old := inv.live index element listed
    have live : ((t.allocated key data new).free new).live = t.live := erase_cons_head ..
    rw [live]
    exact old
  · have live : ((t.allocated key data new).free new).live = t.live := erase_cons_head ..
    rw [live]
    exact inv.once

theorem Inv.linkNew (inv : Inv t map chains) (live : new ∈ t.live)
    (outside : ∀ index, new ∉ chains index) (ends : t.nextElement new = none)
    (absent : ∀ element ∈ chains (t.hashFunction (t.key new)), t.key element ≠ t.key new) :
    Inv (t.link (t.hashFunction (t.key new))
        (chains (t.hashFunction (t.key new))).getLast? (some new))
      (update map (t.key new) (some (t.data new)))
      (update chains (t.hashFunction (t.key new))
        (chains (t.hashFunction (t.key new)) ++ [new])) := by
  generalize place : t.hashFunction (t.key new) = index at absent ⊢
  have joined (other : Fin rows) (element : Addr) :
      element ∈ update chains index (chains index ++ [new]) other ↔
        element ∈ chains other ∨ other = index ∧ element = new := by
    by_cases same : other = index
    · subst same
      rw [update_self, mem_append, mem_singleton]
      exact or_congr_right (and_iff_right rfl).symm
    · rw [update_of_ne same]
      exact (or_iff_left fun both => same both.1).symm
  refine ⟨?_, ?_, ?_, ?_, ?_, ?_⟩
  · refine chains_link (inv.chained index) (inv.nodup index) ⟨rfl, ends⟩ ?_
      (inv.chained_of_ne fun _ inside => inside)
    intro element listed here
    rw [mem_singleton.mp here] at listed
    exact outside index listed
  · intro other element inside
    rw [link_hashFunction, link_key]
    rcases (joined other element).mp inside with old | ⟨rfl, rfl⟩
    · exact inv.placed other element old
    · exact place
  · intro other
    rw [link_key]
    by_cases same : other = index
    · subst same
      rw [update_self, map_append, map_singleton, nodup_append_comm,
        singleton_append, nodup_cons]
      refine ⟨?_, inv.distinct other⟩
      intro listed
      obtain ⟨element, inside, same⟩ := mem_map.mp listed
      exact absent element inside same
    · rw [update_of_ne same]
      exact inv.distinct other
  · intro other element inside
    rw [link_live]
    rcases (joined other element).mp inside with old | ⟨-, rfl⟩
    · exact inv.live other element old
    · exact live
  · rw [link_live]
    exact inv.once
  · intro key data
    rw [link_hashFunction, link_key, link_data]
    by_cases same : key = t.key new
    · subst same
      rw [update_self, Option.some.injEq]
      constructor
      · intro stored
        exact ⟨new, (joined _ _).mpr (.inr ⟨place, rfl⟩), rfl, stored⟩
      · rintro ⟨element, inside, same, stored⟩
        rcases (joined _ _).mp inside with old | ⟨-, rfl⟩
        · rw [place] at old
          exact absurd same (absent element old)
        · exact stored
    · rw [update_of_ne same, inv.holds]
      constructor
      · rintro ⟨element, old, facts⟩
        exact ⟨element, (joined _ _).mpr (.inl old), facts⟩
      · rintro ⟨element, inside, same', stored⟩
        rcases (joined _ _).mp inside with old | ⟨-, rfl⟩
        · exact ⟨element, old, same', stored⟩
        · exact absurd same'.symm same

section Calls

theorem Inv.addToHashTable (inv : Inv t map chains) (key : Key) (data : Addr)
    {newElement : Option Addr} (fresh : ∀ new, newElement = some new → new ∉ t.live) :
    ∃ after ret, t.addToHashTable key data newElement = some (after, ret) ∧
      (∃ chains', Inv after (map.after (.add key data newElement)) chains') ∧
      ret = if newElement = none then .memoryError
        else if map key = none then .success else .keyError := by
  cases newElement with
  | none =>
    have same : map.after (.add key data none) = map := if_neg fun both => both.2 rfl
    rw [same]
    exact ⟨t, _, rfl, ⟨chains, inv⟩, rfl⟩
  | some new =>
    have free := fresh new rfl
    have kept := inv.allocated free key data
    have row : (t.allocated key data new).key new = key := update_self ..
    have stored : (t.allocated key data new).data new = data := update_self ..
    have ends : (t.allocated key data new).nextElement new = none := update_self ..
    -- writing what is there already
    have again : update (t.allocated key data new).nextElement new none =
        (t.allocated key data new).nextElement := by
      rw [← ends]
      exact update_eq_self ..
    rw [if_neg nofun]
    unfold HashTable.addToHashTable
    dsimp only
    rcases kept.find_cases key with ⟨pre, element, post, -, -, there, finds⟩ | ⟨absent, other, finds⟩
    · have same : map.after (.add key data (some new)) = map := by
        apply if_neg
        rintro ⟨missing, -⟩
        rw [missing] at there
        cases there
      have error : map key ≠ none := by
        rw [there]
        exact nofun
      rw [finds, same, if_neg error]
      exact ⟨_, _, rfl, ⟨chains, inv.refused free key data⟩, rfl⟩
    · have linked := kept.linkNew mem_cons_self (inv.not_mem free) ends
      rw [row, stored] at linked
      have after : map.after (.add key data (some new)) = update map key (some data) :=
        if_pos ⟨absent, nofun⟩
      have result := linked other
      rw [finds, after, if_pos absent]
      cases last : (chains ((t.allocated key data new).hashFunction key)).getLast? with
      | none =>
        have first := kept.chained ((t.allocated key data new).hashFunction key)
        rw [getLast?_eq_none_iff.mp last] at first
        rw [last] at result
        change (t.allocated key data new).table _ = none at first
        refine ⟨_, _, rfl, ?_, rfl⟩
        rw [first, again]
        exact ⟨_, result⟩
      | some prev =>
        rw [last] at result
        refine ⟨_, _, rfl, ?_, rfl⟩
        rw [again]
        exact ⟨_, result⟩

theorem Inv.removeFromHashTable (inv : Inv t map chains) (key : Key) :
    ∃ after ret, t.removeFromHashTable key = some (after, ret) ∧
      (∃ chains', Inv after (update map key none) chains') ∧
      ret = if map key = none then .keyError else .success := by
  unfold HashTable.removeFromHashTable
  rcases inv.find_cases key with ⟨pre, element, post, split, rfl, there, finds⟩ | ⟨absent, -, finds⟩
  · have present : map (t.key element) ≠ none := by
      rw [there]
      exact nofun
    rw [finds, if_neg present]
    exact ⟨_, _, rfl, ⟨_, inv.unlink split⟩, rfl⟩
  · have same : update map key none = map := by
      rw [← absent]
      exact update_eq_self ..
    rw [finds, if_pos absent, same]
    exact ⟨_, _, rfl, ⟨_, inv⟩, rfl⟩

theorem popFromHashTable_eq (t : HashTable rows) (key : Key) (data : Addr) :
    (t.popFromHashTable key data).map (fun (after, ret, _) => (after, ret)) =
      t.removeFromHashTable key := by
  unfold HashTable.popFromHashTable HashTable.removeFromHashTable
  rcases t.find key with _ | ⟨_, _ | _⟩ <;> rfl

theorem Inv.getFromHashTable (inv : Inv t map chains) (key : Key) :
    t.getFromHashTable key =
      some (if map key = none then .keyError else .success, map key) := by
  unfold HashTable.getFromHashTable
  rcases inv.find_cases key with ⟨pre, element, post, -, -, there, finds⟩ | ⟨absent, -, finds⟩
  · rw [finds, there]
    rfl
  · rw [finds, absent]
    rfl

theorem Inv.clearRow {nodes : List Addr} (inv : Inv t map chains) (row : chains index = nodes)
    {fuel : Nat} (enough : nodes.length < fuel) :
    ∃ after, HashTable.clearRow index fuel t = some after ∧
      after.hashFunction = t.hashFunction ∧
      Inv after (fun key => if t.hashFunction key = index then none else map key)
        (update chains index []) := by
  induction nodes generalizing t map chains fuel with
  | nil =>
    obtain ⟨fuel, rfl⟩ := Nat.exists_eq_succ_of_ne_zero (Nat.ne_of_gt enough)
    have first := inv.chained index
    rw [row] at first
    change t.table index = none at first
    rw [HashTable.clearRow, first]
    refine ⟨t, rfl, rfl, ?_⟩
    have same : update chains index [] = chains := by
      rw [← row]
      exact update_eq_self ..
    have none_ : (fun key => if t.hashFunction key = index then none else map key) = map := by
      funext key
      split
      · rename_i here
        symm
        rw [Option.eq_none_iff_forall_ne_some]
        intro data stored
        obtain ⟨element, listed, -⟩ := (inv.holds key data).mp stored
        rw [here, row] at listed
        cases listed
      · rfl
    rw [same, none_]
    exact inv
  | cons element rest ih =>
    cases fuel with
    | zero => exact absurd enough (Nat.not_lt_zero _)
    | succ fuel =>
      have first := inv.chained index
      rw [row] at first
      have place := inv.placed index element (row ▸ mem_cons_self)
      have less := inv.unlink (show chains index = [] ++ element :: rest from row)
      rw [HashTable.clearRow, first.1]
      dsimp only
      have freed : Inv { t with
          table := update t.table index (t.nextElement element)
          freedData := t.data element :: t.freedData
          live := t.live.erase element }
          (update map (t.key element) none) (update chains index rest) :=
        ⟨less.chained, less.placed, less.distinct, less.live, less.once, less.holds⟩
      obtain ⟨after, clears, same, cleared⟩ :=
        ih freed (update_self ..) (Nat.lt_of_succ_lt_succ enough)
      refine ⟨after, clears, same, ?_⟩
      rw [update_idem] at cleared
      convert cleared using 2 with key
      by_cases here : t.hashFunction key = index
      · rw [if_pos here, if_pos here]
      · rw [if_neg here, if_neg here, update_of_ne]
        rintro rfl
        exact here place

theorem Inv.clearTable (inv : Inv t map chains) :
    ∃ after, t.clearTable = some after ∧ ∃ chains', Inv after (fun _ => none) chains' := by
  have upTo (indices : List (Fin rows)) : ∀ (t : HashTable rows) (map : DataMap)
      (chains : Fin rows → List Addr), Inv t map chains → ∃ after,
        indices.foldlM (fun t index => HashTable.clearRow index (t.live.length + 1) t) t =
          some after ∧ ∃ chains',
            Inv after (fun key => if t.hashFunction key ∈ indices then none else map key)
              chains' := by
    induction indices with
    | nil =>
      intro t map chains inv
      exact ⟨t, rfl, chains, by simpa using inv⟩
    | cons index rest ih =>
      intro t map chains inv
      obtain ⟨middle, clears, same, cleared⟩ :=
        inv.clearRow rfl (Nat.lt_succ_of_le (inv.length_le index))
      obtain ⟨after, others, chains', final⟩ := ih middle _ _ cleared
      refine ⟨after, ?_, chains', ?_⟩
      · rw [foldlM_cons, clears]
        exact others
      · rw [same] at final
        convert final using 2 with key
        simp only [mem_cons]
        by_cases here : t.hashFunction key = index <;> by_cases there : t.hashFunction key ∈ rest <;>
          simp [here, there]
  obtain ⟨after, clears, chains', final⟩ := upTo (finRange rows) t map chains inv
  refine ⟨after, clears, chains', ?_⟩
  simpa using final

end Calls

section Runs

variable {s : Sys rows}

theorem serve_spec (inv : Inv s.table s.map chains) (call : Call) (admitted : s.Admits call) :
    ∃ after reply, s.table.serve call = some (after, reply) ∧
      (∃ chains', Inv after (s.map.after call) chains') ∧
      (s.map.Answers call reply ↔ s.Meets call) := by
  cases call with
  | add key data newElement =>
    have fresh : ∀ new, newElement = some new → new ∉ s.table.live := by
      rintro new rfl
      exact admitted
    obtain ⟨after, ret, adds, kept, code⟩ := inv.addToHashTable key data fresh
    exact ⟨after, _, congrArg (Option.map _) adds, kept, iff_of_true code trivial⟩
  | remove key =>
    obtain ⟨after, ret, removes, kept, code⟩ := inv.removeFromHashTable key
    exact ⟨after, _, congrArg (Option.map _) removes, kept, iff_of_true code trivial⟩
  | pop key variable_ =>
    obtain ⟨after, ret, removes, kept, code⟩ := inv.removeFromHashTable key
    rw [← popFromHashTable_eq _ key variable_] at removes
    obtain ⟨⟨after', ret', data⟩, pops, same⟩ := Option.map_eq_some_iff.mp removes
    obtain ⟨rfl, rfl⟩ := Prod.mk.inj same
    refine ⟨_, _, congrArg (Option.map _) pops, kept, ?_⟩
    constructor
    · rintro ⟨-, handed⟩ data stored
      exact Option.some.inj (handed data stored)
    · intro meets
      exact ⟨code, fun data stored => congrArg some (meets data stored)⟩
  | get key variable_ =>
    refine ⟨_, _, congrArg (Option.map _) (inv.getFromHashTable key), ⟨chains, inv⟩, ?_⟩
    refine iff_of_true ⟨rfl, ?_⟩ trivial
    intro data stored
    rw [stored]
    rfl
  | clear =>
    obtain ⟨after, clears, kept⟩ := inv.clearTable
    exact ⟨after, _, congrArg (Option.map _) clears, kept, iff_of_true rfl trivial⟩

def Sys.Keeps (s : Sys rows) : Prop := ∃ chains, Inv s.table s.map chains

theorem Sys.Keeps.next (keeps : s.Keeps) {call : Call} (admitted : s.Admits call) :
    ∃ after, s.next call = some after ∧ after.Keeps ∧ (after.answered ↔ s.Meets call) := by
  obtain ⟨chains, inv⟩ := keeps
  obtain ⟨after, reply, serves, kept, answers⟩ := serve_spec inv call admitted
  refine ⟨⟨after, s.map.after call, s.map.Answers call reply⟩, ?_, kept, answers⟩
  rw [Sys.next, if_pos admitted, serves]
  rfl

theorem Sys.Keeps.of_next (keeps : s.Keeps) {call : Call} {after : Sys rows}
    (fired : s.next call = some after) : after.Keeps ∧ (after.answered ↔ s.Meets call) := by
  have admitted : s.Admits call := by
    by_contra refused
    rw [Sys.next, if_neg refused] at fired
    cases fired
  obtain ⟨after', fired', facts⟩ := keeps.next admitted
  rw [fired] at fired'
  cases fired'
  exact facts

theorem Sys.Keeps.lawful_iff (keeps : s.Keeps) : s.Lawful ↔ s.answered := by
  constructor
  · exact fun lawful => lawful.answered
  · intro answered
    obtain ⟨chains, inv⟩ := keeps
    refine ⟨inv.represents, ?_, answered⟩
    intro call admitted none_
    obtain ⟨after, fired, -⟩ := Sys.Keeps.next ⟨chains, inv⟩ admitted
    rw [none_] at fired
    cases fired

def Sys.Initial (s : Sys rows) : Prop :=
  ∃ function key data nextElement,
    s = ⟨createHashTable function key data nextElement, fun _ => none, True⟩

theorem Sys.Initial.keeps (initial : s.Initial) : s.Keeps ∧ s.Lawful := by
  obtain ⟨function, key, data, nextElement, rfl⟩ := initial
  have keeps : Sys.Keeps ⟨createHashTable function key data nextElement, fun _ => none, True⟩ := by
    refine ⟨fun _ => [], fun _ => rfl, ?_, ?_, ?_, nodup_nil, ?_⟩
    · exact fun _ _ listed => absurd listed not_mem_nil
    · exact fun _ => nodup_nil
    · exact fun _ _ listed => absurd listed not_mem_nil
    · intro key data
      refine iff_of_false nofun ?_
      rintro ⟨element, listed, -⟩
      cases listed
  exact ⟨keeps, keeps.lawful_iff.mpr trivial⟩

/-- Through any calls the table is a finite map and answers as one, if and only if no caller of
`pop_from_hash_table` needs what it does not hand over. -/
theorem hash_table_lawful_iff (initial : s.Initial) (calls : List Call) :
    Transition.Along Sys.next Sys.Lawful s calls ↔
      Transition.Obeys Sys.next Sys.Meets s calls := by
  apply @Transition.along_iff_obeys _ _ Sys.next Sys.Lawful Sys.Keeps
  · exact fun _ _ _ keeps fired => (keeps.of_next fired).1
  · intro before call after keeps _ fired
    obtain ⟨kept, answers⟩ := keeps.of_next fired
    exact kept.lawful_iff.trans answers
  · exact initial.keeps.1
  · exact initial.keeps.2

end Runs

def fourRows : Sys 4 :=
  ⟨createHashTable (fun key => ⟨key.toNat % 4, Nat.mod_lt _ (by decide)⟩) (fun _ => 0) (fun _ => 0)
    (fun _ => none), fun _ => none, True⟩

theorem fourRows_initial : fourRows.Initial := ⟨_, _, _, _, rfl⟩

/-- Two keys of one row; one of them is taken out, and the other is left. -/
theorem hash_table_lawful_two : Transition.Along Sys.next Sys.Lawful fourRows
    [.add 1 100 (some 10), .add 5 200 (some 11), .remove 1, .get 5 0] := by
  refine (hash_table_lawful_iff fourRows_initial _).mpr ?_
  exact fun _ _ => ⟨trivial, fun _ _ => ⟨trivial, fun _ _ => ⟨trivial, fun _ _ =>
    ⟨trivial, trivial⟩⟩⟩⟩

/-- The data of a key that is popped is not handed over. -/
theorem popped_data_lost : ¬ Transition.Along Sys.next Sys.Lawful fourRows
    [.add 1 100 (some 10), .pop 1 0] := by
  intro along
  obtain ⟨-, added⟩ := along
  obtain ⟨-, popped⟩ := added _ rfl
  have answered := (popped _ rfl).answered
  exact absurd (answered.2 100 rfl) (by decide)

end MxGpu.SmiHash
