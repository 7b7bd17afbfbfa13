import Rollup.Proofs.Session.Totals
import Rollup.Session.Split

namespace Rollup

/-- The cell that a child takes its documents from. -/
def Child.cell (c : Child) : Cell := ⟨c.term, c.parent⟩

namespace Child

theorem snd_ascending (cs : List Child) (n : Nat) :
    (cs.zipIdx n).Pairwise fun a b => compare a.2 b.2 = .lt := by
  have ids : ((cs.zipIdx n).map Prod.snd).Pairwise fun a b => compare a b = .lt := by
    rw [List.zipIdx_map_snd]
    refine (List.pairwise_lt_range' (s := n) (n := cs.length)).imp ?_
    intro a b less
    exact Nat.compare_eq_lt.2 less
  exact List.pairwise_map.1 ids

theorem exists_mem_zipIdx {cs : List Child} {c : Child} (member : c ∈ cs) :
    ∃ i, (c, i) ∈ cs.zipIdx 1 := by
  obtain ⟨i, inRange, here⟩ := List.mem_iff_getElem.1 member
  refine ⟨i + 1, ?_⟩
  rw [List.mk_mem_zipIdx_iff_le_and_getElem?_sub, Nat.add_sub_cancel, List.getElem?_eq_getElem inRange, here]
  exact ⟨Nat.le_add_left 1 i, rfl⟩

theorem toList_keyMap (cs : List Child) :
    (keyMap (cs.zipIdx 1)).toList = (cs.zipIdx 1).map fun c => (c.2, c.1.key) := by
  have table : keyMap (cs.zipIdx 1) = Table.ofList ((cs.zipIdx 1).map fun c => (c.2, c.1.key)) := by
    rw [Table.ofList, List.foldl_map]
    rfl
  rw [table, Table.toList_ofList]
  rw [List.pairwise_map]
  exact snd_ascending cs 1

theorem values_keyMap (cs : List Child) : (keyMap (cs.zipIdx 1)).values = cs.map (·.key) := by
  have fst : (cs.zipIdx 1).map Prod.fst = cs := List.zipIdx_map_fst 1 cs
  conv => rhs; rw [← fst]
  rw [Table.values, toList_keyMap, List.map_map, List.map_map]
  rfl

theorem get?_keyMap_eq_some_iff (cs : List Child) (i : GroupId) (k : Key) :
    (keyMap (cs.zipIdx 1)).get? i = some k ↔ ∃ c, (c, i) ∈ cs.zipIdx 1 ∧ c.key = k := by
  rw [← Table.mem_toList_iff, toList_keyMap, List.mem_map]
  constructor
  · intro h
    obtain ⟨⟨c, j⟩, member, same⟩ := h
    cases same
    exact ⟨c, member, rfl⟩
  · intro h
    obtain ⟨c, member, rfl⟩ := h
    exact ⟨(c, i), member, rfl⟩

theorem get?_keyMap_zero (cs : List Child) : (keyMap (cs.zipIdx 1)).get? 0 = none := by
  rw [Option.eq_none_iff_forall_ne_some]
  intro k found
  obtain ⟨c, member, -⟩ := (get?_keyMap_eq_some_iff cs 0 k).1 found
  have positive : 1 ≤ 0 := List.le_snd_of_mem_zipIdx member
  omega

theorem get?_ids_eq_some_iff {cs : List Child} (distinct : (cs.map cell).Nodup) (c : Cell)
    (i : GroupId) :
    (ids (cs.zipIdx 1)).get? c = some i ↔ ∃ child, (child, i) ∈ cs.zipIdx 1 ∧ child.cell = c := by
  have table : ids (cs.zipIdx 1) = Table.ofList ((cs.zipIdx 1).map fun c => (c.1.cell, c.2)) := by
    rw [Table.ofList, List.foldl_map]
    rfl
  have keys : ((cs.zipIdx 1).map fun c => (c.1.cell, c.2)).map (·.1) = cs.map cell := by
    have fst : (cs.zipIdx 1).map Prod.fst = cs := List.zipIdx_map_fst 1 cs
    conv => rhs; rw [← fst]
    simp only [List.map_map, Function.comp_def]
  rw [table, Table.get?_ofList_eq_some_iff (keys ▸ distinct), List.mem_map]
  constructor
  · intro h
    obtain ⟨⟨child, j⟩, member, same⟩ := h
    cases same
    exact ⟨child, member, rfl⟩
  · intro h
    obtain ⟨child, member, rfl⟩ := h
    exact ⟨(child, i), member, rfl⟩

end Child

/-- A moved document is in a numbered group or in none, also where a cell was chosen twice. -/
theorem Entry.group_move_lt (f : Field) (cs : List Child) (e : Entry) :
    (e.move f (Child.ids (cs.zipIdx 1))).group < cs.length + 1 := by
  cases moved : (e.doc.term? f).bind fun t => (Child.ids (cs.zipIdx 1)).get? ⟨t, e.group⟩ with
  | none =>
    rw [move, moved]
    exact Nat.succ_pos _
  | some i =>
    rw [move, moved]
    obtain ⟨t, -, id⟩ := Option.bind_eq_some_iff.1 moved
    rcases Table.exists_of_get?_foldl_insert id with nothing | ⟨⟨c, j⟩, numbered, -, rfl⟩
    · cases nothing
    · exact List.snd_lt_of_mem_zipIdx numbered

namespace Entry
variable {cs : List Child} (distinct : (cs.map Child.cell).Nodup)

include distinct in
/-- A document is in the group of a child once it is moved exactly when it was in the parent and has the
term. -/
theorem group_move_eq_iff {c : Child} {i : GroupId} (numbered : (c, i) ∈ cs.zipIdx 1) (f : Field)
    (e : Entry) :
    (e.move f (Child.ids (cs.zipIdx 1))).group = i ↔
      e.doc.term? f = some c.term ∧ e.group = c.parent := by
  have target : (e.move f (Child.ids (cs.zipIdx 1))).group =
      ((e.doc.term? f).bind fun t => (Child.ids (cs.zipIdx 1)).get? ⟨t, e.group⟩).getD 0 := rfl
  have positive : i ≠ 0 := Nat.ne_of_gt (List.le_snd_of_mem_zipIdx numbered)
  rw [target, Option.getD_eq_iff]
  simp only [positive.symm, and_false, or_false, Option.bind_eq_some_iff,
    Child.get?_ids_eq_some_iff distinct]
  constructor
  · intro h
    obtain ⟨t, term, c', numbered', cell⟩ := h
    have here := (List.mk_mem_zipIdx_iff_le_and_getElem?_sub.1 numbered).2
    have here' := (List.mk_mem_zipIdx_iff_le_and_getElem?_sub.1 numbered').2
    cases Option.some.inj (here.symm.trans here')
    have sameTerm : c.term = t := congrArg Cell.term cell
    have sameGroup : c.parent = e.group := congrArg Cell.group cell
    exact ⟨sameTerm ▸ term, sameGroup.symm⟩
  · intro h
    obtain ⟨term, group⟩ := h
    exact ⟨c.term, term, c, numbered, by rw [Child.cell, group]⟩

include distinct in
/-- A document that is moved leaves all groups or joins that of a child. -/
theorem group_move_cases (f : Field) (e : Entry) :
    (e.move f (Child.ids (cs.zipIdx 1))).group = 0 ∨
      ∃ c, (c, (e.move f (Child.ids (cs.zipIdx 1))).group) ∈ cs.zipIdx 1 := by
  cases moved : (e.doc.term? f).bind fun t => (Child.ids (cs.zipIdx 1)).get? ⟨t, e.group⟩ with
  | none =>
    left
    rw [move, moved]
    rfl
  | some i =>
    right
    obtain ⟨t, -, id⟩ := Option.bind_eq_some_iff.1 moved
    obtain ⟨c, numbered, -⟩ := (Child.get?_ids_eq_some_iff distinct _ i).1 id
    rw [move, moved]
    exact ⟨c, numbered⟩

include distinct in
/-- A document ends up under the key of the child for its group and its term. -/
theorem get?_keyMap_move (f : Field) (e : Entry) (k : Key) :
    (Child.keyMap (cs.zipIdx 1)).get? (e.move f (Child.ids (cs.zipIdx 1))).group = some k ↔
      ∃ c ∈ cs, e.doc.term? f = some c.term ∧ c.parent = e.group ∧ c.key = k := by
  rw [Child.get?_keyMap_eq_some_iff]
  constructor
  · intro h
    obtain ⟨c, numbered, key⟩ := h
    obtain ⟨term, parent⟩ := (group_move_eq_iff distinct numbered f e).1 rfl
    exact ⟨c, List.fst_mem_of_mem_zipIdx numbered, term, parent.symm, key⟩
  · intro h
    obtain ⟨c, member, term, parent, key⟩ := h
    obtain ⟨i, numbered⟩ := Child.exists_mem_zipIdx member
    rw [(group_move_eq_iff distinct numbered f e).2 ⟨term, parent.symm⟩]
    exact ⟨c, numbered, key⟩

end Entry

namespace Choice

theorem mem_children_iff (c : Choice) (keys : KeyMap) (child : Child) :
    child ∈ c.children keys ↔ ∃ k, keys.get? child.parent = some k ∧ child.key = k.child child.term ∧
      child.term ∈ (c.get? child.parent).getD [] := by
  simp only [children, List.mem_flatMap, List.mem_map]
  constructor
  · intro h
    obtain ⟨⟨g, k⟩, entry, t, chosen, rfl⟩ := h
    exact ⟨k, (keys.mem_toList_iff g k).1 entry, rfl, chosen⟩
  · intro h
    obtain ⟨k, entry, key, chosen⟩ := h
    refine ⟨(child.parent, k), (keys.mem_toList_iff _ _).2 entry, child.term, chosen, ?_⟩
    obtain ⟨parent, term, key'⟩ := child
    simp only at key
    rw [key]

/-- Children come by parent, and those of one parent as their terms were chosen. -/
theorem pairwise_children {r : Term → Term → Prop} {c : Choice} (keys : KeyMap)
    (each : ∀ g, keys.contains g = true → ((c.get? g).getD []).Pairwise r) :
    (c.children keys).Pairwise fun a b =>
      compare a.parent b.parent = .lt ∨ a.parent = b.parent ∧ r a.term b.term := by
  rw [children, List.pairwise_flatMap]
  constructor
  · intro e member
    obtain ⟨g, k⟩ := e
    have live : keys.contains g = true := Table.contains_of_mem member
    rw [List.pairwise_map]
    exact (each g live).imp fun chosen => .inr ⟨rfl, chosen⟩
  · refine keys.ascending.imp ?_
    intro a b before x xChild y yChild
    obtain ⟨t, -, rfl⟩ := List.mem_map.1 xChild
    obtain ⟨u, -, rfl⟩ := List.mem_map.1 yChild
    exact .inl before

/-- No two children have the same parent and term when no term is chosen twice for a group. -/
theorem nodup_children {c : Choice} {keys : KeyMap}
    (each : ∀ g, keys.contains g = true → ((c.get? g).getD []).Nodup) :
    ((c.children keys).map Child.cell).Nodup := by
  rw [List.Nodup, List.pairwise_map]
  refine (pairwise_children keys each).imp ?_
  intro a b order same
  have sameTerm : a.term = b.term := congrArg Cell.term same
  have sameParent : a.parent = b.parent := congrArg Cell.group same
  rcases order with less | ⟨-, other⟩
  · exact Table.irrefl_lt b.parent (sameParent ▸ less)
  · exact other sameTerm

theorem size_add (c : Choice) (g : GroupId) (t : Term) : (c.add g t).size = c.size + 1 := by
  have general (l : List (GroupId × List Term)) :
      ((Table.place g (fun old => old.getD [] ++ [t]) l).map (·.2)).flatten.length =
        (l.map (·.2)).flatten.length + 1 := by
    induction l with
    | nil => rfl
    | cons x rest ih =>
      obtain ⟨g', terms⟩ := x
      simp only [Table.place]
      split
      · simp only [List.map_cons, List.flatten_cons, List.length_append, Option.getD_none]
        exact Nat.add_comm _ _
      · simp only [List.map_cons, List.flatten_cons, List.length_append, Option.getD_some]
        exact Nat.add_right_comm _ _ _
      · simp only [List.map_cons, List.flatten_cons, List.length_append, ih]
        omega
  exact general c.toList

/-- All given cells, by group. -/
def ofCells (cells : List Cell) : Choice := cells.foldl (fun c cell => c.add cell.group cell.term) .empty

theorem size_ofCells (cells : List Cell) : (ofCells cells).size = cells.length := by
  have general (cells : List Cell) (c : Choice) :
      (cells.foldl (fun c cell => c.add cell.group cell.term) c).size = c.size + cells.length := by
    induction cells generalizing c with
    | nil => rfl
    | cons cell rest ih =>
      rw [List.foldl_cons, ih, size_add, List.length_cons]
      omega
  have start : Choice.size .empty = 0 := rfl
  rw [ofCells, general, start, Nat.zero_add]

theorem getD_get?_ofCells (cells : List Cell) (g : GroupId) :
    ((ofCells cells).get? g).getD [] = (cells.filter (·.group = g)).map (·.term) := by
  rw [ofCells, Table.getD_get?_foldl_append (fun cell : Cell => some cell.group) (·.term)]
  · simp only [Option.some.injEq]
  · intro c cell
    rfl

end Choice

/-- The cells of one group among ascending ones are in the order of their terms. -/
theorem Cell.pairwise_term {cells : List Cell} (ascending : cells.Pairwise fun a b => compare a b = .lt)
    (g : GroupId) : (cells.filter (·.group = g)).Pairwise fun a b => compare a.term b.term = .lt := by
  refine (ascending.filter _).imp_of_mem ?_
  intro a b aHere bHere before
  have aGroup := of_decide_eq_true (List.mem_filter.1 aHere).2
  have bGroup := of_decide_eq_true (List.mem_filter.1 bHere).2
  rw [Cell.compare_eq, aGroup, bGroup, Std.ReflOrd.compare_self, Ordering.then_eq_lt] at before
  rcases before with less | ⟨-, less⟩
  · exact less
  · cases less

/-- The cell that an entry belongs to, among those in the groups of a key map. -/
def Entry.liveCell? (f : Field) (keys : KeyMap) (e : Entry) : Option Cell :=
  (e.doc.term? f).bind fun t => if keys.contains e.group then some ⟨t, e.group⟩ else none

namespace Session

theorem mem_keys_cells (s : Session) (f : Field) (keys : KeyMap) (c : Cell) :
    c ∈ (s.cells f keys).keys ↔
      keys.contains c.group ∧ ∃ e ∈ s.entries, e.doc.term? f = some c.term ∧ e.group = c.group := by
  have present : ((s.cells f keys).get? c).isSome ↔
      ((.empty : Table Cell Unit).get? c).isSome ∨ ∃ e ∈ s.entries, e.liveCell? f keys = some c := by
    rw [cells, Table.isSome_get?_foldl (Entry.liveCell? f keys) fun _ _ => ()]
    intro met e
    unfold Entry.liveCell?
    cases e.doc.term? f with
    | none => rfl
    | some t =>
      by_cases live : keys.contains e.group
      · simp [live, Table.insert]
      · simp [live]
  rw [Table.mem_keys_iff, ← Option.isSome_iff_exists]
  refine present.trans ?_
  simp only [Table.get?_empty, Option.isSome_none, Bool.false_eq_true, false_or, Entry.liveCell?,
    Option.bind_eq_some_iff]
  constructor
  · intro h
    obtain ⟨e, member, t, term, cell⟩ := h
    by_cases live : keys.contains e.group
    · rw [if_pos live] at cell
      cases cell
      exact ⟨live, e, member, term, rfl⟩
    · rw [if_neg live] at cell
      cases cell
  · intro h
    obtain ⟨live, e, member, term, group⟩ := h
    refine ⟨e, member, c.term, term, ?_⟩
    rw [group, if_pos live]

/-- The choice of all terms of a field in the groups of a key map. -/
def explosion (s : Session) (f : Field) (keys : KeyMap) : Choice := .ofCells (s.cells f keys).keys

theorem size_explosion (s : Session) (f : Field) (keys : KeyMap) :
    (s.explosion f keys).size = (s.cells f keys).keys.length :=
  Choice.size_ofCells _

theorem mem_children_explosion (s : Session) (f : Field) (keys : KeyMap) (child : Child) :
    child ∈ (s.explosion f keys).children keys ↔
      (∃ e ∈ s.entries, e.doc.term? f = some child.term ∧ e.group = child.parent) ∧
        ∃ k, keys.get? child.parent = some k ∧ child.key = k.child child.term := by
  have chosen : child.term ∈ ((s.explosion f keys).get? child.parent).getD [] ↔
      child.cell ∈ (s.cells f keys).keys := by
    rw [explosion, Choice.getD_get?_ofCells, List.mem_map]
    constructor
    · intro h
      obtain ⟨⟨t, g⟩, member, rfl⟩ := h
      obtain ⟨member, group⟩ := List.mem_filter.1 member
      cases of_decide_eq_true group
      exact member
    · intro member
      exact ⟨child.cell, List.mem_filter.2 ⟨member, decide_eq_true rfl⟩, rfl⟩
  rw [Choice.mem_children_iff]
  simp only [chosen, mem_keys_cells]
  constructor
  · intro h
    obtain ⟨k, parent, key, -, somebody⟩ := h
    exact ⟨somebody, k, parent, key⟩
  · intro h
    obtain ⟨somebody, k, parent, key⟩ := h
    refine ⟨k, parent, key, ?_, somebody⟩
    exact Table.contains_of_get? parent

/-- The terms of a group are chosen in their order. -/
theorem pairwise_terms_explosion (s : Session) (f : Field) (keys : KeyMap) (g : GroupId) :
    (((s.explosion f keys).get? g).getD []).Pairwise fun a b => compare a b = .lt := by
  rw [explosion, Choice.getD_get?_ofCells, List.pairwise_map]
  exact Cell.pairwise_term (s.cells f keys).keys_ascending g

theorem pairwise_explosion (s : Session) (f : Field) (keys : KeyMap) :
    ((s.explosion f keys).children keys).Pairwise fun a b =>
      compare a.parent b.parent = .lt ∨ a.parent = b.parent ∧ compare a.term b.term = .lt :=
  Choice.pairwise_children keys fun g _ => s.pairwise_terms_explosion f keys g

theorem distinct_explosion (s : Session) (f : Field) (keys : KeyMap) :
    (((s.explosion f keys).children keys).map Child.cell).Nodup :=
  Choice.nodup_children fun g _ => Table.nodup_of_ascending (s.pairwise_terms_explosion f keys g)

/-- The session whose documents have gone to numbered children. -/
def splitInto (f : Field) (cs : List Child) (s : Session) : Session :=
  { s with
    entries := s.entries.map (Entry.move f (Child.ids (cs.zipIdx 1)))
    groupCount := cs.length + 1 }

theorem entries_splitInto (f : Field) (cs : List Child) (s : Session) :
    (s.splitInto f cs).entries = s.entries.map (Entry.move f (Child.ids (cs.zipIdx 1))) := rfl

/-- Entries keep their places in a split. -/
theorem forall₂_splitInto_iff (f : Field) (cs : List Child) (s : Session) {R : Entry → Entry → Prop} :
    List.Forall₂ R s.entries (s.splitInto f cs).entries ↔
      ∀ e ∈ s.entries, R e (e.move f (Child.ids (cs.zipIdx 1))) := by
  rw [entries_splitInto, List.forall₂_map_right_iff, List.forall₂_same]

theorem on_split (f : Field) (keys : KeyMap) (choice : Choice) (s : Session) :
    (split f keys choice).on s =
      if s.groupLimit < choice.size + 1 then
        (.error (.groupLimitExceeded choice.size s.groupLimit), s)
      else
        (.ok (Child.keyMap ((choice.children keys).zipIdx 1)), s.splitInto f (choice.children keys)) := by
  simp only [split, Action.on_bind, Action.on_get]
  by_cases full : s.groupLimit < choice.size + 1
  · rw [if_pos full, if_pos full]
    rfl
  · rw [if_neg full, if_neg full]
    simp only [Action.on_bind, Action.on_set, Action.on_pure, splitInto, List.length_zipIdx]

end Session
end Rollup
