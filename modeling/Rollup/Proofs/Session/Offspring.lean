import Rollup.Proofs.Session.Raised
import Rollup.Proofs.Session.Scores

namespace Rollup

namespace Session

/-- Children that a split by a field can make of the groups of a key map: each extends the key of its parent
by a term that some document of the parent has, and no two have the same parent and term. -/
structure Offspring (f : Field) (keys : KeyMap) (s : Session) (cs : List Child) : Prop where
  distinct : (cs.map Child.cell).Nodup
  parent : ∀ c ∈ cs, ∃ k, keys.get? c.parent = some k ∧ c.key = k.child c.term
  somebody : ∀ c ∈ cs, ∃ e ∈ s.entries, e.doc.term? f = some c.term ∧ e.group = c.parent

theorem offspring_explosion (f : Field) (keys : KeyMap) (s : Session) :
    s.Offspring f keys ((s.explosion f keys).children keys) where
  distinct := s.distinct_explosion f keys
  parent c member := ((s.mem_children_explosion f keys c).1 member).2
  somebody c member := ((s.mem_children_explosion f keys c).1 member).1

namespace Scored

theorem mem_best {k : Nat} {bottom : Bool} {terms : List Scored} {t : Term}
    (chosen : t ∈ Scored.best k bottom terms) : t ∈ terms.map (·.term) := by
  obtain ⟨a, kept, rfl⟩ := List.mem_map.1 chosen
  have member := (stableSort_perm _ terms).mem_iff.1 (List.mem_of_mem_take kept)
  exact List.mem_map_of_mem member

theorem nodup_best {terms : List Scored} (distinct : (terms.map (·.term)).Nodup) (k : Nat)
    (bottom : Bool) : (Scored.best k bottom terms).Nodup := by
  have sorted : ((stableSort (Scored.le bottom) terms).map (·.term)).Nodup :=
    ((stableSort_perm _ terms).map _).nodup_iff.2 distinct
  exact sorted.sublist ((List.take_sublist _ _).map _)

end Scored

/-- The best terms by whatever is read from the cells of a session. -/
theorem offspring_best (f : Field) (keys : KeyMap) (ref : StatRef) (k : Nat) (bottom : Bool)
    (s : Session) :
    s.Offspring f keys (Choice.children
      ((scores keys ref (s.cellTotals f)).map fun _ terms => Scored.best k bottom terms) keys) := by
  have terms {g : GroupId} (live : keys.contains g = true) :
      (((scores keys ref (s.cellTotals f)).get? g).getD []).map (·.term) =
        ((s.cellTotals f).keys.filter (·.group = g)).map (·.term) := by
    rw [getD_get?_scores live, Table.keys, List.filter_map, List.map_map, List.map_map]
    rfl
  refine ⟨?_, fun c member => ?_, fun c member => ?_⟩
  · apply Choice.nodup_children
    intro g live
    rw [getD_get?_map_best]
    apply Scored.nodup_best
    rw [terms live]
    apply Table.nodup_of_ascending
    rw [List.pairwise_map]
    exact Cell.pairwise_term (s.cellTotals f).keys_ascending g
  · obtain ⟨parent, found, key, -⟩ := (Choice.mem_children_iff _ keys c).1 member
    exact ⟨parent, found, key⟩
  · obtain ⟨parent, found, -, chosen⟩ := (Choice.mem_children_iff _ keys c).1 member
    have live : keys.contains c.parent = true := Table.contains_of_get? found
    rw [getD_get?_map_best] at chosen
    have listed := Scored.mem_best chosen
    rw [terms live, List.mem_map] at listed
    obtain ⟨⟨t, g⟩, cellMember, rfl⟩ := listed
    obtain ⟨present, same⟩ := List.mem_filter.1 cellMember
    obtain ⟨row, here⟩ := ((s.cellTotals f).mem_keys_iff _).1 present
    obtain ⟨⟨e, eMember, inCell⟩, -⟩ := (s.get?_cellTotals_eq_some_iff f _ row).1 here
    obtain ⟨term, group, -⟩ := (e.cell?_eq_some_iff f _).1 inCell
    exact ⟨e, eMember, term, group.trans (of_decide_eq_true same)⟩

/-- Values on top of the entries do not matter to the children. -/
theorem Offspring.of_loaded {f : Field} {keys : KeyMap} {s : Session} {stat : Stat} {entries : List Entry}
    (each : List.Forall₂ (Entry.Loaded stat.width) s.entries entries) {cs : List Child}
    (h : (s.loaded stat entries).Offspring f keys cs) : s.Offspring f keys cs where
  distinct := h.distinct
  parent := h.parent
  somebody c member := by
    obtain ⟨e', member', here⟩ := h.somebody c member
    obtain ⟨e, eMember, values, -, rfl⟩ := exists_mem_of_forall₂ each member'
    exact ⟨e, eMember, here⟩

section Split
variable {f : Field} {keys children : KeyMap} {s t : Session}

/-- A split that succeeds numbers the children of its choice. -/
theorem eq_splitInto_of_on_split {choice : Choice} (h : (split f keys choice).on s = (.ok children, t)) :
    children = Child.keyMap ((choice.children keys).zipIdx 1) ∧
      t = s.splitInto f (choice.children keys) := by
  rw [on_split] at h
  by_cases full : s.groupLimit < choice.size + 1
  · rw [if_pos full] at h
    cases h
  · rw [if_neg full] at h
    cases h
    exact ⟨rfl, rfl⟩

/-- A split, by all terms or by the best, makes one group for each of some offspring. The statistic that
terms are ranked by leaves nothing behind, except that later pushes get other numbers. -/
theorem exists_offspring (inStep : s.InStep)
    (h : (splitExplode f keys).on s = (.ok children, t) ∨
      ∃ k stat bottom, (splitTopK f keys k stat bottom).on s = (.ok children, t)) :
    ∃ cs n, s.Offspring f keys cs ∧ children = Child.keyMap (cs.zipIdx 1) ∧
      t = (s.restamped n).splitInto f cs := by
  rcases h with exploded | ⟨k, stat, bottom, ranked⟩
  · exact ⟨_, 0, s.offspring_explosion f keys, eq_splitInto_of_on_split exploded⟩
  · unfold splitTopK at ranked
    obtain ⟨ref, u, pushed, ranked⟩ := Action.on_bind_eq_ok_iff.1 ranked
    obtain ⟨-, entries, each, rfl⟩ := eq_loaded_of_on_push pushed
    rw [Action.on_bind_ok (Action.on_get _), Action.on_bind_ok (on_pop_loaded inStep.slots each)] at ranked
    obtain ⟨children_eq, t_eq⟩ := eq_splitInto_of_on_split ranked
    exact ⟨_, stat.width, (offspring_best f keys ref k bottom _).of_loaded each, children_eq, t_eq⟩

end Split

end Session

end Rollup
