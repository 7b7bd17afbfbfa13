import Rollup.Proofs.Grouping.Levels
import Rollup.Proofs.Query.Neutrality
import Rollup.Proofs.Session.Offspring

namespace Rollup

/-- The fields by which stages split, in their order; a stage that lists terms without groups does not. -/
def FieldGrouping.splitFields (stages : List FieldGrouping) : List Field :=
  (stages.filter (·.mode ≠ .passthrough)).map (·.field)

/-- Regroups by one stage after the other. -/
def FieldGrouping.regroupChain (stages : List FieldGrouping) (keys : KeyMap) : Action Session KeyMap :=
  stages.foldlM (fun keys g => g.regroup keys) keys

namespace Session

/-- The key map describes the groups that were made by splitting by fields. The groups are numbered without
gaps and have different keys, each with a term for every field; a document of a group has the terms of its
key, and a document outside all groups is in group zero. Once something was split no group is empty. -/
structure Partitioned (fields : List Field) (keys : KeyMap) (s : Session) : Prop where
  grouped : 0 < s.groupCount
  ids : keys.keys = List.range' 1 (s.groupCount - 1)
  distinct : (keys.values.map (·.terms)).Nodup
  length : ∀ k ∈ keys.values, k.terms.length = fields.length
  placed : ∀ e ∈ s.entries, e.group = 0 ∨ ∃ k, keys.get? e.group = some k
  tuple : ∀ e ∈ s.entries, ∀ k, keys.get? e.group = some k → e.doc.tuple? fields = some k.terms
  inhabited : fields ≠ [] → ∀ g k, keys.get? g = some k → ∃ e ∈ s.entries, e.group = g

/-- The documents of two sessions are the same, and those outside all groups have stayed there. -/
def Onward (s t : Session) : Prop :=
  List.Forall₂ (fun e e' : Entry => e'.toReading = e.toReading ∧ (e.group = 0 → e'.group = 0))
    s.entries t.entries

theorem Onward.refl (s : Session) : s.Onward s := List.forall₂_same.2 fun _ _ => ⟨rfl, id⟩

theorem Onward.trans {s t u : Session} (first : s.Onward t) (second : t.Onward u) : s.Onward u :=
  forall₂_comp (fun _ _ _ lower upper => ⟨upper.1.trans lower.1, upper.2 ∘ lower.2⟩) first second

namespace Partitioned
variable {fields : List Field} {keys children : KeyMap} {s t : Session}

/-- Before any split all documents are in the one group. -/
theorem initial (together : ∀ e ∈ s.entries, e.group = 1) (single : s.groupCount = 2) :
    s.Partitioned [] .initial where
  grouped := by simp [single]
  ids := by
    rw [single]
    rfl
  distinct := List.nodup_singleton _
  length k member := by
    rw [List.mem_singleton.1 member]
    rfl
  placed e member := by
    rw [together e member]
    exact .inr ⟨.root, rfl⟩
  tuple e member k found := by
    rw [together e member] at found
    cases found
    rfl
  inhabited split := absurd rfl split

theorem get?_zero (p : s.Partitioned fields keys) : keys.get? 0 = none := by
  rw [Option.eq_none_iff_forall_ne_some]
  intro k found
  have member := (keys.mem_keys_iff 0).2 ⟨k, found⟩
  rw [p.ids, List.mem_range'_1] at member
  omega

theorem nodup_values (p : s.Partitioned fields keys) : keys.values.Nodup := p.distinct.of_map

/-- What lies on top of a session and the numbers of later pushes do not matter. -/
theorem restamped (p : s.Partitioned fields keys) (n : Nat) : (s.restamped n).Partitioned fields keys :=
  ⟨p.grouped, p.ids, p.distinct, p.length, p.placed, p.tuple, p.inhabited⟩

section Split
variable {f : Field} {cs : List Child} (p : s.Partitioned fields keys) (made : s.Offspring f keys cs)

include p made in
/-- Children with the same key have the same parent and the same term. -/
theorem nodup_children : (cs.map (·.key.terms)).Nodup := by
  have distinct : cs.Nodup := made.distinct.of_map
  apply List.Nodup.map_on _ distinct
  intro a aMember b bMember same
  obtain ⟨k, aFound, aKey⟩ := made.parent a aMember
  obtain ⟨l, bFound, bKey⟩ := made.parent b bMember
  replace same := Key.terms_injective same
  rw [aKey, bKey, Key.child.injEq] at same
  have parents : a.parent = b.parent := Table.key_unique p.nodup_values aFound (same.1 ▸ bFound)
  apply List.inj_on_of_nodup_map made.distinct aMember bMember
  rw [Child.cell, Child.cell, same.2, parents]

include p made in
/-- Splitting adds the term that a document went by to the terms of its group. -/
theorem splitInto : (s.splitInto f cs).Partitioned (fields ++ [f]) (Child.keyMap (cs.zipIdx 1)) where
  grouped := Nat.succ_pos _
  ids := by
    rw [Table.keys, Child.toList_keyMap, List.map_map]
    exact List.zipIdx_map_snd 1 cs
  distinct := by
    rw [Child.values_keyMap, List.map_map]
    exact p.nodup_children made
  length k member := by
    rw [Child.values_keyMap] at member
    obtain ⟨c, cMember, rfl⟩ := List.mem_map.1 member
    obtain ⟨parent, found, key⟩ := made.parent c cMember
    have outer : parent ∈ keys.values := List.mem_map_of_mem ((keys.mem_toList_iff _ _).2 found)
    simp [key, p.length parent outer]
  placed e' member' := by
    obtain ⟨e, -, rfl⟩ := List.mem_map.1 member'
    rcases e.group_move_cases made.distinct f with outside | ⟨c, numbered⟩
    · exact .inl outside
    · exact .inr ⟨c.key, (Child.get?_keyMap_eq_some_iff cs _ _).2 ⟨c, numbered, rfl⟩⟩
  tuple e' member' k found := by
    obtain ⟨e, member, rfl⟩ := List.mem_map.1 member'
    obtain ⟨c, cMember, term, parent, rfl⟩ := (Entry.get?_keyMap_move made.distinct f e k).1 found
    obtain ⟨outer, outerFound, key⟩ := made.parent c cMember
    rw [parent] at outerFound
    refine (Document.tuple?_append_eq_some_iff fields f e.doc _).2 ⟨outer.terms, c.term, ?_, term, ?_⟩
    · exact p.tuple e member outer outerFound
    · simp [key]
  inhabited _ g k found := by
    obtain ⟨c, numbered, -⟩ := (Child.get?_keyMap_eq_some_iff cs g k).1 found
    obtain ⟨e, member, here⟩ := made.somebody c (List.fst_mem_of_mem_zipIdx numbered)
    exact ⟨_, List.mem_map_of_mem member, (Entry.group_move_eq_iff made.distinct numbered f e).2 here⟩

include p made in
/-- No child takes documents from outside all groups. -/
theorem onward_splitInto : s.Onward (s.splitInto f cs) := by
  refine (forall₂_splitInto_iff f cs s).2 fun e _ => ⟨rfl, fun outside => ?_⟩
  rcases e.group_move_cases made.distinct f with stays | ⟨c, numbered⟩
  · exact stays
  · obtain ⟨-, parent⟩ := (Entry.group_move_eq_iff made.distinct numbered f e).1 rfl
    obtain ⟨k, found, -⟩ := made.parent c (List.fst_mem_of_mem_zipIdx numbered)
    rw [← parent, outside, p.get?_zero] at found
    cases found

end Split

/-- Keeping the groups of the key map changes nothing: no document is anywhere else. -/
theorem on_keep (p : s.Partitioned fields keys) : (keep keys).on s = (.ok keys, s) := by
  have same : s.entries.map (fun e => if keys.contains e.group then e else { e with group := 0 }) =
      s.entries := by
    conv => rhs; rw [← List.map_id s.entries]
    apply List.map_congr_left
    intro e member
    rcases p.placed e member with outside | ⟨k, found⟩
    · simp [Table.contains, ← outside]
    · simp [Table.contains, found]
  show (Except.ok keys, { s with entries := s.entries.map _ }) = _
  rw [same]

/-- A stage that regroups adds its field to the description, unless it keeps the groups. -/
theorem regroup (p : s.Partitioned fields keys) (inStep : s.InStep) {g : FieldGrouping}
    (regrouped : (g.regroup keys).on s = (.ok children, t)) :
    t.Partitioned (fields ++ FieldGrouping.splitFields [g]) children ∧ s.Onward t := by
  have ofSplit (splits : g.mode ≠ .passthrough)
      (split : (splitExplode g.field keys).on s = (.ok children, t) ∨
        ∃ k stat bottom, (splitTopK g.field keys k stat bottom).on s = (.ok children, t)) :
      t.Partitioned (fields ++ FieldGrouping.splitFields [g]) children ∧ s.Onward t := by
    obtain ⟨cs, n, made, rfl, rfl⟩ := exists_offspring inStep split
    have field : FieldGrouping.splitFields [g] = [g.field] := by simp [FieldGrouping.splitFields, splits]
    rw [field]
    exact ⟨(p.splitInto made).restamped n, p.onward_splitInto made⟩
  unfold FieldGrouping.regroup at regrouped
  cases mode : g.mode with
  | topK k =>
    simp only [mode] at regrouped
    exact ofSplit (by simp [mode]) (.inr ⟨k, g.sortStat, g.bottom, regrouped⟩)
  | passthrough =>
    simp only [mode] at regrouped
    rw [p.on_keep] at regrouped
    cases regrouped
    have none : FieldGrouping.splitFields [g] = [] := by simp [FieldGrouping.splitFields, mode]
    rw [none, List.append_nil]
    exact ⟨p, .refl _⟩
  | explode =>
    simp only [mode] at regrouped
    exact ofSplit (by simp [mode]) (.inl regrouped)

/-- A chain of stages that regroup adds the fields of those that split. -/
theorem chain {stages : List FieldGrouping} (p : s.Partitioned fields keys) (inStep : s.InStep)
    (regrouped : (FieldGrouping.regroupChain stages keys).on s = (.ok children, t)) :
    t.Partitioned (fields ++ FieldGrouping.splitFields stages) children ∧ s.Onward t ∧ t.InStep := by
  induction stages generalizing fields keys s with
  | nil =>
    cases regrouped
    rw [FieldGrouping.splitFields, List.filter_nil, List.map_nil, List.append_nil]
    exact ⟨p, .refl _, inStep⟩
  | cons g rest ih =>
    rw [FieldGrouping.regroupChain, List.foldlM_cons] at regrouped
    obtain ⟨next, u, first, later⟩ := Action.on_bind_eq_ok_iff.1 regrouped
    obtain ⟨described, onward⟩ := p.regroup inStep first
    have kept := (Grouping.field g).keeps_regroup keys s inStep
    have outcome : ((Grouping.field g).regroup keys).on s = (.ok next, u) := first
    rw [outcome] at kept
    obtain ⟨final, further, stepped⟩ := ih described (kept.inStep inStep) later
    have fields_eq : FieldGrouping.splitFields (g :: rest) =
        FieldGrouping.splitFields [g] ++ FieldGrouping.splitFields rest := by
      rw [FieldGrouping.splitFields, FieldGrouping.splitFields, FieldGrouping.splitFields, ← List.map_append,
        ← List.filter_append]
      rfl
    rw [fields_eq, ← List.append_assoc]
    exact ⟨final, onward.trans further, stepped⟩

end Partitioned
end Session
end Rollup
