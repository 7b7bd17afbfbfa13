import Rollup.Proofs.Grouping.Partition
import Rollup.Proofs.Grouping.RowKeys
import Rollup.Proofs.Query.Columns

namespace Rollup
open Session

namespace Query

/-- The stages before the last one of a query that gets past them are field groupings. -/
theorem exists_stages_of_on_regroupAll {deadline : Deadline} {groupings : List Grouping}
    {keys children : KeyMap} {s t : Session}
    (regrouped : (regroupAll deadline groupings keys).on s = (.ok children, t)) :
    ∃ stages : List FieldGrouping, groupings = stages.map .field ∧
      (FieldGrouping.regroupChain stages keys).on s = (.ok children, t) := by
  induction groupings generalizing keys s with
  | nil => exact ⟨[], rfl, regrouped⟩
  | cons g rest ih =>
    rw [regroupAll] at regrouped
    obtain ⟨next, u, staged, regrouped⟩ := Action.on_bind_eq_ok_iff.1 regrouped
    obtain ⟨_, v, looked, later⟩ := Action.on_bind_eq_ok_iff.1 regrouped
    cases congrArg Prod.snd looked
    rw [Stage.on_beside_regroup] at staged
    obtain ⟨stages, rfl, chain⟩ := ih later
    cases g with
    | field f =>
      have first : (f.regroup keys).on s = (.ok next, u) := staged
      refine ⟨f :: stages, rfl, ?_⟩
      rw [FieldGrouping.regroupChain, List.foldlM_cons, Action.on_bind_ok first]
      exact chain
    | percentile p => cases staged
    | diff d => cases staged

/-- Pushing statistics moves no document. -/
theorem groups_of_on_pushAll {columns : List (String × Stat)} {refs : List StatRef} {s t : Session}
    (pushed : (pushAll columns).on s = (.ok refs, t)) :
    t.groupCount = s.groupCount ∧ ∀ e' ∈ t.entries, ∃ e ∈ s.entries, e'.group = e.group := by
  induction columns generalizing s refs with
  | nil =>
    cases pushed
    exact ⟨rfl, fun e member => ⟨e, member, rfl⟩⟩
  | cons column rest ih =>
    rw [pushAll] at pushed
    obtain ⟨ref, u, here, pushed⟩ := Action.on_bind_eq_ok_iff.1 pushed
    obtain ⟨others, v, later, pushed⟩ := Action.on_bind_eq_ok_iff.1 pushed
    cases pushed
    obtain ⟨-, entries, each, rfl⟩ := eq_loaded_of_on_push here
    obtain ⟨count, moved⟩ := ih later
    refine ⟨count, fun e' member => ?_⟩
    obtain ⟨e'', member'', same⟩ := moved e' member
    obtain ⟨e, eMember, values, -, rfl⟩ := exists_mem_of_forall₂ each member''
    exact ⟨e, eMember, same⟩

section Together
variable {s : Session} (inStep : s.InStep) (together : ∀ e ∈ s.entries, e.group = 1)
  (single : s.groupCount = 2)

include inStep together single in
/-- The key map that reaches the last stage of a query describes the groups by the stages before it. -/
theorem partitioned_of_on_regroupAll {columns : List (String × Stat)} {refs : List StatRef}
    {deadline : Deadline} {groupings : List Grouping} {keys : KeyMap} {u v : Session}
    (pushed : (pushAll columns).on s = (.ok refs, u))
    (regrouped : (regroupAll deadline groupings .initial).on u = (.ok keys, v)) :
    ∃ stages, groupings = stages.map .field ∧
      v.Partitioned (FieldGrouping.splitFields stages) keys ∧ v.InStep := by
  obtain ⟨count, moved⟩ := groups_of_on_pushAll pushed
  have stepped : u.InStep := by
    obtain ⟨widths, raised⟩ := raised_pushAll columns inStep
    rw [pushed] at raised
    exact raised.inStep inStep
  have start : ∀ e ∈ u.entries, e.group = 1 := by
    intro e member
    obtain ⟨e', member', same⟩ := moved e member
    exact same.trans (together e' member')
  obtain ⟨stages, same, chain⟩ := exists_stages_of_on_regroupAll regrouped
  obtain ⟨final, -, further⟩ := (Partitioned.initial start (count.trans single)).chain stepped chain
  exact ⟨stages, same, final, further⟩

include inStep together single in
theorem nodup_keys_of_on_run {q : Query} {deadline : Deadline} {t : Session} {table : ResultTable}
    (ran : (q.run deadline).on s = (.ok table, t)) : (table.rows.map (·.key)).Nodup := by
  obtain ⟨layout, refs, u, keys, v, -, -, pushed, regrouped, collected⟩ := course_of_on_run ran
  obtain ⟨stages, -, described, stepped⟩ :=
    partitioned_of_on_regroupAll inStep together single pushed regrouped
  cases last : q.groupings.getLast? with
  | none =>
    simp only [last] at collected
    obtain ⟨-, rfl, listed⟩ := collected
    rw [eq_map_of_ungroupedRows listed, List.map_map]
    exact described.nodup_values
  | some g =>
    simp only [last] at collected
    obtain ⟨listed, collected, assembled⟩ := collected
    rw [assemble_eq_ok_iff.1 assembled] at collected
    exact Grouping.nodup_keys_of_on_collect described.nodup_values collected

end Together

/-- The key of a share has one more term than those of the groups when a field is listed. -/
theorem length_key_of_share {share : Share} {keys : KeyMap} {n : Nat}
    (length : ∀ k ∈ keys.values, k.terms.length = n) {k : Key} (key : share.key? keys = some k) :
    k.terms.length = n + share.field?.toList.length := by
  have group (g : GroupId) (k : Key) (found : keys.get? g = some k) : k.terms.length = n :=
    length k (List.mem_map_of_mem ((keys.mem_toList_iff g k).2 found))
  cases share with
  | group id => exact group id k key
  | cell f c =>
    obtain ⟨parent, found, rfl⟩ := Option.map_eq_some_iff.1 key
    rw [Key.terms_child, List.length_append, group c.group parent found]
    rfl

/-- The key map describes the groups exactly, however many stages have regrouped since all documents were
together, and a document outside all groups stays there. So no two rows of a query have the same key, and a
key has a term for every field that was split by, and one more when the last grouping lists a field. -/
theorem partition_exact {s : Session} (inStep : s.InStep) (together : ∀ e ∈ s.entries, e.group = 1)
    (single : s.groupCount = 2) :
    (∀ stages keys t, (FieldGrouping.regroupChain stages .initial).on s = (.ok keys, t) →
      t.Partitioned (FieldGrouping.splitFields stages) keys ∧
      ∀ later children u, (FieldGrouping.regroupChain later keys).on t = (.ok children, u) →
        t.Onward u) ∧
    ∀ (q : Query) (settings : Settings) (table : ResultTable) (t : Session),
      (q.execute settings).on s = (.ok table, t) →
      (table.rows.map (·.key.terms)).Nodup ∧
      ∃ stages refs u keys v, q.groupings.dropLast = stages.map .field ∧
        (pushAll q.stats).on s = (.ok refs, u) ∧
        (regroupAll (.ofSettings settings) q.groupings.dropLast .initial).on u = (.ok keys, v) ∧
        v.Partitioned (FieldGrouping.splitFields stages) keys ∧
        ∀ row ∈ table.rows, row.key.terms.length =
          (FieldGrouping.splitFields stages).length + q.field?.toList.length := by
  refine ⟨fun stages keys t regrouped => ?_, fun q settings table t executed => ?_⟩
  · obtain ⟨described, -, stepped⟩ := (Partitioned.initial together single).chain inStep regrouped
    refine ⟨described, fun later children u further => ?_⟩
    exact (described.chain stepped further).2.1
  · obtain ⟨t', ran⟩ := exists_on_run_of_on_execute executed
    have distinct := nodup_keys_of_on_run inStep together single ran
    obtain ⟨-, refs, u, keys, v, pushed, regrouped, shown⟩ := shown_of_on_run ran
    obtain ⟨stages, groupings, described, -⟩ :=
      partitioned_of_on_regroupAll inStep together single pushed regrouped
    refine ⟨?_, stages, refs, u, keys, v, groupings, pushed, regrouped, described, fun row member => ?_⟩
    · have terms := distinct.map (f := Key.terms) fun _ _ => Key.terms_injective
      rw [List.map_map] at terms
      exact terms
    · obtain ⟨share, w, -, field, key, -⟩ := shown row member
      rw [← field]
      exact length_key_of_share described.length key

/-- Sales of three cities on two days, and one that no city is known of. -/
def stalls : Session :=
  .new 0 [⟨[("city", .text "a"), ("day", .int 1), ("sold", .int 5)]⟩,
    ⟨[("city", .text "b"), ("day", .int 1), ("sold", .int 4)]⟩,
    ⟨[("city", .text "a"), ("day", .text "2"), ("sold", .int 1)]⟩,
    ⟨[("city", .text "c"), ("day", .int 1), ("sold", .int 2)]⟩, ⟨[("day", .int 1)]⟩] .standard

/-- The two cities that sold most. -/
def bestCities : FieldGrouping := ⟨⟨"city", .text⟩, 2, .intField "sold", false, false⟩

def everyDay : FieldGrouping := ⟨⟨"day", .int⟩, 0, .count, false, false⟩

theorem partition_exact_of_stalls : stalls.InStep ∧ (∀ e ∈ stalls.entries, e.group = 1) ∧
    stalls.groupCount = 2 ∧
    (∃ keys t, (FieldGrouping.regroupChain [bestCities, { everyDay with noExplode := true }, everyDay]
        .initial).on stalls = (.ok keys, t) ∧
      t.groups = [1, 3, 2, 0, 0] ∧ t.Partitioned [bestCities.field, everyDay.field] keys) ∧
    ∃ table t, ((Query.mk [("receipts", .count)] [.field bestCities, .field everyDay]).execute
        .standard).on stalls = (.ok table, t) ∧
      table.rows.length = 3 ∧ (table.rows.map (·.key.terms)).Nodup ∧
      ∀ row ∈ table.rows, row.key.terms.length = 2 := by
  have inStep : stalls.InStep := ⟨rfl, by decide⟩
  have together : ∀ e ∈ stalls.entries, e.group = 1 := by decide
  obtain ⟨describes, separates⟩ := partition_exact inStep together rfl
  refine ⟨inStep, together, rfl, ?_, ?_⟩
  · let stages := [bestCities, { everyDay with noExplode := true }, everyDay]
    have succeeds : ((FieldGrouping.regroupChain stages .initial).on stalls).1.toBool = true := by
      decide +kernel
    have groups : ((FieldGrouping.regroupChain stages .initial).on stalls).2.groups = [1, 3, 2, 0, 0] := by
      decide +kernel
    have fields : FieldGrouping.splitFields stages = [bestCities.field, everyDay.field] := by decide
    rcases regrouped : (FieldGrouping.regroupChain stages .initial).on stalls with ⟨outcome, t⟩
    rw [regrouped] at succeeds groups
    cases outcome with
    | error e => cases succeeds
    | ok keys => exact ⟨keys, t, rfl, groups, fields ▸ (describes stages keys t regrouped).1⟩
  · let q : Query := ⟨[("receipts", .count)], [.field bestCities, .field everyDay]⟩
    have shown : ((q.execute .standard).on stalls).1.toOption.map (·.rows.length) = some 3 := by
      decide +kernel
    rcases executed : (q.execute .standard).on stalls with ⟨outcome, t⟩
    rw [executed] at shown
    cases outcome with
    | error e => cases shown
    | ok table =>
      obtain ⟨distinct, stages, -, -, -, -, groupings, -, -, -, length⟩ := separates q _ table t executed
      refine ⟨table, t, rfl, Option.some.inj shown, distinct, fun row member => ?_⟩
      have only : stages = [bestCities] := by
        apply List.map_injective_iff.2 fun _ _ => Grouping.field.inj
        exact groupings.symm
      rw [length row member, only]
      rfl

end Query
end Rollup
