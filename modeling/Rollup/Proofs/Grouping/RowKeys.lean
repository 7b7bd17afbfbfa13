import Rollup.Proofs.Grouping.Laziness
import Rollup.Proofs.Grouping.Rows

namespace Rollup
open FieldGrouping

theorem Key.child_injective (k : Key) : Function.Injective k.child := fun _ _ same => (Key.child.inj same).2

namespace Session
variable {keys : KeyMap}

/-- Rows that are listed record by record. -/
theorem nodup_keys_filterMap (distinct : keys.values.Nodup) (refs : List StatRef) {records : List Record}
    (cells : (records.map Record.cell).Nodup) :
    ((records.filterMap (row? keys refs)).map (·.key)).Nodup := by
  rw [List.Nodup, List.pairwise_map] at cells
  rw [List.Nodup, List.pairwise_map, List.pairwise_filterMap]
  refine cells.imp ?_
  intro a b other x aRow y bRow same
  obtain ⟨k, aFound, rfl⟩ := Option.map_eq_some_iff.1 aRow
  obtain ⟨l, bFound, rfl⟩ := Option.map_eq_some_iff.1 bRow
  obtain ⟨sameKey, sameTerm⟩ := Key.child.inj same
  have sameGroup : a.group = b.group := Table.key_unique distinct aFound (sameKey ▸ bFound)
  apply other
  rw [Record.cell, Record.cell, sameTerm, sameGroup]

end Session

/-- Extensions of distinct keys by distinct terms are distinct. -/
theorem Key.nodup_flatMap_child {entries : List (GroupId × Key)} {f : GroupId × Key → List Term}
    (distinct : (entries.map (·.2)).Nodup) (each : ∀ e ∈ entries, (f e).Nodup) :
    (entries.flatMap fun e => (f e).map e.2.child).Nodup := by
  rw [List.nodup_flatMap]
  constructor
  · intro e member
    exact (each e member).map e.2.child_injective
  · rw [List.Nodup, List.pairwise_map] at distinct
    refine distinct.imp ?_
    intro a b other k aMember bMember
    obtain ⟨t, -, rfl⟩ := List.mem_map.1 aMember
    obtain ⟨u, -, same⟩ := List.mem_map.1 bMember
    exact other (Key.child.inj same).1.symm

/-- Rows that are listed by rank. -/
theorem Selection.nodup_keys_rows {sel : Selection} (positive : sel.k ≠ 0)
    (distinct : sel.keys.values.Nodup) {records : List Record}
    (cells : (records.map Record.cell).Nodup) :
    ((sel.rows (records.foldl (fun board r => sel.offer r board) .empty)).map (·.key)).Nodup := by
  rw [keys_rows positive]
  refine Key.nodup_flatMap_child distinct fun e _ => ?_
  have offered : ((records.filter (·.group = e.1)).map (·.term)).Nodup := by
    rw [List.Nodup, List.pairwise_map] at cells ⊢
    refine (cells.filter _).imp_of_mem ?_
    intro a b aMember bMember other same
    have aGroup : a.group = e.1 := of_decide_eq_true (List.mem_filter.1 aMember).2
    have bGroup : b.group = e.1 := of_decide_eq_true (List.mem_filter.1 bMember).2
    apply other
    rw [Record.cell, Record.cell, same, aGroup, bGroup]
  have sorted := ((stableSort_perm sel.noLater (records.filter (·.group = e.1))).map
    (·.term)).nodup_iff.2 offered
  exact sorted.sublist ((List.take_sublist _ _).map _)

namespace FieldGrouping
variable {g : FieldGrouping} {keys : KeyMap} {refs : List StatRef} {deadline : Deadline} {s t : Session}

/-- Rows that are listed one at a time, and none of them a fault, are those of a whole stream. -/
theorem exists_records_of_listFrom {seen : Nat} {stream : Stream} {rows : List ResultRow}
    (listed : listFrom keys refs deadline seen stream = rows.map .ok) :
    ∃ records : List Record, stream = records.map .ok ∧ rows = records.filterMap (row? keys refs) := by
  obtain ⟨records, rest, whole, -, shown, ends⟩ := exists_records_untilFault keys refs deadline seen stream
  rw [listed, untilFault_map_ok] at shown ends
  cases ends
  exact ⟨records, whole.trans (List.append_nil _), shown⟩

theorem nodup_keys_of_on_collect (distinct : keys.values.Nodup) {rows : List ResultRow}
    (collected : (g.collect keys refs deadline).on s = (.ok (rows.map .ok), t)) :
    (rows.map (·.key)).Nodup := by
  unfold collect at collected
  by_cases empty : keys.isEmpty = true
  · rw [if_pos empty] at collected
    have nothing : ([] : List (Except Fault ResultRow)) = rows.map .ok :=
      Except.ok.inj (congrArg Prod.fst collected)
    rw [List.map_eq_nil_iff.1 nothing.symm]
    exact List.nodup_nil
  · rw [if_neg empty] at collected
    cases mode : g.mode with
    | topK k =>
      simp only [mode] at collected
      obtain ⟨rows', u, selected, collected⟩ := Action.on_bind_eq_ok_iff.1 collected
      cases Outcome.map_ok_injective (Except.ok.inj (congrArg Prod.fst collected))
      obtain ⟨ref, v, -, rfl⟩ := eq_rows_of_on_collectTopK selected
      exact Selection.nodup_keys_rows (topK_ne_zero mode) distinct (Session.nodup_cells _ _)
    | passthrough =>
      simp only [mode] at collected
      obtain ⟨records, whole, rfl⟩ :=
        exists_records_of_listFrom (Except.ok.inj (congrArg Prod.fst collected))
      rw [Session.eq_fieldRecords_of_stream whole]
      exact Session.nodup_keys_filterMap distinct refs (s.nodup_cells g.field)
    | explode =>
      simp only [mode] at collected
      rw [Action.on_bind_ok (Action.on_get _)] at collected
      obtain ⟨rows', u, folded, collected⟩ := Action.on_bind_eq_ok_iff.1 collected
      cases Outcome.map_ok_injective (Except.ok.inj (congrArg Prod.fst collected))
      obtain ⟨records, whole, rows_eq⟩ := Sink.exists_records_of_collecting (congrArg Prod.fst folded)
      rw [foldl_rows, List.append_nil] at rows_eq
      rw [rows_eq, List.reverse_reverse, Session.eq_fieldRecords_of_stream whole]
      exact Session.nodup_keys_filterMap distinct refs (s.nodup_cells g.field)

end FieldGrouping

theorem PercentileGrouping.nodup_keys_rows {keys : KeyMap} (distinct : keys.values.Nodup)
    (g : PercentileGrouping) (s : Session) (found : Found) (ordinary : List (List Float)) :
    ((g.rows s keys found ordinary).map (·.key)).Nodup := by
  rw [Table.values, List.Nodup, List.pairwise_map] at distinct
  rw [rows, List.Nodup, List.pairwise_map, List.pairwise_filterMap]
  refine distinct.imp ?_
  intro a b other x aRow y bRow
  obtain ⟨-, shown⟩ := Option.ite_none_right_eq_some.1 aRow
  obtain ⟨-, shown'⟩ := Option.ite_none_right_eq_some.1 bRow
  cases shown
  cases shown'
  exact other

/-- No two rows that a grouping yields have the same key when no two groups have. -/
theorem Grouping.nodup_keys_of_on_collect {g : Grouping} {keys : KeyMap} (distinct : keys.values.Nodup)
    {refs : List StatRef} {deadline : Deadline} {s t : Session} {rows : List ResultRow}
    (collected : (g.collect keys refs deadline).on s = (.ok (rows.map .ok), t)) :
    (rows.map (·.key)).Nodup := by
  unfold collect at collected
  rw [Action.on_bind_ok (Action.on_get _)] at collected
  obtain ⟨_, u, checked, collected⟩ := Action.on_bind_eq_ok_iff.1 collected
  cases congrArg Prod.snd ((Action.on_forM_ofExcept refs s.stack.requireValid s).symm.trans checked)
  cases g with
  | field f => exact f.nodup_keys_of_on_collect distinct collected
  | percentile p =>
    obtain ⟨countRef, v, found, ordinary, -, -, -, -, listed⟩ :=
      PercentileGrouping.on_collect_eq_ok_iff.1 collected
    rw [Outcome.map_ok_injective listed]
    exact p.nodup_keys_rows distinct _ found ordinary
  | diff d => cases collected

end Rollup
