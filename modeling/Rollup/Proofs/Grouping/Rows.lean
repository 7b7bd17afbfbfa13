import Rollup.Proofs.Grouping.Listing
import Rollup.Proofs.Grouping.PercentileRows
import Rollup.Proofs.Grouping.TopK

namespace Rollup
open Number.Binary64

/-- The documents that a row is about: those of a group, or those of a cell of the field that is listed. -/
inductive Share where
  | group (id : GroupId)
  | cell (f : Field) (c : Cell)

namespace Share

def id : Share → GroupId
  | group id => id
  | cell _ c => c.group

def field? : Share → Option Field
  | group _ => none
  | cell f _ => some f

def key? (keys : KeyMap) : Share → Option Key
  | group id => keys.get? id
  | cell _ c => (keys.get? c.group).map (·.child c.term)

/-- What a handle reads for a share. For a cell it reads the totals that the stream has for it. -/
def value (share : Share) (s : Session) (ref : StatRef) : Float :=
  match share with
  | group id => s.groupValue id ref
  | cell f c => ref.read (((s.cellTotals f).get? c).getD [])

def contains : Share → Entry → Bool
  | group id, e => e.group = id
  | cell f c, e => e.cell? f = some c

/-- The session counts the share, or has no document in it. -/
def Present (s : Session) : Share → Prop
  | group id => 0 < id ∧ (id < s.groupCount ∨ ∀ e ∈ s.entries, e.group ≠ id)
  | cell _ _ => True

theorem present_group {s : Session} (counted : ∀ e ∈ s.entries, e.group < s.groupCount) {id : GroupId}
    (positive : 0 < id) : (Share.group id).Present s := by
  refine ⟨positive, ?_⟩
  by_cases inRange : id < s.groupCount
  · exact .inl inRange
  · exact .inr fun e member same => inRange (same ▸ counted e member)

/-- Over no documents every handle totals zero. -/
theorem total_nil (ref : StatRef) : ref.total [] = 0 := by
  cases ref with
  | single slot => rfl
  | aggregate op left right =>
    have zero : op.combine 0 0 = 0 := by
      cases op <;> decide +kernel
    exact zero

/-- Where columns and stack are in step, a live handle reads the total over the documents of the share. -/
theorem value_of_present {share : Share} {s : Session} (inStep : s.InStep) (present : share.Present s)
    {ref : StatRef} (live : s.stack.isValid ref = true) :
    share.value s ref = ref.total ((s.entries.filter share.contains).map (·.toReading)) := by
  cases share with
  | group id =>
    obtain ⟨positive, counted | empty⟩ := present
    · exact (if_pos counted).trans (congrArg ref.total (Session.members_of_pos positive))
    · have nobody : s.entries.filter (·.group = id) = [] :=
        List.filter_eq_nil_iff.2 fun e member => by simpa using empty e member
      have members : s.members id = [] := by
        rw [Session.members_of_pos positive, nobody]
        rfl
      show s.groupValue id ref = ref.total ((s.entries.filter (·.group = id)).map (·.toReading))
      rw [Session.groupValue, members, nobody, List.map_nil, total_nil, ite_self]
  | cell f c =>
    show ref.read (((s.cellTotals f).get? c).getD []) = ref.total (s.inCell f c)
    cases found : (s.cellTotals f).get? c with
    | some row => exact Session.read_cellTotals inStep live found
    | none =>
      have nobody : s.inCell f c = [] := by
        rw [Session.get?_cellTotals] at found
        by_cases empty : (s.entries.filter fun e => e.cell? f = some c) = []
        · rw [Session.inCell, empty]
          rfl
        · rw [if_neg empty] at found
          cases found
      rw [nobody, total_nil]
      cases ref with
      | single slot => rfl
      | aggregate op left right => exact total_nil (.aggregate op left right)

end Share

namespace Session
variable {s : Session} {refs : List StatRef} {keys : KeyMap} {f : Field} {r : Record} {row : ResultRow}

/-- The row of a record is that of its cell. -/
theorem row_of_mem_fieldRecords (member : r ∈ s.fieldRecords f)
    (listed : FieldGrouping.row? keys refs r = some row) :
    (Share.cell f ⟨r.term, r.group⟩).key? keys = some row.key ∧
      row.values = refs.map ((Share.cell f ⟨r.term, r.group⟩).value s) := by
  obtain ⟨parent, found, rfl⟩ := Option.map_eq_some_iff.1 listed
  refine ⟨?_, List.map_congr_left fun ref _ => ?_⟩
  · show (keys.get? r.group).map (·.child r.term) = _
    rw [found]
    rfl
  · have here : (s.cellTotals f).get? ⟨r.term, r.group⟩ = some r.stats :=
      get?_cellTotals_of_mem_fieldRecords member
    rw [Share.value, here]
    rfl

end Session

/-- A row of a selection is that of a record. -/
theorem Selection.exists_record_of_mem_rows {sel : Selection} (positive : sel.k ≠ 0)
    {records : List Record} {row : ResultRow}
    (member : row ∈ sel.rows (records.foldl (fun board r => sel.offer r board) .empty)) :
    ∃ r ∈ records, FieldGrouping.row? sel.keys sel.statRefs r = some row := by
  rw [rows_foldl positive] at member
  obtain ⟨⟨group, parent⟩, entry, listed⟩ := List.mem_flatMap.1 member
  obtain ⟨r, kept, rfl⟩ := List.mem_map.1 listed
  have sorted := (stableSort_perm _ _).mem_iff.1 (List.mem_of_mem_take kept)
  obtain ⟨rMember, same⟩ := List.mem_filter.1 sorted
  refine ⟨r, rMember, ?_⟩
  rw [FieldGrouping.row?, of_decide_eq_true same, (sel.keys.mem_toList_iff group parent).1 entry]
  rfl

namespace FieldGrouping
variable {g : FieldGrouping} {keys : KeyMap} {refs : List StatRef} {deadline : Deadline}
  {s t : Session}

/-- A row that is listed one at a time is that of a record of the stream. -/
theorem exists_record_of_mem_listFrom {seen : Nat} {stream : Stream} {row : ResultRow}
    (member : .ok row ∈ listFrom keys refs deadline seen stream) :
    ∃ r, .ok r ∈ stream ∧ row? keys refs r = some row := by
  induction stream generalizing seen with
  | nil => cases member
  | cons item rest ih =>
    have later {seen : Nat} (member : .ok row ∈ listFrom keys refs deadline seen rest) :
        ∃ r, .ok r ∈ item :: rest ∧ row? keys refs r = some row := by
      obtain ⟨r, rMember, listed⟩ := ih member
      exact ⟨r, List.mem_cons_of_mem item rMember, listed⟩
    unfold listFrom at member
    split at member
    · exact later ((List.mem_cons.1 member).resolve_left fun same => by cases same)
    · exact later ((List.mem_cons.1 member).resolve_left fun same => by cases same)
    next r _ =>
      cases listed : row? keys refs r with
      | none =>
        simp only [listed] at member
        exact later member
      | some first =>
        simp only [listed] at member
        rcases List.mem_cons.1 member with same | member
        · cases same
          exact ⟨r, List.mem_cons_self, listed⟩
        · exact later member

/-- A listing by rank pushes the sort statistic, reads the stream and pops again. -/
theorem on_collectTopK_eq_ok_iff {k : Nat} {rows : List ResultRow} :
    (g.collectTopK k keys refs deadline).on s = (.ok rows, t) ↔
      ∃ ref u board, (Session.push g.sortStat).on s = (.ok ref, u) ∧
        (Selection.mk k g.bottom ref refs keys).sink.result deadline (u.stream [g.field]) .empty =
          .ok board ∧
        Session.pop.on u = (.ok (), t) ∧ rows = (Selection.mk k g.bottom ref refs keys).rows board := by
  rw [collectTopK_eq, Session.on_measure_eq_ok_iff]
  refine exists_congr fun ref => exists_congr fun u => ?_
  rw [ranked, Outcome.map_eq_ok_iff]
  constructor
  · intro h
    obtain ⟨pushed, ⟨board, filled, rfl⟩, popped⟩ := h
    exact ⟨board, pushed, filled, popped, rfl⟩
  · intro h
    obtain ⟨board, pushed, filled, popped, rfl⟩ := h
    exact ⟨pushed, ⟨board, filled, rfl⟩, popped⟩

/-- A listing by rank goes through the records of the session with the sort statistic on top. -/
theorem eq_rows_of_on_collectTopK {k : Nat} {rows : List ResultRow}
    (collected : (g.collectTopK k keys refs deadline).on s = (.ok rows, t)) :
    ∃ ref u, (Session.push g.sortStat).on s = (.ok ref, u) ∧
      rows = (Selection.mk k g.bottom ref refs keys).rows ((u.fieldRecords g.field).foldl
        (fun board r => (Selection.mk k g.bottom ref refs keys).offer r board) .empty) := by
  obtain ⟨ref, u, board, pushed, filled, -, rfl⟩ := on_collectTopK_eq_ok_iff.1 collected
  refine ⟨ref, u, pushed, ?_⟩
  obtain ⟨records, whole, rfl⟩ := Sink.exists_records_of_collecting filled
  rw [Session.eq_fieldRecords_of_stream whole]

/-- The session in which the values of the rows are read: a ranking has its sort statistic on top by then. -/
def ReadsIn (g : FieldGrouping) (s t : Session) : Prop :=
  match g.mode with
  | .topK _ => ∃ ref, (Session.push g.sortStat).on s = (.ok ref, t)
  | _ => t = s

/-- Each row that a field grouping lists is about a cell of its field. -/
theorem exists_cell_of_on_collect {listed : List (Except Fault ResultRow)}
    (collected : (g.collect keys refs deadline).on s = (.ok listed, t)) {row : ResultRow}
    (member : .ok row ∈ listed) : ∃ (c : Cell) (u : Session), g.ReadsIn s u ∧
      (Share.cell g.field c).key? keys = some row.key ∧
      row.values = refs.map ((Share.cell g.field c).value u) := by
  unfold collect at collected
  unfold ReadsIn
  by_cases empty : keys.isEmpty = true
  · rw [if_pos empty] at collected
    cases collected
    cases member
  · rw [if_neg empty] at collected
    cases mode : g.mode with
    | topK k =>
      simp only [mode] at collected
      obtain ⟨rows, u, selected, collected⟩ := Action.on_bind_eq_ok_iff.1 collected
      cases collected
      obtain ⟨row', rowMember, same⟩ := List.mem_map.1 member
      cases same
      obtain ⟨ref, v, pushed, rfl⟩ := eq_rows_of_on_collectTopK selected
      obtain ⟨r, rMember, shown⟩ := Selection.exists_record_of_mem_rows (topK_ne_zero mode) rowMember
      exact ⟨_, v, ⟨ref, pushed⟩, Session.row_of_mem_fieldRecords rMember shown⟩
    | passthrough =>
      simp only [mode] at collected
      cases collected
      obtain ⟨r, streamed, shown⟩ := exists_record_of_mem_listFrom member
      exact ⟨_, s, rfl, Session.row_of_mem_fieldRecords (Session.mem_fieldRecords_of_stream streamed) shown⟩
    | explode =>
      simp only [mode] at collected
      rw [Action.on_bind_ok (Action.on_get _)] at collected
      obtain ⟨rows, u, folded, collected⟩ := Action.on_bind_eq_ok_iff.1 collected
      cases collected
      obtain ⟨row', rowMember, same⟩ := List.mem_map.1 member
      cases same
      obtain ⟨records, whole, rows_eq⟩ :=
        Sink.exists_records_of_collecting (congrArg Prod.fst folded)
      rw [Session.eq_fieldRecords_of_stream whole, foldl_rows, List.append_nil] at rows_eq
      rw [rows_eq, List.reverse_reverse] at rowMember
      obtain ⟨r, rMember, shown⟩ := List.mem_filterMap.1 rowMember
      exact ⟨_, s, rfl, Session.row_of_mem_fieldRecords rMember shown⟩

end FieldGrouping

namespace Grouping

/-- The field whose terms the rows are listed by. -/
def field? : Grouping → Option Field
  | field g => some g.field
  | _ => none

/-- The queries whose percentiles the rows show. -/
def queries : Grouping → List PercentileQuery
  | percentile g => g.queries
  | _ => []

/-- The percentile that the rows of a group show for a query. -/
def shownPercentile (s : Session) (group : GroupId) (q : PercentileQuery) : Grouping → Float
  | percentile g => g.percentile s group q
  | _ => 0

/-- The session in which the values of the rows are read. A percentile grouping has taken its count statistic off
again by then. -/
def ReadsIn (s t : Session) : Grouping → Prop
  | field g => g.ReadsIn s t
  | percentile g => ∃ ref u, (Session.push g.countStat).on s = (.ok ref, u) ∧ Session.pop.on u = (.ok (), t)
  | diff _ => False

/-- In step, values are read where nothing but what the grouping has pushed lies above the session. -/
theorem ReadsIn.loaded {g : Grouping} {s t : Session} (reads : g.ReadsIn s t) (inStep : s.InStep) :
    t.InStep ∧ (∃ n, List.Forall₂ (Entry.Loaded n) s.entries t.entries) ∧
      ∀ ref, s.stack.isValid ref = true → t.stack.isValid ref = true := by
  have above {stat : Stat} {ref : StatRef} {u : Session} (pushed : (Session.push stat).on s = (.ok ref, u)) :
      ∃ entries, List.Forall₂ (Entry.Loaded stat.width) s.entries entries ∧ u = s.loaded stat entries :=
    (Session.eq_loaded_of_on_push pushed).2
  cases g with
  | field f =>
    cases mode : f.mode with
    | topK k =>
      simp only [ReadsIn, FieldGrouping.ReadsIn, mode] at reads
      obtain ⟨ref, pushed⟩ := reads
      obtain ⟨entries, each, rfl⟩ := above pushed
      exact ⟨(Session.raised_loaded each).inStep inStep, ⟨_, each⟩,
        fun ref live => StatStack.isValid_push_of_isValid live f.sortStat.shape⟩
    | passthrough =>
      simp only [ReadsIn, FieldGrouping.ReadsIn, mode] at reads
      subst reads
      exact ⟨inStep, ⟨0, Entry.forall₂_loaded_zero _⟩, fun _ => id⟩
    | explode =>
      simp only [ReadsIn, FieldGrouping.ReadsIn, mode] at reads
      subst reads
      exact ⟨inStep, ⟨0, Entry.forall₂_loaded_zero _⟩, fun _ => id⟩
  | percentile p =>
    obtain ⟨ref, u, pushed, popped⟩ := reads
    obtain ⟨entries, each, rfl⟩ := above pushed
    rw [Session.on_pop_loaded inStep.slots each] at popped
    cases popped
    exact ⟨inStep.restamped _, ⟨0, Entry.forall₂_loaded_zero _⟩,
      fun ref live => (s.stack.isValid_advanced _ ref).trans live⟩
  | diff d => cases reads

/-- Each row that a grouping yields has the key of a share of the documents, and in its cells what the handles
read for the share, beside the percentiles of the group. -/
theorem shown_of_on_collect {g : Grouping} {keys : KeyMap} {refs : List StatRef} {deadline : Deadline}
    {s t : Session} (distinct : (g.queries.map (·.position)).Nodup)
    (within : ∀ q ∈ g.queries, q.position < refs.length + g.queries.length)
    {listed : List (Except Fault ResultRow)}
    (collected : (g.collect keys refs deadline).on s = (.ok listed, t)) {row : ResultRow}
    (member : .ok row ∈ listed) : ∃ (share : Share) (u : Session), g.ReadsIn s u ∧ share.field? = g.field? ∧
      share.key? keys = some row.key ∧ share.Present u ∧
      LaidOut (g.queries.map fun q => (q.position, g.shownPercentile s share.id q))
        (refs.map (share.value u)) row.values := by
  unfold collect at collected
  rw [Action.on_bind_ok (Action.on_get _)] at collected
  obtain ⟨_, u, checked, collected⟩ := Action.on_bind_eq_ok_iff.1 collected
  cases congrArg Prod.snd ((Action.on_forM_ofExcept refs s.stack.requireValid s).symm.trans checked)
  cases g with
  | field f =>
    obtain ⟨c, u, reads, key, values⟩ := f.exists_cell_of_on_collect collected member
    exact ⟨.cell f.field c, u, reads, rfl, key, trivial, laidOut_nil_iff.2 values⟩
  | percentile p =>
    obtain ⟨countRef, u, rows, pushed, popped, rfl, each⟩ :=
      PercentileGrouping.laidOut_of_on_collect distinct within collected
    obtain ⟨row', rowMember, same⟩ := List.mem_map.1 member
    cases same
    obtain ⟨⟨id, key⟩, entry, shown, laid⟩ := exists_mem_of_forall₂ each rowMember
    obtain ⟨live, positive, inRange, -⟩ := Session.mem_listed_iff.1 entry
    refine ⟨.group id, t, ⟨countRef, u, pushed, popped⟩, rfl, ?_, ⟨positive, .inl inRange⟩, laid⟩
    rw [shown]
    exact (keys.mem_toList_iff id key).1 live
  | diff d => cases collected

end Grouping
end Rollup
