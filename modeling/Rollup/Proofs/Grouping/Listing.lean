import Rollup.Grouping.Collect
import Rollup.Proofs.Grouping.Levels
import Rollup.Proofs.Stream.Fold

namespace Rollup

namespace FieldGrouping

theorem foldl_rows (keys : KeyMap) (refs : List StatRef) (records : List Record)
    (rows : List ResultRow) :
    records.foldl (fun rows r => (row? keys refs r).toList ++ rows) rows =
      (records.filterMap (row? keys refs)).reverse ++ rows := by
  induction records generalizing rows with
  | nil => rfl
  | cons r rest ih =>
    rw [List.foldl_cons, ih]
    cases row : row? keys refs r with
    | none => simp [row]
    | some line => simp [row]

theorem filterMap_row?_of_isEmpty {keys : KeyMap} (empty : keys.isEmpty = true) (refs : List StatRef)
    (records : List Record) : records.filterMap (row? keys refs) = [] := by
  rw [List.filterMap_eq_nil_iff]
  intro r _
  have nobody : keys.toList = [] := List.isEmpty_iff.1 empty
  rw [row?, Table.get?, nobody]
  rfl

theorem on_collect_explode {g : FieldGrouping} (explode : g.mode = .explode) {s : Session}
    (sound : s.failAfter = none) {deadline : Deadline} (inTime : deadline.missed = false)
    (keys : KeyMap) (refs : List StatRef) :
    (g.collect keys refs deadline).on s =
      (.ok (((s.fieldRecords g.field).filterMap (row? keys refs)).map .ok), s) := by
  unfold collect
  by_cases empty : keys.isEmpty = true
  · rw [if_pos empty, filterMap_row?_of_isEmpty empty]
    rfl
  · rw [if_neg empty, explode]
    have listed : (rowSink keys refs).result deadline (s.stream [g.field]) [] =
        .ok ((s.fieldRecords g.field).filterMap (row? keys refs)).reverse := by
      rw [s.stream_of_failAfter sound, rowSink, Sink.result_collecting _ inTime, foldl_rows,
        List.append_nil]
    simp only [Action.on_bind, Action.on_get, Action.on_ofExcept, Action.on_pure, listed,
      List.reverse_reverse]

end FieldGrouping

/-- A grouping by a field looks at the handles first. -/
theorem Grouping.on_collect_field (g : FieldGrouping) (keys : KeyMap) (refs : List StatRef) (deadline : Deadline)
    (s : Session) :
    ((Grouping.field g).collect keys refs deadline).on s =
      match refs.forM s.stack.requireValid with
      | .error e => (.error e, s)
      | .ok _ => (g.collect keys refs deadline).on s := by
  have checked := Action.on_forM_ofExcept refs s.stack.requireValid s
  rw [collect, Action.on_bind_ok (Action.on_get s)]
  cases valid : refs.forM s.stack.requireValid with
  | error e =>
    rw [valid] at checked
    rw [Action.on_bind_error checked]
  | ok u =>
    rw [valid] at checked
    rw [Action.on_bind_ok checked]

namespace Session

/-- The tuples that are listed: the terms of a group's key, and a term in the group. -/
def listing (f : Field) (keys : KeyMap) (s : Session) : List (List Term × Term) :=
  (s.cellTotals f).toList.filterMap fun e => (keys.get? e.1.group).map fun k => (k.terms, e.1.term)

namespace Leveled
variable {fields : List Field} {keys : KeyMap} {s : Session}

theorem cell?_eq_some_iff (lv : s.Leveled fields keys) {e : Entry} (member : e ∈ s.entries)
    {c : Cell} {k : Key} (found : keys.get? c.group = some k) (f : Field) :
    e.cell? f = some c ↔ e.doc.tuple? (fields ++ [f]) = some (k.terms ++ [c.term]) := by
  rw [lv.tuple?_append_eq_some_iff member found]
  have live : c.group ≠ 0 := by
    intro zero
    rw [zero, lv.outside] at found
    cases found
  obtain ⟨t, g⟩ := c
  unfold Entry.cell?
  constructor
  · intro cell
    by_cases outside : e.group = 0
    · rw [if_pos outside] at cell
      cases cell
    · rw [if_neg outside, Option.map_eq_some_iff] at cell
      obtain ⟨t', term, same⟩ := cell
      cases same
      exact ⟨rfl, term⟩
  · intro h
    obtain ⟨same, term⟩ := h
    have inside : e.group ≠ 0 := by
      rw [same]
      exact live
    rw [if_neg inside, term, same]
    rfl

theorem mem_listing_iff (lv : s.Leveled fields keys) (f : Field) (ts : List Term) (t : Term) :
    (ts, t) ∈ s.listing f keys ↔
      ∃ r ∈ s.readings, r.doc.tuple? (fields ++ [f]) = some (ts ++ [t]) := by
  rw [listing, List.mem_filterMap]
  constructor
  · intro h
    obtain ⟨⟨c, row⟩, member, pair⟩ := h
    obtain ⟨k, found, same⟩ := Option.map_eq_some_iff.1 pair
    cases same
    have here := ((s.cellTotals f).mem_toList_iff c row).1 member
    obtain ⟨⟨e, eMember, cell⟩, -⟩ := (s.get?_cellTotals_eq_some_iff f c row).1 here
    exact ⟨e.toReading, List.mem_map_of_mem eMember, (lv.cell?_eq_some_iff eMember found f).1 cell⟩
  · intro h
    obtain ⟨r, rMember, tuple⟩ := h
    obtain ⟨e, member, rfl⟩ := List.mem_map.1 rMember
    obtain ⟨outer, t', outerHere, term, same⟩ := (Document.tuple?_append_eq_some_iff ..).1 tuple
    have parts := List.append_inj' same rfl
    have found : keys.get? e.group = some (Key.ofTerms ts) := by
      rw [lv.get?_group_eq_some_iff member, Key.terms_ofTerms, parts.1]
      exact outerHere
    have cell : e.cell? f = some ⟨t, e.group⟩ := by
      rw [lv.cell?_eq_some_iff member found, Key.terms_ofTerms]
      exact tuple
    have here := (s.get?_cellTotals_eq_some_iff f ⟨t, e.group⟩ _).2 ⟨⟨e, member, cell⟩, rfl⟩
    refine ⟨_, ((s.cellTotals f).mem_toList_iff _ _).2 here, ?_⟩
    rw [found, Option.map_some, Key.terms_ofTerms]

/-- Tuples are listed by their last term, and those with the same last term in their order. -/
theorem pairwise_listing (lv : s.Leveled fields keys) (f : Field) :
    (s.listing f keys).Pairwise fun a b =>
      compare a.2 b.2 = .lt ∨ a.2 = b.2 ∧ compare a.1 b.1 = .lt := by
  rw [listing, List.pairwise_filterMap]
  refine (s.cellTotals f).ascending.imp ?_
  intro a b before p aPair q bPair
  obtain ⟨k, aFound, rfl⟩ := Option.map_eq_some_iff.1 aPair
  obtain ⟨l, bFound, rfl⟩ := Option.map_eq_some_iff.1 bPair
  rw [Cell.compare_eq, Ordering.then_eq_lt] at before
  rcases before with terms | ⟨terms, groups⟩
  · exact .inl terms
  · have less : a.1.group < b.1.group := Nat.compare_eq_lt.1 groups
    exact .inr ⟨Std.LawfulEqOrd.eq_of_compare terms, lv.ordered _ _ _ _ aFound bFound less⟩

/-- The rows of the stream are those of the listed tuples, with the totals over their documents. -/
theorem rows_eq (lv : s.Leveled fields keys) (inStep : s.InStep) {refs : List StatRef}
    (live : ∀ ref ∈ refs, s.stack.isValid ref = true) (f : Field) :
    (s.fieldRecords f).filterMap (FieldGrouping.row? keys refs) =
      (s.listing f keys).map fun p =>
        ⟨Key.ofTerms (p.1 ++ [p.2]), refs.map (·.total
          (s.readings.filter fun r => r.doc.tuple? (fields ++ [f]) = some (p.1 ++ [p.2])))⟩ := by
  rw [fieldRecords, List.filterMap_map, listing, List.map_filterMap]
  refine List.filterMap_congr ?_
  intro e member
  obtain ⟨c, row⟩ := e
  have here := ((s.cellTotals f).mem_toList_iff c row).1 member
  cases found : keys.get? c.group with
  | none => simp [FieldGrouping.row?, found]
  | some k =>
    have documents : s.inCell f c =
        s.readings.filter fun r => r.doc.tuple? (fields ++ [f]) = some (k.terms ++ [c.term]) := by
      rw [inCell, readings, List.filter_map]
      refine congrArg (List.map _) (List.filter_congr ?_)
      intro e eMember
      exact decide_eq_decide.2 (lv.cell?_eq_some_iff eMember found f)
    have values : refs.map (·.read row) = refs.map (·.total
        (s.readings.filter fun r => r.doc.tuple? (fields ++ [f]) = some (k.terms ++ [c.term]))) := by
      refine List.map_congr_left ?_
      intro ref refMember
      rw [read_cellTotals inStep (live ref refMember) here, documents]
    simp [FieldGrouping.row?, found, values, Key.ofTerms_append]

end Leveled
end Session
end Rollup
