import Rollup.Proofs.Session.Bounds

namespace Rollup

/-- A cell comes before another by its term, or by its group where the terms are the same. -/
theorem Cell.compare_eq_lt_iff (a b : Cell) :
    compare a b = .lt ↔ compare a.term b.term = .lt ∨ a.term = b.term ∧ a.group < b.group := by
  rw [compare_eq, Ordering.then_eq_lt, Std.LawfulEqOrd.compare_eq_iff_eq, Nat.compare_eq_lt]

namespace Session

/-- The documents of a group that have a term in a field, in document order. -/
def holders (f : Field) (t : Term) (g : GroupId) (s : Session) : List Reading :=
  (s.entries.filter fun e => e.group = g ∧ e.doc.term? f = some t).map (·.toReading)

/-- What the term stream owes to one field: records under its name, in strictly ascending order by term and
then by group; one for a term and a group exactly if the group counts and one of its documents has the term;
with a total for every column, the sum over the documents of the group that have the term. -/
structure Segment (s : Session) (f : Field) (records : List Record) : Prop where
  field : ∀ r ∈ records, r.field = f.name
  kind : ∀ r ∈ records, f.view.Yields r.term
  ascending : records.Pairwise fun a b =>
    compare a.term b.term = .lt ∨ a.term = b.term ∧ a.group < b.group
  present : ∀ t g, (∃ r ∈ records, r.term = t ∧ r.group = g) ↔
    g ≠ 0 ∧ ∃ e ∈ s.entries, e.group = g ∧ e.doc.term? f = some t
  columns : ∀ r ∈ records, r.stats.length = s.width
  sums : ∀ r ∈ records, ∀ depth < s.width,
    r.stats[depth]? = some (Reading.sumAt depth (s.holders f r.term r.group))

/-- The documents of a cell in a group that counts are those of the group with the term. -/
theorem inCell_eq_holders (s : Session) (f : Field) {c : Cell} (live : c.group ≠ 0) :
    s.inCell f c = s.holders f c.term c.group := by
  rw [inCell, holders]
  congr 1
  apply List.filter_congr
  intro e _
  exact decide_eq_decide.2 ((e.cell?_eq_some_iff f c).trans
    ⟨fun h => ⟨h.2.1, h.1⟩, fun h => ⟨h.2, h.1, live⟩⟩)

/-- The records that a stream has for a field are its segment, if every document has a value in each
column. -/
theorem segment_fieldRecords {s : Session} (full : ∀ e ∈ s.entries, e.slots.length = s.width) (f : Field) :
    s.Segment f (s.fieldRecords f) where
  field r member := by
    obtain ⟨entry, -, rfl⟩ := List.mem_map.1 member
    rfl
  kind _ member := yields_of_mem_fieldRecords member
  ascending := by
    have cells := (s.cellTotals f).keys_ascending
    rw [← map_cell_fieldRecords, List.pairwise_map] at cells
    exact cells.imp fun before => (Cell.compare_eq_lt_iff _ _).1 before
  present t g := by
    rw [← s.mem_map_cell_fieldRecords f ⟨t, g⟩, List.mem_map]
    simp only [Record.cell, Cell.mk.injEq]
  columns r member := (row_of_get?_cellTotals full (get?_cellTotals_of_mem_fieldRecords member)).1
  sums r member depth within := by
    obtain ⟨live, -⟩ := (s.mem_map_cell_fieldRecords f r.cell).1 (List.mem_map_of_mem member)
    obtain ⟨-, sums⟩ := row_of_get?_cellTotals full (get?_cellTotals_of_mem_fieldRecords member)
    have documents := s.inCell_eq_holders f live
    exact (sums depth within).trans (congrArg (fun rs => some (Reading.sumAt depth rs)) documents)

/-- The term stream of any session whose documents have a value in each column, as they do after any
operations: the segments of the given fields in their order. A planned break lets so many records through,
or all there are, and ends the stream with a fault that names the first field. -/
theorem stream_of_segments {s : Session} (full : ∀ e ∈ s.entries, e.slots.length = s.width)
    (fields : List Field) :
    ∃ segments, List.Forall₂ s.Segment fields segments ∧
      (s.failAfter = none → s.stream fields = segments.flatten.map .ok) ∧
      ∀ n, s.failAfter = some n →
        s.stream fields = (segments.flatten.take n).map .ok ++
          [.error (.streamAborted ((fields.head?.map (·.name)).getD "")
            s!"stream interrupted after {n} records")] := by
  refine ⟨fields.map s.fieldRecords, ?_, ?_, ?_⟩
  · rw [List.forall₂_map_right_iff, List.forall₂_same]
    intro f _
    exact segment_fieldRecords full f
  · intro sound
    rw [stream, sound, List.flatMap_def]
  · intro n planned
    rw [stream, planned, List.flatMap_def]

/-- Three spellings of two integers, a document in no group and one without a term; two statistics are
pushed, and streams break after three records. -/
def spellings : Session :=
  (new 0 [⟨[("x", .int 7)]⟩, ⟨[("x", .text " 7 ")]⟩, ⟨[("x", .text "2"), ("y", .int 5)]⟩,
    ⟨[("x", .int 7), ("y", .int 3)]⟩, ⟨[("x", .int 7)]⟩, ⟨[]⟩] .standard).after
      [.call (.push .count .count), .call (.push (.intField "y") (.intField "y")),
        .call (.assign [2, 2, 2, 1, 0, 1]), .call (.breakAfter (some 3))]

theorem stream_of_segments_of_spellings :
    (∀ e ∈ spellings.entries, e.slots.length = spellings.width) ∧ spellings.failAfter = some 3 ∧
    spellings.stream [⟨"x", .int⟩, ⟨"x", .text⟩] = [.ok ⟨"x", .int 2, 2, [1, 5]⟩,
      .ok ⟨"x", .int 7, 1, [1, 3]⟩, .ok ⟨"x", .int 7, 2, [2, 0]⟩,
      .error (.streamAborted "x" "stream interrupted after 3 records")] ∧
    ∃ integers texts : List Record, spellings.Segment ⟨"x", .int⟩ integers ∧
      spellings.Segment ⟨"x", .text⟩ texts ∧ (integers ++ texts).take 3 =
        [⟨"x", .int 2, 2, [1, 5]⟩, ⟨"x", .int 7, 1, [1, 3]⟩, ⟨"x", .int 7, 2, [2, 0]⟩] := by
  have full : ∀ e ∈ spellings.entries, e.slots.length = spellings.width :=
    (Regular.after 0 _ .standard _).slots
  have planned : spellings.failAfter = some 3 := by decide +kernel
  have shown : spellings.stream [⟨"x", .int⟩, ⟨"x", .text⟩] = [.ok ⟨"x", .int 2, 2, [1, 5]⟩,
      .ok ⟨"x", .int 7, 1, [1, 3]⟩, .ok ⟨"x", .int 7, 2, [2, 0]⟩,
      .error (.streamAborted "x" "stream interrupted after 3 records")] := by decide +kernel
  obtain ⟨segments, each, -, broken⟩ := stream_of_segments full [⟨"x", .int⟩, ⟨"x", .text⟩]
  obtain ⟨integers, others, here, later, rfl⟩ := List.forall₂_cons_left_iff.1 each
  obtain ⟨texts, nothing, here', last, rfl⟩ := List.forall₂_cons_left_iff.1 later
  cases last
  have joined : [integers, texts].flatten = integers ++ texts := by simp
  have cut := (broken 3 planned).symm.trans shown
  rw [joined] at cut
  exact ⟨full, planned, shown, integers, texts, here, here',
    Outcome.map_ok_injective (List.append_inj' cut rfl).1⟩

end Session
end Rollup
