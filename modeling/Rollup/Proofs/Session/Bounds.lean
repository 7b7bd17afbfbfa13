import Rollup.Proofs.Session.Operations

namespace Rollup

namespace Session

/-- The values in a slot, in document order. -/
def column (depth : Nat) (s : Session) : List Int64 := s.entries.filterMap (·.slots[depth]?)

/-- The values last registered under a name, in document order. -/
def metricValues (name : String) (s : Session) : List Int64 :=
  s.entries.filterMap (·.metrics.lookup name)

/-- The shape of a session over a list of documents. -/
structure Regular (docs : List Document) (s : Session) : Prop where
  docs : s.entries.map (·.doc) = docs
  slots : ∀ e ∈ s.entries, e.slots.length = s.width
  metrics : ∃ names, ∀ e ∈ s.entries, e.metrics.map (·.1) = names
  groups : ∀ e ∈ s.entries, e.group < s.groupCount

namespace Regular
variable {docs : List Document} {s t : Session}

theorem new (id : Nat) (docs : List Document) (settings : Settings) :
    (Session.new id docs settings).Regular docs where
  docs := by
    rw [Session.new, List.map_map]
    exact List.map_id docs
  slots e member := by
    obtain ⟨d, -, rfl⟩ := List.mem_map.1 member
    rfl
  metrics := by
    refine ⟨[], ?_⟩
    intro e member
    obtain ⟨d, -, rfl⟩ := List.mem_map.1 member
    rfl
  groups e member := by
    obtain ⟨d, -, rfl⟩ := List.mem_map.1 member
    exact Nat.one_lt_two

/-- A step that does the same to the metrics of every document, and leads each to as many values and to a
group as the session says, keeps the shape. -/
theorem step (named : List String → List String)
    (each : List.Forall₂ (fun e e' : Entry => e'.doc = e.doc ∧
      e'.metrics.map (·.1) = named (e.metrics.map (·.1)) ∧
      (e.slots.length = s.width → e'.slots.length = t.width) ∧
      (e.group < s.groupCount → e'.group < t.groupCount)) s.entries t.entries)
    (regular : s.Regular docs) : t.Regular docs where
  docs := by
    rw [← regular.docs, eq_comm, ← List.forall₂_eq_eq_eq, List.forall₂_map_left_iff,
      List.forall₂_map_right_iff]
    exact each.imp fun _ _ here => here.1.symm
  slots e' member := by
    obtain ⟨e, before, -, -, full, -⟩ := exists_mem_of_forall₂ each member
    exact full (regular.slots e before)
  metrics := by
    obtain ⟨names, same⟩ := regular.metrics
    refine ⟨named names, ?_⟩
    intro e' member
    obtain ⟨e, before, -, here, -⟩ := exists_mem_of_forall₂ each member
    rw [here, same e before]
  groups e' member := by
    obtain ⟨e, before, -, -, -, counted⟩ := exists_mem_of_forall₂ each member
    exact counted (regular.groups e before)

theorem registerMetric (name : String) (values : List Int64) :
    Preserves (Regular docs) (registerMetric name values) := by
  intro s regular
  rw [on_registerMetric]
  by_cases fits : values.length = s.entries.length
  · rw [if_pos fits]
    exact regular.step (name :: ·) (forall₂_zipWith (fun _ _ _ => ⟨rfl, rfl, id, id⟩) fits)
  · rw [if_neg fits]
    exact regular

theorem stable (docs : List Document) : Stable (Regular docs) :=
  .of_retains
    (fun _ _ retained => step id (retained.entries.imp fun _ _ here =>
      ⟨here.1, congrArg (·.map (·.1)) here.2.1, here.2.2⟩))
    registerMetric
    (fun _ _ regular => ⟨regular.docs, regular.slots, regular.metrics, regular.groups⟩)

theorem after (id : Nat) (docs : List Document) (settings : Settings) (operations : List Operation) :
    ((Session.new id docs settings).after operations).Regular docs :=
  (stable docs).after operations (.new id docs settings)

theorem length_entries (regular : s.Regular docs) : s.entries.length = docs.length := by
  rw [← regular.docs, List.length_map]

theorem length_column (regular : s.Regular docs) (depth : Nat) :
    (s.column depth).length = if depth < s.width then docs.length else 0 := by
  by_cases within : depth < s.width
  · rw [if_pos within, column, ← regular.length_entries, List.filterMap_length_eq_length]
    intro e member
    have inside : depth < e.slots.length := (regular.slots e member).symm ▸ within
    rw [List.getElem?_eq_getElem inside]
    rfl
  · have none : s.column depth = [] := by
      rw [column, List.filterMap_eq_nil_iff]
      intro e member
      rw [List.getElem?_eq_none_iff, regular.slots e member]
      exact Nat.le_of_not_lt within
    rw [if_neg within, none]
    rfl

theorem length_metricValues (regular : s.Regular docs) (name : String) :
    s.metricValues name = [] ∨ (s.metricValues name).length = docs.length := by
  obtain ⟨names, same⟩ := regular.metrics
  have present (e : Entry) (member : e ∈ s.entries) :
      (e.metrics.lookup name).isSome = true ↔ name ∈ names := by
    rw [← same e member, List.lookup_isSome_iff, List.mem_map]
    exact ⟨fun ⟨m, inside, found⟩ => ⟨m, inside, (beq_iff_eq.1 found).symm⟩,
      fun ⟨m, inside, found⟩ => ⟨m, inside, beq_iff_eq.2 found.symm⟩⟩
  by_cases known : name ∈ names
  · right
    rw [metricValues, ← regular.length_entries, List.filterMap_length_eq_length]
    exact fun e member => (present e member).2 known
  · left
    rw [metricValues, List.filterMap_eq_nil_iff]
    intro e member
    exact Option.not_isSome_iff_eq_none.1 (mt (present e member).1 known)

/-- A look below the top finds a value unless it goes deeper than there are columns. -/
theorem fromTop?_eq_none_iff (regular : s.Regular docs) {e : Entry} (member : e ∈ s.entries)
    (offset : Nat) : e.fromTop? offset = none ↔ s.width ≤ offset := by
  rw [Reading.fromTop?, List.getElem?_eq_none_iff, List.length_reverse, regular.slots e member]

theorem row_cellTotals (regular : s.Regular docs) {f : Field} {c : Cell} {row : List Float}
    (found : (s.cellTotals f).get? c = some row) :
    row.length = s.width ∧ ∀ depth < s.width, row.getD depth 0 = Reading.sumAt depth (s.inCell f c) := by
  obtain ⟨length, sums⟩ := row_of_get?_cellTotals regular.slots found
  refine ⟨length, ?_⟩
  intro depth within
  rw [List.getD_eq_getElem?_getD, sums depth within, Option.getD_some]

end Regular

/-- Whatever was done to a session, with its bookkeeping or past it: there is one group per document, and
its number is below the count of groups; every column has a value for each document, and so has every metric
that has any. So a look at a column fails only where there is no such column, a term's row adds up all
columns over its documents, and the totals of a column count every document that is in a group. -/
theorem indices_in_range (id : Nat) (docs : List Document) (settings : Settings)
    (operations : List Operation) :
    let s := (new id docs settings).after operations
    s.entries.map (·.doc) = docs ∧ s.groups.length = docs.length ∧ (∀ g ∈ s.groups, g < s.groupCount) ∧
      (∀ depth, (s.column depth).length = if depth < s.width then docs.length else 0) ∧
      (∀ name, s.metricValues name = [] ∨ (s.metricValues name).length = docs.length) ∧
      (∀ e ∈ s.entries, ∀ offset, e.fromTop? offset = none ↔ s.width ≤ offset) ∧
      (∀ f c row, (s.cellTotals f).get? c = some row → row.length = s.width ∧
        ∀ depth < s.width, row.getD depth 0 = Reading.sumAt depth (s.inCell f c)) ∧
      ∀ depth < s.width, ∃ totals, s.slotTotals depth = .ok totals ∧ totals.length = s.groupCount ∧
        ∀ e ∈ s.entries, e.group ≠ 0 →
          totals[e.group]? = some (Reading.sumAt depth ((s.entries.filter (·.group = e.group)).map
            (·.toReading))) := by
  intro s
  have regular : s.Regular docs := .after id docs settings operations
  refine ⟨regular.docs, ?_, ?_, regular.length_column, regular.length_metricValues, ?_, ?_, ?_⟩
  · rw [groups, List.length_map, regular.length_entries]
  · exact List.forall_mem_map.2 regular.groups
  · exact fun e member => regular.fromTop?_eq_none_iff member
  · exact fun f c row => regular.row_cellTotals
  · intro depth within
    obtain ⟨totals, found, length, each⟩ := slotTotals_eq_ok within
    refine ⟨totals, found, length, ?_⟩
    intro e member live
    rw [each e.group (regular.groups e member), members_of_pos (Nat.pos_of_ne_zero live)]

/-- Two columns come without a handle, and a handle without a column; taking it away leaves one column and
no occupied slot. Then a look too deep, another pop of a handle, and a metric of the wrong length are
refused. -/
def loose : List Operation :=
  [.load [.field "x", .count] 2, .occupy .single, .call .pop, .load [.ref 1] 1, .release,
    .call (.registerMetric "m" [7, 8]), .call (.registerMetric "m" [1]), .call (.assign [3, 0])]

theorem indices_in_range_of_loose :
    let s := (new 0 [⟨[("x", .int 5)]⟩, ⟨[]⟩] .standard).after loose
    s.width = 1 ∧ s.stack.depth = 0 ∧ s.groups = [3, 0] ∧ (s.column 0).length = 2 ∧
      (s.column 1).length = 0 ∧ (s.metricValues "m").length = 2 ∧
      ∃ totals, s.slotTotals 0 = .ok totals ∧ totals.length = 4 ∧ totals[3]? = some 5 := by
  intro s
  obtain ⟨-, -, -, columns, metrics, -, -, totalled⟩ :=
    indices_in_range 0 [⟨[("x", .int 5)]⟩, ⟨[]⟩] .standard loose
  have width : s.width = 1 := by decide +kernel
  have some : s.metricValues "m" ≠ [] := by decide +kernel
  obtain ⟨totals, found, length, each⟩ := totalled 0 (width.symm ▸ Nat.one_pos)
  refine ⟨width, by decide +kernel, by decide +kernel, ?_, ?_, (metrics "m").resolve_left some, totals,
    found, ?_, ?_⟩
  · exact (columns 0).trans (if_pos (width.symm ▸ Nat.one_pos))
  · exact (columns 1).trans (if_neg (width.symm ▸ Nat.lt_irrefl 1))
  · rw [length]
    decide +kernel
  · have first : (⟨⟨⟨[("x", .int 5)]⟩, [5], [("m", 7)]⟩, 3⟩ : Entry) ∈ s.entries := by decide +kernel
    rw [each _ first (by decide)]
    decide +kernel

end Session
end Rollup
