import Rollup.Proofs.Session.Push
import Rollup.Proofs.Table
import Rollup.Session.Totals

namespace Rollup

/-- The sum of integers as numbers, in order. -/
def sum (values : List Int64) : Float := values.foldl (fun t v => t + Number.Binary64.ofInt64 v) 0

/-- The sum of one slot over documents. -/
def Reading.sumAt (depth : Nat) (rs : List Reading) : Float := sum (rs.map (·.slots.getD depth 0))

/-- The sums of all slots over entries. -/
def Entry.sums (width : Nat) (es : List Entry) : List Float :=
  es.foldl (fun totals e => totals.zipWith (· + ·) e.numbers) (List.replicate width 0)

/-- What the documents of a session offer to statistics. -/
def Session.readings (s : Session) : List Reading := s.entries.map (·.toReading)

namespace StatRef

/-- The value of a pushed statistic for a group of documents. -/
def total (rs : List Reading) : StatRef → Float
  | single slot => Reading.sumAt slot.depth rs
  | aggregate op left right => op.combine (Reading.sumAt left.depth rs) (Reading.sumAt right.depth rs)

/-- Whether the slots of a handle are among the lowest. -/
def Below (width : Nat) : StatRef → Prop
  | single slot => slot.depth < width
  | aggregate _ left right => left.depth < width ∧ right.depth < width

end StatRef

/-- Whether a term is of the kind that a view yields. -/
def View.Yields : View → Term → Prop
  | int, t => ∃ v, t = .int v
  | text, t => ∃ v, t = .text v

theorem View.yields_of_read {v : View} {t u : Term} (taken : v.read t = some u) : v.Yields u := by
  cases v with
  | int =>
    obtain ⟨i, -, rfl⟩ := Option.map_eq_some_iff.1 taken
    exact ⟨i, rfl⟩
  | text =>
    cases t with
    | int i => cases taken
    | text s =>
      cases taken
      exact ⟨s, rfl⟩

theorem Document.yields_of_term? {f : Field} {d : Document} {t : Term} (held : d.term? f = some t) :
    f.view.Yields t := by
  obtain ⟨u, -, taken⟩ := Option.bind_eq_some_iff.1 held
  exact View.yields_of_read taken

/-- The cell that a record tells of. -/
def Record.cell (r : Record) : Cell := ⟨r.term, r.group⟩

namespace Entry

theorem cell?_eq_some_iff (f : Field) (e : Entry) (c : Cell) :
    e.cell? f = some c ↔ e.doc.term? f = some c.term ∧ e.group = c.group ∧ c.group ≠ 0 := by
  obtain ⟨t, g⟩ := c
  unfold cell?
  by_cases outside : e.group = 0
  · simp only [outside, if_true]
    constructor
    · intro h
      cases h
    · intro h
      obtain ⟨-, same, inside⟩ := h
      exact absurd same.symm inside
  · simp only [outside, if_false, Option.map_eq_some_iff, Cell.mk.injEq]
    constructor
    · intro h
      obtain ⟨t', term, rfl, rfl⟩ := h
      exact ⟨term, rfl, outside⟩
    · intro h
      obtain ⟨term, same, -⟩ := h
      exact ⟨t, term, rfl, same⟩

theorem getD_numbers (e : Entry) {depth : Nat} (within : depth < e.slots.length) :
    e.numbers[depth]? = some (Number.Binary64.ofInt64 (e.slots.getD depth 0)) := by
  rw [numbers, List.getElem?_map, List.getD_eq_getElem?_getD, List.getElem?_eq_getElem within]
  rfl

theorem length_sums {width : Nat} {es : List Entry} (full : ∀ e ∈ es, e.slots.length = width) :
    (sums width es).length = width := by
  have general (start : List Float) (enough : start.length = width) :
      (es.foldl (fun totals e => totals.zipWith (· + ·) e.numbers) start).length = width := by
    induction es generalizing start with
    | nil => exact enough
    | cons e rest ih =>
      refine ih (fun e' member => full e' (List.mem_cons_of_mem e member)) _ ?_
      rw [List.length_zipWith, enough, numbers, List.length_map, full e List.mem_cons_self, Nat.min_self]
  exact general _ List.length_replicate

/-- Each position of the sums is the sum at that position. -/
theorem getElem?_sums {width depth : Nat} (within : depth < width) {es : List Entry}
    (full : ∀ e ∈ es, e.slots.length = width) :
    (sums width es)[depth]? = some (Reading.sumAt depth (es.map (·.toReading))) := by
  have general (es : List Entry) (full : ∀ e ∈ es, e.slots.length = width) (start : List Float)
      (x : Float) (here : start[depth]? = some x) :
      (es.foldl (fun totals e => totals.zipWith (· + ·) e.numbers) start)[depth]? =
        some ((es.map (·.slots.getD depth 0)).foldl
          (fun t v => t + Number.Binary64.ofInt64 v) x) := by
    induction es generalizing start x with
    | nil => exact here
    | cons e rest ih =>
      have enough : depth < e.slots.length := by
        rw [full e List.mem_cons_self]
        exact within
      refine ih (fun e' member => full e' (List.mem_cons_of_mem e member)) _ _ ?_
      rw [List.getElem?_zipWith, here, e.getD_numbers enough]
  have zero : (List.replicate width (0 : Float))[depth]? = some 0 := by
    rw [List.getElem?_replicate, if_pos within]
  rw [sums, general es full _ 0 zero, Reading.sumAt, List.map_map]
  rfl

theorem getD_sums {width depth : Nat} (within : depth < width) {es : List Entry}
    (full : ∀ e ∈ es, e.slots.length = width) :
    (sums width es).getD depth 0 = Reading.sumAt depth (es.map (·.toReading)) := by
  rw [List.getD_eq_getElem?_getD, getElem?_sums within full, Option.getD_some]

end Entry

theorem StatRef.read_sums {width : Nat} {es : List Entry} (full : ∀ e ∈ es, e.slots.length = width)
    {ref : StatRef} (below : ref.Below width) :
    ref.read (Entry.sums width es) = ref.total (es.map (·.toReading)) := by
  cases ref with
  | single slot =>
    rw [read, total, Entry.getD_sums below full]
  | aggregate op left right =>
    rw [read, total, Entry.getD_sums below.1 full, Entry.getD_sums below.2 full]

theorem StatStack.isValid_of_requireValid {s : StatStack} {ref : StatRef}
    (checked : s.requireValid ref = .ok ()) : s.isValid ref = true := by
  by_contra stale
  rw [requireValid, if_neg stale] at checked
  cases checked

/-- A live handle has its slots below the top of the stack. -/
theorem StatStack.below_of_isValid {s : StatStack} {ref : StatRef} (live : s.isValid ref = true) :
    ref.Below s.depth := by
  have slotBelow (slot : SlotRef) (here : s.slotIsLive slot = true) : slot.depth < s.depth := by
    rw [slotIsLive, Bool.and_eq_true, beq_iff_eq, beq_iff_eq] at here
    exact (List.getElem?_eq_some_iff.1 here.2).1
  cases ref with
  | single slot => exact slotBelow slot live
  | aggregate op left right =>
    rw [isValid, Bool.and_eq_true] at live
    exact ⟨slotBelow left live.1, slotBelow right live.2⟩

namespace Session

theorem get?_cellTotals (s : Session) (f : Field) (c : Cell) :
    (s.cellTotals f).get? c =
      if (s.entries.filter fun e => e.cell? f = some c) = [] then none
      else some (Entry.sums s.width (s.entries.filter fun e => e.cell? f = some c)) := by
  rw [cellTotals, Table.get?_foldl (Entry.cell? f) fun (e : Entry) old =>
    (old.getD (List.replicate s.width 0)).zipWith (· + ·) e.numbers]
  · exact Table.foldl_getD (fun (row : List Float) (e : Entry) => row.zipWith (· + ·) e.numbers)
      (List.replicate s.width 0) _ none
  · intro totals e
    unfold addEntry
    cases e.cell? f with
    | none => rfl
    | some cell => rfl

/-- A cell has a row exactly when some document is in it. -/
theorem get?_cellTotals_eq_some_iff (s : Session) (f : Field) (c : Cell) (row : List Float) :
    (s.cellTotals f).get? c = some row ↔
      (∃ e ∈ s.entries, e.cell? f = some c) ∧
        row = Entry.sums s.width (s.entries.filter fun e => e.cell? f = some c) := by
  rw [get?_cellTotals]
  by_cases nobody : (s.entries.filter fun e => e.cell? f = some c) = []
  · rw [if_pos nobody]
    simp only [List.filter_eq_nil_iff, decide_eq_true_eq] at nobody
    constructor
    · intro h
      cases h
    · intro h
      obtain ⟨⟨e, member, inCell⟩, -⟩ := h
      exact absurd inCell (nobody e member)
  · rw [if_neg nobody, Option.some.injEq, eq_comm]
    obtain ⟨e, member⟩ := List.exists_mem_of_ne_nil _ nobody
    obtain ⟨member, inCell⟩ := List.mem_filter.1 member
    have somebody : ∃ e ∈ s.entries, e.cell? f = some c := ⟨e, member, of_decide_eq_true inCell⟩
    exact ⟨fun h => ⟨somebody, h⟩, fun h => h.2⟩

/-- What the documents of a cell offer to statistics. -/
def inCell (f : Field) (c : Cell) (s : Session) : List Reading :=
  (s.entries.filter fun e => e.cell? f = some c).map (·.toReading)

/-- The row of a cell has a total for every column, the sum over the documents in the cell. -/
theorem row_of_get?_cellTotals {s : Session} (full : ∀ e ∈ s.entries, e.slots.length = s.width) {f : Field}
    {c : Cell} {row : List Float} (found : (s.cellTotals f).get? c = some row) :
    row.length = s.width ∧ ∀ depth < s.width, row[depth]? = some (Reading.sumAt depth (s.inCell f c)) := by
  obtain ⟨-, sums⟩ := (s.get?_cellTotals_eq_some_iff f c row).1 found
  have filled : ∀ e ∈ s.entries.filter fun e => e.cell? f = some c, e.slots.length = s.width :=
    fun e member => full e (List.mem_of_mem_filter member)
  rw [sums]
  exact ⟨Entry.length_sums filled, fun depth within => Entry.getElem?_sums within filled⟩

/-- A live handle reads from the row of a cell its total over the documents in it. -/
theorem read_cellTotals {s : Session} (inStep : s.InStep) {ref : StatRef}
    (live : s.stack.isValid ref = true) {f : Field} {c : Cell} {row : List Float}
    (found : (s.cellTotals f).get? c = some row) : ref.read row = ref.total (s.inCell f c) := by
  obtain ⟨-, sums⟩ := (s.get?_cellTotals_eq_some_iff f c row).1 found
  have below : ref.Below s.width := inStep.width ▸ StatStack.below_of_isValid live
  have full : ∀ e ∈ s.entries.filter fun e => e.cell? f = some c, e.slots.length = s.width := by
    intro e member
    exact inStep.slots e (List.mem_of_mem_filter member)
  rw [sums, StatRef.read_sums full below]
  rfl

theorem map_cell_fieldRecords (f : Field) (s : Session) :
    (s.fieldRecords f).map Record.cell = (s.cellTotals f).keys := by
  rw [fieldRecords, List.map_map]
  rfl

theorem nodup_cells (f : Field) (s : Session) : ((s.fieldRecords f).map Record.cell).Nodup := by
  rw [map_cell_fieldRecords]
  exact (s.cellTotals f).nodup_keys

/-- There is a record for a cell exactly when some document is in it. -/
theorem mem_map_cell_fieldRecords (s : Session) (f : Field) (c : Cell) :
    c ∈ (s.fieldRecords f).map Record.cell ↔
      c.group ≠ 0 ∧ ∃ e ∈ s.entries, e.group = c.group ∧ e.doc.term? f = some c.term := by
  rw [map_cell_fieldRecords, Table.mem_keys_iff]
  simp only [get?_cellTotals_eq_some_iff, exists_and_left, exists_eq, and_true, Entry.cell?_eq_some_iff]
  constructor
  · intro h
    obtain ⟨e, member, term, group, live⟩ := h
    exact ⟨live, e, member, group, term⟩
  · intro h
    obtain ⟨live, e, member, group, term⟩ := h
    exact ⟨e, member, term, group, live⟩

/-- A stream has only terms of the kind that the field's view yields. -/
theorem yields_of_mem_fieldRecords {s : Session} {f : Field} {r : Record} (member : r ∈ s.fieldRecords f) :
    f.view.Yields r.term := by
  obtain ⟨-, e, -, -, term⟩ := (s.mem_map_cell_fieldRecords f r.cell).1 (List.mem_map_of_mem member)
  exact Document.yields_of_term? term

/-- A record has the totals of its cell. -/
theorem get?_cellTotals_of_mem_fieldRecords {s : Session} {f : Field} {r : Record}
    (member : r ∈ s.fieldRecords f) : (s.cellTotals f).get? r.cell = some r.stats := by
  obtain ⟨⟨c, row⟩, entry, rfl⟩ := List.mem_map.1 member
  exact ((s.cellTotals f).mem_toList_iff c row).1 entry

theorem stream_of_failAfter {s : Session} (sound : s.failAfter = none) (f : Field) :
    s.stream [f] = (s.fieldRecords f).map .ok := by
  rw [stream, sound]
  simp

theorem mem_fieldRecords_of_stream {s : Session} {f : Field} {r : Record}
    (member : .ok r ∈ s.stream [f]) : r ∈ s.fieldRecords f := by
  rw [stream] at member
  simp only [List.flatMap_cons, List.flatMap_nil, List.append_nil] at member
  cases planned : s.failAfter with
  | none =>
    simp only [planned] at member
    obtain ⟨r', member', same⟩ := List.mem_map.1 member
    cases same
    exact member'
  | some n =>
    simp only [planned] at member
    rcases List.mem_append.1 member with front | last
    · obtain ⟨r', member', same⟩ := List.mem_map.1 front
      cases same
      exact List.mem_of_mem_take member'
    · cases List.mem_singleton.1 last

/-- A planned break shows in every stream. -/
theorem failAfter_of_stream {s : Session} {fields : List Field} {records : List Record}
    (whole : s.stream fields = records.map .ok) : s.failAfter = none := by
  cases planned : s.failAfter with
  | none => rfl
  | some n =>
    have broken : ∃ e, .error e ∈ s.stream fields := by
      rw [stream]
      simp only [planned]
      exact ⟨_, List.mem_append_right _ List.mem_cons_self⟩
    obtain ⟨e, member⟩ := broken
    rw [whole] at member
    obtain ⟨r, -, same⟩ := List.mem_map.1 member
    cases same

/-- A stream that no fault ends has all records of its field. -/
theorem eq_fieldRecords_of_stream {s : Session} {f : Field} {records : List Record}
    (whole : s.stream [f] = records.map .ok) : records = s.fieldRecords f := by
  rw [stream_of_failAfter (failAfter_of_stream whole)] at whole
  exact (Outcome.map_ok_injective whole).symm

theorem length_foldl_addToGroup (depth : Nat) (es : List Entry) (totals : List Float) :
    (es.foldl (addToGroup depth) totals).length = totals.length := by
  induction es generalizing totals with
  | nil => rfl
  | cons e rest ih =>
    rw [List.foldl_cons, ih, addToGroup]
    by_cases outside : e.group = 0
    · rw [if_pos outside]
    · rw [if_neg outside, List.length_modify]

theorem getElem?_foldl_addToGroup (depth : Nat) (es : List Entry) (totals : List Float) {g : GroupId}
    (live : g ≠ 0) :
    (es.foldl (addToGroup depth) totals)[g]? =
      totals[g]?.map fun x => ((es.filter (·.group = g)).map (·.slots.getD depth 0)).foldl
        (fun t v => t + Number.Binary64.ofInt64 v) x := by
  induction es generalizing totals with
  | nil => simp
  | cons e rest ih =>
    rw [List.foldl_cons, ih, addToGroup, List.filter_cons]
    by_cases here : e.group = g
    · have counted : e.group ≠ 0 := here ▸ live
      rw [if_neg counted, if_pos (decide_eq_true here), List.getElem?_modify]
      cases totals[g]? with
      | none => rfl
      | some x => simp [here]
    · rw [if_neg (mt of_decide_eq_true here)]
      by_cases outside : e.group = 0
      · rw [if_pos outside]
      · rw [if_neg outside, List.getElem?_modify]
        simp [here]

theorem getElem?_zero_foldl_addToGroup (depth : Nat) (es : List Entry) (totals : List Float) :
    (es.foldl (addToGroup depth) totals)[0]? = totals[0]? := by
  induction es generalizing totals with
  | nil => rfl
  | cons e rest ih =>
    rw [List.foldl_cons, ih, addToGroup]
    by_cases outside : e.group = 0
    · rw [if_pos outside]
    · rw [if_neg outside, List.getElem?_modify]
      simp [outside]

/-- The documents that count for a group; group zero has none. -/
def members (s : Session) (g : GroupId) : List Reading :=
  if g = 0 then [] else (s.entries.filter (·.group = g)).map (·.toReading)

theorem members_of_pos {s : Session} {g : GroupId} (positive : 0 < g) :
    s.members g = (s.entries.filter (·.group = g)).map (·.toReading) :=
  if_neg (Nat.ne_of_gt positive)

/-- The total of a slot for a group is the sum over its documents. -/
theorem slotTotals_eq_ok {s : Session} {depth : Nat} (within : depth < s.width) :
    ∃ totals, s.slotTotals depth = .ok totals ∧ totals.length = s.groupCount ∧
      ∀ g < s.groupCount, totals[g]? = some (Reading.sumAt depth (s.members g)) := by
  refine ⟨_, if_pos within, ?_, ?_⟩
  · rw [length_foldl_addToGroup, List.length_replicate]
  · intro g inRange
    have start : (List.replicate s.groupCount (0 : Float))[g]? = some 0 := by
      rw [List.getElem?_replicate, if_pos inRange]
    by_cases outside : g = 0
    · subst outside
      rw [getElem?_zero_foldl_addToGroup, start]
      rfl
    · rw [getElem?_foldl_addToGroup depth s.entries _ outside, start, members, if_neg outside,
        Reading.sumAt, List.map_map]
      rfl

theorem within_of_slotTotals {s : Session} {depth : Nat} {totals : List Float}
    (found : s.slotTotals depth = .ok totals) : depth < s.width := by
  by_contra beyond
  rw [slotTotals, if_neg beyond] at found
  cases found

/-- A live handle whose slots have columns has a value for every group: what it reads from the sums over the
group's documents. -/
theorem groupStats_eq_ok_of_below {s : Session} {ref : StatRef} (live : s.stack.isValid ref = true)
    (below : ref.Below s.width) : ∃ totals, s.groupStats ref = .ok totals ∧ totals.length = s.groupCount ∧
      ∀ g < s.groupCount, totals[g]? = some (ref.total (s.members g)) := by
  have checked : s.stack.requireValid ref = .ok () := if_pos live
  unfold groupStats
  rw [checked]
  cases ref with
  | single slot => exact slotTotals_eq_ok (s := s) below
  | aggregate op left right =>
    obtain ⟨lefts, leftFound, leftLength, leftEach⟩ := slotTotals_eq_ok (s := s) below.1
    obtain ⟨rights, rightFound, rightLength, rightEach⟩ := slotTotals_eq_ok (s := s) below.2
    refine ⟨lefts.zipWith op.combine rights, ?_, ?_, fun g inRange => ?_⟩
    · simp only [leftFound, rightFound]
      rfl
    · rw [List.length_zipWith, leftLength, rightLength, Nat.min_self]
    · rw [List.getElem?_zipWith, leftEach g inRange, rightEach g inRange]
      rfl

theorem groupStats_eq_ok {s : Session} (inStep : s.InStep) {ref : StatRef}
    (live : s.stack.isValid ref = true) :
    ∃ totals, s.groupStats ref = .ok totals ∧ totals.length = s.groupCount ∧
      ∀ g < s.groupCount, totals[g]? = some (ref.total (s.members g)) :=
  groupStats_eq_ok_of_below live (inStep.width ▸ StatStack.below_of_isValid live)

/-- Values are there only for a live handle whose slots have columns. -/
theorem live_of_groupStats {s : Session} {ref : StatRef} {totals : List Float}
    (found : s.groupStats ref = .ok totals) : s.stack.isValid ref = true ∧ ref.Below s.width := by
  unfold groupStats at found
  obtain ⟨checked, found⟩ := Outcome.check_bind_eq_ok_iff.1 found
  refine ⟨StatStack.isValid_of_requireValid checked, ?_⟩
  cases ref with
  | single slot => exact within_of_slotTotals found
  | aggregate op left right =>
    obtain ⟨lefts, leftFound, found⟩ := Outcome.bind_eq_ok_iff.1 found
    obtain ⟨rights, rightFound, -⟩ := Outcome.bind_eq_ok_iff.1 found
    exact ⟨within_of_slotTotals leftFound, within_of_slotTotals rightFound⟩

/-- The value of a handle for a group; zero for a group that the session does not have. -/
def groupValue (s : Session) (g : GroupId) (ref : StatRef) : Float :=
  if g < s.groupCount then ref.total (s.members g) else 0

theorem getD_groupStats {s : Session} {ref : StatRef} {totals : List Float}
    (found : s.groupStats ref = .ok totals) (g : GroupId) : totals.getD g 0 = s.groupValue g ref := by
  obtain ⟨live, below⟩ := live_of_groupStats found
  obtain ⟨totals', found', length, each⟩ := groupStats_eq_ok_of_below live below
  cases found.symm.trans found'
  rw [groupValue, List.getD_eq_getElem?_getD]
  by_cases inRange : g < s.groupCount
  · rw [if_pos inRange, each g inRange, Option.getD_some]
  · have beyond : totals.length ≤ g := length ▸ Nat.le_of_not_lt inRange
    rw [if_neg inRange, List.getElem?_eq_none beyond, Option.getD_none]

theorem map_getD_of_mapM_groupStats {s : Session} {refs : List StatRef} {perStat : List (List Float)}
    (found : refs.mapM s.groupStats = .ok perStat) (g : GroupId) :
    perStat.map (·.getD g 0) = refs.map (s.groupValue g) := by
  rw [eq_comm, ← List.forall₂_eq_eq_eq, List.forall₂_map_left_iff, List.forall₂_map_right_iff]
  refine (Outcome.mapM_eq_ok_iff.1 found).imp ?_
  intro ref totals here
  exact (getD_groupStats here g).symm

/-- Live handles have values for every group. -/
theorem mapM_groupStats {s : Session} (inStep : s.InStep) {refs : List StatRef}
    (live : ∀ ref ∈ refs, s.stack.isValid ref = true) :
    ∃ perStat, refs.mapM s.groupStats = .ok perStat ∧ perStat.length = refs.length ∧
      ∀ g, 0 < g → g < s.groupCount → perStat.map (·.getD g 0) =
        refs.map (·.total ((s.entries.filter (·.group = g)).map (·.toReading))) := by
  have each : ∃ perStat, refs.mapM s.groupStats = .ok perStat := by
    induction refs with
    | nil => exact ⟨[], rfl⟩
    | cons ref rest ih =>
      obtain ⟨totals, here, -⟩ := groupStats_eq_ok inStep (live ref List.mem_cons_self)
      obtain ⟨others, later⟩ := ih fun r member => live r (List.mem_cons_of_mem ref member)
      refine ⟨totals :: others, ?_⟩
      rw [List.mapM_cons, here, later]
      rfl
  obtain ⟨perStat, found⟩ := each
  refine ⟨perStat, found, (Outcome.mapM_eq_ok_iff.1 found).length_eq.symm, ?_⟩
  intro g positive inRange
  rw [map_getD_of_mapM_groupStats found, ← members_of_pos positive]
  refine List.map_congr_left ?_
  intro ref _
  rw [groupValue, if_pos inRange]

end Session
end Rollup
