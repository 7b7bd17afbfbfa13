import Rollup.Proofs.Grouping.Rows
import Rollup.Proofs.Query.Neutrality

namespace Rollup
open Session

/-- What the documents of a share offered to statistics before it was made. -/
def Share.documents (share : Share) (before after : Session) : List Reading :=
  ((before.readings.zip after.entries).filter fun p => share.contains p.2).map (·.1)

namespace Query

/-- The percentile queries of the last grouping. -/
def percentiles (q : Query) : List PercentileQuery :=
  match q.groupings.getLast? with
  | some g => g.queries
  | none => []

/-- The percentile that the rows of a group show for a query of the last grouping. -/
def percentile (q : Query) (s : Session) (group : GroupId) (p : PercentileQuery) : Float :=
  match q.groupings.getLast? with
  | some g => g.shownPercentile s group p
  | none => 0

/-- The field that the last grouping lists. -/
def field? (q : Query) : Option Field := q.groupings.getLast?.bind Grouping.field?

theorem layout_eq (q : Query) :
    q.layout = Layout.ofColumns (q.stats.map (·.1)) (q.percentiles.map percentileColumn) := by
  unfold layout percentiles
  cases q.groupings.getLast? with
  | none => rfl
  | some g =>
    cases g with
    | field g => rfl
    | percentile g => rfl
    | diff g => rfl

theorem length_of_on_pushAll {columns : List (String × Stat)} {s t : Session} {refs : List StatRef}
    (pushed : (pushAll columns).on s = (.ok refs, t)) : refs.length = columns.length := by
  induction columns generalizing s refs with
  | nil =>
    cases pushed
    rfl
  | cons column rest ih =>
    rw [pushAll] at pushed
    obtain ⟨ref, u, -, pushed⟩ := Action.on_bind_eq_ok_iff.1 pushed
    obtain ⟨others, v, later, pushed⟩ := Action.on_bind_eq_ok_iff.1 pushed
    cases pushed
    rw [List.length_cons, List.length_cons, ih later]

/-- The session in which the values of the rows are read, once the groupings before the last one have split. -/
def ReadsIn (q : Query) (s t : Session) : Prop :=
  match q.groupings.getLast? with
  | some g => g.ReadsIn s t
  | none => t = s

theorem ReadsIn.loaded {q : Query} {s t : Session} (reads : q.ReadsIn s t) (inStep : s.InStep) :
    t.InStep ∧ (∃ n, List.Forall₂ (Entry.Loaded n) s.entries t.entries) ∧
      ∀ ref, s.stack.isValid ref = true → t.stack.isValid ref = true := by
  unfold ReadsIn at reads
  cases last : q.groupings.getLast? with
  | some g =>
    simp only [last] at reads
    exact reads.loaded inStep
  | none =>
    simp only [last] at reads
    subst reads
    exact ⟨inStep, ⟨0, Entry.forall₂_loaded_zero _⟩, fun _ => id⟩

/-- The handles of a query total for a share what the statistics do over its documents, as they were before the
push. -/
theorem totals_of_pushed {columns : List (String × Stat)} {refs : List StatRef} {s u v : Session}
    (inStep : s.InStep) (built : ∀ c ∈ columns, c.2.Built)
    (pushed : (pushAll columns).on s = (.ok refs, u)) (kept : u.Raised [] v) (share : Share) :
    refs.map (·.total ((v.entries.filter share.contains).map (·.toReading))) =
      Stat.totals (columns.map (·.2)) (share.documents s v) := by
  obtain ⟨refs_eq, u_eq⟩ := eq_pushedAll_of_on_pushAll inStep built pushed
  have readings : v.readings = s.readings.map (Reading.extendedAll (columns.map (·.2))) := by
    rw [kept.readings_eq, u_eq, readings_pushedAll]
  have documents : (v.entries.filter share.contains).map (·.toReading) =
      (share.documents s v).map (Reading.extendedAll (columns.map (·.2))) := by
    -- The entries afterwards tell who is in the share, the readings before what each of them is worth.
    have paired : v.readings.zip (v.entries.map id) = v.entries.map fun e => (e.toReading, e) :=
      List.zip_map'
    rw [List.map_id, readings, List.zip_map_left] at paired
    have chosen := congrArg (fun l => (l.filter fun p => share.contains p.2).map (·.1)) paired
    simp only [List.filter_map, List.map_map] at chosen
    rw [Share.documents, List.map_map]
    exact chosen.symm
  have depths : ∀ r ∈ share.documents s v, r.slots.length = s.stack.depth := by
    intro r member
    obtain ⟨p, filtered, rfl⟩ := List.mem_map.1 member
    have paired := List.mem_of_mem_filter filtered
    rw [inStep.length_readings p.1 (List.of_mem_zip paired).1, inStep.width]
  rw [documents, refs_eq, total_handles _ depths]

/-- In step, the handles of a query read for a share the totals of the statistics over its documents. -/
theorem values_eq_totals {q : Query} {deadline : Deadline} {refs : List StatRef} {s u v w : Session} {keys : KeyMap}
    (inStep : s.InStep) (built : ∀ c ∈ q.stats, c.2.Built) (pushed : (pushAll q.stats).on s = (.ok refs, u))
    (regrouped : (regroupAll deadline q.groupings.dropLast .initial).on u = (.ok keys, v)) (reads : q.ReadsIn v w)
    {share : Share} (present : share.Present w) :
    refs.map (share.value w) = Stat.totals (q.stats.map (·.2)) (share.documents s v) := by
  obtain ⟨refs_eq, u_eq⟩ := eq_pushedAll_of_on_pushAll inStep built pushed
  have stepped : u.InStep := u_eq ▸ inStep.pushedAll _
  have kept : u.Raised [] v := by
    have kept := keeps_regroupAll deadline q.groupings.dropLast .initial u stepped
    rw [regrouped] at kept
    exact kept
  have live : ∀ ref ∈ refs, v.stack.isValid ref = true := by
    intro ref member
    obtain ⟨n, stack⟩ := kept.stack.eq_advanced
    rw [stack, StatStack.isValid_advanced, u_eq]
    exact isValid_handles _ s ref (refs_eq ▸ member)
  have below : v.InStep := kept.inStep stepped
  obtain ⟨above, ⟨n, each⟩, stays⟩ := reads.loaded below
  rw [← totals_of_pushed inStep built pushed kept share]
  -- What the last grouping has pushed for itself lies above the slots of these handles.
  refine List.map_congr_left fun ref member => ?_
  have chosen : List.Forall₂ (Entry.Loaded n) (v.entries.filter share.contains) (w.entries.filter share.contains) := by
    refine List.rel_filter ?_ each
    intro e e' loaded
    obtain ⟨values, -, rfl⟩ := loaded
    cases share <;> exact Iff.rfl
  rw [Share.value_of_present above present (stays ref (live ref member))]
  exact StatRef.total_of_loaded chosen (fun e chosen => below.slots e (List.mem_of_mem_filter chosen))
    (below.width ▸ StatStack.below_of_isValid (live ref member))

/-- The rows of a run are about shares of the documents as the groupings before the last one left them. -/
theorem shown_of_on_run {q : Query} {deadline : Deadline} {s t : Session}
    {table : ResultTable} (ran : (q.run deadline).on s = (.ok table, t)) :
    LaidOut (q.percentiles.map percentileColumn) (q.stats.map (·.1)) table.columns ∧
      ∃ refs u keys v, (pushAll q.stats).on s = (.ok refs, u) ∧
        (regroupAll deadline q.groupings.dropLast .initial).on u = (.ok keys, v) ∧
        ∀ row ∈ table.rows, ∃ (share : Share) (w : Session), q.ReadsIn v w ∧ share.field? = q.field? ∧
          share.key? keys = some row.key ∧ ((∀ e ∈ u.entries, e.group < u.groupCount) → share.Present w) ∧
          LaidOut (q.percentiles.map fun p => (p.position, q.percentile v share.id p))
            (refs.map (share.value w)) row.values := by
  obtain ⟨layout, refs, u, keys, v, laid, columns, pushed, regrouped, collected⟩ := course_of_on_run ran
  rw [layout_eq] at laid
  obtain ⟨distinct, within, -⟩ := Layout.ofColumns_eq_ok laid
  refine ⟨columns ▸ Layout.laidOut_of_ofColumns laid, refs, u, keys, v, pushed, regrouped, ?_⟩
  intro row member
  cases last : q.groupings.getLast? with
  | none =>
    simp only [last] at collected
    obtain ⟨rfl, rfl, listed⟩ := collected
    rw [eq_map_of_ungroupedRows listed] at member
    cases List.mem_singleton.1 member
    refine ⟨.group 1, v, ?_, ?_, rfl, fun counted => Share.present_group counted Nat.one_pos, ?_⟩
    · rw [ReadsIn, last]
    · rw [field?, last]
      rfl
    · rw [percentiles, last]
      exact laidOut_nil_iff.2 rfl
  | some g =>
    simp only [last] at collected
    obtain ⟨listed, collected, assembled⟩ := collected
    have queries : q.percentiles = g.queries := by
      rw [percentiles, last]
    rw [queries, List.map_map] at distinct
    have inside : ∀ p ∈ g.queries, p.position < refs.length + g.queries.length := by
      intro p queried
      have below := within (percentileColumn p) (List.mem_map_of_mem (queries ▸ queried))
      rw [List.length_map, List.length_map, queries, ← length_of_on_pushAll pushed] at below
      exact below
    obtain ⟨share, w, reads, field, key, present, cells⟩ := Grouping.shown_of_on_collect
      distinct inside collected (ok_mem_of_assemble assembled member)
    refine ⟨share, w, ?_, ?_, key, fun _ => present, ?_⟩
    · rw [ReadsIn, last]
      exact reads
    · rw [field?, last]
      exact field
    · simp only [percentiles, percentile, last]
      exact cells

/-- Names and values line up, whatever was done to the session before. The columns are the percentiles of the last
grouping at their positions and the names of the statistics in their order in the others; so are the cells of
every row, which is about a share of the documents: the percentiles of its group, and what the handles of the
statistics read for it. Those are the statistics' values over the documents of the share where the columns of the
session were in step with its stack. A query that asks for a position outside the row is refused before it pushes
anything. -/
theorem execute_laidOut (q : Query) (settings : Settings) (s : Session) :
    (∀ table t, (q.execute settings).on s = (.ok table, t) →
      table.columns.length = q.stats.length + q.percentiles.length ∧
      LaidOut (q.percentiles.map percentileColumn) (q.stats.map (·.1)) table.columns ∧
      ∃ refs u keys v, (pushAll q.stats).on s = (.ok refs, u) ∧
        (regroupAll (.ofSettings settings) q.groupings.dropLast .initial).on u = (.ok keys, v) ∧
        ∀ row ∈ table.rows, row.values.length = q.stats.length + q.percentiles.length ∧
          ∃ (share : Share) (w : Session), q.ReadsIn v w ∧ share.field? = q.field? ∧
            share.key? keys = some row.key ∧
            LaidOut (q.percentiles.map fun p => (p.position, q.percentile v share.id p))
              (refs.map (share.value w)) row.values ∧
            (s.InStep → (∀ e ∈ s.entries, e.group < s.groupCount) → (∀ c ∈ q.stats, c.2.Built) →
              refs.map (share.value w) = Stat.totals (q.stats.map (·.2)) (share.documents s v))) ∧
    (settings.validate = .ok () →
      ∀ p ∈ q.percentiles, q.stats.length + q.percentiles.length ≤ p.position →
        ∃ cause, (q.execute settings).on s = (.error (.invalidSetting cause), s)) := by
  refine ⟨fun table t executed => ?_, fun valid p queried beyond => ?_⟩
  · obtain ⟨t', ran⟩ := exists_on_run_of_on_execute executed
    obtain ⟨columns, refs, u, keys, v, pushed, regrouped, shown⟩ := shown_of_on_run ran
    have width := columns.length
    rw [List.length_map, List.length_map] at width
    refine ⟨width, columns, refs, u, keys, v, pushed, regrouped, fun row member => ?_⟩
    obtain ⟨share, w, reads, field, key, present, cells⟩ := shown row member
    have length := cells.length
    rw [List.length_map, List.length_map, length_of_on_pushAll pushed] at length
    refine ⟨length, share, w, reads, field, key, cells, fun inStep counted built => ?_⟩
    refine values_eq_totals inStep built pushed regrouped reads (present ?_)
    rw [(eq_pushedAll_of_on_pushAll inStep built pushed).2, groupCount_pushedAll]
    intro e member
    have group : e.group ∈ s.groups := groups_pushedAll _ s ▸ List.mem_map_of_mem member
    obtain ⟨e', before, same⟩ := List.mem_map.1 group
    exact same ▸ counted e' before
  · have outside : (q.stats.map (·.1)).length + (q.percentiles.map percentileColumn).length ≤
        (percentileColumn p).1 := by
      rw [List.length_map, List.length_map]
      exact beyond
    obtain ⟨cause, refused⟩ := Layout.ofColumns_of_beyond (List.mem_map_of_mem queried) outside
    rw [← layout_eq] at refused
    exact ⟨cause, on_execute_of_layout_error valid refused s⟩

/-- Three receipts of two shops. -/
def receipts : Session :=
  .new 0 [⟨[("shop", .text "a"), ("price", .int 30)]⟩, ⟨[("shop", .text "b"), ("price", .int 20)]⟩,
    ⟨[("shop", .text "a"), ("price", .int 10)]⟩] .standard

/-- The median price of each shop at the front, and the highest one at some position. -/
def prices (position : Nat) : Query where
  stats := [("receipts", .count), ("turnover", .intField "price")]
  groupings := [.field ⟨⟨"shop", .text⟩, 0, .count, false, false⟩,
    .percentile ⟨.count, [⟨⟨"price", .int⟩, 100, position⟩, ⟨⟨"price", .int⟩, 50, 0⟩]⟩]

theorem execute_laidOut_of_prices : receipts.InStep ∧ (∀ e ∈ receipts.entries, e.group < receipts.groupCount) ∧
    (∀ c ∈ (prices 2).stats, c.2.Built) ∧
    (∃ table t, ((prices 2).execute .standard).on receipts = (.ok table, t) ∧
      LaidOut [(2, "percentile(price, 100)"), (0, "percentile(price, 50)")] ["receipts", "turnover"]
        table.columns ∧
      (∃ row ∈ table.rows, row.key = .child .root (.text "a") ∧ row.values = [10, 2, 30, 40]) ∧
      ∀ row ∈ table.rows, ∃ (share : Share) (v : Session),
        LaidOut ((prices 2).percentiles.map fun p => (p.position, (prices 2).percentile v share.id p))
          (Stat.totals [.count, .intField "price"] (share.documents receipts v)) row.values) ∧
    Settings.standard.validate = .ok () ∧
    ∃ cause, ((prices 4).execute .standard).on receipts = (.error (.invalidSetting cause), receipts) := by
  have inStep : receipts.InStep := ⟨rfl, by decide⟩
  have counted : ∀ e ∈ receipts.entries, e.group < receipts.groupCount := by decide
  have built : ∀ c ∈ (prices 2).stats, c.2.Built := by
    simp [prices, Stat.Built.count, Stat.Built.intField]
  have valid : Settings.standard.validate = .ok () := rfl
  refine ⟨inStep, counted, built, ?_, valid, ?_⟩
  · let rows : List ResultRow :=
      [⟨.child .root (.text "a"), [10, 2, 30, 40]⟩, ⟨.child .root (.text "b"), [20, 1, 20, 20]⟩]
    have outcome : (((prices 2).execute .standard).on receipts).1 =
        .ok ⟨["percentile(price, 50)", "receipts", "percentile(price, 100)", "turnover"], rows⟩ := by
      decide +kernel
    obtain ⟨t, executed⟩ := Action.exists_on_eq outcome
    obtain ⟨-, columns, refs, u, keys, v, -, -, shown⟩ :=
      (execute_laidOut (prices 2) .standard receipts).1 _ t executed
    have names : (prices 2).percentiles.map percentileColumn =
        [(2, "percentile(price, 100)"), (0, "percentile(price, 50)")] := by decide +kernel
    rw [names] at columns
    refine ⟨_, t, executed, columns, ⟨_, List.mem_cons_self, rfl, rfl⟩, fun row member => ?_⟩
    obtain ⟨-, share, w, -, -, -, cells, values⟩ := shown row member
    rw [values inStep counted built] at cells
    exact ⟨share, v, cells⟩
  · have beyond : (⟨⟨"price", .int⟩, 100, 4⟩ : PercentileQuery) ∈ (prices 4).percentiles :=
      List.mem_cons_self
    exact (execute_laidOut (prices 4) .standard receipts).2 valid _ beyond (Nat.le_refl 4)

/-- Two documents with a column of sevens under them that no handle stands for. -/
def preloaded : Session :=
  ((Session.load [.literal 7] 1).on (.new 0 [⟨[("x", .int 1)]⟩, ⟨[("x", .int 2)]⟩] .standard)).2

def counting : Query := ⟨[("count()", .count)], []⟩

/-- Out of step, a handle reads a column that is not its own: the sevens are added up in place of the documents
that are counted. -/
theorem execute_unlike_totals_of_preloaded :
    (∃ t, (counting.execute .standard).on preloaded = (.ok ⟨["count()"], [⟨.root, [14]⟩]⟩, t)) ∧
    ∀ refs u keys v, (pushAll counting.stats).on preloaded = (.ok refs, u) →
      (regroupAll (.ofSettings .standard) counting.groupings.dropLast .initial).on u = (.ok keys, v) →
      ∀ share : Share, share.field? = counting.field? → share.key? keys = some .root →
        Stat.totals (counting.stats.map (·.2)) (share.documents preloaded v) = [2] ∧
          ¬LaidOut (counting.percentiles.map fun p => (p.position, counting.percentile v share.id p))
            (Stat.totals (counting.stats.map (·.2)) (share.documents preloaded v)) [14] := by
  refine ⟨Action.exists_on_eq (by decide +kernel), ?_⟩
  intro refs u keys v pushed regrouped share field key
  cases regrouped
  cases share with
  | cell f c => cases field
  | group id =>
    obtain ⟨rfl, -⟩ := KeyMap.eq_of_get?_initial key
    have totals : Stat.totals (counting.stats.map (·.2)) ((Share.group 1).documents preloaded
        ((pushAll counting.stats).on preloaded).2) = [2] := by
      decide +kernel
    rw [pushed] at totals
    refine ⟨totals, fun laid => ?_⟩
    rw [totals] at laid
    exact absurd (laidOut_nil_iff.1 laid) (by decide +kernel)

end Query
end Rollup
