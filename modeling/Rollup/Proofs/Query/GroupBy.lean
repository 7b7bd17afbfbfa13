import Rollup.Proofs.Grouping.Listing
import Rollup.Proofs.Query.Execution

namespace Rollup

/-- A session as it is opened, whatever metrics were registered since: all documents in group one,
nothing pushed and no fault planned. -/
structure Session.Fresh (s : Session) : Prop where
  together : ∀ e ∈ s.entries, e.group = 1
  groupCount : s.groupCount = 2
  unread : ∀ e ∈ s.entries, e.slots = []
  width : s.width = 0
  slots : s.stack.slots = []
  widths : s.stack.widths = []
  failAfter : s.failAfter = none

namespace Session

theorem fresh_new (id : Nat) (docs : List Document) (settings : Settings) :
    (new id docs settings).Fresh where
  together e member := by
    obtain ⟨d, _, rfl⟩ := List.mem_map.1 member
    rfl
  groupCount := rfl
  unread e member := by
    obtain ⟨d, _, rfl⟩ := List.mem_map.1 member
    rfl
  width := rfl
  slots := rfl
  widths := rfl
  failAfter := rfl

theorem Fresh.depth {s : Session} (fresh : s.Fresh) : s.stack.depth = 0 := by
  rw [StatStack.depth, fresh.slots]
  rfl

theorem Fresh.inStep {s : Session} (fresh : s.Fresh) : s.InStep where
  width := fresh.width.trans fresh.depth.symm
  slots e member := by
    rw [fresh.unread e member, fresh.width]
    rfl

theorem Fresh.length_slots {s : Session} (fresh : s.Fresh) :
    ∀ r ∈ s.readings, r.slots.length = s.stack.depth := by
  intro r member
  obtain ⟨e, member', rfl⟩ := List.mem_map.1 member
  rw [fresh.unread e member', fresh.depth]
  rfl

theorem Fresh.together_pushedAll {s : Session} (fresh : s.Fresh) (stats : List Stat) :
    ∀ e ∈ (s.pushedAll stats).entries, e.group = 1 := by
  intro e member
  have group : e.group ∈ s.groups := by
    rw [← groups_pushedAll stats]
    exact List.mem_map_of_mem member
  obtain ⟨e', member', same⟩ := List.mem_map.1 group
  exact same ▸ fresh.together e' member'

end Session

/-- The number of groups on the first level that has too many for a limit; levels are gone down from the
given one by one field after the other. -/
def Reading.excess? (limit : Nat) (rs : List Reading) : List Field → List Field → Option Nat
  | _, [] => none
  | done, f :: rest =>
    if limit < (tuples (done ++ [f]) rs).length + 1 then some (tuples (done ++ [f]) rs).length
    else excess? limit rs (done ++ [f]) rest

theorem Reading.excess?_map_extendedAll (limit : Nat) (rs : List Reading) (stats : List Stat)
    (done todo : List Field) :
    excess? limit (rs.map (extendedAll stats)) done todo = excess? limit rs done todo := by
  have same (fields : List Field) : tuples fields (rs.map (extendedAll stats)) = tuples fields rs := by
    rw [tuples, tuples, List.filterMap_map]
    refine congrArg List.dedup (List.filterMap_congr ?_)
    intro r _
    show (r.extendedAll stats).doc.tuple? fields = r.doc.tuple? fields
    rw [doc_extendedAll]
  induction todo generalizing done with
  | nil => rfl
  | cons f rest ih => rw [excess?, excess?, same, ih]

/-- A push gives no document another tuple. -/
theorem Reading.exists_tuple?_map_extendedAll (rs : List Reading) (stats : List Stat)
    (fields : List Field) (ts : List Term) :
    (∃ r ∈ rs.map (extendedAll stats), r.doc.tuple? fields = some ts) ↔
      ∃ r ∈ rs, r.doc.tuple? fields = some ts := by
  simp only [List.mem_map, exists_exists_and_eq_and, doc_extendedAll]

/-- The fields of the groupings that split by all terms. -/
def FieldGrouping.explodedFields (stages : List FieldGrouping) : List Field :=
  (stages.filter (·.mode = .explode)).map (·.field)

namespace Query
open FieldGrouping

/-- One stage on the way to the last one. -/
theorem on_regroupAll_cons {g : FieldGrouping} {rest : List Grouping} {deadline : Deadline}
    (inTime : deadline.missed = false) {keys children : KeyMap} {s t : Session}
    (split : (g.regroup keys).on s = (.ok children, t)) :
    (regroupAll deadline (.field g :: rest) keys).on s = (regroupAll deadline rest children).on t := by
  have check : deadline.check = .ok () := Deadline.check_of_inTime inTime
  have staged := Stage.on_beside_regroup (.field g) keys s
  have here : (Action.beside (Stage.new (.field g)) (Stage.regroup keys)).on s = (.ok children, t) :=
    staged.trans split
  rw [regroupAll, Action.on_bind_ok here, check]
  rfl

theorem on_regroupAll_cons_error {g : FieldGrouping} {rest : List Grouping} {deadline : Deadline}
    {keys : KeyMap} {s t : Session} {e : Fault} (split : (g.regroup keys).on s = (.error e, t)) :
    (regroupAll deadline (.field g :: rest) keys).on s = (.error e, t) := by
  have staged := Stage.on_beside_regroup (.field g) keys s
  have here : (Action.beside (Stage.new (.field g)) (Stage.regroup keys)).on s = (.error e, t) :=
    staged.trans split
  rw [regroupAll, Action.on_bind_error here]

/-- The stages before the last go down one level for each field that is split by all terms, until a
level has too many groups. -/
theorem on_regroupAll {deadline : Deadline} (inTime : deadline.missed = false)
    {stages : List FieldGrouping} (plain : ∀ g ∈ stages, g.mode = .explode ∨ g.mode = .passthrough)
    {fields : List Field} {keys : KeyMap} {s : Session} (lv : s.Leveled fields keys) :
    match Reading.excess? s.groupLimit s.readings fields (explodedFields stages) with
    | some total => ∃ t, (regroupAll deadline (stages.map .field) keys).on s =
        (.error (.groupLimitExceeded total s.groupLimit), t)
    | none => ∃ children t, (regroupAll deadline (stages.map .field) keys).on s = (.ok children, t) ∧
        t.Leveled (fields ++ explodedFields stages) children ∧ s.Regrouped t := by
  induction stages generalizing fields keys s with
  | nil =>
    refine ⟨keys, s, rfl, ?_, .refl s⟩
    rw [explodedFields, List.filter_nil, List.map_nil, List.append_nil]
    exact lv
  | cons g rest ih =>
    have later : ∀ g' ∈ rest, g'.mode = .explode ∨ g'.mode = .passthrough :=
      fun g' member => plain g' (List.mem_cons_of_mem g member)
    rcases plain g List.mem_cons_self with explode | passthrough
    · have names : explodedFields (g :: rest) = g.field :: explodedFields rest := by
        simp [explodedFields, explode]
      have step : (g.regroup keys).on s =
          (Session.split g.field keys (s.explosion g.field keys)).on s := by
        rw [regroup, explode]
        rfl
      rw [Session.on_split, lv.size_explosion] at step
      rw [names, Reading.excess?]
      by_cases full : s.groupLimit < (Reading.tuples (fields ++ [g.field]) s.readings).length + 1
      · rw [if_pos full] at step
        rw [if_pos full]
        exact ⟨s, on_regroupAll_cons_error step⟩
      · rw [if_neg full] at step
        rw [if_neg full]
        have moved := s.regrouped_splitInto g.field ((s.explosion g.field keys).children keys)
        have below := ih later (lv.splitInto g.field)
        rw [moved.readings, moved.groupLimit] at below
        rw [List.map_cons, on_regroupAll_cons inTime step]
        cases excess : Reading.excess? s.groupLimit s.readings (fields ++ [g.field])
            (explodedFields rest) with
        | some total =>
          rw [excess] at below
          exact below
        | none =>
          rw [excess] at below
          obtain ⟨children, t, done, level, same⟩ := below
          rw [List.append_assoc] at level
          exact ⟨children, t, done, level, moved.trans same⟩
    · have names : explodedFields (g :: rest) = explodedFields rest := by
        simp [explodedFields, passthrough]
      obtain ⟨t, kept, same⟩ := Session.on_keep keys s
      have step : (g.regroup keys).on s = (.ok keys, t) := by
        rw [regroup, passthrough]
        exact kept
      have below := ih later (lv.kept kept)
      rw [same.readings, same.groupLimit] at below
      rw [names, List.map_cons, on_regroupAll_cons inTime step]
      cases excess : Reading.excess? s.groupLimit s.readings fields (explodedFields rest) with
      | some total =>
        rw [excess] at below
        exact below
      | none =>
        rw [excess] at below
        obtain ⟨children, u, done, level, moved⟩ := below
        exact ⟨children, u, done, level, same.trans moved⟩

theorem layout_field {columns : List (String × Stat)} {groupings : List Grouping}
    (noPercentiles : ∀ p, groupings.getLast? ≠ some (.percentile p)) :
    (Query.mk columns groupings).layout = .ok ⟨columns.map (·.1)⟩ := by
  unfold layout
  cases last : groupings.getLast? with
  | none =>
    simp only
    exact Layout.ofColumns_nil _
  | some g =>
    cases g with
    | percentile p => exact absurd last (noPercentiles p)
    | field g =>
      simp only
      exact Layout.ofColumns_nil _
    | diff g =>
      simp only
      exact Layout.ofColumns_nil _

/-- Collecting the last grouping looks at the handles first. -/
theorem on_collect_of_live {g : FieldGrouping} {keys : KeyMap} {refs : List StatRef}
    {deadline : Deadline} {s : Session} (live : ∀ ref ∈ refs, s.stack.isValid ref = true) :
    (Grouping.collect (.field g) keys refs deadline).on s = (g.collect keys refs deadline).on s := by
  have checked : refs.forM s.stack.requireValid = .ok () :=
    Outcome.forM_eq_ok_iff.2 fun ref member => if_pos (live ref member)
  rw [Grouping.on_collect_field, checked]

variable {s s' : Session} {columns : List (String × Stat)} {refs : List StatRef}

/-- After the run of a query the pushed statistics can be popped. -/
theorem on_unwind_of_regrouped (fresh : s.Fresh) {t : Session} {stats : List Stat}
    (moved : (s.pushedAll stats).Regrouped t) :
    ((unwind (t.stack.size - s.stack.size)).on t).1 = .ok () := by
  have start : s.stack.widths.sum ≤ s.width := by
    rw [fresh.widths, fresh.width]
    exact Nat.le_refl 0
  have covered := Session.sum_widths_pushedAll stats start
  rw [← moved.stack, ← moved.width] at covered
  exact Session.on_unwind (Nat.sub_le _ _) covered

/-- What a query without groupings computes. -/
theorem execute_ungrouped (fresh : s.Fresh) {settings : Settings}
    (valid : settings.validate = .ok ()) (built : ∀ c ∈ columns, c.2.Built)
    (pushes : (pushAll columns).on s = (.ok refs, s')) :
    ((execute ⟨columns, []⟩ settings).on s).1 =
      .ok ⟨columns.map (·.1), [⟨.root, Stat.totals (columns.map (·.2)) s.readings⟩]⟩ := by
  obtain ⟨refs_eq, state_eq⟩ := Session.eq_pushedAll_of_on_pushAll fresh.inStep built pushes
  have stepped : s'.InStep := state_eq ▸ fresh.inStep.pushedAll _
  have live : ∀ ref ∈ refs, s'.stack.isValid ref = true := by
    rw [refs_eq, state_eq]
    exact Session.isValid_handles _ s
  have inRange : 1 < s'.groupCount := by
    rw [state_eq, Session.groupCount_pushedAll, fresh.groupCount]
    exact Nat.one_lt_two
  obtain ⟨perStat, found, -, each⟩ := Session.mapM_groupStats stepped live
  have values := each 1 Nat.one_pos inRange
  have everybody : (s'.entries.filter (·.group = 1)).map (·.toReading) =
      s.readings.map (Reading.extendedAll (columns.map (·.2))) := by
    have inOne : ∀ e ∈ s'.entries, decide (e.group = 1) = true := by
      intro e member
      rw [state_eq] at member
      exact decide_eq_true (fresh.together_pushedAll _ e member)
    rw [List.filter_eq_self.2 inOne, ← Session.readings_pushedAll, state_eq]
    rfl
  have row : perStat.map (·.getD 1 0) = Stat.totals (columns.map (·.2)) s.readings := by
    rw [values, everybody, refs_eq]
    exact Session.total_handles _ fresh.length_slots
  have rows : ungroupedRows .initial refs s' =
      .ok [⟨.root, Stat.totals (columns.map (·.2)) s.readings⟩] := by
    rw [ungroupedRows, found, ← row]
    rfl
  have names : (Query.mk columns []).layout = .ok ⟨columns.map (·.1)⟩ :=
    layout_field fun p last => by cases last
  have run : (Query.run ⟨columns, []⟩ (.ofSettings settings)).on s =
      (.ok ⟨columns.map (·.1), [⟨.root, Stat.totals (columns.map (·.2)) s.readings⟩]⟩, s') := by
    simp only [Query.run, names, Action.on_bind, Action.on_ofExcept, pushes, List.getLast?_nil,
      Action.on_get, rows, Action.on_pure]
  have moved : (s.pushedAll (columns.map (·.2))).Regrouped s' := state_eq ▸ .refl _
  exact execute_of_run_ok valid run (on_unwind_of_regrouped fresh moved)

/-- The rows that are listed on a level, from the documents as they were before the push. -/
theorem rows_of_leveled (fresh : s.Fresh) {stats : List Stat} {t : Session}
    (moved : (s.pushedAll stats).Regrouped t) {fields : List Field} {keys : KeyMap}
    (lv : t.Leveled fields keys) (f : Field) :
    (t.fieldRecords f).filterMap (row? keys (Session.handles stats s)) =
      (t.listing f keys).map fun p =>
        ⟨Key.ofTerms (p.1 ++ [p.2]), Stat.totals stats (s.readings.filter fun r =>
          r.doc.tuple? (fields ++ [f]) = some (p.1 ++ [p.2]))⟩ := by
  have stepped : t.InStep := moved.inStep (fresh.inStep.pushedAll _)
  have live : ∀ ref ∈ Session.handles stats s, t.stack.isValid ref = true := by
    rw [moved.stack]
    exact Session.isValid_handles stats s
  rw [lv.rows_eq stepped live, moved.readings, Session.readings_pushedAll]
  refine List.map_congr_left ?_
  intro p _
  have unread : ∀ r ∈ s.readings.filter fun r => r.doc.tuple? (fields ++ [f]) = some (p.1 ++ [p.2]),
      r.slots.length = s.stack.depth :=
    fun r member => fresh.length_slots r (List.mem_of_mem_filter member)
  have values := Session.total_handles stats unread
  have kept (r : Reading) : (r.extendedAll stats).doc = r.doc := r.doc_extendedAll stats
  rw [List.filter_map, ← values]
  simp only [Function.comp_def, kept]

/-- From a fresh session a query of field groupings computes a group-by. Without groupings there is one
row with the totals over all documents. When the last grouping splits by all terms there is a row for
every tuple that some document has under the fields split by, with the totals over the documents that
have it, in the order of the last terms and, among equal ones, of the others; a level before the last
with too many groups ends the query. -/
theorem execute_groupBy (fresh : s.Fresh) {settings : Settings} (valid : settings.validate = .ok ())
    (untimed : settings.timeout = none) (built : ∀ c ∈ columns, c.2.Built)
    (pushes : (pushAll columns).on s = (.ok refs, s')) :
    ((execute ⟨columns, []⟩ settings).on s).1 =
        .ok ⟨columns.map (·.1), [⟨.root, Stat.totals (columns.map (·.2)) s.readings⟩]⟩ ∧
      ∀ (stages : List FieldGrouping) (last : FieldGrouping),
        (∀ g ∈ stages, g.mode = .explode ∨ g.mode = .passthrough) → last.mode = .explode →
        let fields := explodedFields stages
        let result := ((execute ⟨columns, (stages ++ [last]).map .field⟩ settings).on s).1
        match Reading.excess? s.groupLimit s.readings [] fields with
        | some total => result = .error (.groupLimitExceeded total s.groupLimit)
        | none => ∃ tuples : List (List Term × Term),
            (tuples.Pairwise fun a b =>
              compare a.2 b.2 = .lt ∨ a.2 = b.2 ∧ compare a.1 b.1 = .lt) ∧
            (∀ ts t, (ts, t) ∈ tuples ↔
              ∃ r ∈ s.readings, r.doc.tuple? (fields ++ [last.field]) = some (ts ++ [t])) ∧
            result = .ok ⟨columns.map (·.1), tuples.map fun p =>
              ⟨Key.ofTerms (p.1 ++ [p.2]), Stat.totals (columns.map (·.2)) (s.readings.filter fun r =>
                r.doc.tuple? (fields ++ [last.field]) = some (p.1 ++ [p.2]))⟩⟩ := by
  refine ⟨execute_ungrouped fresh valid built pushes, ?_⟩
  intro stages last plain explode fields result
  obtain ⟨refs_eq, state_eq⟩ := Session.eq_pushedAll_of_on_pushAll fresh.inStep built pushes
  have inTime : (Deadline.ofSettings settings).missed = false := by
    rw [Deadline.ofSettings, untimed]
    rfl
  have names : (Query.mk columns ((stages ++ [last]).map .field)).layout =
      .ok ⟨columns.map (·.1)⟩ := by
    apply layout_field
    intro p final
    rw [List.map_append, List.map_cons, List.map_nil, List.getLast?_concat] at final
    cases final
  have split : ((stages ++ [last]).map Grouping.field).getLast? = some (.field last) ∧
      ((stages ++ [last]).map Grouping.field).dropLast = stages.map .field := by
    rw [List.map_append, List.map_cons, List.map_nil, List.getLast?_concat, List.dropLast_concat]
    exact ⟨rfl, rfl⟩
  have together : ∀ e ∈ s'.entries, e.group = 1 := by
    rw [state_eq]
    exact fresh.together_pushedAll _
  have readings : s'.readings = s.readings.map (Reading.extendedAll (columns.map (·.2))) := by
    rw [state_eq, Session.readings_pushedAll]
  have limit : s'.groupLimit = s.groupLimit := by
    rw [state_eq, Session.groupLimit_pushedAll]
  -- Pushed values do not show in the terms of documents, so the levels are those of the documents before.
  have levels := on_regroupAll inTime plain (Session.Leveled.initial together)
  rw [limit, readings, Reading.excess?_map_extendedAll] at levels
  cases excess : Reading.excess? s.groupLimit s.readings [] fields with
  | some total =>
    rw [excess] at levels
    obtain ⟨t, full⟩ := levels
    have run : (Query.run ⟨columns, (stages ++ [last]).map .field⟩ (.ofSettings settings)).on s =
        (.error (.groupLimitExceeded total s.groupLimit), t) := by
      simp only [Query.run, names, Action.on_bind, Action.on_ofExcept, pushes, split, full]
    exact execute_of_run_error valid run
  | none =>
    rw [excess] at levels
    obtain ⟨children, t, done, lv, moved⟩ := levels
    rw [List.nil_append] at lv
    have live : ∀ ref ∈ refs, t.stack.isValid ref = true := by
      rw [moved.stack, refs_eq, state_eq]
      exact Session.isValid_handles _ s
    have sound : t.failAfter = none := by
      rw [moved.failAfter, state_eq, Session.failAfter_pushedAll, fresh.failAfter]
    have pushed : (s.pushedAll (columns.map (·.2))).Regrouped t := state_eq ▸ moved
    have rows := rows_of_leveled fresh pushed lv last.field
    rw [← refs_eq] at rows
    have collected : (Action.beside (Stage.new (.field last))
        (Stage.collect children refs (.ofSettings settings))).on t =
          (.ok (((t.fieldRecords last.field).filterMap (row? children refs)).map .ok), t) := by
      rw [Stage.on_beside_collect, on_collect_of_live live, on_collect_explode explode sound inTime]
    have run : (Query.run ⟨columns, (stages ++ [last]).map .field⟩ (.ofSettings settings)).on s =
        (.ok ⟨columns.map (·.1), (t.fieldRecords last.field).filterMap (row? children refs)⟩, t) := by
      simp only [Query.run, names, Action.on_bind, Action.on_ofExcept, pushes, split, done, collected,
        assemble_ok, Action.on_pure]
    have outcome := execute_of_run_ok valid run (on_unwind_of_regrouped fresh pushed)
    rw [rows] at outcome
    refine ⟨t.listing last.field children, lv.pairwise_listing last.field, ?_, outcome⟩
    intro ts u
    rw [lv.mem_listing_iff, moved.readings, readings, Reading.exists_tuple?_map_extendedAll]

/-- Four documents, of which one lacks the inner field. -/
def shop : Session :=
  .new 0 [⟨[("city", .text "b"), ("day", .int 2), ("sold", .int 5)]⟩,
    ⟨[("city", .text "a"), ("day", .text " 2 "), ("sold", .int 3)]⟩,
    ⟨[("city", .text "a"), ("day", .int 1)]⟩, ⟨[("city", .text "c"), ("sold", .int 9)]⟩] .standard

def sales : List (String × Stat) :=
  [("documents", .count), ("mean", .combination .divide (.intField "sold") .count)]

def byCity : FieldGrouping := ⟨⟨"city", .text⟩, 0, .count, false, false⟩

def byDay : FieldGrouping := ⟨⟨"day", .int⟩, 0, .count, false, false⟩

theorem execute_groupBy_of_shop : shop.Fresh ∧ Settings.standard.validate = .ok () ∧
    (∀ c ∈ sales, c.2.Built) ∧ (∃ refs s', (pushAll sales).on shop = (.ok refs, s')) ∧
    ∃ tuples : List (List Term × Term), ([.text "a"], .int 2) ∈ tuples ∧ ([.text "c"], .int 2) ∉ tuples ∧
      ((execute ⟨sales, [.field byCity, .field { byCity with noExplode := true }, .field byDay]⟩
          .standard).on shop).1 = .ok ⟨["documents", "mean"], tuples.map fun p =>
        ⟨Key.ofTerms (p.1 ++ [p.2]), Stat.totals [.count, .combination .divide (.intField "sold") .count]
          (shop.readings.filter fun r =>
            r.doc.tuple? [byCity.field, byDay.field] = some (p.1 ++ [p.2]))⟩⟩ := by
  have fresh : shop.Fresh := Session.fresh_new _ _ _
  have built : ∀ c ∈ sales, c.2.Built := by
    have mean : (Stat.combination .divide (.intField "sold") .count).Built :=
      .combination (.intField "sold") .count rfl
    simp [sales, Stat.Built.count, mean]
  have pushes : ∃ refs s', (pushAll sales).on shop = (.ok refs, s') := ⟨_, _, rfl⟩
  obtain ⟨refs, s', pushed⟩ := pushes
  have plain : ∀ g ∈ [byCity, { byCity with noExplode := true }],
      g.mode = .explode ∨ g.mode = .passthrough := by decide
  have valid : Settings.standard.validate = .ok () := rfl
  have untimed : Settings.standard.timeout = none := rfl
  have grouped := (execute_groupBy fresh valid untimed built pushed).2 _ byDay plain rfl
  have fields : explodedFields [byCity, { byCity with noExplode := true }] = [byCity.field] := by decide
  have within : Reading.excess? shop.groupLimit shop.readings [] [byCity.field] = none := by
    decide +kernel
  simp only [fields, within] at grouped
  obtain ⟨tuples, -, members, outcome⟩ := grouped
  refine ⟨fresh, valid, built, ⟨refs, s', pushed⟩, tuples, ?_, ?_, outcome⟩
  · rw [members]
    decide +kernel
  · rw [members]
    decide +kernel

end Query
end Rollup
