import Rollup.Proofs.Liveness.Registration
import Rollup.Proofs.Session.Bounds
import Rollup.Proofs.Stat.Combination

namespace Rollup

namespace Entry
variable {name : String}

/-- An entry with one value on top. -/
def topped (e : Entry) (v : Int64) : Entry := { e with slots := e.slots ++ [v] }

theorem load_metric (name : String) (e : Entry) :
    e.load [.metric name] 1 = .ok (e.topped (e.metric name)) := rfl

theorem map_topped {es : List Entry} {values : List Int64}
    (each : List.Forall₂ (fun e v => e.metric name = v) es values) :
    (es.map fun e => e.topped (e.metric name)) = es.zipWith topped values := by
  induction each with
  | nil => rfl
  | cons here _ ih => rw [List.map_cons, List.zipWith_cons_cons, here, ih]

end Entry

namespace Session
variable {s t : Session} {m : MetricHandle} {name : String} {values : List Int64}

/-- A handle was given out before, and if its registration still stands, then every document has the value
that it was registered with. Values are found by name alone and never taken away, so only the number of the
registration tells. -/
structure Recalls (m : MetricHandle) (values : List Int64) (s : Session) : Prop where
  older : m.generation < s.registry.nextGeneration
  values : s.registry.live.lookup m.name = some m.generation →
    List.Forall₂ (fun e v => e.metrics.lookup m.name = some v) s.entries values

namespace Recalls

theorem of_retains (retained : s.Retains t) (recalls : s.Recalls m values) : t.Recalls m values where
  older := retained.registry ▸ recalls.older
  values live := by
    rw [retained.registry] at live
    refine forall₂_comp ?_ retained.entries.flip (recalls.values live)
    intro e' e v here found
    rw [here.2.1, found]

theorem change (c : MetricRegistry.Change) (recalls : s.Recalls m values) :
    Recalls m values { s with registry := s.registry.changed c } where
  older := Nat.lt_of_lt_of_le recalls.older (s.registry.nextGeneration_le_changed c)
  values live := recalls.values ((MetricRegistry.lookup_changed c recalls.older m.name).1 live).1

theorem registerMetric (other : String) (others : List Int64) :
    Preserves (Recalls m values) (registerMetric other others) := by
  intro s recalls
  rw [on_registerMetric]
  by_cases fits : others.length = s.entries.length
  · rw [if_pos fits]
    refine ⟨(recalls.change (.register other)).older, ?_⟩
    intro live
    -- The registration ends that of its own name, so a handle that is still live has another one.
    obtain ⟨stood, apart⟩ := (MetricRegistry.lookup_changed _ recalls.older m.name).1 live
    have differ : (m.name == other) = false := by
      rw [MetricRegistry.Change.revokes, beq_eq_false_iff_ne] at apart
      exact beq_eq_false_iff_ne.2 fun same => apart same.symm
    have kept : List.Forall₂ (fun e e' : Entry => e'.metrics.lookup m.name = e.metrics.lookup m.name)
        s.entries (s.entries.zipWith (Entry.withMetric other) others) := by
      refine forall₂_zipWith ?_ fits
      intro e v _
      rw [Entry.withMetric, List.lookup_cons, differ]
    exact forall₂_comp (fun _ _ _ same found => same.trans found) kept.flip (recalls.values stood)
  · rw [if_neg fits]
    exact recalls

theorem stable (m : MetricHandle) (values : List Int64) : Stable (Recalls m values) :=
  .of_retains (fun _ _ => of_retains) registerMetric fun c _ => change c

/-- Right after a registration its values are read by its name. -/
theorem registered (done : (Session.registerMetric name values).on s = (.ok m, t)) :
    m.name = name ∧ t.Recalls m values := by
  rw [on_registerMetric] at done
  by_cases fits : values.length = s.entries.length
  · rw [if_pos fits] at done
    cases done
    exact ⟨rfl, Nat.lt_succ_self _, fun _ => forall₂_zipWith_right (fun _ _ => List.lookup_cons_self) fits⟩
  · rw [if_neg fits] at done
    cases done

theorem metrics (recalls : s.Recalls m values) (live : s.registry.isValid m = true) :
    List.Forall₂ (fun e v => e.metric m.name = v) s.entries values := by
  refine (recalls.values ((s.registry.isValid_iff m).1 live).2).imp ?_
  intro e v found
  rw [Reading.metric, found, Option.getD_some]

/-- While the handle is live, a push of it loads its values. -/
theorem on_push (recalls : s.Recalls m values) (live : s.registry.isValid m = true) :
    (push (.metric m)).on s = (.ok (s.stack.push .single).1,
      s.loaded (.metric m) (s.entries.zipWith Entry.topped values)) := by
  have compiled : (Stat.metric m).compile s.scope = .ok [.metric m.name] := by
    have checked : s.registry.requireValid m = .ok () := if_pos live
    rw [Stat.compile, scope, checked]
    rfl
  have loaded : s.entries.mapM (Entry.load [.metric m.name] 1) =
      .ok (s.entries.zipWith Entry.topped values) := by
    rw [Outcome.mapM_eq_ok_map fun e _ => e.load_metric m.name, Entry.map_topped (recalls.metrics live)]
  rw [push, Action.on_bind_ok (Action.on_get s), compiled]
  simp only [load, Action.on_bind, Action.on_get, Action.on_ofExcept, Action.on_set, loaded, on_occupy,
    Stat.width, Stat.shape, Shape.width]
  rfl

end Recalls

/-- No statistic over a handle that is not live can be pushed. -/
theorem on_push_of_stale (stale : s.registry.isValid m = false) :
    (push (.metric m)).on s = (.error (.staleMetric m.name), s) ∧
      ∀ stat : Stat, .metric m ∈ stat.parts → ∃ e, (push stat).on s = (.error e, s) := by
  have refused : (Stat.metric m).compile s.scope = .error (.staleMetric m.name) := by
    have checked : s.registry.requireValid m = .error (.staleMetric m.name) := by
      rw [MetricRegistry.requireValid, stale]
      rfl
    rw [Stat.compile, scope, checked]
    rfl
  refine ⟨on_push_of_error refused, ?_⟩
  intro stat member
  cases compiled : stat.compile s.scope with
  | error e => exact ⟨e, on_push_of_error compiled⟩
  | ok tokens =>
    obtain ⟨code, here⟩ := Stat.exists_compile_of_part compiled member
    cases here.symm.trans refused

/-- Whatever happens to any number of registries, the handle of a registration is live in a registry exactly
when it was made there and its name has neither been registered again nor dropped since. And whatever is done
to a session before and after a metric is registered, as long as the handle is live every document has the
value that was registered for it, and a push of the handle puts these values on top; once it is not, the push
fails as stale, and nothing that reads the handle can be pushed. -/
theorem metric_handles_exact :
    (∀ (before later : List Registries.Event) (k : Nat) (r : MetricRegistry),
      (Registries.empty.after before).all[k]? = some r →
      ∀ (name : String) (j : Nat) (r' : MetricRegistry),
        (Registries.empty.after (before ++ .change k (.register name) :: later)).all[j]? = some r' →
        (r'.isValid (r.register name).1 = true ↔ j = k ∧ ∀ e ∈ later, e.revokes k name = false)) ∧
    ∀ (id : Nat) (docs : List Document) (settings : Settings) (before later : List Operation)
      (name : String) (values : List Int64) (handle : MetricHandle),
      ((registerMetric name values).on ((new id docs settings).after before)).1 = .ok handle →
      let s := (new id docs settings).after (before ++ .call (.registerMetric name values) :: later)
      s.entries.map (·.doc) = docs ∧
        (s.registry.isValid handle = true →
          List.Forall₂ (fun e v => e.metric name = v) s.entries values ∧
          (push (.metric handle)).on s = (.ok (s.stack.push .single).1,
            s.loaded (.metric handle) (s.entries.zipWith Entry.topped values))) ∧
        (s.registry.isValid handle = false →
          (push (.metric handle)).on s = (.error (.staleMetric name), s) ∧
          ∀ stat : Stat, .metric handle ∈ stat.parts → ∃ e, (push stat).on s = (.error e, s)) := by
  refine ⟨?_, ?_⟩
  · intro before later k r here name j r' there
    exact Registries.isValid_iff before later here name there
  · intro id docs settings before later name values handle done
    obtain ⟨rfl, recalls⟩ := Recalls.registered (Prod.ext done rfl)
    have recalls := (Recalls.stable handle values).after later recalls
    rw [after, List.foldl_append]
    refine ⟨?_, fun live => ⟨recalls.metrics live, recalls.on_push live⟩, on_push_of_stale⟩
    have regular := Regular.after id docs settings
      (before ++ .call (.registerMetric handle.name values) :: later)
    rw [after, List.foldl_append] at regular
    exact regular.docs

/-- A registration that stays and one that is replaced. Two documents get metrics after it: one under its
name with a value too few, and one under another name. -/
theorem metric_handles_exact_of_replaced :
    let events : List Registries.Event := [.opened, .opened] ++ .change 0 (.register "m") ::
      [.change 1 (.register "m"), .change 0 (.register "n")]
    let others : List Operation := [.call (.registerMetric "m" [1]), .load [.literal 9] 1,
      .call (.registerMetric "n" [0, 0])]
    let opened := new 0 [⟨[]⟩, ⟨[]⟩] .standard
    let kept := opened.after ([] ++ .call (.registerMetric "m" [4, 6]) :: others)
    let replaced := opened.after ([] ++ .call (.registerMetric "m" [4, 6]) :: [.call (.register "m")])
    (∃ r, (Registries.empty.after events).all[0]? = some r ∧ r.isValid ⟨"m", 1, 1⟩ = true) ∧
      (∃ r, (Registries.empty.after events).all[1]? = some r ∧ r.isValid ⟨"m", 1, 1⟩ = false) ∧
      (∃ t, (push (.metric ⟨"m", 0, 1⟩)).on kept = (.ok (.single ⟨0, 0, 1⟩), t) ∧
        t.entries.map (·.slots) = [[9, 4], [9, 6]]) ∧
      (push (.metric ⟨"m", 0, 1⟩)).on replaced = (.error (.staleMetric "m"), replaced) := by
  intro events others opened kept replaced
  obtain ⟨lives, loads⟩ := metric_handles_exact
  have stands := lives [.opened, .opened] [.change 1 (.register "m"), .change 0 (.register "n")] 0
    (.new 1) rfl "m"
  have first (later : List Operation) :=
    loads 0 [⟨[]⟩, ⟨[]⟩] .standard [] later "m" [4, 6] ⟨"m", 0, 1⟩ rfl
  refine ⟨⟨_, rfl, (stands 0 _ rfl).2 ⟨rfl, by decide⟩⟩, ⟨_, rfl, ?_⟩, ?_, ?_⟩
  · exact Bool.eq_false_iff.2 fun live => absurd ((stands 1 _ rfl).1 live).1 (by decide)
  · obtain ⟨-, live, -⟩ := first others
    obtain ⟨-, pushed⟩ := live (by decide +kernel)
    refine ⟨_, pushed, ?_⟩
    decide +kernel
  · obtain ⟨-, -, stale⟩ := first [.call (.register "m")]
    exact (stale (by decide +kernel)).1

end Session
end Rollup
