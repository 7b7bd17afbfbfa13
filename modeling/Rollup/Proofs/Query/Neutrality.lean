import Rollup.Proofs.Grouping.Levels
import Rollup.Proofs.Grouping.Measure
import Rollup.Proofs.Query.Execution

namespace Rollup

namespace Session
variable {α β : Type}

theorem Regrouped.raised {s t : Session} (moved : s.Regrouped t)
    (grouped : 0 < s.groupCount → 0 < t.groupCount) : s.Raised [] t where
  readings := moved.readings ▸ (Raised.refl s).readings
  width := moved.width
  stack := moved.stack ▸ .refl _
  groupCount := grouped
  groupLimit := moved.groupLimit
  failAfter := moved.failAfter

/-- An action that leaves the stack and the values of every session in step as they are, also when it
fails; only the groups and the numbers of later pushes may change. -/
def Keeps (x : Action Session α) : Prop := ∀ s : Session, s.InStep → s.Raised [] (x.on s).2

namespace Keeps

theorem pure (a : α) : Keeps (pure a : Action Session α) := fun s _ => .refl s

theorem ofExcept (x : Except Fault α) : Keeps (Action.ofExcept x) := fun s _ => .refl s

theorem throw (e : Fault) : Keeps (throw e : Action Session α) := fun s _ => .refl s

theorem get : Keeps get := fun s _ => .refl s

/-- What lies on top after the first part of a sequence stays there when the rest keeps it. -/
theorem after {widths : List Nat} {x : Action Session α} {f : α → Action Session β} {s : Session}
    (inStep : s.InStep) (first : s.Raised widths (x.on s).2) (next : ∀ a, Keeps (f a)) :
    s.Raised widths ((x >>= f).on s).2 := by
  rw [Action.on_bind]
  rcases outcome : x.on s with ⟨result, t⟩
  rw [outcome] at first
  cases result with
  | ok a => exact first.trans (next a t (first.inStep inStep))
  | error e => exact first

theorem bind {x : Action Session α} {f : α → Action Session β} (first : Keeps x)
    (next : ∀ a, Keeps (f a)) : Keeps (x >>= f) :=
  fun s inStep => after inStep (first s inStep) next

/-- What pushes for its own use is to leave the session below as it is. -/
theorem push_bind {stat : Stat} {f : StatRef → Action Session α}
    (next : ∀ (s : Session) (entries : List Entry), s.InStep →
      List.Forall₂ (Entry.Loaded stat.width) s.entries entries →
      ∀ ref, s.Raised [] ((f ref).on (s.loaded stat entries)).2) :
    Keeps (push stat >>= f) := by
  intro s inStep
  rcases on_push_cases stat s with ⟨e, failed⟩ | ⟨entries, each, pushed⟩
  · rw [Action.on_bind_error failed]
    exact .refl s
  · rw [Action.on_bind_ok pushed]
    exact next s entries inStep each _

/-- The pop of what was just pushed succeeds, and what follows starts from the session below. -/
theorem after_pop {stat : Stat} {f : Unit → Action Session α} (next : Keeps (f ())) {s : Session}
    {entries : List Entry} (inStep : s.InStep)
    (each : List.Forall₂ (Entry.Loaded stat.width) s.entries entries) :
    s.Raised [] ((pop >>= f).on (s.loaded stat entries)).2 := by
  rw [Action.on_bind_ok (on_pop_loaded inStep.slots each)]
  exact (Raised.restamped s stat.width).trans (next _ (inStep.restamped stat.width))

/-- What is read with a statistic pushed leaves only the numbers of later pushes changed. -/
theorem measure (stat : Stat) (look : StatRef → Session → Except Fault α) : Keeps (measure stat look) := by
  intro s inStep
  cases values : s.evaluated stat with
  | error e =>
    rw [on_measure_of_error look values]
    exact .refl s
  | ok entries =>
    rw [on_measure look inStep values]
    exact .restamped s stat.width

end Keeps

section Splits
variable (f : Field) (keys : KeyMap)

theorem keeps_split (choice : Choice) : Keeps (split f keys choice) := by
  intro s _
  rw [on_split]
  by_cases full : s.groupLimit < choice.size + 1
  · rw [if_pos full]
    exact .refl s
  · rw [if_neg full]
    exact (regrouped_splitInto f _ s).raised fun _ => Nat.succ_pos _

theorem keeps_keep : Keeps (keep keys) := by
  intro s _
  obtain ⟨t, kept, moved⟩ := on_keep keys s
  have grouped : ((keep keys).on s).2.groupCount = s.groupCount := rfl
  rw [kept] at grouped ⊢
  exact moved.raised fun positive => grouped.symm ▸ positive

theorem keeps_splitTopK (k : Nat) (sortStat : Stat) (bottom : Bool) :
    Keeps (splitTopK f keys k sortStat bottom) := by
  refine .push_bind fun s entries inStep each ref => ?_
  rw [Action.on_bind_ok (Action.on_get _)]
  exact Keeps.after_pop (keeps_split f keys _) inStep each

theorem keeps_splitExplode : Keeps (splitExplode f keys) :=
  .bind .get fun _ => keeps_split f keys _

end Splits
end Session

open Session

theorem FieldGrouping.keeps_collect (g : FieldGrouping) (keys : KeyMap) (refs : List StatRef)
    (deadline : Deadline) : Keeps (g.collect keys refs deadline) := by
  unfold collect
  by_cases empty : keys.isEmpty
  · rw [if_pos empty]
    exact .pure _
  · rw [if_neg empty]
    cases g.mode with
    | topK k => exact .bind (Keeps.measure g.sortStat (g.ranked k keys refs deadline)) fun _ => .pure _
    | passthrough => exact .bind .get fun _ => .pure _
    | explode => exact .bind .get fun _ => .bind (.ofExcept _) fun _ => .pure _

theorem PercentileGrouping.keeps_collect (g : PercentileGrouping) (keys : KeyMap)
    (refs : List StatRef) (deadline : Deadline) : Keeps (g.collect keys refs deadline) := by
  rw [collect_eq]
  exact .bind (.measure _ _) fun _ => .bind .get fun _ => .ofExcept _

namespace Grouping

theorem keeps_regroup (g : Grouping) (keys : KeyMap) : Keeps (g.regroup keys) := by
  cases g with
  | field f =>
    show Keeps (f.regroup keys)
    unfold FieldGrouping.regroup
    cases f.mode with
    | topK k => exact keeps_splitTopK f.field keys k f.sortStat f.bottom
    | passthrough => exact keeps_keep keys
    | explode => exact keeps_splitExplode f.field keys
  | percentile p => exact .throw _
  | diff d => exact .throw _

theorem keeps_collect (g : Grouping) (keys : KeyMap) (refs : List StatRef) (deadline : Deadline) :
    Keeps (g.collect keys refs deadline) := by
  refine .bind .get fun s => .bind ?_ fun _ => ?_
  · intro t inStep
    show t.Raised [] ((refs.forM fun ref => Action.ofExcept (s.stack.requireValid ref)).on t).2
    rw [Action.on_forM_ofExcept]
    exact .refl t
  · cases g with
    | field f => exact f.keeps_collect keys refs deadline
    | percentile p => exact p.keeps_collect keys refs deadline
    | diff d => exact .throw _

end Grouping

namespace Query

theorem keeps_regroupAll (deadline : Deadline) (groupings : List Grouping) (keys : KeyMap) :
    Keeps (regroupAll deadline groupings keys) := by
  induction groupings generalizing keys with
  | nil => exact .pure keys
  | cons g rest ih =>
    have staged : Keeps (Action.beside (Stage.new g) (Stage.regroup keys)) := by
      intro s inStep
      rw [Stage.on_beside_regroup]
      exact g.keeps_regroup keys s inStep
    exact .bind staged fun children => .bind (.ofExcept _) fun _ => ih children

/-- Pushing the statistics of a query leaves some of them on top, all of them unless one fails. -/
theorem raised_pushAll (columns : List (String × Stat)) {s : Session} (inStep : s.InStep) :
    ∃ widths, s.Raised widths ((pushAll columns).on s).2 := by
  induction columns generalizing s with
  | nil => exact ⟨[], .refl s⟩
  | cons column rest ih =>
    obtain ⟨name, stat⟩ := column
    rw [pushAll]
    rcases on_push_cases stat s with ⟨e, failed⟩ | ⟨entries, each, pushed⟩
    · rw [Action.on_bind_error failed]
      exact ⟨[], .refl s⟩
    · have raised := raised_loaded each
      have stepped := raised.inStep inStep
      obtain ⟨widths, above⟩ := ih stepped
      rw [Action.on_bind_ok pushed]
      exact ⟨_, raised.trans (Keeps.after stepped above fun refs => .pure _)⟩

/-- Wherever a run ends, what lies on top of the session is what the query pushed. -/
theorem raised_run (q : Query) (deadline : Deadline) {s : Session} (inStep : s.InStep) :
    ∃ widths, s.Raised widths ((q.run deadline).on s).2 := by
  unfold run
  cases layout : q.layout with
  | error e =>
    rw [Action.on_bind_error (Action.on_ofExcept _ s)]
    exact ⟨[], .refl s⟩
  | ok layout =>
    rw [Action.on_bind_ok (Action.on_ofExcept _ s)]
    obtain ⟨widths, raised⟩ := raised_pushAll q.stats inStep
    refine ⟨widths, Keeps.after inStep raised fun refs => ?_⟩
    cases q.groupings.getLast? with
    | none => exact .bind .get fun _ => .bind (.ofExcept _) fun _ => .pure _
    | some last =>
      refine .bind (keeps_regroupAll deadline _ _) fun keys => .bind ?_ fun listed => ?_
      · intro s inStep
        rw [Stage.on_beside_collect]
        exact last.keeps_collect keys refs deadline s inStep
      · exact .bind (.ofExcept _) fun _ => .pure _

/-- What lies on top of a session is unwound one statistic after the other. -/
theorem on_unwind_of_raised {widths : List Nat} {s t : Session} (inStep : s.InStep)
    (raised : s.Raised widths t) :
    ∃ u, (unwind widths.length).on t = (.ok (), u) ∧ s.Raised [] u := by
  induction widths generalizing t with
  | nil => exact ⟨t, rfl, raised⟩
  | cons w rest ih =>
    obtain ⟨u, popped, lower⟩ := raised.on_pop inStep
    obtain ⟨v, unwound, bottom⟩ := ih lower
    refine ⟨v, ?_, bottom⟩
    rw [List.length_cons, unwind, Action.on_bind_ok popped, unwound]

theorem keeps_execute (q : Query) (settings : Settings) : Keeps (q.execute settings) := by
  intro s inStep
  unfold execute
  cases valid : settings.validate with
  | error e =>
    rw [Action.on_bind_error (Action.on_ofExcept _ s)]
    exact .refl s
  | ok checked =>
    obtain ⟨widths, raised⟩ := q.raised_run (.ofSettings settings) inStep
    obtain ⟨u, unwound, bottom⟩ := on_unwind_of_raised inStep raised
    have size : ((q.run (.ofSettings settings)).on s).2.stack.size - s.stack.size = widths.length := by
      rw [raised.stack.size, Nat.add_sub_cancel]
    have popped : (Action.attempt (unwind
        (((q.run (.ofSettings settings)).on s).2.stack.size - s.stack.size))).on
          ((q.run (.ofSettings settings)).on s).2 = (.ok (.ok ()), u) := by
      rw [size, Action.on_attempt, unwound]
    rw [Action.on_bind_ok (Action.on_ofExcept _ s), Action.on_bind_ok (Action.on_get s),
      Action.on_bind_ok (Action.on_attempt _ s), Action.on_bind_ok (Action.on_get _),
      Action.on_bind_ok popped]
    have reported : Keeps (do
        let table ← Action.ofExcept ((q.run (.ofSettings settings)).on s).1
        Action.ofExcept (.ok ())
        return table) :=
      .bind (.ofExcept _) fun table => .bind (.ofExcept _) fun _ => .pure table
    exact bottom.trans (reported u (bottom.inStep inStep))

/-- Whatever a query is and however it ends, it leaves the stack and the values of the documents as they
were, but for the numbers of later pushes. So a handle is live afterwards exactly when it was before, and
none that a push has returned since is, nor any slot of it. -/
theorem execute_neutral (q : Query) (settings : Settings) {s : Session} (inStep : s.InStep)
    (reached : s.stack.Reached) :
    let t := ((q.execute settings).on s).2
    (∃ n, t.stack = s.stack.advanced n) ∧ t.width = s.width ∧ t.readings = s.readings ∧
      (∀ ref, t.stack.isValid ref = s.stack.isValid ref) ∧
      ∀ (u u' : Session) (stat : Stat) (ref : StatRef),
        s.stack.nextGeneration ≤ u.stack.nextGeneration → (push stat).on u = (.ok ref, u') →
        t.stack.isValid ref = false ∧ ∀ slot ∈ ref.slots, t.stack.isValid (.single slot) = false := by
  intro t
  have kept : s.Raised [] t := q.keeps_execute settings s inStep
  obtain ⟨n, stack⟩ := kept.stack.eq_advanced
  have same (ref : StatRef) : t.stack.isValid ref = s.stack.isValid ref := by
    rw [stack, StatStack.isValid_advanced]
  refine ⟨⟨n, stack⟩, kept.width, kept.readings_eq, same, ?_⟩
  intro u u' stat ref later pushed
  obtain ⟨rfl, -⟩ := eq_loaded_of_on_push pushed
  refine ⟨?_, fun slot member => ?_⟩
  · rw [same]
    exact reached.isValid_later later stat.shape
  · rw [same]
    exact reached.slotIsLive_later later stat.shape member

/-- The best term by a statistic of its own, and then a percentile. -/
def ranked : Query where
  stats := [("share", .combination .divide (.slot ⟨0, 0, 1⟩) .count)]
  groupings := [.field ⟨⟨"x", .int⟩, 1, .intField "x", false, false⟩, .percentile ⟨.count, []⟩]

/-- A time limit that has passed before the first look at the clock. -/
def hurried : Settings := { Settings.standard with timeout := some 0 }

theorem execute_neutral_of_ranked : counted.InStep ∧ counted.stack.Reached ∧
    ((ranked.execute hurried).on counted).1 = .error .deadlineExceeded ∧
    ((ranked.execute hurried).on counted).2.readings = counted.readings ∧
    ((ranked.execute hurried).on counted).2.stack.isValid (.single ⟨0, 0, 1⟩) = true ∧
    ((ranked.execute hurried).on counted).2.stack.isValid (.single ⟨0, 1, 2⟩) = false := by
  have inStep : counted.InStep := ⟨rfl, by decide⟩
  have reached : counted.stack.Reached := .push (.new 0) .single
  obtain ⟨-, -, readings, same, stale⟩ := execute_neutral ranked hurried inStep reached
  have pushed : (push .count).on counted = (.ok (.single ⟨0, 1, 2⟩), counted.pushed .count) := rfl
  refine ⟨inStep, reached, by decide +kernel, readings, ?_, ?_⟩
  · rw [same]
    rfl
  · exact (stale counted _ .count _ (Nat.le_refl _) pushed).1

end Query
end Rollup
