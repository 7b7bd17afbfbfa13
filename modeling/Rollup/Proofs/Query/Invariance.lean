import Rollup.Proofs.Grouping.Measure
import Rollup.Proofs.Liveness.Registration
import Rollup.Proofs.Query.Execution

namespace Rollup

namespace Session
variable {α β : Type} {P : Session → Prop}

/-- An action that leads from a session with a property to one with it, also when it fails. -/
def Preserves (P : Session → Prop) (x : Action Session α) : Prop := ∀ s, P s → P (x.on s).2

namespace Preserves

theorem pure (a : α) : Preserves P (pure a : Action Session α) := fun _ h => h

theorem throw (e : Fault) : Preserves P (throw e : Action Session α) := fun _ h => h

theorem ofExcept (x : Except Fault α) : Preserves P (Action.ofExcept x) := fun _ h => h

theorem get : Preserves P get := fun _ h => h

theorem attempt {x : Action Session α} (kept : Preserves P x) : Preserves P (Action.attempt x) := kept

theorem bind {x : Action Session α} {f : α → Action Session β} (first : Preserves P x)
    (next : ∀ a, Preserves P (f a)) : Preserves P (x >>= f) := by
  intro s h
  have here := first s h
  rw [Action.on_bind]
  rcases result : x.on s with ⟨outcome, t⟩
  rw [result] at here
  cases outcome with
  | ok a => exact next a t here
  | error e => exact here

end Preserves

/-- A property of sessions that all basic actions keep: loading values and dropping them, taking handles and
giving them up, moving documents between groups, and registering metrics. -/
structure Stable (P : Session → Prop) : Prop where
  load : ∀ tokens width, Preserves P (load tokens width)
  unload : ∀ width, Preserves P (unload width)
  occupy : ∀ shape, Preserves P (occupy shape)
  release : Preserves P release
  split : ∀ f keys choice, Preserves P (split f keys choice)
  keep : ∀ keys, Preserves P (keep keys)
  assign : ∀ groups, Preserves P (assign groups)
  registerMetric : ∀ name values, Preserves P (registerMetric name values)
  change : ∀ c s, P s → P { s with registry := s.registry.changed c }
  breakAfter : ∀ records s, P s → P { s with failAfter := records }

namespace Stable
variable (stable : Stable P)
include stable

theorem push (stat : Stat) : Preserves P (push stat) :=
  .bind .get fun _ => .bind (.ofExcept _) fun tokens =>
    .bind (stable.load tokens stat.width) fun _ => stable.occupy stat.shape

theorem pop : Preserves P pop := .bind stable.release stable.unload

theorem splitTopK (f : Field) (keys : KeyMap) (k : Nat) (sortStat : Stat) (bottom : Bool) :
    Preserves P (splitTopK f keys k sortStat bottom) :=
  .bind (stable.push sortStat) fun _ => .bind .get fun _ =>
    .bind stable.pop fun _ => stable.split f keys _

theorem splitExplode (f : Field) (keys : KeyMap) : Preserves P (splitExplode f keys) :=
  .bind .get fun _ => stable.split f keys _

theorem regroupField (g : FieldGrouping) (keys : KeyMap) : Preserves P (g.regroup keys) := by
  unfold FieldGrouping.regroup
  cases g.mode with
  | topK k => exact stable.splitTopK g.field keys k g.sortStat g.bottom
  | passthrough => exact stable.keep keys
  | explode => exact stable.splitExplode g.field keys

theorem measure (stat : Stat) (look : StatRef → Session → Except Fault α) :
    Preserves P (measure stat look) :=
  .bind (stable.push stat) fun _ => .bind .get fun _ => .bind (.attempt stable.pop) fun _ =>
    .bind (.ofExcept _) fun _ => .bind (.ofExcept _) fun _ => .pure _

theorem collectField (g : FieldGrouping) (keys : KeyMap) (refs : List StatRef) (deadline : Deadline) :
    Preserves P (g.collect keys refs deadline) := by
  unfold FieldGrouping.collect
  by_cases empty : keys.isEmpty
  · rw [if_pos empty]
    exact .pure _
  · rw [if_neg empty]
    cases g.mode with
    | topK k => exact .bind (stable.measure g.sortStat (g.ranked k keys refs deadline)) fun _ => .pure _
    | passthrough => exact .bind .get fun _ => .pure _
    | explode => exact .bind .get fun _ => .bind (.ofExcept _) fun _ => .pure _

theorem collectPercentile (g : PercentileGrouping) (keys : KeyMap) (refs : List StatRef)
    (deadline : Deadline) : Preserves P (g.collect keys refs deadline) := by
  rw [g.collect_eq]
  exact .bind (stable.measure _ _) fun _ => .bind .get fun _ => .ofExcept _

theorem regroup (g : Grouping) (keys : KeyMap) : Preserves P (g.regroup keys) := by
  cases g with
  | field f => exact stable.regroupField f keys
  | percentile p => exact .throw _
  | diff d => exact .throw _

theorem collect (g : Grouping) (keys : KeyMap) (refs : List StatRef) (deadline : Deadline) :
    Preserves P (g.collect keys refs deadline) := by
  refine .bind .get fun s => .bind ?_ fun _ => ?_
  · intro t h
    show P ((refs.forM fun ref => Action.ofExcept (s.stack.requireValid ref)).on t).2
    rw [Action.on_forM_ofExcept]
    exact h
  · cases g with
    | field f => exact stable.collectField f keys refs deadline
    | percentile p => exact stable.collectPercentile p keys refs deadline
    | diff d => exact .throw _

theorem pushAll (columns : List (String × Stat)) : Preserves P (Query.pushAll columns) := by
  induction columns with
  | nil => exact .pure []
  | cons column rest ih =>
    obtain ⟨name, stat⟩ := column
    exact .bind (stable.push stat) fun _ => .bind ih fun _ => .pure _

theorem regroupAll (deadline : Deadline) (groupings : List Grouping) (keys : KeyMap) :
    Preserves P (Query.regroupAll deadline groupings keys) := by
  induction groupings generalizing keys with
  | nil => exact .pure keys
  | cons g rest ih =>
    have staged : Preserves P (Action.beside (Stage.new g) (Stage.regroup keys)) := by
      intro s h
      rw [Stage.on_beside_regroup]
      exact stable.regroup g keys s h
    exact .bind staged fun children => .bind (.ofExcept _) fun _ => ih children

theorem run (q : Query) (deadline : Deadline) : Preserves P (q.run deadline) := by
  refine .bind (.ofExcept _) fun layout => .bind (stable.pushAll q.stats) fun refs => ?_
  cases q.groupings.getLast? with
  | none => exact .bind .get fun _ => .bind (.ofExcept _) fun _ => .pure _
  | some last =>
    have staged (keys : KeyMap) :
        Preserves P (Action.beside (Stage.new last) (Stage.collect keys refs deadline)) := by
      intro s h
      rw [Stage.on_beside_collect]
      exact stable.collect last keys refs deadline s h
    exact .bind (stable.regroupAll deadline _ _) fun keys => .bind (staged keys) fun _ =>
      .bind (.ofExcept _) fun _ => .pure _

theorem unwind (n : Nat) : Preserves P (Query.unwind n) := by
  induction n with
  | zero => exact .pure ()
  | succ n ih => exact .bind stable.pop fun _ => ih

theorem execute (q : Query) (settings : Settings) : Preserves P (q.execute settings) :=
  .bind (.ofExcept _) fun _ => .bind .get fun _ => .bind (.attempt (stable.run q _)) fun _ =>
    .bind .get fun _ => .bind (.attempt (stable.unwind _)) fun _ =>
      .bind (.ofExcept _) fun _ => .bind (.ofExcept _) fun _ => .pure _

end Stable
end Session
end Rollup
