import Rollup.Proofs.Grouping.Mirroring
import Rollup.Proofs.Query.Execution

namespace Rollup

namespace Query
open Session (Mirrors)
variable {σ : Nat → Nat}

/-- The same query with the handles of another session. -/
def readdressed (σ : Nat → Nat) (q : Query) : Query where
  stats := q.stats.map fun column => (column.1, column.2.readdressed σ)
  groupings := q.groupings.map (·.readdressed σ)

structure Integral (q : Query) : Prop where
  stats : ∀ column ∈ q.stats, column.2.Unscaled
  groupings : ∀ g ∈ q.groupings, g.Integral

theorem readdressed_id (q : Query) : q.readdressed id = q := by
  have stats : (fun column : String × Stat => (column.1, column.2.readdressed id)) = id := by
    funext column
    rw [Stat.readdressed_id]
    rfl
  have groupings : (fun g : Grouping => g.readdressed id) = id := funext Grouping.readdressed_id
  rw [readdressed, stats, groupings, List.map_id, List.map_id]

theorem layout_readdressed (q : Query) : (q.readdressed σ).layout = q.layout := by
  have names : (q.readdressed σ).stats.map (·.1) = q.stats.map (·.1) := List.map_map
  have last : (q.readdressed σ).groupings.getLast? = q.groupings.getLast?.map (·.readdressed σ) :=
    List.getLast?_map
  rw [layout, layout, names, last]
  rcases q.groupings.getLast? with _ | (f | p | d) <;> rfl

section
variable (apart : Function.Injective σ)
include apart

theorem mirrors_pushAll {columns : List (String × Stat)} (unscaled : ∀ column ∈ columns, column.2.Unscaled) :
    Mirrors σ (fun refs refs' => refs' = refs.map (·.readdressed σ)) (pushAll columns)
      (pushAll (columns.map fun column => (column.1, column.2.readdressed σ))) := by
  induction columns with
  | nil => exact .pure rfl
  | cons column rest ih =>
    obtain ⟨name, stat⟩ := column
    rw [List.forall_mem_cons] at unscaled
    refine .bind (.push apart unscaled.1) fun ref ref' first => .bind (ih unscaled.2) fun refs refs' later => ?_
    rw [first, later]
    exact .pure rfl

theorem mirrors_regroupAll {groupings : List Grouping} (integral : ∀ g ∈ groupings, g.Integral)
    (deadline : Deadline) (keys : KeyMap) :
    Mirrors σ Eq (regroupAll deadline groupings keys)
      (regroupAll deadline (groupings.map (·.readdressed σ)) keys) := by
  induction groupings generalizing keys with
  | nil => exact .pure rfl
  | cons g rest ih =>
    rw [List.forall_mem_cons] at integral
    have staged : Mirrors σ Eq (Action.beside (Stage.new g) (Stage.regroup keys))
        (Action.beside (Stage.new (g.readdressed σ)) (Stage.regroup keys)) := by
      intro s t mirrored
      rw [Stage.on_beside_regroup, Stage.on_beside_regroup]
      exact Grouping.mirrors_regroup apart integral.1 keys s t mirrored
    refine .bind staged fun children children' same => .bind (.ofExcept (.refl _)) fun _ _ _ => ?_
    rw [same]
    exact ih integral.2 children'

variable {q : Query} (integral : q.Integral)
include integral

theorem mirrors_run (deadline : Deadline) :
    Mirrors σ Eq (q.run deadline) ((q.readdressed σ).run deadline) := by
  have final : (q.readdressed σ).groupings.getLast? = q.groupings.getLast?.map (·.readdressed σ) :=
    List.getLast?_map
  have inner : (q.readdressed σ).groupings.dropLast = q.groupings.dropLast.map (·.readdressed σ) :=
    List.map_dropLast.symm
  unfold run
  rw [layout_readdressed, final, inner]
  refine .bind (.ofExcept (.refl _)) fun layout layout' laid =>
    .bind (mirrors_pushAll apart integral.stats) fun refs refs' handles => ?_
  rw [laid, handles]
  cases last : q.groupings.getLast? with
  | none =>
    refine .bind .get fun s t mirrored => ?_
    have read : ungroupedRows .initial (refs.map (·.readdressed σ)) t = ungroupedRows .initial refs s := by
      rw [ungroupedRows, ungroupedRows, mirrored.mapM_groupStats apart]
    rw [read]
    exact .bind (.ofExcept (.refl _)) fun rows rows' same => .pure (congrArg (ResultTable.mk layout'.names) same)
  | some g =>
    have collects (keys : KeyMap) :
        Mirrors σ Eq (Action.beside (Stage.new g) (Stage.collect keys refs deadline))
          (Action.beside (Stage.new (g.readdressed σ))
            (Stage.collect keys (refs.map (·.readdressed σ)) deadline)) := by
      intro s t mirrored
      rw [Stage.on_beside_collect, Stage.on_beside_collect]
      exact Grouping.mirrors_collect apart (integral.groupings g (List.mem_of_getLast? last)) keys refs
        deadline s t mirrored
    have regroups := mirrors_regroupAll apart
      (fun g member => integral.groupings g (List.dropLast_subset _ member)) deadline .initial
    refine .bind regroups fun keys keys' same => ?_
    rw [same]
    refine .bind (collects keys') fun listed listed' same => ?_
    rw [same]
    exact .bind (.ofExcept (.refl _)) fun rows rows' same => .pure (congrArg (ResultTable.mk layout'.names) same)

theorem mirrors_execute (running : Settings) :
    Mirrors σ Eq (q.execute running) ((q.readdressed σ).execute running) := by
  have size {s t : Session} (mirrored : s.Mirrored σ t) : t.stack.size = s.stack.size := by
    rw [mirrored.stack]
    rfl
  have unwinds (n : Nat) : Mirrors σ Eq (unwind n) (unwind n) := by
    induction n with
    | zero => exact .pure rfl
    | succ n ih => exact .bind .pop fun _ _ _ => ih
  refine .bind (.ofExcept (.refl _)) fun _ _ _ => .bind .get fun s t before => ?_
  refine .bind (.attempt (mirrors_run apart integral _)) fun result result' ended => .bind .get fun u v after => ?_
  rw [size before, size after]
  refine .bind (.attempt (unwinds _)) fun unwound unwound' popped => ?_
  exact .bind (.ofExcept ended) fun table table' same => .bind (.ofExcept popped) fun _ _ _ => .pure same

end

/-- Documents in which integers are decimal texts instead, two sessions that are opened over the two lists and
that the same is registered in, and the same query on both, but for the ids in its handles. If the query
scales no decimals and its field groupings split by integers, then both executions return the same table or
fail alike, and leave each document in the same group. With the same ids it is the same query on both
(`readdressed_id`), and the handles of whatever is registered next differ in their ids alone. -/
theorem execute_respelled (apart : Function.Injective σ) {docs docs' : List Document}
    (respelled : List.Forall₂ Document.Respelled docs docs') {q : Query} (integral : q.Integral) (id : Nat)
    (opening running : Settings) (supplies : List Session.Supply) :
    let s := (Session.new id docs opening).supplied supplies
    let t := (Session.new (σ id) docs' opening).supplied supplies
    (∀ v : Int64, (Term.text (toString v)).asInt = some v) ∧
      (((q.readdressed σ).execute running).on t).1 = ((q.execute running).on s).1 ∧
      (((q.readdressed σ).execute running).on t).2.groups = ((q.execute running).on s).2.groups ∧
      ∀ name values, Outcome.Related (fun m m' => m' = m.readdressed σ)
        ((Session.registerMetric name values).on s).1 ((Session.registerMetric name values).on t).1 := by
  intro s t
  have mirrored : s.Mirrored σ t := (Session.mirrored_new respelled id opening).supplied supplies
  obtain ⟨outcome, after⟩ := mirrors_execute apart integral running s t mirrored
  refine ⟨Term.asInt_toString, outcome.eq, after.toAlike.groups, ?_⟩
  intro name values
  exact (Mirrors.registerMetric name values s t mirrored).1

def ticket (x : Term) (tag : String) : Document := (Document.empty.set "x" x).set "tag" (.text tag)

/-- Totals of a text's occurrences, of a metric and of the field itself, for the two terms with the highest
of the latter. -/
def ticketTotals (registry : Nat) : Query :=
  ⟨[("fives", .hasText "x" "5"), ("weights", .metric ⟨"weight", registry, 1⟩), ("x", .intField "x")],
    [.field ⟨⟨"x", .int⟩, 2, .intField "x", false, false⟩]⟩

/-- Of three tickets, the first and the last have their numbers written out in the second session. -/
theorem execute_respelled_of_tickets :
    let weights : List Session.Supply := [.metric "weight" [1, 2, 4]]
    let numbers := (Session.new 0 [ticket (.int 5) "a", ticket (.int 7) "b", ticket (.int 5) "c"]
      .standard).supplied weights
    let texts := (Session.new 1 [ticket (.text "5") "a", ticket (.int 7) "b", ticket (.text "5") "c"]
      .standard).supplied weights
    (((ticketTotals 0).execute .standard).on numbers).1 = .ok ⟨["fives", "weights", "x"],
        [⟨.child .root (.int 5), [2, 5, 10]⟩, ⟨.child .root (.int 7), [0, 2, 7]⟩]⟩ ∧
      (((ticketTotals 1).execute .standard).on texts).1 = (((ticketTotals 0).execute .standard).on numbers).1 ∧
      (((ticketTotals 1).execute .standard).on texts).2.groups =
        (((ticketTotals 0).execute .standard).on numbers).2.groups := by
  intro weights numbers texts
  have text : toString (5 : Int64) = "5" := by decide +kernel
  have five (tag : String) : (ticket (.int 5) tag).Respelled (ticket (.text "5") tag) :=
    text ▸ ((Document.Respelled.refl .empty).respell "x" 5).set "tag" (.text tag)
  have respelled : List.Forall₂ Document.Respelled
      [ticket (.int 5) "a", ticket (.int 7) "b", ticket (.int 5) "c"]
      [ticket (.text "5") "a", ticket (.int 7) "b", ticket (.text "5") "c"] :=
    .cons (five "a") (.cons (.refl _) (.cons (five "c") .nil))
  have integral : (ticketTotals 0).Integral := ⟨by decide, by decide⟩
  obtain ⟨-, outcome, groups, -⟩ := execute_respelled Nat.succ_injective respelled integral 0 .standard
    .standard weights
  exact ⟨by decide +kernel, outcome, groups⟩

end Query
end Rollup
