import Rollup.Proofs.Session.Mirroring

namespace Rollup

variable {σ : Nat → Nat}

def FieldGrouping.readdressed (σ : Nat → Nat) (g : FieldGrouping) : FieldGrouping :=
  { g with sortStat := g.sortStat.readdressed σ }

def PercentileGrouping.readdressed (σ : Nat → Nat) (g : PercentileGrouping) : PercentileGrouping :=
  { g with countStat := g.countStat.readdressed σ }

def DiffGrouping.readdressed (σ : Nat → Nat) (g : DiffGrouping) : DiffGrouping :=
  { g with filter1 := g.filter1.readdressed σ, filter2 := g.filter2.readdressed σ }

def Grouping.readdressed (σ : Nat → Nat) : Grouping → Grouping
  | field g => field (g.readdressed σ)
  | percentile g => percentile (g.readdressed σ)
  | diff g => diff (g.readdressed σ)

theorem Grouping.readdressed_id (g : Grouping) : g.readdressed id = g := by
  cases g with
  | field f => rw [readdressed, FieldGrouping.readdressed, Stat.readdressed_id]
  | percentile p => rw [readdressed, PercentileGrouping.readdressed, Stat.readdressed_id]
  | diff d => rw [readdressed, DiffGrouping.readdressed, Stat.readdressed_id, Stat.readdressed_id]

/-- A grouping that scales no decimals and splits by integers. Percentiles are over integers in any case, and
a difference is refused whatever it is made of. -/
def Grouping.Integral : Grouping → Prop
  | field g => g.field.view = .int ∧ g.sortStat.Unscaled
  | percentile g => g.countStat.Unscaled
  | diff _ => True

instance : DecidablePred Grouping.Integral
  | .field g => inferInstanceAs (Decidable (g.field.view = .int ∧ g.sortStat.Unscaled))
  | .percentile g => inferInstanceAs (Decidable g.countStat.Unscaled)
  | .diff _ => inferInstanceAs (Decidable True)

theorem StatRef.alike_map_readdressed (σ : Nat → Nat) (refs : List StatRef) :
    List.Forall₂ StatRef.Alike refs (refs.map (·.readdressed σ)) :=
  List.forall₂_map_right_iff.2 (List.forall₂_same.2 fun ref _ => ref.alike_readdressed σ)

namespace Session.Mirrored
variable (apart : Function.Injective σ) {s t : Session} (mirrored : s.Mirrored σ t)
include apart mirrored

theorem requireValid (ref : StatRef) :
    t.stack.requireValid (ref.readdressed σ) = s.stack.requireValid ref := by
  rw [mirrored.stack, s.stack.requireValid_readdressed apart]

theorem forM_requireValid (refs : List StatRef) :
    (refs.map (·.readdressed σ)).forM t.stack.requireValid = refs.forM s.stack.requireValid := by
  induction refs with
  | nil => rfl
  | cons ref rest ih =>
    show (t.stack.requireValid (ref.readdressed σ) >>= fun _ => (rest.map _).forM _) =
      s.stack.requireValid ref >>= fun _ => rest.forM _
    rw [mirrored.requireValid apart, ih]

theorem mapM_groupStats (refs : List StatRef) :
    (refs.map (·.readdressed σ)).mapM t.groupStats = refs.mapM s.groupStats := by
  induction refs with
  | nil => rfl
  | cons ref rest ih =>
    rw [List.map_cons, List.mapM_cons, List.mapM_cons, ih,
      mirrored.toAlike.groupStats (ref.alike_readdressed σ) (mirrored.requireValid apart ref)]

end Session.Mirrored

open Session (Mirrors)

namespace FieldGrouping
variable (apart : Function.Injective σ) {g : FieldGrouping} (view : g.field.view = .int)
  (unscaled : g.sortStat.Unscaled)
include apart view unscaled

theorem mirrors_regroup (keys : KeyMap) :
    Mirrors σ Eq (g.regroup keys) ((g.readdressed σ).regroup keys) := by
  have same : (g.readdressed σ).mode = g.mode := rfl
  unfold regroup
  rw [same]
  cases g.mode with
  | topK k => exact .splitTopK apart view keys k unscaled g.bottom
  | passthrough => exact .keep keys
  | explode => exact .splitExplode view keys

theorem mirrors_collect (keys : KeyMap) (refs : List StatRef) (deadline : Deadline) :
    Mirrors σ Eq (g.collect keys refs deadline)
      ((g.readdressed σ).collect keys (refs.map (·.readdressed σ)) deadline) := by
  have values := StatRef.alike_map_readdressed σ refs
  have shared := Field.shared_of_int view
  have same : (g.readdressed σ).mode = g.mode := rfl
  unfold collect
  rw [same]
  by_cases empty : keys.isEmpty
  · rw [if_pos empty, if_pos empty]
    exact .pure rfl
  · rw [if_neg empty, if_neg empty]
    cases g.mode with
    | topK k =>
      have ranked : Mirrors σ Eq (g.collectTopK k keys refs deadline)
          ((g.readdressed σ).collectTopK k keys (refs.map (·.readdressed σ)) deadline) := by
        rw [collectTopK_eq, collectTopK_eq]
        refine .measure apart unscaled fun s t ref mirrored => ?_
        exact ranked_alike mirrored.toAlike shared (ref.alike_readdressed σ) values k keys deadline
      exact .bind ranked fun rows rows' same => .pure (congrArg _ same)
    | passthrough =>
      refine .bind .get fun s t mirrored => .pure ?_
      rw [listFrom_alike values]
      exact congrArg (listFrom keys refs deadline 0) (mirrored.toAlike.stream shared).symm
    | explode =>
      refine .bind .get fun s t mirrored => ?_
      have read : t.stream [(g.readdressed σ).field] = s.stream [g.field] := mirrored.toAlike.stream shared
      rw [rowSink_alike values, read]
      exact .bind (.ofExcept (.refl _)) fun rows rows' same =>
        .pure (congrArg (fun rows : List ResultRow => rows.reverse.map Except.ok) same)

end FieldGrouping

namespace PercentileGrouping

theorem mirrors_collect (apart : Function.Injective σ) {g : PercentileGrouping}
    (unscaled : g.countStat.Unscaled) (keys : KeyMap) (refs : List StatRef) (deadline : Deadline) :
    Mirrors σ Eq (g.collect keys refs deadline)
      ((g.readdressed σ).collect keys (refs.map (·.readdressed σ)) deadline) := by
  rw [collect_eq, collect_eq]
  refine .bind (.measure apart unscaled fun s t ref mirrored => ?_) fun found found' same =>
    .bind .get fun s t mirrored => ?_
  · exact answer_alike mirrored.toAlike (fun f => Field.shared_of_int rfl) (ref.alike_readdressed σ)
      (mirrored.requireValid apart ref) keys deadline
  -- The rows are read from the sessions as they are after the pop.
  · rw [same, tabulate, tabulate, mirrored.mapM_groupStats apart]
    refine .ofExcept ?_
    have rows : (g.readdressed σ).rows t keys found' = g.rows s keys found' := by
      funext ordinary
      simp only [PercentileGrouping.rows, mirrored.groupCount]
      rfl
    rw [rows]
    exact .refl _

end PercentileGrouping

namespace Grouping

theorem mirrors_regroup (apart : Function.Injective σ) {g : Grouping} (integral : g.Integral)
    (keys : KeyMap) : Mirrors σ Eq (g.regroup keys) ((g.readdressed σ).regroup keys) := by
  cases g with
  | field f => exact f.mirrors_regroup apart integral.1 integral.2 keys
  | percentile p => exact .throw _
  | diff d => exact .throw _

theorem mirrors_collect (apart : Function.Injective σ) {g : Grouping} (integral : g.Integral)
    (keys : KeyMap) (refs : List StatRef) (deadline : Deadline) :
    Mirrors σ Eq (g.collect keys refs deadline)
      ((g.readdressed σ).collect keys (refs.map (·.readdressed σ)) deadline) := by
  unfold collect
  simp only [Action.forM_ofExcept]
  refine .bind .get fun s t mirrored => ?_
  rw [mirrored.forM_requireValid apart]
  refine .bind (.ofExcept (.refl _)) fun _ _ _ => ?_
  cases g with
  | field f => exact f.mirrors_collect apart integral.1 integral.2 keys refs deadline
  | percentile p => exact p.mirrors_collect apart integral keys refs deadline
  | diff d => exact .throw _

end Grouping
end Rollup
