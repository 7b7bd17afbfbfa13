import Rollup.Grouping.Collect
import Rollup.Proofs.Session.Raised

namespace Rollup

namespace Session
variable {α : Type}

/-- Pushes a statistic for as long as something is read. A failure to read is reported before one to pop. -/
def measure (stat : Stat) (look : StatRef → Session → Except Fault α) :
    Action Session α := do
  let ref ← push stat
  let s ← get
  let popped ← Action.attempt pop
  let found ← Action.ofExcept (look ref s)
  Action.ofExcept popped
  return found

variable {s : Session} {stat : Stat} (look : StatRef → Session → Except Fault α)

theorem on_measure_of_error {e : Fault} (refused : s.evaluated stat = .error e) :
    (measure stat look).on s = (.error e, s) := by
  rw [measure, Action.on_bind, on_push_eq, refused]

/-- What is read with a statistic pushed is read above the session, which is there again afterwards. -/
theorem on_measure (inStep : s.InStep) {entries : List Entry} (values : s.evaluated stat = .ok entries) :
    (measure stat look).on s =
      (look (s.stack.push stat.shape).1 (s.loaded stat entries), s.restamped stat.width) := by
  have pushed : (push stat).on s = (.ok (s.stack.push stat.shape).1, s.loaded stat entries) := by
    rw [on_push_eq, values]
  have popped : pop.on (s.loaded stat entries) = (.ok (), s.restamped stat.width) :=
    on_pop_loaded inStep.slots (loaded_of_evaluated values)
  rw [measure, Action.on_bind_ok pushed, Action.on_bind_ok (Action.on_get _),
    Action.on_bind_ok (Action.on_attempt _ _), popped]
  cases look (s.stack.push stat.shape).1 (s.loaded stat entries) with
  | error e => rfl
  | ok found => rfl

variable {look}

theorem on_measure_eq_ok_iff {found : α} {t : Session} :
    (measure stat look).on s = (.ok found, t) ↔
      ∃ ref u, (push stat).on s = (.ok ref, u) ∧ look ref u = .ok found ∧ pop.on u = (.ok (), t) := by
  rw [measure, Action.on_bind_eq_ok_iff]
  refine exists_congr fun ref => exists_congr fun u => and_congr_right fun _ => ?_
  rw [Action.on_bind_ok (Action.on_get u), Action.on_bind_ok (Action.on_attempt _ u)]
  simp only [Action.on_ofExcept_bind_eq_ok_iff, Action.on_pure, Prod.mk.injEq, Except.ok.injEq]
  constructor
  · intro h
    obtain ⟨_, read, _, popped, rfl, rfl⟩ := h
    exact ⟨read, Prod.ext popped rfl⟩
  · intro h
    obtain ⟨read, popped⟩ := h
    rw [popped]
    exact ⟨found, read, (), rfl, rfl, rfl⟩

end Session

namespace FieldGrouping

/-- The rows of a best-K grouping while its sort statistic is pushed. -/
def ranked (g : FieldGrouping) (k : Nat) (keys : KeyMap) (refs : List StatRef) (deadline : Deadline)
    (sortRef : StatRef) (s : Session) : Except Fault (List ResultRow) :=
  let selection : Selection := ⟨k, g.bottom, sortRef, refs, keys⟩
  selection.rows <$> selection.sink.result deadline (s.stream [g.field]) .empty

theorem collectTopK_eq (g : FieldGrouping) (k : Nat) (keys : KeyMap) (refs : List StatRef)
    (deadline : Deadline) :
    g.collectTopK k keys refs deadline = Session.measure g.sortStat (g.ranked k keys refs deadline) := rfl

end FieldGrouping

namespace PercentileGrouping

/-- The rows once the percentiles are found. -/
def tabulate (g : PercentileGrouping) (keys : KeyMap) (refs : List StatRef) (found : Found) (s : Session) :
    Except Fault (List (Except Fault ResultRow)) :=
  (fun ordinary => (g.rows s keys found ordinary).map .ok) <$> refs.mapM s.groupStats

theorem collect_eq (g : PercentileGrouping) (keys : KeyMap) (refs : List StatRef) (deadline : Deadline) :
    g.collect keys refs deadline =
      Session.measure g.countStat (fun countRef s => g.answer s keys countRef deadline) >>= fun found =>
        get >>= fun s => Action.ofExcept (g.tabulate keys refs found s) := by
  simp only [collect, Session.measure, tabulate, Action.ofExcept_map, bind_assoc, pure_bind]

end PercentileGrouping
end Rollup
