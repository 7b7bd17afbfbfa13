import Rollup.Proofs.Liveness.StatStack
import Rollup.Proofs.Session.Totals
import Rollup.Query

namespace Rollup

/-- The reading with the values of one more statistic on top. -/
def Reading.extended (stat : Stat) (r : Reading) : Reading :=
  { r with slots := r.slots ++ stat.slotValues r }

def Reading.extendedAll (stats : List Stat) (r : Reading) : Reading :=
  stats.foldl (fun r stat => r.extended stat) r

/-- The total of a statistic over documents, in their order. -/
def Stat.total (rs : List Reading) : Stat → Float
  | combination op left right =>
    op.combine (sum (rs.map fun r => left.value r)) (sum (rs.map fun r => right.value r))
  | s => sum (rs.map fun r => s.value r)

/-- The totals of statistics, each of which may read the values of those before it. -/
def Stat.totals : List Stat → List Reading → List Float
  | [], _ => []
  | s :: rest, rs => s.total rs :: totals rest (rs.map (Reading.extended s))

namespace Session

def pushedAll (stats : List Stat) (s : Session) : Session :=
  stats.foldl (fun s stat => s.pushed stat) s

/-- The handles that pushing statistics one after the other returns. -/
def handles : List Stat → Session → List StatRef
  | [], _ => []
  | stat :: rest, s => (s.stack.push stat.shape).1 :: handles rest (s.pushed stat)

theorem InStep.pushedAll {s : Session} (inStep : s.InStep) (stats : List Stat) :
    (s.pushedAll stats).InStep := by
  induction stats generalizing s with
  | nil => exact inStep
  | cons stat rest ih => exact ih (inStep.pushed stat)

theorem eq_pushedAll_of_on_pushAll {s s' : Session} (inStep : s.InStep)
    {columns : List (String × Stat)} (built : ∀ c ∈ columns, c.2.Built) {refs : List StatRef}
    (h : (Query.pushAll columns).on s = (.ok refs, s')) :
    refs = handles (columns.map (·.2)) s ∧ s' = s.pushedAll (columns.map (·.2)) := by
  induction columns generalizing s refs with
  | nil =>
    cases h
    exact ⟨rfl, rfl⟩
  | cons column rest ih =>
    obtain ⟨name, stat⟩ := column
    have here : stat.Built := built (name, stat) List.mem_cons_self
    have later : ∀ c ∈ rest, c.2.Built := fun c member => built c (List.mem_cons_of_mem _ member)
    rw [Query.pushAll, Action.on_bind_eq_ok_iff] at h
    obtain ⟨ref, t, pushed, h⟩ := h
    rw [Action.on_bind_eq_ok_iff] at h
    obtain ⟨others, t', others_eq, h⟩ := h
    obtain ⟨rfl, rfl⟩ := eq_pushed_of_on_push inStep here pushed
    cases h
    obtain ⟨rfl, rfl⟩ := ih (inStep.pushed stat) later others_eq
    exact ⟨rfl, rfl⟩

theorem readings_pushedAll (stats : List Stat) (s : Session) :
    (s.pushedAll stats).readings = s.readings.map (Reading.extendedAll stats) := by
  induction stats generalizing s with
  | nil => exact (List.map_id s.readings).symm
  | cons stat rest ih =>
    have first : (s.pushed stat).readings = s.readings.map (Reading.extended stat) := by
      rw [readings, readings, List.map_map]
      exact List.map_map
    have step : (s.pushedAll (stat :: rest)).readings = ((s.pushed stat).pushedAll rest).readings := rfl
    rw [step, ih, first, List.map_map]
    rfl

theorem groups_pushedAll (stats : List Stat) (s : Session) :
    (s.pushedAll stats).groups = s.groups := by
  induction stats generalizing s with
  | nil => rfl
  | cons stat rest ih =>
    have first : (s.pushed stat).groups = s.groups := List.map_map
    exact (ih (s.pushed stat)).trans first

theorem groupCount_pushedAll (stats : List Stat) (s : Session) :
    (s.pushedAll stats).groupCount = s.groupCount := by
  induction stats generalizing s with
  | nil => rfl
  | cons stat rest ih => exact ih (s.pushed stat)

theorem groupLimit_pushedAll (stats : List Stat) (s : Session) :
    (s.pushedAll stats).groupLimit = s.groupLimit := by
  induction stats generalizing s with
  | nil => rfl
  | cons stat rest ih => exact ih (s.pushed stat)

theorem failAfter_pushedAll (stats : List Stat) (s : Session) :
    (s.pushedAll stats).failAfter = s.failAfter := by
  induction stats generalizing s with
  | nil => rfl
  | cons stat rest ih => exact ih (s.pushed stat)

end Session

namespace StatStack

/-- The slots that are occupied stay so when more are. -/
theorem isValid_push_of_isValid {s : StatStack} {ref : StatRef} (live : s.isValid ref = true)
    (shape : Shape) : (s.push shape).2.isValid ref = true := by
  rw [isValid_iff] at live ⊢
  intro slot member
  exact (s.slotIsLive_push_iff shape slot).2 (.inr (live slot member))

end StatStack

namespace Session

theorem isValid_pushedAll {s : Session} {ref : StatRef} (live : s.stack.isValid ref = true)
    (stats : List Stat) : (s.pushedAll stats).stack.isValid ref = true := by
  induction stats generalizing s with
  | nil => exact live
  | cons stat rest ih =>
    have next : (s.pushed stat).stack.isValid ref = true :=
      StatStack.isValid_push_of_isValid live stat.shape
    exact ih next

theorem isValid_handles (stats : List Stat) (s : Session) :
    ∀ ref ∈ handles stats s, (s.pushedAll stats).stack.isValid ref = true := by
  induction stats generalizing s with
  | nil =>
    intro ref member
    cases member
  | cons stat rest ih =>
    intro ref member
    rcases List.mem_cons.1 member with first | later
    · have live : (s.pushed stat).stack.isValid ref = true := first ▸ s.stack.isValid_push stat.shape
      exact isValid_pushedAll live rest
    · exact ih (s.pushed stat) ref later

end Session

namespace Reading

theorem slots_extendedAll (stats : List Stat) (r : Reading) :
    ∃ more, (r.extendedAll stats).slots = r.slots ++ more := by
  induction stats generalizing r with
  | nil => exact ⟨[], (List.append_nil _).symm⟩
  | cons stat rest ih =>
    obtain ⟨more, slots⟩ := ih (r.extended stat)
    have step : (r.extendedAll (stat :: rest)).slots = ((r.extended stat).extendedAll rest).slots := rfl
    refine ⟨stat.slotValues r ++ more, ?_⟩
    rw [step, slots, extended, List.append_assoc]

/-- What a statistic adds stays in its slots when others are pushed after it. -/
theorem getD_slots_extendedAll {stat : Stat} {r : Reading} {i : Nat} {v : Int64}
    (here : (stat.slotValues r)[i]? = some v) (rest : List Stat) :
    ((r.extended stat).extendedAll rest).slots.getD (r.slots.length + i) 0 = v := by
  obtain ⟨more, slots⟩ := slots_extendedAll rest (r.extended stat)
  have inRange : i < (stat.slotValues r).length := (List.getElem?_eq_some_iff.1 here).1
  rw [slots, extended, List.append_assoc, List.getD_eq_getElem?_getD,
    List.getElem?_append_right (Nat.le_add_right _ _), Nat.add_sub_cancel_left,
    List.getElem?_append_left inRange, here]
  rfl

theorem doc_extendedAll (stats : List Stat) (r : Reading) : (r.extendedAll stats).doc = r.doc := by
  induction stats generalizing r with
  | nil => rfl
  | cons stat rest ih => exact ih (r.extended stat)

end Reading

namespace Session

/-- A new handle reads the total of its statistic where each of its slots holds the value for it. -/
theorem total_push {s : StatStack} {stat : Stat} {rs rs' : List Reading}
    (each : ∀ (i : Nat) (slot : SlotRef) (f : Reading → Int64),
      (s.push stat.shape).1.slots[i]? = some slot → (∀ r, (stat.slotValues r)[i]? = some (f r)) →
      Reading.sumAt slot.depth rs' = sum (rs.map f)) :
    (s.push stat.shape).1.total rs' = stat.total rs := by
  cases stat with
  | combination op left right =>
    have lefts := each 0 _ (fun r => left.value r) rfl fun r => rfl
    have rights := each 1 _ (fun r => right.value r) rfl fun r => rfl
    exact congrArg₂ op.combine lefts rights
  | _ => exact each 0 _ (fun r => Stat.value r _) rfl fun r => rfl

/-- The first handle reads back the total of the first statistic. -/
theorem total_handle {s : Session} {rs : List Reading}
    (full : ∀ r ∈ rs, r.slots.length = s.stack.depth) (stat : Stat) (rest : List Stat) :
    (s.stack.push stat.shape).1.total (rs.map (Reading.extendedAll (stat :: rest))) =
      stat.total rs := by
  refine total_push fun i slot f place value => ?_
  rw [StatStack.depth_of_getElem?_slots place, Reading.sumAt, List.map_map]
  refine congrArg sum (List.map_congr_left ?_)
  intro r member
  have kept := Reading.getD_slots_extendedAll (value r) rest
  rw [full r member] at kept
  exact kept

/-- The handles read back the totals over the same documents as before the push. -/
theorem total_handles (stats : List Stat) {s : Session} {rs : List Reading}
    (full : ∀ r ∈ rs, r.slots.length = s.stack.depth) :
    (handles stats s).map (·.total (rs.map (Reading.extendedAll stats))) = Stat.totals stats rs := by
  induction stats generalizing s rs with
  | nil => rfl
  | cons stat rest ih =>
    have next : ∀ r ∈ rs.map (Reading.extended stat), r.slots.length = (s.pushed stat).stack.depth := by
      intro r member
      obtain ⟨r', member', rfl⟩ := List.mem_map.1 member
      have grown : (s.pushed stat).stack.depth = s.stack.depth + stat.shape.width :=
        s.stack.depth_push stat.shape
      rw [grown, Reading.extended, List.length_append, stat.length_slotValues, full r' member']
      rfl
    have later := ih next
    rw [List.map_map] at later
    rw [handles, List.map_cons, total_handle full, Stat.totals, ← later]
    rfl

/-- The values of the slots are at least as many as the pushed statistics occupy. -/
theorem sum_widths_pushedAll (stats : List Stat) {s : Session}
    (covered : s.stack.widths.sum ≤ s.width) :
    (s.pushedAll stats).stack.widths.sum ≤ (s.pushedAll stats).width := by
  induction stats generalizing s with
  | nil => exact covered
  | cons stat rest ih =>
    have widths : (s.pushed stat).stack.widths = stat.shape.width :: s.stack.widths :=
      s.stack.widths_push stat.shape
    have width : (s.pushed stat).width = s.width + stat.shape.width := rfl
    have next : (s.pushed stat).stack.widths.sum ≤ (s.pushed stat).width := by
      rw [widths, width, List.sum_cons]
      omega
    exact ih next

theorem on_unwind {s : Session} {n : Nat} (enough : n ≤ s.stack.size)
    (covered : s.stack.widths.sum ≤ s.width) : ((Query.unwind n).on s).1 = .ok () := by
  induction n generalizing s with
  | zero => rfl
  | succ n ih =>
    rw [StatStack.size] at enough
    cases widths : s.stack.widths with
    | nil =>
      rw [widths, List.length_nil] at enough
      omega
    | cons w rest =>
      rw [widths, List.sum_cons] at covered
      rw [widths, List.length_cons] at enough
      have popped : s.stack.pop =
          .ok (w, { s.stack with widths := rest, slots := s.stack.slots.take (s.stack.depth - w) }) := by
        rw [StatStack.pop, widths]
      have fits : w ≤ s.width := by omega
      rw [Query.unwind, Action.on_bind_ok (on_pop popped fits)]
      apply ih
      · show n ≤ rest.length
        omega
      · show rest.sum ≤ s.width - w
        omega

end Session
end Rollup
