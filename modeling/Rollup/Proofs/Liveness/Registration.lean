import Mathlib.Data.List.Nodup
import Rollup.Proofs.Outcome
import Rollup.Liveness.Metric

namespace Rollup

section Ids
variable {α : Type} {id : α → Nat} {l : List α}

/-- Things that differ in their ids still do when one with an id beyond theirs comes to them. -/
theorem nodup_ids_concat (ids : (l.map id).Nodup) {a : α} (beyond : ∀ b ∈ l, id b < id a) :
    ((l ++ [a]).map id).Nodup := by
  rw [List.map_append, List.nodup_append]
  refine ⟨ids, List.nodup_singleton _, ?_⟩
  intro n member m last same
  obtain ⟨b, old, rfl⟩ := List.mem_map.1 member
  rw [List.map_singleton, List.mem_singleton] at last
  have below := beyond b old
  omega

/-- Things with the same id are in the same place. -/
theorem eq_of_ids (ids : (l.map id).Nodup) {j k : Nat} {a b : α} (first : l[j]? = some a)
    (second : l[k]? = some b) (same : id a = id b) : j = k := by
  have named : (l.map id)[j]? = (l.map id)[k]? := by
    rw [List.getElem?_map, List.getElem?_map, first, second, Option.map_some, Option.map_some, same]
  have within : j < (l.map id).length := by
    rw [List.length_map]
    exact (List.getElem?_eq_some_iff.1 first).1
  exact (List.getElem?_inj within ids).1 named

/-- A thing that changes but for its id leaves the ids as they are. -/
theorem ids_set {k : Nat} {a b : α} (here : l[k]? = some a) (same : id b = id a) :
    (l.set k b).map id = l.map id := by
  obtain ⟨within, rfl⟩ := List.getElem?_eq_some_iff.1 here
  rw [List.map_set, same, ← List.getElem_map id, List.set_getElem_self]
  rwa [List.length_map]

theorem ids_modify {f : α → α} (same : ∀ a, id (f a) = id a) (k : Nat) :
    (l.modify k f).map id = l.map id := by
  cases here : l[k]? with
  | none => rw [List.modify_eq_self (List.getElem?_eq_none_iff.1 here)]
  | some a =>
    rw [List.modify_eq_set_getElem?, here]
    exact ids_set here (same a)

end Ids

namespace MetricRegistry

/-- What can be done with a registry. -/
inductive Change where
  | register (name : String)
  | invalidate (name : String)
  | invalidateAll
  deriving DecidableEq

def changed (c : Change) (r : MetricRegistry) : MetricRegistry :=
  match c with
  | .register name => (r.register name).2
  | .invalidate name => (r.invalidate name).2
  | .invalidateAll => r.invalidateAll

/-- Whether a change ends the registration that a name has. -/
def Change.revokes (name : String) : Change → Bool
  | register other => other == name
  | invalidate other => other == name
  | invalidateAll => true

@[simp] theorem id_changed (c : Change) (r : MetricRegistry) : (r.changed c).id = r.id := by
  cases c with
  | register name => rfl
  | invalidate name => rfl
  | invalidateAll => rfl

theorem nextGeneration_le_changed (c : Change) (r : MetricRegistry) :
    r.nextGeneration ≤ (r.changed c).nextGeneration := by
  cases c with
  | register name => exact Nat.le_succ _
  | invalidate name => exact Nat.le_refl _
  | invalidateAll => exact Nat.le_refl _

/-- A number given out before a change stays with its name unless the change ends the registration. -/
theorem lookup_changed (c : Change) {r : MetricRegistry} {generation : Nat}
    (older : generation < r.nextGeneration) (name : String) :
    (r.changed c).live.lookup name = some generation ↔
      r.live.lookup name = some generation ∧ c.revokes name = false := by
  cases c with
  | register other =>
    rw [changed, lookup_live_register, Change.revokes, beq_eq_false_iff_ne]
    by_cases same : name = other
    · rw [if_pos same, Option.some.injEq]
      constructor
      · intro taken
        omega
      · intro h
        exact absurd same.symm h.2
    · rw [if_neg same]
      exact ⟨fun found => ⟨found, fun h => same h.symm⟩, And.left⟩
  | invalidate other =>
    rw [changed, lookup_live_invalidate, Change.revokes, beq_eq_false_iff_ne]
    by_cases same : name = other
    · rw [if_pos same]
      constructor
      · intro found
        cases found
      · intro h
        exact absurd same.symm h.2
    · rw [if_neg same]
      exact ⟨fun found => ⟨found, fun h => same h.symm⟩, And.left⟩
  | invalidateAll => simp [changed, MetricRegistry.invalidateAll, Change.revokes]

theorem isValid_iff (r : MetricRegistry) (m : MetricHandle) :
    r.isValid m = true ↔ m.registry = r.id ∧ r.live.lookup m.name = some m.generation := by
  rw [isValid, Bool.and_eq_true, beq_iff_eq, beq_iff_eq]

end MetricRegistry

/-- All registries in the order in which they were opened, and the id of the next one. -/
structure Registries where
  nextId : Nat
  all : List MetricRegistry

namespace Registries

/-- Registries are named by the order in which they were opened. -/
inductive Event where
  | opened
  /-- Something else takes the next id. -/
  | skipped
  | change (registry : Nat) (c : MetricRegistry.Change)

def Event.revokes (registry : Nat) (name : String) : Event → Bool
  | change k c => k == registry && c.revokes name
  | _ => false

def empty : Registries := ⟨1, []⟩

/-- What happens to a registry that was never opened does not happen. -/
def step (rs : Registries) : Event → Registries
  | .opened => ⟨rs.nextId + 1, rs.all ++ [.new rs.nextId]⟩
  | .skipped => { rs with nextId := rs.nextId + 1 }
  | .change k c => { rs with all := rs.all.modify k (·.changed c) }

def after (events : List Event) (rs : Registries) : Registries := events.foldl step rs

theorem after_append (before later : List Event) (rs : Registries) :
    rs.after (before ++ later) = (rs.after before).after later := List.foldl_append

/-- Registries have different ids. -/
structure Apart (rs : Registries) : Prop where
  ids : (rs.all.map (·.id)).Nodup
  below : ∀ r ∈ rs.all, r.id < rs.nextId

namespace Apart
variable {rs : Registries}

theorem empty : Registries.empty.Apart := ⟨List.nodup_nil, List.forall_mem_nil _⟩

theorem step (apart : rs.Apart) (e : Event) : (rs.step e).Apart := by
  cases e with
  | opened =>
    refine ⟨?_, ?_⟩
    · exact nodup_ids_concat apart.ids apart.below
    · intro r member
      rcases List.mem_append.1 member with old | new
      · exact Nat.lt_succ_of_lt (apart.below r old)
      · rw [List.mem_singleton.1 new]
        exact Nat.lt_succ_self _
  | skipped => exact ⟨apart.ids, fun r member => Nat.lt_succ_of_lt (apart.below r member)⟩
  | change k c =>
    have same : (rs.all.modify k (·.changed c)).map (·.id) = rs.all.map (·.id) :=
      ids_modify (MetricRegistry.id_changed c) k
    refine ⟨?_, ?_⟩
    · show ((rs.all.modify k (·.changed c)).map (·.id)).Nodup
      rw [same]
      exact apart.ids
    · have ids : ∀ id ∈ rs.all.map (·.id), id < rs.nextId := List.forall_mem_map.2 apart.below
      rw [← same] at ids
      exact List.forall_mem_map.1 ids

theorem after (apart : rs.Apart) (events : List Event) : (rs.after events).Apart := by
  induction events generalizing rs with
  | nil => exact apart
  | cons e rest ih => exact ih (apart.step e)

end Apart

/-- A handle that a registry has given out, and whether its registration still stands there. -/
def Records (rs : Registries) (k : Nat) (m : MetricHandle) (stands : Prop) : Prop :=
  ∃ r, rs.all[k]? = some r ∧ m.registry = r.id ∧ m.generation < r.nextGeneration ∧
    (r.live.lookup m.name = some m.generation ↔ stands)

namespace Records
variable {rs : Registries} {k : Nat} {m : MetricHandle} {stands : Prop}

theorem step (recorded : rs.Records k m stands) (e : Event) :
    (rs.step e).Records k m (stands ∧ e.revokes k m.name = false) := by
  obtain ⟨r, here, owner, older, standing⟩ := recorded
  cases e with
  | opened =>
    refine ⟨r, ?_, owner, older, ?_⟩
    · exact (List.getElem?_append_left (List.getElem?_eq_some_iff.1 here).1).trans here
    · simp [Event.revokes, standing]
  | skipped =>
    refine ⟨r, here, owner, older, ?_⟩
    simp [Event.revokes, standing]
  | change j c =>
    by_cases same : j = k
    · refine ⟨r.changed c, ?_, ?_, ?_, ?_⟩
      · simp [Registries.step, here, same]
      · rw [r.id_changed c]
        exact owner
      · exact Nat.lt_of_lt_of_le older (r.nextGeneration_le_changed c)
      · rw [MetricRegistry.lookup_changed c older, standing, Event.revokes, beq_iff_eq.2 same,
          Bool.true_and]
    · refine ⟨r, ?_, owner, older, ?_⟩
      · simp [Registries.step, here, same]
      · simp [Event.revokes, same, standing]

theorem after (recorded : rs.Records k m stands) (events : List Event) :
    (rs.after events).Records k m (stands ∧ ∀ e ∈ events, e.revokes k m.name = false) := by
  induction events generalizing rs stands with
  | nil => simpa [Registries.after] using recorded
  | cons e rest ih =>
    rw [List.forall_mem_cons, ← and_assoc]
    exact ih (recorded.step e)

/-- The handle of a registration stands right after it. -/
theorem registered {r : MetricRegistry} (here : rs.all[k]? = some r) (name : String) :
    (rs.step (.change k (.register name))).Records k (r.register name).1 True := by
  refine ⟨r.changed (.register name), ?_, rfl, Nat.lt_succ_self _, ?_⟩
  · simp [Registries.step, here]
  · have live : (r.changed (.register name)).live.lookup name = some r.nextGeneration := by
      rw [MetricRegistry.changed, MetricRegistry.lookup_live_register, if_pos rfl]
    exact iff_true_intro live

end Records

/-- Whatever happened to any number of registries before and since, the handle of a registration is live in a
registry exactly when this is the one that it was made in and its name has neither been registered again nor
dropped there. -/
theorem isValid_iff (before later : List Event) {k : Nat} {r : MetricRegistry}
    (here : (empty.after before).all[k]? = some r) (name : String) {j : Nat} {r' : MetricRegistry}
    (there : (empty.after (before ++ .change k (.register name) :: later)).all[j]? = some r') :
    r'.isValid (r.register name).1 = true ↔ j = k ∧ ∀ e ∈ later, e.revokes k name = false := by
  have apart := Apart.empty.after (before ++ .change k (.register name) :: later)
  obtain ⟨s, found, owner, -, standing⟩ := (Records.registered here name).after later
  rw [after_append] at there apart
  rw [MetricRegistry.isValid_iff, owner]
  constructor
  · intro h
    obtain ⟨id, lookup⟩ := h
    cases eq_of_ids apart.ids there found id.symm
    cases there.symm.trans found
    exact ⟨rfl, (standing.1 lookup).2⟩
  · intro h
    obtain ⟨rfl, kept⟩ := h
    cases there.symm.trans found
    exact ⟨rfl, standing.2 ⟨trivial, kept⟩⟩

end Registries
end Rollup
