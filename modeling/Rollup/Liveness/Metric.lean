import Rollup.Fault

namespace Rollup

/-- A handle to a registered metric: its name, its registry, and the number of its registration. -/
structure MetricHandle where
  name : String
  registry : Nat
  generation : Nat
  deriving DecidableEq

structure MetricRegistry where
  id : Nat
  live : List (String × Nat)
  nextGeneration : Nat
  deriving DecidableEq

namespace MetricRegistry

def new (id : Nat) : MetricRegistry := ⟨id, [], 1⟩

def without (live : List (String × Nat)) (name : String) : List (String × Nat) :=
  live.filter fun e => e.1 != name

def register (r : MetricRegistry) (name : String) : MetricHandle × MetricRegistry :=
  (⟨name, r.id, r.nextGeneration⟩,
    { r with
      live := (name, r.nextGeneration) :: without r.live name
      nextGeneration := r.nextGeneration + 1 })

/-- Tells whether a live metric of that name was dropped. -/
def invalidate (r : MetricRegistry) (name : String) : Bool × MetricRegistry :=
  ((r.live.lookup name).isSome, { r with live := without r.live name })

def invalidateAll (r : MetricRegistry) : MetricRegistry := { r with live := [] }

def isValid (r : MetricRegistry) (m : MetricHandle) : Bool :=
  m.registry == r.id && r.live.lookup m.name == some m.generation

def requireValid (r : MetricRegistry) (m : MetricHandle) : Except Fault Unit :=
  if r.isValid m then .ok () else .error (.staleMetric m.name)

theorem lookup_without (live : List (String × Nat)) (name name' : String) :
    (without live name).lookup name' = if name' = name then none else live.lookup name' := by
  induction live with
  | nil => simp [without]
  | cons e rest ih =>
    obtain ⟨other, generation⟩ := e
    have step : without ((other, generation) :: rest) name =
        if other = name then without rest name else (other, generation) :: without rest name := by
      by_cases same : other = name <;> simp [without, same]
    rw [step]
    by_cases same : other = name
    · rw [if_pos same, ih, List.lookup_cons]
      by_cases found : name' = name
      · rw [if_pos found, if_pos found]
      · have differ : (name' == other) = false := by simp [same, found]
        rw [if_neg found, if_neg found, differ]
    · rw [if_neg same, List.lookup_cons, List.lookup_cons, ih]
      by_cases here : name' = other
      · simp [here, same]
      · have differ : (name' == other) = false := by simp [here]
        rw [differ]

theorem lookup_live_register (r : MetricRegistry) (name name' : String) :
    (r.register name).2.live.lookup name' =
      if name' = name then some r.nextGeneration else r.live.lookup name' := by
  show List.lookup name' ((name, r.nextGeneration) :: without r.live name) = _
  rw [List.lookup_cons, lookup_without]
  by_cases same : name' = name
  · simp [same]
  · have differ : (name' == name) = false := by simp [same]
    rw [differ, if_neg same, if_neg same]

theorem lookup_live_invalidate (r : MetricRegistry) (name name' : String) :
    (r.invalidate name).2.live.lookup name' = if name' = name then none else r.live.lookup name' :=
  lookup_without r.live name name'

theorem isValid_register (r : MetricRegistry) (name : String) :
    (r.register name).2.isValid (r.register name).1 = true := by
  simp [isValid, register]

end MetricRegistry
end Rollup
