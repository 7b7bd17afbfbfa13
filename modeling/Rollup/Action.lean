import Rollup.Fault

namespace Rollup

/-- An action on a state that may fail. A failed one leaves the state as it stands at that point. -/
abbrev Action (σ α : Type) := ExceptT Fault (StateM σ) α

namespace Action
variable {σ τ α β : Type}

/-- The outcome of an action on a state, and the state after it. -/
def on (x : Action σ α) (s : σ) : Except Fault α × σ := (ExceptT.run x).run s

def make (f : σ → Except Fault α × σ) : Action σ α := ExceptT.mk fun s => f s

def ofExcept (x : Except Fault α) : Action σ α := make fun s => (x, s)

/-- Carries on after a failure, with the outcome as the value. -/
def attempt (x : Action σ α) : Action σ (Except Fault α) := make fun s =>
  (.ok (x.on s).1, (x.on s).2)

/-- Acts on the second part of a state. -/
def second (x : Action σ α) : Action (τ × σ) α := make fun s =>
  ((x.on s.2).1, s.1, (x.on s.2).2)

/-- Acts beside a state that lives no longer than the action. -/
def beside (t : τ) (x : Action (τ × σ) α) : Action σ α := make fun s =>
  ((x.on (t, s)).1, (x.on (t, s)).2.2)

@[simp] theorem on_make (f : σ → Except Fault α × σ) (s : σ) : (make f).on s = f s := rfl

@[simp] theorem on_pure (a : α) (s : σ) : (pure a : Action σ α).on s = (.ok a, s) := rfl

theorem on_bind (x : Action σ α) (f : α → Action σ β) (s : σ) :
    (x >>= f).on s =
      match x.on s with
      | (.ok a, s') => (f a).on s'
      | (.error e, s') => (.error e, s') := by
  simp only [on, ExceptT.run_bind, StateT.run_bind]
  rcases (ExceptT.run x).run s with ⟨result, s'⟩
  cases result <;> rfl

@[simp] theorem on_get (s : σ) : (get : Action σ σ).on s = (.ok s, s) := rfl

@[simp] theorem on_set (s s' : σ) : (set s' : Action σ PUnit).on s = (.ok ⟨⟩, s') := rfl

@[simp] theorem on_modify (f : σ → σ) (s : σ) :
    (modify f : Action σ PUnit).on s = (.ok ⟨⟩, f s) := rfl

@[simp] theorem on_throw (e : Fault) (s : σ) : (throw e : Action σ α).on s = (.error e, s) := rfl

@[simp] theorem on_ofExcept (x : Except Fault α) (s : σ) : (ofExcept x).on s = (x, s) := rfl

@[simp] theorem on_attempt (x : Action σ α) (s : σ) :
    (attempt x).on s = (.ok (x.on s).1, (x.on s).2) := rfl

@[simp] theorem on_second (x : Action σ α) (s : τ × σ) :
    (second x).on s = ((x.on s.2).1, s.1, (x.on s.2).2) := rfl

@[simp] theorem on_beside (t : τ) (x : Action (τ × σ) α) (s : σ) :
    (beside t x).on s = ((x.on (t, s)).1, (x.on (t, s)).2.2) := rfl

end Action
end Rollup
