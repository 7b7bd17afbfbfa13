import Mathlib.Data.List.Forall2
import Rollup.Action

namespace Rollup

/-- Lists that correspond to one in between correspond to each other. -/
theorem forall₂_comp {α β γ : Type} {R : α → β → Prop} {S : β → γ → Prop} {T : α → γ → Prop}
    (each : ∀ a b c, R a b → S b c → T a c) {as : List α} {bs : List β} {cs : List γ}
    (first : List.Forall₂ R as bs) (second : List.Forall₂ S bs cs) : List.Forall₂ T as cs := by
  induction first generalizing cs with
  | nil =>
    cases second
    exact .nil
  | @cons a b as bs head tail ih =>
    cases second with
    | @cons b c bs cs head' tail' => exact .cons (each a b c head head') (ih tail')

theorem exists_mem_of_forall₂ {α β : Type} {R : α → β → Prop} {as : List α} {bs : List β}
    (each : List.Forall₂ R as bs) {b : β} (member : b ∈ bs) : ∃ a ∈ as, R a b := by
  induction each with
  | nil => cases member
  | @cons a b' as bs head tail ih =>
    rcases List.mem_cons.1 member with rfl | later
    · exact ⟨a, List.mem_cons_self, head⟩
    · obtain ⟨a', aMember, related⟩ := ih later
      exact ⟨a', List.mem_cons_of_mem a aMember, related⟩

namespace Outcome
variable {ε α β : Type}

theorem bind_eq_ok_iff {x : Except ε α} {f : α → Except ε β} {b : β} :
    x >>= f = .ok b ↔ ∃ a, x = .ok a ∧ f a = .ok b := by
  cases x <;> simp [bind, Except.bind]

theorem bind_eq_error_iff {x : Except ε α} {f : α → Except ε β} {e : ε} :
    x >>= f = .error e ↔ x = .error e ∨ ∃ a, x = .ok a ∧ f a = .error e := by
  cases x <;> simp [bind, Except.bind]

theorem map_eq_ok_iff {x : Except ε α} {f : α → β} {b : β} :
    f <$> x = .ok b ↔ ∃ a, x = .ok a ∧ f a = b := by
  cases x <;> simp [Functor.map, Except.map]

/-- A check has only one way to succeed. -/
theorem check_bind_eq_ok_iff {x : Except ε Unit} {f : Unit → Except ε β} {b : β} :
    x >>= f = .ok b ↔ x = .ok () ∧ f () = .ok b := by
  rw [bind_eq_ok_iff]
  exact ⟨fun ⟨_, h⟩ => h, fun h => ⟨(), h⟩⟩

theorem pure_eq_ok_iff {a b : α} : (pure a : Except ε α) = .ok b ↔ a = b := by
  simp [pure, Except.pure]

theorem map_ok_injective : Function.Injective (List.map (Except.ok : α → Except ε α)) :=
  List.map_injective_iff.2 fun _ _ => Except.ok.inj

theorem forM_eq_ok_iff {l : List α} {f : α → Except ε Unit} :
    l.forM f = .ok () ↔ ∀ a ∈ l, f a = .ok () := by
  induction l with
  | nil => simp [List.forM, pure, Except.pure]
  | cons a rest ih =>
    show (f a >>= fun _ => rest.forM f) = _ ↔ _
    rw [check_bind_eq_ok_iff, List.forall_mem_cons, ih]

theorem mapM_eq_ok_iff {l : List α} {f : α → Except ε β} {results : List β} :
    l.mapM f = .ok results ↔ List.Forall₂ (fun a b => f a = .ok b) l results := by
  induction l generalizing results with
  | nil =>
    rw [List.mapM_nil, pure_eq_ok_iff, List.forall₂_nil_left_iff, eq_comm]
  | cons a rest ih =>
    rw [List.mapM_cons, bind_eq_ok_iff, List.forall₂_cons_left_iff]
    simp only [bind_eq_ok_iff, pure_eq_ok_iff, ih]
    constructor
    · intro h
      obtain ⟨b, here, others, later, rfl⟩ := h
      exact ⟨b, others, here, later, rfl⟩
    · intro h
      obtain ⟨b, others, here, later, rfl⟩ := h
      exact ⟨b, here, others, later, rfl⟩

theorem mapM_eq_ok_map {l : List α} {f : α → Except ε β} {g : α → β}
    (each : ∀ a ∈ l, f a = .ok (g a)) : l.mapM f = .ok (l.map g) := by
  rw [mapM_eq_ok_iff, List.forall₂_map_right_iff, List.forall₂_same]
  exact each

/-- A fold of steps that can fail, when each step that succeeds is known. -/
theorem eq_foldl_of_foldlM {f : β → α → Except ε β} {step : β → α → β}
    (steps : ∀ b a b', f b a = .ok b' → b' = step b a) {l : List α} {start final : β}
    (done : l.foldlM f start = .ok final) : final = l.foldl step start := by
  induction l generalizing start with
  | nil =>
    rw [List.foldlM_nil, pure_eq_ok_iff] at done
    exact done.symm
  | cons a rest ih =>
    rw [List.foldlM_cons, bind_eq_ok_iff] at done
    obtain ⟨next, here, later⟩ := done
    rw [List.foldl_cons, ← steps start a next here]
    exact ih later

/-- Steps that succeed wherever others do, with the same results, fold to the same result. -/
theorem foldlM_eq_ok_of_imp {f g : β → α → Except ε β} (steps : ∀ b a b', f b a = .ok b' → g b a = .ok b')
    {l : List α} {start final : β} (done : l.foldlM f start = .ok final) :
    l.foldlM g start = .ok final := by
  induction l generalizing start with
  | nil => exact done
  | cons a rest ih =>
    rw [List.foldlM_cons, bind_eq_ok_iff] at done ⊢
    obtain ⟨next, here, later⟩ := done
    exact ⟨next, steps start a next here, ih later⟩

/-- Outcomes that fail alike or yield related values. -/
inductive Related {α β : Type} (Q : α → β → Prop) : Except Fault α → Except Fault β → Prop where
  | ok {a : α} {b : β} (related : Q a b) : Related Q (.ok a) (.ok b)
  | error (e : Fault) : Related Q (.error e) (.error e)

namespace Related
variable {α' β' : Type} {Q : α → α' → Prop} {S : β → β' → Prop}

theorem refl (x : Except Fault α) : Related Eq x x := by
  cases x with
  | error e => exact .error e
  | ok a => exact .ok rfl

theorem eq {x y : Except Fault α} (related : Related Eq x y) : y = x := by
  cases related with
  | ok same => rw [same]
  | error e => rfl

theorem exists_of_ok {x : Except Fault α} {y : Except Fault α'} (related : Related Q x y) {a : α}
    (h : x = .ok a) : ∃ b, y = .ok b ∧ Q a b := by
  cases related with
  | ok here =>
    cases h
    exact ⟨_, rfl, here⟩
  | error e => cases h

theorem bind {x : Except Fault α} {y : Except Fault α'} {f : α → Except Fault β}
    {g : α' → Except Fault β'} (first : Related Q x y) (next : ∀ a b, Q a b → Related S (f a) (g b)) :
    Related S (x >>= f) (y >>= g) := by
  cases first with
  | ok related => exact next _ _ related
  | error e => exact .error e

end Related
end Outcome

namespace Action
variable {σ α β : Type}

theorem on_bind_ok {x : Action σ α} {f : α → Action σ β} {s s' : σ} {a : α}
    (h : x.on s = (.ok a, s')) : (x >>= f).on s = (f a).on s' := by
  rw [on_bind, h]

theorem on_bind_error {x : Action σ α} {f : α → Action σ β} {s s' : σ} {e : Fault}
    (h : x.on s = (.error e, s')) : (x >>= f).on s = (.error e, s') := by
  rw [on_bind, h]

theorem on_map (f : α → β) (x : Action σ α) (s : σ) : (f <$> x).on s = (f <$> (x.on s).1, (x.on s).2) := by
  rw [map_eq_pure_bind, on_bind]
  rcases x.on s with ⟨result, s'⟩
  cases result <;> rfl

theorem on_bind_eq_ok_iff {x : Action σ α} {f : α → Action σ β} {s t : σ} {b : β} :
    (x >>= f).on s = (.ok b, t) ↔ ∃ a s', x.on s = (.ok a, s') ∧ (f a).on s' = (.ok b, t) := by
  rw [on_bind]
  rcases x.on s with ⟨result, s'⟩
  cases result <;> simp

theorem on_ofExcept_bind_eq_ok_iff {x : Except Fault α} {f : α → Action σ β} {s t : σ} {b : β} :
    (ofExcept x >>= f).on s = (.ok b, t) ↔ ∃ a, x = .ok a ∧ (f a).on s = (.ok b, t) := by
  cases x with
  | error e => simp [on_bind]
  | ok a => simp [on_bind]

theorem ofExcept_map (f : α → β) (x : Except Fault α) :
    (ofExcept (f <$> x) : Action σ β) = ofExcept x >>= fun a => pure (f a) := by
  cases x with
  | error e => rfl
  | ok a => rfl

/-- A step that yields nothing has only one way to succeed. -/
theorem on_step_bind_eq_ok_iff {x : Action σ Unit} {f : Unit → Action σ β} {s t : σ} {b : β} :
    (x >>= f).on s = (.ok b, t) ↔ ∃ s', x.on s = (.ok (), s') ∧ (f ()).on s' = (.ok b, t) := by
  rw [on_bind_eq_ok_iff]
  exact ⟨fun ⟨_, h⟩ => h, fun h => ⟨(), h⟩⟩

theorem exists_on_eq {x : Action σ α} {s : σ} {outcome : Except Fault α} (h : (x.on s).1 = outcome) :
    ∃ t, x.on s = (outcome, t) :=
  ⟨(x.on s).2, Prod.ext h rfl⟩

/-- Checks leave the state as it is. -/
theorem on_forM_ofExcept (l : List α) (check : α → Except Fault Unit) (s : σ) :
    (l.forM fun a => ofExcept (check a)).on s = (l.forM check, s) := by
  induction l with
  | nil => rfl
  | cons a rest ih =>
    show (ofExcept (check a) >>= fun _ => rest.forM _).on s = (check a >>= fun _ => rest.forM check, s)
    cases here : check a with
    | error e => rfl
    | ok _ =>
      rw [on_bind_ok (on_ofExcept _ s)]
      exact ih

theorem forM_ofExcept (l : List α) (check : α → Except Fault Unit) :
    (l.forM fun a => (ofExcept (check a) : Action σ Unit)) = ofExcept (l.forM check) :=
  funext (on_forM_ofExcept l check)

end Action
end Rollup
