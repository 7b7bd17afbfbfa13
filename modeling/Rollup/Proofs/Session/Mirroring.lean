import Rollup.Proofs.Grouping.Likeness
import Rollup.Proofs.Session.Metrics
import Rollup.Proofs.Session.Respelling

/-! Two sessions side by side: the second one is over respelled documents, and its stack and its registry have
other ids. Actions end alike on both and leave them side by side, as long as no scaled decimal is pushed and
fields are split by integers. -/

namespace Rollup

variable {σ : Nat → Nat}

def StatStack.readdressed (σ : Nat → Nat) (s : StatStack) : StatStack := { s with id := σ s.id }

def MetricRegistry.readdressed (σ : Nat → Nat) (r : MetricRegistry) : MetricRegistry :=
  { r with id := σ r.id }

theorem StatStack.requireValid_readdressed (apart : Function.Injective σ) (s : StatStack) (ref : StatRef) :
    (s.readdressed σ).requireValid (ref.readdressed σ) = s.requireValid ref := by
  -- Ids are only ever compared, so all that matters is that different ones stay different.
  have live (slot : SlotRef) : (s.readdressed σ).slotIsLive (slot.readdressed σ) = s.slotIsLive slot := by
    rw [slotIsLive, slotIsLive]
    exact congrArg (· && _) (apart.beq_eq)
  cases ref with
  | single slot =>
    show (if (s.readdressed σ).slotIsLive (slot.readdressed σ) then _ else _) = _
    rw [live]
    rfl
  | aggregate op left right =>
    show (if (s.readdressed σ).slotIsLive (left.readdressed σ) &&
      (s.readdressed σ).slotIsLive (right.readdressed σ) then _ else _) = _
    rw [live, live]
    rfl

theorem StatStack.push_readdressed (s : StatStack) (shape : Shape) :
    (s.readdressed σ).push shape = ((s.push shape).1.readdressed σ, (s.push shape).2.readdressed σ) := by
  cases shape with
  | single => rfl
  | combined op => rfl

theorem StatStack.pop_readdressed (s : StatStack) :
    Outcome.Related (fun p q => q = (p.1, p.2.readdressed σ)) s.pop (s.readdressed σ).pop := by
  obtain ⟨id, slots, widths, nextGeneration⟩ := s
  cases widths with
  | nil => exact .error _
  | cons width widths => exact .ok rfl

theorem MetricRegistry.requireValid_readdressed (apart : Function.Injective σ) (r : MetricRegistry)
    (m : MetricHandle) : (r.readdressed σ).requireValid (m.readdressed σ) = r.requireValid m := by
  have live : (r.readdressed σ).isValid (m.readdressed σ) = r.isValid m := by
    rw [isValid, isValid]
    exact congrArg (· && _) (apart.beq_eq)
  rw [requireValid, requireValid, live]
  rfl

@[simp] theorem MetricRegistry.changed_readdressed (c : Change) (r : MetricRegistry) :
    (r.readdressed σ).changed c = (r.changed c).readdressed σ := by
  cases c with
  | register name => rfl
  | invalidate name => rfl
  | invalidateAll => rfl

theorem Entry.zipWith_withMetric_alike {R : Document → Document → Prop} {es es' : List Entry}
    (alike : List.Forall₂ (Entry.Alike R) es es') (name : String) (values : List Int64) :
    List.Forall₂ (Entry.Alike R) (es.zipWith (withMetric name) values)
      (es'.zipWith (withMetric name) values) := by
  induction alike generalizing values with
  | nil => exact .nil
  | cons here _ ih =>
    cases values with
    | nil => exact .nil
    | cons v rest =>
      exact .cons ⟨here.doc, here.slots, congrArg ((name, v) :: ·) here.metrics, here.group⟩ (ih rest)

namespace Session
variable {α β α' β' : Type}

structure Mirrored (σ : Nat → Nat) (s t : Session) : Prop extends s.Alike Document.Respelled t where
  stack : t.stack = s.stack.readdressed σ
  registry : t.registry = s.registry.readdressed σ

theorem Mirrored.evaluated (apart : Function.Injective σ) {s t : Session} (mirrored : s.Mirrored σ t)
    {stat : Stat} (unscaled : stat.Unscaled) :
    Outcome.Related (List.Forall₂ (Entry.Alike Document.Respelled)) (s.evaluated stat)
      (t.evaluated (stat.readdressed σ)) := by
  -- Corresponding handles mean the same depths and names, so the instructions are the same on both sides.
  have offset (slot : SlotRef) : t.scope.offset (slot.readdressed σ) = s.scope.offset slot := by
    have valid := s.stack.requireValid_readdressed apart (.single slot)
    rw [Scope.offset, Scope.offset, scope, scope, mirrored.stack]
    exact congrArg (· >>= _) valid
  have checked (m : MetricHandle) :
      t.scope.metrics.requireValid (m.readdressed σ) = s.scope.metrics.requireValid m := by
    rw [scope, scope, mirrored.registry]
    exact s.registry.requireValid_readdressed apart m
  rw [Session.evaluated, Session.evaluated, Stat.compile_readdressed offset checked,
    stat.width_readdressed]
  cases compiled : stat.compile s.scope with
  | error e => exact .error e
  | ok tokens =>
    exact Entry.mapM_load_alike mirrored.entries (Stat.plain_of_compile unscaled compiled) stat.width

/-- Actions that end alike on sessions side by side and leave them side by side. -/
def Mirrors (σ : Nat → Nat) (Q : α → β → Prop) (x : Action Session α) (y : Action Session β) : Prop :=
  ∀ s t : Session, s.Mirrored σ t →
    Outcome.Related Q (x.on s).1 (y.on t).1 ∧ (x.on s).2.Mirrored σ (y.on t).2

namespace Mirrors

theorem pure {Q : α → β → Prop} {a : α} {b : β} (related : Q a b) :
    Mirrors σ Q (pure a) (pure b) :=
  fun _ _ mirrored => ⟨.ok related, mirrored⟩

theorem throw {Q : α → β → Prop} (e : Fault) : Mirrors σ Q (throw e) (throw e) :=
  fun _ _ mirrored => ⟨.error e, mirrored⟩

theorem ofExcept {Q : α → β → Prop} {x : Except Fault α} {y : Except Fault β}
    (related : Outcome.Related Q x y) : Mirrors σ Q (Action.ofExcept x) (Action.ofExcept y) :=
  fun _ _ mirrored => ⟨related, mirrored⟩

theorem get : Mirrors σ (Mirrored σ) (get : Action Session Session) get :=
  fun _ _ mirrored => ⟨.ok mirrored, mirrored⟩

theorem attempt {Q : α → β → Prop} {x : Action Session α} {y : Action Session β}
    (mirrors : Mirrors σ Q x y) :
    Mirrors σ (Outcome.Related Q) (Action.attempt x) (Action.attempt y) := by
  intro s t mirrored
  obtain ⟨outcome, after⟩ := mirrors s t mirrored
  exact ⟨.ok outcome, after⟩

theorem bind {Q : α → α' → Prop} {S : β → β' → Prop} {x : Action Session α} {y : Action Session α'}
    {f : α → Action Session β} {g : α' → Action Session β'} (first : Mirrors σ Q x y)
    (next : ∀ a b, Q a b → Mirrors σ S (f a) (g b)) : Mirrors σ S (x >>= f) (y >>= g) := by
  intro s t mirrored
  obtain ⟨outcome, after⟩ := first s t mirrored
  rw [Action.on_bind, Action.on_bind]
  generalize x.on s = done at outcome after
  generalize y.on t = done' at outcome after
  obtain ⟨a, s'⟩ := done
  obtain ⟨b, t'⟩ := done'
  cases outcome with
  | ok related => exact next _ _ related s' t' after
  | error e => exact ⟨.error e, after⟩

theorem set {s t : Session} (mirrored : s.Mirrored σ t) :
    Mirrors σ Eq (set s : Action Session PUnit) (set t) :=
  fun _ _ _ => ⟨.ok rfl, mirrored⟩

theorem push (apart : Function.Injective σ) {stat : Stat} (unscaled : stat.Unscaled) :
    Mirrors σ (fun ref ref' => ref' = ref.readdressed σ) (push stat) (push (stat.readdressed σ)) := by
  intro s t mirrored
  have values := mirrored.evaluated apart unscaled
  rw [on_push_eq, on_push_eq]
  generalize s.evaluated stat = entries at values
  generalize t.evaluated (stat.readdressed σ) = entries' at values
  cases values with
  | error e => exact ⟨.error e, mirrored⟩
  | ok each =>
    have pushed := StatStack.push_readdressed (σ := σ) s.stack stat.shape
    rw [← mirrored.stack] at pushed
    refine ⟨.ok ?_, ⟨⟨each, mirrored.groupCount, ?_, mirrored.groupLimit, mirrored.failAfter⟩, ?_,
      mirrored.registry⟩⟩
    · rw [stat.shape_readdressed, pushed]
    · show t.width + (stat.readdressed σ).width = s.width + stat.width
      rw [mirrored.width, stat.width_readdressed]
    · show (t.stack.push (stat.readdressed σ).shape).2 = _
      rw [stat.shape_readdressed, pushed]
      rfl

theorem release : Mirrors σ Eq release release := by
  refine .bind .get fun s t mirrored => ?_
  have popped : Outcome.Related (fun p q => q = (p.1, p.2.readdressed σ)) s.stack.pop t.stack.pop := by
    rw [mirrored.stack]
    exact s.stack.pop_readdressed
  refine .bind (.ofExcept popped) fun p q same => ?_
  obtain rfl := same
  refine .bind (.set ?_) fun _ _ _ => .pure rfl
  exact ⟨⟨mirrored.entries, mirrored.groupCount, mirrored.width, mirrored.groupLimit, mirrored.failAfter⟩,
    rfl, mirrored.registry⟩

theorem unload (width : Nat) : Mirrors σ Eq (unload width) (unload width) := by
  refine .bind .get fun s t mirrored => ?_
  rw [mirrored.width]
  by_cases few : s.width < width
  · rw [if_pos few, if_pos few]
    exact .throw _
  · rw [if_neg few, if_neg few]
    refine .set ⟨⟨?_, mirrored.groupCount, rfl, mirrored.groupLimit, mirrored.failAfter⟩, mirrored.stack,
      mirrored.registry⟩
    refine List.rel_map ?_ mirrored.entries
    intro e e' here
    exact ⟨here.doc, congrArg (List.take (s.width - width)) here.slots, here.metrics, here.group⟩

theorem pop : Mirrors σ Eq pop pop := by
  refine .bind .release fun width width' same => ?_
  rw [same]
  exact unload width'

theorem split {f : Field} (view : f.view = .int) (keys : KeyMap) (choice : Choice) :
    Mirrors σ Eq (split f keys choice) (split f keys choice) := by
  intro s t mirrored
  have kept (u : Session) : ((Session.split f keys choice).on u).2.stack = u.stack ∧
      ((Session.split f keys choice).on u).2.registry = u.registry := by
    rw [on_split]
    by_cases full : u.groupLimit < choice.size + 1
    · rw [if_pos full]
      exact ⟨rfl, rfl⟩
    · rw [if_neg full]
      exact ⟨rfl, rfl⟩
  obtain ⟨outcome, after⟩ := mirrored.toAlike.split (Field.shared_of_int view) keys choice
  refine ⟨outcome ▸ .refl _, after, ?_, ?_⟩
  · rw [(kept s).1, (kept t).1, mirrored.stack]
  · rw [(kept s).2, (kept t).2, mirrored.registry]

theorem keep (keys : KeyMap) : Mirrors σ Eq (keep keys) (keep keys) :=
  fun _ _ mirrored => ⟨.ok rfl, mirrored.toAlike.keep keys, mirrored.stack, mirrored.registry⟩

theorem splitTopK (apart : Function.Injective σ) {f : Field} (view : f.view = .int) (keys : KeyMap)
    (k : Nat) {sortStat : Stat} (unscaled : sortStat.Unscaled) (bottom : Bool) :
    Mirrors σ Eq (splitTopK f keys k sortStat bottom)
      (splitTopK f keys k (sortStat.readdressed σ) bottom) := by
  refine .bind (push apart unscaled) fun ref ref' handle => .bind .get fun s t mirrored =>
    .bind pop fun _ _ _ => ?_
  have ranked (totals : Table Cell (List Float)) : scores keys ref' totals = scores keys ref totals := by
    simp only [scores, handle, (ref.alike_readdressed σ).read]
  rw [mirrored.toAlike.cellTotals (Field.shared_of_int view), ranked]
  exact split view keys _

theorem splitExplode {f : Field} (view : f.view = .int) (keys : KeyMap) :
    Mirrors σ Eq (splitExplode f keys) (splitExplode f keys) := by
  refine .bind .get fun s t mirrored => ?_
  rw [mirrored.toAlike.cells (Field.shared_of_int view)]
  exact split view keys _

theorem measure (apart : Function.Injective σ) {stat : Stat} (unscaled : stat.Unscaled)
    {look look' : StatRef → Session → Except Fault α}
    (same : ∀ s t ref, s.Mirrored σ t → look' (ref.readdressed σ) t = look ref s) :
    Mirrors σ Eq (measure stat look) (measure (stat.readdressed σ) look') := by
  refine .bind (push apart unscaled) fun ref ref' handle => .bind .get fun s t mirrored =>
    .bind (.attempt pop) fun popped popped' same' => ?_
  have read : Outcome.Related Eq (look ref s) (look' ref' t) := by
    rw [handle, same s t ref mirrored]
    exact .refl _
  refine .bind (.ofExcept read) fun found found' foundSame => .bind (.ofExcept same') fun _ _ _ => ?_
  exact .pure foundSame

theorem registerMetric (name : String) (values : List Int64) :
    Mirrors σ (fun m m' => m' = m.readdressed σ) (registerMetric name values)
      (registerMetric name values) := by
  intro s t mirrored
  rw [on_registerMetric, on_registerMetric, ← mirrored.entries.length_eq]
  by_cases fits : values.length = s.entries.length
  · rw [if_pos fits, if_pos fits]
    have registry : t.registry.changed (.register name) =
        (s.registry.changed (.register name)).readdressed σ := by
      rw [mirrored.registry, MetricRegistry.changed_readdressed]
    refine ⟨.ok ?_, ⟨?_, mirrored.groupCount, mirrored.width, mirrored.groupLimit, mirrored.failAfter⟩,
      mirrored.stack, registry⟩
    · rw [mirrored.registry]
      rfl
    · exact Entry.zipWith_withMetric_alike mirrored.entries name values
  · rw [if_neg fits, if_neg fits]
    exact ⟨.error _, mirrored⟩

end Mirrors

/-- What can be registered in a session, or dropped again. -/
inductive Supply where
  | metric (name : String) (values : List Int64)
  | change (c : MetricRegistry.Change)

def Supply.after (s : Session) : Supply → Session
  | metric name values => ((registerMetric name values).on s).2
  | change c => { s with registry := s.registry.changed c }

def supplied (supplies : List Supply) (s : Session) : Session := supplies.foldl Supply.after s

theorem Mirrored.supplied {s t : Session} (mirrored : s.Mirrored σ t) (supplies : List Supply) :
    (s.supplied supplies).Mirrored σ (t.supplied supplies) := by
  induction supplies generalizing s t with
  | nil => exact mirrored
  | cons supply rest ih =>
    refine ih ?_
    cases supply with
    | metric name values => exact (Mirrors.registerMetric name values s t mirrored).2
    | change c =>
      refine ⟨⟨mirrored.entries, mirrored.groupCount, mirrored.width, mirrored.groupLimit,
        mirrored.failAfter⟩, mirrored.stack, ?_⟩
      show t.registry.changed c = _
      rw [mirrored.registry, MetricRegistry.changed_readdressed]
      rfl

/-- Sessions that are opened over respelled documents are side by side. -/
theorem mirrored_new {docs docs' : List Document} (respelled : List.Forall₂ Document.Respelled docs docs')
    (id : Nat) (settings : Settings) : (new id docs settings).Mirrored σ (new (σ id) docs' settings) where
  entries := List.rel_map (fun _ _ here => ⟨here, rfl, rfl, rfl⟩) respelled
  groupCount := rfl
  width := rfl
  groupLimit := rfl
  failAfter := rfl
  stack := rfl
  registry := rfl

end Session
end Rollup
