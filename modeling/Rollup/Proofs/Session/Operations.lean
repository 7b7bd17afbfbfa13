import Rollup.Proofs.Query.Invariance
import Rollup.Proofs.Session.History

namespace Rollup

namespace Session

/-- A call, or one of the basic actions that calls are made of. These go past the bookkeeping: instructions that no
statistic compiles to, values dropped without their handles, handles taken or given up without their values. -/
inductive Operation where
  | call (c : Call)
  | load (tokens : List Token) (width : Nat)
  | unload (width : Nat)
  | occupy (shape : Shape)
  | release

/-- The session after an operation, whether it succeeds or fails. -/
def Operation.after (s : Session) : Operation → Session
  | call c => c.after s
  | load tokens width => ((Session.load tokens width).on s).2
  | unload width => ((Session.unload width).on s).2
  | occupy shape => ((Session.occupy shape).on s).2
  | release => (Session.release.on s).2

def after (operations : List Operation) (s : Session) : Session := operations.foldl Operation.after s

namespace Stable
variable {P : Session → Prop} (stable : Stable P)
include stable

theorem call (c : Call) {s : Session} (h : P s) : P (c.after s) := by
  cases c with
  | push stat built => exact stable.push stat s h
  | pop => exact stable.pop s h
  | assign groups => exact stable.assign groups s h
  | registerMetric name values => exact stable.registerMetric name values s h
  | register name => exact stable.change (.register name) s h
  | invalidate name => exact stable.change (.invalidate name) s h
  | invalidateAll => exact stable.change .invalidateAll s h
  | breakAfter records => exact stable.breakAfter records s h
  | keep keys => exact stable.keep keys s h
  | splitTopK f keys k sortStat bottom => exact stable.splitTopK f keys k sortStat bottom s h
  | splitExplode f keys => exact stable.splitExplode f keys s h
  | stream fields => exact h
  | groupStats ref => exact h
  | regroup g keys => exact stable.regroup g keys s h
  | collect g keys refs deadline => exact stable.collect g keys refs deadline s h
  | execute q settings => exact stable.execute q settings s h

theorem operation (o : Operation) {s : Session} (h : P s) : P (o.after s) := by
  cases o with
  | call c => exact stable.call c h
  | load tokens width => exact stable.load tokens width s h
  | unload width => exact stable.unload width s h
  | occupy shape => exact stable.occupy shape s h
  | release => exact stable.release s h

theorem after (operations : List Operation) {s : Session} (h : P s) : P (s.after operations) := by
  induction operations generalizing s with
  | nil => exact h
  | cons o rest ih => exact ih (stable.operation o h)

end Stable

/-- What a basic action other than registering a metric leaves alone. A document with a value in every slot
still has one, and a document in a counted group goes to a counted group. -/
structure Retains (s t : Session) : Prop where
  registry : t.registry = s.registry
  entries : List.Forall₂ (fun e e' : Entry =>
    e'.doc = e.doc ∧ e'.metrics = e.metrics ∧
      (e.slots.length = s.width → e'.slots.length = t.width) ∧
      (e.group < s.groupCount → e'.group < t.groupCount)) s.entries t.entries

theorem le_foldl_max {groups : List GroupId} {g : GroupId} (start : GroupId)
    (h : g ≤ start ∨ g ∈ groups) : g ≤ groups.foldl Nat.max start := by
  induction groups generalizing start with
  | nil =>
    rcases h with below | none
    · exact below
    · cases none
  | cons first rest ih =>
    refine ih (Nat.max start first) ?_
    rcases h with below | member
    · exact .inl (Nat.le_trans below (Nat.le_max_left start first))
    · rcases List.mem_cons.1 member with rfl | later
      · exact .inl (Nat.le_max_right start g)
      · exact .inr later

namespace Retains

theorem refl (s : Session) : s.Retains s :=
  ⟨rfl, List.forall₂_same.2 fun _ _ => ⟨rfl, rfl, id, id⟩⟩

theorem load (tokens : List Token) (width : Nat) (s : Session) :
    s.Retains ((load tokens width).on s).2 := by
  rw [on_load]
  cases loaded : s.entries.mapM (Entry.load tokens width) with
  | error e => exact .refl s
  | ok entries =>
    refine ⟨rfl, (Outcome.mapM_eq_ok_iff.1 loaded).imp ?_⟩
    intro e e' here
    obtain ⟨values, length, rfl⟩ := Entry.loaded_of_load here
    refine ⟨rfl, rfl, ?_, id⟩
    intro full
    show (e.slots ++ values).length = s.width + width
    rw [List.length_append, full, length]

theorem unload (width : Nat) (s : Session) : s.Retains ((unload width).on s).2 := by
  rw [on_unload]
  by_cases few : s.width < width
  · rw [if_pos few]
    exact .refl s
  · rw [if_neg few]
    refine ⟨rfl, List.forall₂_map_right_iff.2 (List.forall₂_same.2 ?_)⟩
    intro e _
    refine ⟨rfl, rfl, ?_, id⟩
    intro full
    show (e.slots.take (s.width - width)).length = s.width - width
    rw [List.length_take, full]
    exact Nat.min_eq_left (Nat.sub_le _ _)

theorem occupy (shape : Shape) (s : Session) : s.Retains ((occupy shape).on s).2 :=
  ⟨rfl, (Retains.refl s).entries⟩

theorem release (s : Session) : s.Retains (release.on s).2 := by
  rw [on_release]
  cases s.stack.pop with
  | error e => exact .refl s
  | ok popped => exact ⟨rfl, (Retains.refl s).entries⟩

theorem split (f : Field) (keys : KeyMap) (choice : Choice) (s : Session) :
    s.Retains ((split f keys choice).on s).2 := by
  rw [on_split]
  by_cases full : s.groupLimit < choice.size + 1
  · rw [if_pos full]
    exact .refl s
  · rw [if_neg full]
    refine ⟨rfl, (forall₂_splitInto_iff f _ s).2 ?_⟩
    intro e _
    exact ⟨rfl, rfl, id, fun _ => e.group_move_lt f (choice.children keys)⟩

theorem keep (keys : KeyMap) (s : Session) : s.Retains ((keep keys).on s).2 := by
  refine ⟨rfl, List.forall₂_map_right_iff.2 (List.forall₂_same.2 ?_)⟩
  intro e _
  by_cases known : keys.contains e.group
  · rw [if_pos known]
    exact ⟨rfl, rfl, id, id⟩
  · rw [if_neg known]
    exact ⟨rfl, rfl, id, Nat.zero_lt_of_lt⟩

theorem assign (groups : List GroupId) (s : Session) : s.Retains ((assign groups).on s).2 := by
  rw [on_assign]
  by_cases fits : groups.length = s.entries.length
  · rw [if_pos fits]
    refine ⟨rfl, forall₂_zipWith ?_ fits⟩
    intro e g member
    exact ⟨rfl, rfl, id, fun _ => Nat.lt_succ_of_le (le_foldl_max 0 (.inr member))⟩
  · rw [if_neg fits]
    exact .refl s

theorem breakAfter (records : Option Nat) (s : Session) : s.Retains { s with failAfter := records } :=
  ⟨rfl, (Retains.refl s).entries⟩

end Retains

/-- So only the metrics need care. -/
theorem Stable.of_retains {P : Session → Prop} (retained : ∀ s t : Session, s.Retains t → P s → P t)
    (registering : ∀ name values, Preserves P (Session.registerMetric name values))
    (changing : ∀ c s, P s → P { s with registry := s.registry.changed c }) : Stable P where
  load tokens width s := retained s _ (.load tokens width s)
  unload width s := retained s _ (.unload width s)
  occupy shape s := retained s _ (.occupy shape s)
  release s := retained s _ (.release s)
  split f keys choice s := retained s _ (.split f keys choice s)
  keep keys s := retained s _ (.keep keys s)
  assign groups s := retained s _ (.assign groups s)
  registerMetric := registering
  change := changing
  breakAfter records s := retained s _ (.breakAfter records s)

end Session
end Rollup
