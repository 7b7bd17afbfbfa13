import Rollup.Proofs.Grouping.Likeness
import Rollup.Proofs.Query.Interruption

namespace Rollup

namespace Session
variable {α β : Type}

/-- An action that leaves a session as it was, but for the number of the next push, and whose outcome does
not depend on that number. -/
def Reads (x : Action Session α) : Prop := ∀ s : Session, s.InStep →
  ∃ outcome, ∀ n, ∃ m, x.on (s.restamped n) = (outcome, s.restamped m)

/-- What a statistic comes to does not depend on the number of the next push. -/
theorem evaluated_restamped (stat : Stat) (s : Session) (n : Nat) :
    (s.restamped n).evaluated stat = s.evaluated stat := by
  have compiled : (stat.readdressed id).compile (s.restamped n).scope = stat.compile s.scope :=
    Stat.compile_readdressed (fun _ => rfl) (fun _ => rfl) stat
  rw [stat.readdressed_id] at compiled
  rw [evaluated, compiled]
  rfl

theorem alike_loaded (stat : Stat) (entries : List Entry) (s : Session) (n : Nat) :
    (s.loaded stat entries).Alike Eq ((s.restamped n).loaded stat entries) where
  entries := List.forall₂_same.2 fun _ _ => ⟨rfl, rfl, rfl, rfl⟩
  groupCount := rfl
  width := rfl
  groupLimit := rfl
  failAfter := rfl

namespace Reads

theorem pure (a : α) : Reads (pure a : Action Session α) := fun _ _ => ⟨.ok a, fun n => ⟨n, rfl⟩⟩

theorem throw (e : Fault) : Reads (throw e : Action Session α) :=
  fun _ _ => ⟨.error e, fun n => ⟨n, rfl⟩⟩

theorem ofExcept (x : Except Fault α) : Reads (Action.ofExcept x) :=
  fun _ _ => ⟨x, fun n => ⟨n, rfl⟩⟩

theorem bind {x : Action Session α} {f : α → Action Session β} (first : Reads x)
    (next : ∀ a, Reads (f a)) : Reads (x >>= f) := by
  intro s inStep
  obtain ⟨outcome, here⟩ := first s inStep
  cases outcome with
  | error e =>
    refine ⟨.error e, ?_⟩
    intro n
    obtain ⟨m, failed⟩ := here n
    exact ⟨m, Action.on_bind_error failed⟩
  | ok a =>
    obtain ⟨outcome, later⟩ := next a s inStep
    refine ⟨outcome, ?_⟩
    intro n
    obtain ⟨m, done⟩ := here n
    obtain ⟨l, rest⟩ := later m
    exact ⟨l, (Action.on_bind_ok done).trans rest⟩

/-- A look at something that the number of the next push has no part in. -/
theorem look (p : Session → β) (f : β → Action Session α) (steady : ∀ s n, p (s.restamped n) = p s)
    (next : ∀ b, Reads (f b)) : Reads (get >>= fun s => f (p s)) := by
  intro s inStep
  obtain ⟨outcome, later⟩ := next (p s) s inStep
  refine ⟨outcome, ?_⟩
  intro n
  obtain ⟨m, done⟩ := later n
  refine ⟨m, ?_⟩
  rw [Action.on_bind_ok (Action.on_get _), steady]
  exact done

/-- Reading with a statistic pushed, as long as what is read depends on the values and the slots only. -/
theorem measure (stat : Stat) {look : StatRef → Session → Except Fault α}
    (alike : ∀ (s t : Session) (a b : StatRef), s.Alike Eq t → a.Alike b →
      t.stack.requireValid b = s.stack.requireValid a → look b t = look a s) :
    Reads (measure stat look) := by
  intro s inStep
  cases values : s.evaluated stat with
  | error e =>
    refine ⟨.error e, ?_⟩
    intro n
    exact ⟨n, on_measure_of_error look ((evaluated_restamped stat s n).trans values)⟩
  | ok entries =>
    refine ⟨look (s.stack.push stat.shape).1 (s.loaded stat entries), ?_⟩
    intro n
    have live (t : StatStack) : (t.push stat.shape).2.requireValid (t.push stat.shape).1 = .ok () :=
      if_pos (t.isValid_push stat.shape)
    have read : look ((s.restamped n).stack.push stat.shape).1 ((s.restamped n).loaded stat entries) =
        look (s.stack.push stat.shape).1 (s.loaded stat entries) :=
      alike _ _ _ _ (alike_loaded stat entries s n)
        (StatRef.alike_push (s := s.stack) (t := (s.restamped n).stack) rfl stat.shape)
        ((live (s.restamped n).stack).trans (live s.stack).symm)
    refine ⟨n + stat.width, ?_⟩
    rw [on_measure look (inStep.restamped n) ((evaluated_restamped stat s n).trans values), read]
    simp only [Session.restamped, Nat.add_assoc]

end Reads
end Session

namespace FieldGrouping

theorem reads_collect (g : FieldGrouping) (keys : KeyMap) (refs : List StatRef) (deadline : Deadline) :
    Session.Reads (g.collect keys refs deadline) := by
  unfold collect
  by_cases empty : keys.isEmpty
  · rw [if_pos empty]
    exact .pure _
  · rw [if_neg empty]
    cases g.mode with
    | topK k =>
      have ranked : Session.Reads (g.collectTopK k keys refs deadline) := by
        rw [collectTopK_eq]
        refine .measure g.sortStat fun s t a b alike sort _ => ?_
        exact ranked_alike alike (fun _ _ same => same ▸ rfl) sort
          (List.forall₂_same.2 fun ref _ => ref.alike_refl) k keys deadline
      exact ranked.bind fun rows => .pure _
    | passthrough =>
      exact .look (·.stream [g.field]) (fun stream => Pure.pure (listFrom keys refs deadline 0 stream))
        (fun _ _ => rfl) fun _ => .pure _
    | explode =>
      exact .look (·.stream [g.field]) (fun stream =>
          Action.ofExcept ((rowSink keys refs).result deadline stream []) >>= fun rows =>
            Pure.pure (rows.reverse.map Except.ok))
        (fun _ _ => rfl) fun _ => .bind (.ofExcept _) fun _ => .pure _

end FieldGrouping

namespace PercentileGrouping

theorem reads_collect (g : PercentileGrouping) (keys : KeyMap) (refs : List StatRef) (deadline : Deadline) :
    Session.Reads (g.collect keys refs deadline) := by
  rw [collect_eq]
  refine .bind (.measure g.countStat ?_) fun found => ?_
  · intro s t a b alike count live
    exact answer_alike alike (fun _ _ _ same => same ▸ rfl) count live keys deadline
  · exact .look (g.tabulate keys refs found) Action.ofExcept (fun _ _ => rfl) .ofExcept

end PercentileGrouping

namespace Grouping
open Session

theorem reads_collect (g : Grouping) (keys : KeyMap) (refs : List StatRef) (deadline : Deadline) :
    Reads (g.collect keys refs deadline) := by
  have checked {x : Action Session (List (Except Fault ResultRow))} (reads : Reads x) :
      Reads (get >>= fun s => Action.ofExcept (refs.forM s.stack.requireValid) >>= fun _ => x) :=
    .look (fun s => refs.forM s.stack.requireValid) (fun valid => Action.ofExcept valid >>= fun _ => x)
      (fun _ _ => rfl) fun _ => .bind (.ofExcept _) fun _ => reads
  unfold collect
  simp only [Action.forM_ofExcept]
  cases g with
  | field f => exact checked (f.reads_collect keys refs deadline)
  | percentile p => exact checked (p.reads_collect keys refs deadline)
  | diff d => exact checked (.throw _)

/-- Collecting leaves everything in a session as it was, however it ends, except that the next push may get a
later number. Collecting again yields the same list of rows and faults, or fails with the same fault; the
clock may have gone on, as long as it has not passed the limit in between. -/
theorem collect_repeatable {s : Session} (inStep : s.InStep) (g : Grouping) (keys : KeyMap)
    (refs : List StatRef) (first second : Deadline) (limit : second.limit = first.limit)
    (interval : second.interval = first.interval) (clock : second.missed = first.missed) :
    ∃ outcome m n, (g.collect keys refs first).on s = (outcome, s.restamped m) ∧
      (g.collect keys refs second).on (s.restamped m) = (outcome, s.restamped n) := by
  have looks : second.look = first.look := by
    funext seen
    have due : second.due seen = first.due seen := by rw [Deadline.due, Deadline.due, limit, interval]
    have check : second.check = first.check := by rw [Deadline.check, Deadline.check, clock]
    rw [Deadline.look, Deadline.look, due, check]
  rw [g.collect_of_look looks]
  obtain ⟨outcome, reads⟩ := g.reads_collect keys refs first s inStep
  obtain ⟨m, once⟩ := reads 0
  obtain ⟨n, again⟩ := reads m
  exact ⟨outcome, m, n, once, again⟩

/-- Two documents with the count pushed, and streams that break off after one record. -/
def broken : Session :=
  { ((Session.push .count).on (.new 0 [⟨[("x", .int 5)]⟩, ⟨[("x", .int 7)]⟩] .standard)).2 with
    failAfter := some 1 }

theorem collect_repeatable_of_broken : broken.InStep ∧
    ∃ m n, ((Grouping.field ⟨⟨"x", .int⟩, 2, .intField "x", false, false⟩).collect .initial
        [.single ⟨0, 0, 1⟩] ⟨some 100, 1, 20⟩).on broken =
          (.error (.streamAborted "x" "stream interrupted after 1 records"), broken.restamped m) ∧
      ((Grouping.field ⟨⟨"x", .int⟩, 2, .intField "x", false, false⟩).collect .initial
        [.single ⟨0, 0, 1⟩] ⟨some 100, 1, 60⟩).on (broken.restamped m) =
          (.error (.streamAborted "x" "stream interrupted after 1 records"), broken.restamped n) := by
  have inStep : broken.InStep := ⟨rfl, by decide⟩
  obtain ⟨outcome, m, n, once, again⟩ := collect_repeatable inStep
    (.field ⟨⟨"x", .int⟩, 2, .intField "x", false, false⟩) .initial [.single ⟨0, 0, 1⟩]
    ⟨some 100, 1, 20⟩ ⟨some 100, 1, 60⟩ rfl rfl rfl
  have aborted : (((Grouping.field ⟨⟨"x", .int⟩, 2, .intField "x", false, false⟩).collect .initial
      [.single ⟨0, 0, 1⟩] ⟨some 100, 1, 20⟩).on broken).1 =
        .error (.streamAborted "x" "stream interrupted after 1 records") := by
    decide +kernel
  rw [congrArg Prod.fst once] at aborted
  cases aborted
  exact ⟨inStep, m, n, once, again⟩

end Grouping
end Rollup
