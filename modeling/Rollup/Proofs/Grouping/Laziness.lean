import Rollup.Proofs.Grouping.Listing
import Rollup.Proofs.Query.Execution

namespace Rollup

/-- An outcome told apart into values and a first fault. -/
def Outcome.ofUntilFault {α : Type} : List α × Option Fault → Except Fault (List α)
  | (values, none) => .ok values
  | (_, some e) => .error e

@[simp] theorem untilFault_error {α : Type} (e : Fault) (rest : List (Except Fault α)) :
    untilFault (.error e :: rest) = ([], some e) := rfl

@[simp] theorem untilFault_ok {α : Type} (a : α) (rest : List (Except Fault α)) :
    untilFault (.ok a :: rest) = (a :: (untilFault rest).1, (untilFault rest).2) := rfl

theorem untilFault_map_ok {α : Type} (values : List α) : untilFault (values.map .ok) = (values, none) := by
  induction values with
  | nil => rfl
  | cons a rest ih => rw [List.map_cons, untilFault_ok, ih]

/-- Assembling stops at the first fault. -/
theorem assemble_eq (listed : List (Except Fault ResultRow)) :
    assemble [listed] = Outcome.ofUntilFault (untilFault listed) := by
  rw [assemble, List.flatten_singleton]
  induction listed with
  | nil => rfl
  | cons item rest ih =>
    rw [List.mapM_cons, ih]
    cases item with
    | error e => rfl
    | ok row =>
      rw [untilFault_ok]
      rcases untilFault rest with ⟨rows, fault⟩
      cases fault with
      | none => rfl
      | some e => rfl

/-- What a reader meets at an item of a stream: the clock, if it is looked at, comes before the item. -/
def Deadline.meet (deadline : Deadline) (seen : Nat) (item : Except Fault Record) : Except Fault Record :=
  deadline.look seen >>= fun _ => item

theorem Deadline.meet_eq_ok_iff {deadline : Deadline} {seen : Nat} {item : Except Fault Record} {r : Record} :
    deadline.meet seen item = .ok r ↔ deadline.look seen = .ok () ∧ item = .ok r :=
  Outcome.check_bind_eq_ok_iff

theorem Deadline.meet_eq_error_iff {deadline : Deadline} {seen : Nat} {item : Except Fault Record}
    {e : Fault} : deadline.meet seen item = .error e ↔
      deadline.look seen = .error e ∨ deadline.look seen = .ok () ∧ item = .error e := by
  rw [meet, Outcome.bind_eq_error_iff]
  simp [Unique.exists_iff]

/-- How a reader of a stream comes to an end: behind all of it, or at a fault that it meets in place of the
next record. -/
inductive Deadline.Ends (deadline : Deadline) (seen : Nat) : Stream → Option Fault → Prop
  | behind : Ends deadline seen [] .none
  | stopped {item : Except Fault Record} {rest : Stream} {e : Fault}
    (met : deadline.meet seen item = .error e) : Ends deadline seen (item :: rest) (some e)

theorem Sink.on_foldFrom_cons {σ : Type} (sink : Sink σ) (deadline : Deadline) (seen : Nat)
    (item : Except Fault Record) (rest : Stream) (s : σ) :
    (sink.foldFrom deadline seen (item :: rest)).on s =
      match deadline.meet seen item with
      | .error e => (.error e, s)
      | .ok r => (sink.accept r >>= fun _ => sink.foldFrom deadline (seen + 1) rest).on s := by
  rw [foldFrom_cons, Deadline.meet]
  cases deadline.look seen with
  | error e => rfl
  | ok u => cases item <;> rfl

namespace FieldGrouping
variable {keys : KeyMap} {refs : List StatRef} {deadline : Deadline}

theorem untilFault_listFrom_of_error {seen : Nat} {item : Except Fault Record} {e : Fault}
    (met : deadline.meet seen item = .error e) (rest : Stream) :
    untilFault (listFrom keys refs deadline seen (item :: rest)) = ([], some e) := by
  rcases Deadline.meet_eq_error_iff.1 met with late | ⟨early, rfl⟩
  · rw [Deadline.look] at late
    simp [listFrom, late]
  · rw [Deadline.look] at early
    simp [listFrom, early]

theorem untilFault_listFrom_of_ok {seen : Nat} {item : Except Fault Record} {r : Record}
    (met : deadline.meet seen item = .ok r) (rest : Stream) :
    untilFault (listFrom keys refs deadline seen (item :: rest)) =
      ((row? keys refs r).toList ++ (untilFault (listFrom keys refs deadline (seen + 1) rest)).1,
        (untilFault (listFrom keys refs deadline (seen + 1) rest)).2) := by
  obtain ⟨early, rfl⟩ := Deadline.meet_eq_ok_iff.1 met
  rw [Deadline.look] at early
  cases shown : row? keys refs r <;> simp [listFrom, early, shown]

variable (keys refs deadline) in
/-- Where an eager listing stands after a fold: with the rows before the first fault of the lazy one taken in,
and stopped by the same fault. -/
theorem on_foldFrom_rowSink (stream : Stream) (seen : Nat) (rows : List ResultRow) :
    ∃ n, ((rowSink keys refs).foldFrom deadline seen stream).on rows =
      (match (untilFault (listFrom keys refs deadline seen stream)).2 with
        | none => .ok n
        | some e => .error e,
        (untilFault (listFrom keys refs deadline seen stream)).1.reverse ++ rows) := by
  induction stream generalizing seen rows with
  | nil => exact ⟨seen, rfl⟩
  | cons item rest ih =>
    rw [Sink.on_foldFrom_cons]
    cases met : deadline.meet seen item with
    | error e => exact ⟨0, by simp [untilFault_listFrom_of_error met]⟩
    | ok r =>
      obtain ⟨n, later⟩ := ih (seen + 1) ((row? keys refs r).toList ++ rows)
      have accepted : ((rowSink keys refs).accept r).on rows =
          (.ok (), (row? keys refs r).toList ++ rows) := Sink.on_accept_collecting _ r rows
      have stands : ((row? keys refs r).toList).reverse = (row? keys refs r).toList := by
        cases row? keys refs r <;> rfl
      refine ⟨n, ?_⟩
      simp only [Action.on_bind_ok accepted, later, untilFault_listFrom_of_ok met, List.reverse_append,
        List.append_assoc, stands]

/-- Up to its first fault a listing shows the rows of the records it has read, and it reads on for as long as
neither the clock nor the stream stops it. -/
theorem exists_records_untilFault (keys : KeyMap) (refs : List StatRef) (deadline : Deadline) (seen : Nat)
    (stream : Stream) : ∃ (records : List Record) (rest : Stream), stream = records.map .ok ++ rest ∧
      (∀ i < records.length, deadline.look (seen + i) = .ok ()) ∧
      (untilFault (listFrom keys refs deadline seen stream)).1 = records.filterMap (row? keys refs) ∧
      deadline.Ends (seen + records.length) rest
        (untilFault (listFrom keys refs deadline seen stream)).2 := by
  induction stream generalizing seen with
  | nil => exact ⟨[], [], rfl, nofun, rfl, .behind⟩
  | cons item rest ih =>
    cases met : deadline.meet seen item with
    | error e =>
      rw [untilFault_listFrom_of_error met]
      exact ⟨[], item :: rest, rfl, nofun, rfl, .stopped met⟩
    | ok r =>
      obtain ⟨records, later, rfl, early, shown, ends⟩ := ih (seen + 1)
      obtain ⟨here, rfl⟩ := Deadline.meet_eq_ok_iff.1 met
      rw [untilFault_listFrom_of_ok met]
      refine ⟨r :: records, later, rfl, ?_, ?_, ?_⟩
      · intro i within
        cases i with
        | zero => exact here
        | succ i =>
          rw [← Nat.add_assoc, Nat.add_right_comm]
          exact early i (Nat.lt_of_succ_lt_succ within)
      · rw [shown]
        cases row : row? keys refs r <;> simp [row]
      · rw [List.length_cons, ← Nat.add_assoc, Nat.add_right_comm]
        exact ends

/-- An eager listing fails with the first fault of the lazy one, or else holds its rows. -/
theorem result_rowSink (stream : Stream) :
    (rowSink keys refs).result deadline stream [] =
      List.reverse <$> Outcome.ofUntilFault (untilFault (listFrom keys refs deadline 0 stream)) := by
  obtain ⟨n, folded⟩ := on_foldFrom_rowSink keys refs deadline stream 0 []
  rw [Sink.result, Sink.fold, folded, List.append_nil]
  rcases untilFault (listFrom keys refs deadline 0 stream) with ⟨rows, fault⟩
  cases fault <;> rfl

/-- What a grouping that makes no groups lists, if it looks at the stream at all. -/
theorem on_collect_passthrough {g : FieldGrouping} (lazy : g.mode = .passthrough) (s : Session) :
    (g.collect keys refs deadline).on s =
      (.ok (if keys.isEmpty then [] else listFrom keys refs deadline 0 (s.stream [g.field])), s) := by
  unfold collect
  by_cases empty : keys.isEmpty = true
  · rw [if_pos empty, if_pos empty]
    rfl
  · rw [if_neg empty, if_neg empty, lazy]
    rfl

/-- What a grouping that splits by every term lists: what the lazy one does, up to the first fault. -/
theorem on_collect_eager {g : FieldGrouping} (eager : g.mode = .explode) (s : Session) :
    (g.collect keys refs deadline).on s =
      ((·.map .ok) <$> Outcome.ofUntilFault (untilFault (if keys.isEmpty then []
        else listFrom keys refs deadline 0 (s.stream [g.field]))), s) := by
  unfold collect
  by_cases empty : keys.isEmpty = true
  · rw [if_pos empty, if_pos empty]
    rfl
  · rw [if_neg empty, if_neg empty, eager]
    simp only
    rw [Action.on_bind_ok (Action.on_get _), result_rowSink]
    rcases untilFault (listFrom keys refs deadline 0 (s.stream [g.field])) with ⟨rows, fault⟩
    cases fault with
    | none =>
      have folded : List.reverse <$> Outcome.ofUntilFault (rows, none) = .ok rows.reverse := rfl
      rw [folded, Action.on_bind_ok (Action.on_ofExcept _ s), List.reverse_reverse]
      rfl
    | some e => rfl

end FieldGrouping

namespace Grouping

/-- Collects, and reads what is listed to its end or its first fault. -/
def assembled (g : Grouping) (keys : KeyMap) (refs : List StatRef) (deadline : Deadline) :
    Action Session (List ResultRow) := do
  let listed ← g.collect keys refs deadline
  Action.ofExcept (assemble [listed])

/-- Listing a field's rows one at a time and collecting them first come to the same: assembled, both have the
same rows or the same fault, whatever the clock and the stream do. And where the handles are live, the lazy
listing shows up to its first fault the rows of just the records before it whose group has a key; without any
key it does not look at the stream. -/
theorem assembled_eq_of_passthrough {g g' : FieldGrouping} (lazy : g.mode = .passthrough)
    (eager : g'.mode = .explode) (same : g'.field = g.field) (keys : KeyMap) (refs : List StatRef)
    (deadline : Deadline) (s : Session) :
    ((Grouping.field g').assembled keys refs deadline).on s =
        ((Grouping.field g).assembled keys refs deadline).on s ∧
      ((∀ ref ∈ refs, s.stack.isValid ref = true) →
        ∃ listed, ((Grouping.field g).collect keys refs deadline).on s = (.ok listed, s) ∧
          (keys.isEmpty = true → listed = []) ∧
          (keys.isEmpty = false → ∃ (records : List Record) (rest : Stream),
            s.stream [g.field] = records.map .ok ++ rest ∧
            (∀ i < records.length, deadline.look i = .ok ()) ∧
            (untilFault listed).1 = records.filterMap (fun r => (keys.get? r.group).map fun key =>
              ⟨key.child r.term, refs.map (·.read r.stats)⟩) ∧
            deadline.Ends records.length rest (untilFault listed).2)) := by
  constructor
  · rw [assembled, assembled, Action.on_bind, Action.on_bind, on_collect_field, on_collect_field]
    cases refs.forM s.stack.requireValid with
    | error e => rfl
    | ok u =>
      simp only [FieldGrouping.on_collect_passthrough lazy, FieldGrouping.on_collect_eager eager, same]
      generalize (if keys.isEmpty = true then []
        else FieldGrouping.listFrom keys refs deadline 0 (s.stream [g.field])) = listed
      rw [Action.on_ofExcept, assemble_eq]
      rcases untilFault listed with ⟨rows, fault⟩
      cases fault with
      | none => exact congrArg (·, s) (assemble_ok rows)
      | some e => rfl
  · intro live
    have checked : refs.forM s.stack.requireValid = .ok () :=
      Outcome.forM_eq_ok_iff.2 fun ref member => if_pos (live ref member)
    have collected := on_collect_field g keys refs deadline s
    rw [checked] at collected
    refine ⟨_, collected.trans (FieldGrouping.on_collect_passthrough lazy s), ?_, ?_⟩
    · intro empty
      rw [if_pos empty]
    · intro some
      rw [some, if_neg Bool.false_ne_true]
      obtain ⟨records, rest, stream, early, shown, ends⟩ :=
        FieldGrouping.exists_records_untilFault keys refs deadline 0 (s.stream [g.field])
      simp only [Nat.zero_add] at early ends
      exact ⟨records, rest, stream, early, shown, ends⟩

/-- Documents of three groups; the count is pushed, and streams break off after three records. -/
def thinned : Session :=
  let docs : List Document := [⟨[("x", .int 5)]⟩, ⟨[("x", .text "7")]⟩, ⟨[("x", .int 7)]⟩, ⟨[("x", .int 9)]⟩]
  let opened := ((Session.assign [3, 2, 1, 1]).on (.new 0 docs .standard)).2
  { ((Session.push .count).on opened).2 with failAfter := some 3 }

/-- Keys for two of the three groups. -/
def outerKeys : KeyMap := .ofList [(1, .child .root (.text "a")), (3, .child .root (.text "c"))]

theorem assembled_eq_of_passthrough_of_thinned :
    let lazy : FieldGrouping := ⟨⟨"x", .int⟩, 0, .count, false, true⟩
    let eager : FieldGrouping := ⟨⟨"x", .int⟩, 0, .count, true, false⟩
    let count : StatRef := .single ⟨0, 0, 1⟩
    let deadline : Deadline := ⟨some 100, 2, 20⟩
    let fault : Fault := .streamAborted "x" "stream interrupted after 3 records"
    let rows : List ResultRow := [⟨.child (.child .root (.text "c")) (.int 5), [1]⟩,
      ⟨.child (.child .root (.text "a")) (.int 7), [1]⟩]
    lazy.mode = .passthrough ∧ eager.mode = .explode ∧ eager.field = lazy.field ∧
      thinned.stack.isValid count = true ∧
      (((Grouping.field eager).assembled outerKeys [count] deadline).on thinned).1 = .error fault ∧
      ((Grouping.field lazy).collect outerKeys [count] deadline).on thinned =
        (.ok (rows.map .ok ++ [.error fault]), thinned) ∧
      ∃ (records : List Record) (rest : Stream), thinned.stream [lazy.field] = records.map .ok ++ rest ∧
        rows = records.filterMap (fun r => (outerKeys.get? r.group).map fun key =>
          ⟨key.child r.term, [count.read r.stats]⟩) ∧
        deadline.Ends records.length rest (some fault) := by
  intro lazy eager count deadline fault rows
  have live : thinned.stack.isValid count = true := by decide +kernel
  have keyed : outerKeys.isEmpty = false := by decide +kernel
  have aborted : (((Grouping.field lazy).assembled outerKeys [count] deadline).on thinned).1 =
      .error fault := by decide +kernel
  have listing : (((Grouping.field lazy).collect outerKeys [count] deadline).on thinned).1 =
      .ok (rows.map .ok ++ [.error fault]) := by decide +kernel
  have lazyMode : lazy.mode = .passthrough := rfl
  have eagerMode : eager.mode = .explode := rfl
  have sameField : eager.field = lazy.field := rfl
  obtain ⟨same, reading⟩ := assembled_eq_of_passthrough lazyMode eagerMode sameField outerKeys [count]
    deadline thinned
  obtain ⟨listed, collected, -, shown⟩ := reading (List.forall_mem_singleton.2 live)
  cases (congrArg Prod.fst collected).symm.trans listing
  obtain ⟨records, rest, stream, -, read, ends⟩ := shown keyed
  exact ⟨lazyMode, eagerMode, sameField, live, (congrArg Prod.fst same).trans aborted, collected, records, rest,
    stream, read, ends⟩

end Grouping
end Rollup
