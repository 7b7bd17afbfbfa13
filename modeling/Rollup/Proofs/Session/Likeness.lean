import Rollup.Proofs.Session.Raised
import Rollup.Proofs.Session.Split
import Rollup.Proofs.Stat.Readdressing

namespace Rollup

namespace StatRef

/-- Handles of the same slots, whatever stack and push they are of. -/
inductive Alike : StatRef → StatRef → Prop where
  | single {a b : SlotRef} (depth : b.depth = a.depth) : Alike (.single a) (.single b)
  | aggregate (op : AggregateOp) {a b c d : SlotRef} (left : c.depth = a.depth)
    (right : d.depth = b.depth) : Alike (.aggregate op a b) (.aggregate op c d)

theorem alike_push {s t : StatStack} (depth : t.depth = s.depth) (shape : Shape) :
    (s.push shape).1.Alike (t.push shape).1 := by
  cases shape with
  | single => exact .single depth
  | combined op =>
    refine .aggregate op depth ?_
    show t.occupy.depth = s.occupy.depth
    rw [StatStack.depth_occupy, StatStack.depth_occupy, depth]

theorem alike_readdressed (σ : Nat → Nat) (ref : StatRef) : ref.Alike (ref.readdressed σ) := by
  cases ref with
  | single slot => exact .single rfl
  | aggregate op left right => exact .aggregate op rfl rfl

theorem alike_refl (ref : StatRef) : ref.Alike ref := by
  cases ref with
  | single slot => exact .single rfl
  | aggregate op left right => exact .aggregate op rfl rfl

theorem Alike.read {ref ref' : StatRef} (alike : ref.Alike ref') (row : List Float) :
    ref'.read row = ref.read row := by
  cases alike with
  | single depth => rw [StatRef.read, StatRef.read, depth]
  | aggregate op left right => rw [StatRef.read, StatRef.read, left, right]

end StatRef

/-- A field that related documents show the same term for. -/
def Field.Shared (R : Document → Document → Prop) (f : Field) : Prop :=
  ∀ d d', R d d' → d'.term? f = d.term? f

structure Entry.Alike (R : Document → Document → Prop) (e e' : Entry) : Prop where
  doc : R e.doc e'.doc
  slots : e'.slots = e.slots
  metrics : e'.metrics = e.metrics
  group : e'.group = e.group

structure Session.Alike (R : Document → Document → Prop) (s t : Session) : Prop where
  entries : List.Forall₂ (Entry.Alike R) s.entries t.entries
  groupCount : t.groupCount = s.groupCount
  width : t.width = s.width
  groupLimit : t.groupLimit = s.groupLimit
  failAfter : t.failAfter = s.failAfter

variable {R : Document → Document → Prop} {f : Field}

namespace Entry.Alike
variable {e e' : Entry} (alike : e.Alike R e')
include alike

theorem cell? (shared : f.Shared R) : e'.cell? f = e.cell? f := by
  rw [Entry.cell?, Entry.cell?, alike.group, shared _ _ alike.doc]

theorem numbers : e'.numbers = e.numbers := by rw [Entry.numbers, Entry.numbers, alike.slots]

theorem move (shared : f.Shared R) (ids : Table Cell GroupId) : (e.move f ids).Alike R (e'.move f ids) := by
  refine ⟨alike.doc, alike.slots, alike.metrics, ?_⟩
  rw [Entry.move, Entry.move, shared _ _ alike.doc, alike.group]

end Entry.Alike

/-- A step that makes the same of alike entries folds to the same. -/
theorem Entry.foldl_alike {α : Type} {step : α → Entry → α}
    (each : ∀ a e e', e.Alike R e' → step a e' = step a e) {es es' : List Entry}
    (alike : List.Forall₂ (Entry.Alike R) es es') (start : α) :
    es'.foldl step start = es.foldl step start := by
  induction alike generalizing start with
  | nil => rfl
  | cons here _ ih => rw [List.foldl_cons, List.foldl_cons, each start _ _ here, ih]

namespace Session.Alike
variable {s t : Session} (alike : s.Alike R t)
include alike

theorem groups : t.groups = s.groups := by
  have same : List.Forall₂ Eq t.groups s.groups := List.rel_map (fun _ _ here => here.group) alike.entries.flip
  rw [List.forall₂_eq_eq_eq] at same
  exact same

theorem cellTotals (shared : f.Shared R) : t.cellTotals f = s.cellTotals f := by
  rw [Session.cellTotals, Session.cellTotals, alike.width]
  refine Entry.foldl_alike ?_ alike.entries Table.empty
  intro totals e e' here
  rw [addEntry, addEntry, here.cell? shared, here.numbers]

theorem stream (shared : f.Shared R) : t.stream [f] = s.stream [f] := by
  have records : t.fieldRecords f = s.fieldRecords f := by
    rw [fieldRecords, fieldRecords, alike.cellTotals shared]
  rw [Session.stream, Session.stream, alike.failAfter]
  simp only [List.flatMap_cons, List.flatMap_nil, records]

theorem slotTotals (depth : Nat) : t.slotTotals depth = s.slotTotals depth := by
  rw [Session.slotTotals, Session.slotTotals, alike.width, alike.groupCount]
  have step (totals : List Float) (e e' : Entry) (here : e.Alike R e') :
      addToGroup depth totals e' = addToGroup depth totals e := by
    rw [addToGroup, addToGroup, here.group, here.slots]
  rw [Entry.foldl_alike step alike.entries]

/-- Handles that are alike read alike, as long as they are live alike. -/
theorem groupStats {ref ref' : StatRef} (refs : ref.Alike ref')
    (live : t.stack.requireValid ref' = s.stack.requireValid ref) : t.groupStats ref' = s.groupStats ref := by
  unfold Session.groupStats
  rw [live]
  cases refs with
  | single depth => simp only [alike.slotTotals, depth]
  | aggregate op left right => simp only [alike.slotTotals, left, right]

theorem cells (shared : f.Shared R) (keys : KeyMap) : t.cells f keys = s.cells f keys := by
  refine Entry.foldl_alike ?_ alike.entries Table.empty
  intro met e e' here
  simp only [shared _ _ here.doc, here.group]

/-- Alike sessions are split into the same groups or refuse for the same reason. -/
theorem split (shared : f.Shared R) (keys : KeyMap) (choice : Choice) :
    ((split f keys choice).on t).1 = ((split f keys choice).on s).1 ∧
      ((split f keys choice).on s).2.Alike R ((split f keys choice).on t).2 := by
  rw [on_split, on_split, alike.groupLimit]
  by_cases full : s.groupLimit < choice.size + 1
  · rw [if_pos full, if_pos full]
    exact ⟨rfl, alike⟩
  · rw [if_neg full, if_neg full]
    refine ⟨rfl, ⟨?_, rfl, alike.width, alike.groupLimit, alike.failAfter⟩⟩
    exact List.rel_map (fun _ _ here => here.move shared _) alike.entries

theorem keep (keys : KeyMap) : ((keep keys).on s).2.Alike R ((keep keys).on t).2 := by
  refine ⟨?_, alike.groupCount, alike.width, alike.groupLimit, alike.failAfter⟩
  refine List.rel_map ?_ alike.entries
  intro e e' here
  dsimp only
  rw [here.group]
  by_cases known : keys.contains e.group
  · rw [if_pos known, if_pos known]
    exact here
  · rw [if_neg known, if_neg known]
    exact ⟨here.doc, here.slots, here.metrics, rfl⟩

end Session.Alike
end Rollup
