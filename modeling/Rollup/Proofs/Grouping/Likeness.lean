import Rollup.Proofs.Grouping.Measure
import Rollup.Proofs.Session.Likeness

namespace Rollup

variable {R : Document → Document → Prop} {s t : Session} {refs refs' : List StatRef}

theorem StatRef.map_read_alike (alike : List.Forall₂ StatRef.Alike refs refs') (row : List Float) :
    refs'.map (·.read row) = refs.map (·.read row) := by
  induction alike with
  | nil => rfl
  | cons here _ ih => rw [List.map_cons, List.map_cons, here.read, ih]

namespace FieldGrouping

theorem row?_alike (alike : List.Forall₂ StatRef.Alike refs refs') (keys : KeyMap) :
    row? keys refs' = row? keys refs := by
  funext r
  rw [row?, row?, StatRef.map_read_alike alike]

theorem listFrom_alike (alike : List.Forall₂ StatRef.Alike refs refs') (keys : KeyMap) (deadline : Deadline)
    (seen : Nat) (stream : Stream) :
    listFrom keys refs' deadline seen stream = listFrom keys refs deadline seen stream := by
  induction stream generalizing seen with
  | nil => rfl
  | cons item rest ih => simp only [listFrom, row?_alike alike, ih]

theorem rowSink_alike (alike : List.Forall₂ StatRef.Alike refs refs') (keys : KeyMap) :
    rowSink keys refs' = rowSink keys refs := by
  rw [rowSink, rowSink, row?_alike alike]

theorem ranked_alike {g : FieldGrouping} (alike : s.Alike R t) (shared : g.field.Shared R)
    {sortRef sortRef' : StatRef} (sort : sortRef.Alike sortRef')
    (values : List.Forall₂ StatRef.Alike refs refs') (k : Nat) (keys : KeyMap) (deadline : Deadline) :
    g.ranked k keys refs' deadline sortRef' t = g.ranked k keys refs deadline sortRef s := by
  have candidates (n : Nat) (r : Record) : Selection.candidate ⟨k, g.bottom, sortRef', refs', keys⟩ n r =
      Selection.candidate ⟨k, g.bottom, sortRef, refs, keys⟩ n r := by
    simp only [Selection.candidate, sort.read, StatRef.map_read_alike values]
  have sinks : Selection.sink ⟨k, g.bottom, sortRef', refs', keys⟩ =
      Selection.sink ⟨k, g.bottom, sortRef, refs, keys⟩ := by
    refine congrArg Sink.collecting ?_
    funext r board
    simp only [Selection.offer, candidates]
  rw [ranked, ranked, alike.stream shared, sinks]
  rfl

end FieldGrouping

namespace PercentileGrouping

theorem answer_alike {g : PercentileGrouping} (alike : s.Alike R t)
    (shared : ∀ f : Field, f.asInt.Shared R) {countRef countRef' : StatRef}
    (count : countRef.Alike countRef')
    (live : t.stack.requireValid countRef' = s.stack.requireValid countRef) (keys : KeyMap)
    (deadline : Deadline) : g.answer t keys countRef' deadline = g.answer s keys countRef deadline := by
  have sees : Crossing.see countRef' = Crossing.see countRef := by
    funext term group stats trackers
    simp only [Crossing.see, count.read]
  have sinks : Crossing.sink countRef' = Crossing.sink countRef := by
    rw [Crossing.sink, Crossing.sink, sees]
  have fields (counts : List Int64) : g.answerField t keys countRef' counts deadline =
      g.answerField s keys countRef counts deadline := by
    funext found f
    simp only [answerField, alike.stream (shared f), sinks]
  simp only [answer, alike.groupStats count live, fields]

end PercentileGrouping
end Rollup
