import Rollup.Proofs.Number.Spelling
import Rollup.Proofs.Session.Likeness

namespace Rollup

/-- Some integers of the first document are their decimal texts in the second one. -/
def Document.Respelled (d d' : Document) : Prop := ∀ field, d'.get? field = d.get? field ∨
  ∃ v : Int64, d.get? field = some (.int v) ∧ d'.get? field = some (.text (toString v))

namespace Document.Respelled
variable {d d' : Document}

theorem refl (d : Document) : d.Respelled d := fun _ => .inl rfl

variable (respelled : d.Respelled d') (field : String)
include respelled

theorem set (t : Term) : (d.set field t).Respelled (d'.set field t) := by
  intro name
  rw [Document.get?_set, Document.get?_set]
  by_cases here : name = field
  · rw [if_pos here, if_pos here]
    exact .inl rfl
  · rw [if_neg here, if_neg here]
    exact respelled name

theorem respell (v : Int64) :
    (d.set field (.int v)).Respelled (d'.set field (.text (toString v))) := by
  intro name
  rw [Document.get?_set, Document.get?_set]
  by_cases here : name = field
  · rw [if_pos here, if_pos here]
    exact .inr ⟨v, rfl, rfl⟩
  · rw [if_neg here, if_neg here]
    exact respelled name

theorem asInt : (d'.get? field).bind Term.asInt = (d.get? field).bind Term.asInt := by
  rcases respelled field with same | ⟨v, number, text⟩
  · rw [same]
  · rw [number, text]
    exact Term.asInt_toString v

theorem display : (d'.get? field).map Term.display = (d.get? field).map Term.display := by
  rcases respelled field with same | ⟨v, number, text⟩
  · rw [same]
  · rw [number, text]
    rfl

end Document.Respelled

theorem Field.shared_of_int {f : Field} (view : f.view = .int) : f.Shared Document.Respelled := by
  intro d d' respelled
  have read (o : Option Term) : o.bind (View.read .int) = (o.bind Term.asInt).map .int := by
    cases o with
    | none => rfl
    | some t => rfl
  rw [Document.term?, Document.term?, view, read, read, respelled.asInt]

namespace Token

def scales : Token → Bool
  | floatScale _ _ _ => true
  | _ => false

variable {r r' : Reading} (doc : r.doc.Respelled r'.doc) (slots : r'.slots = r.slots)
  (metrics : r'.metrics = r.metrics)
include doc slots metrics

theorem step_respelled {t : Token} (plain : t.scales = false) (stack : List Int64) :
    step r' t stack = step r t stack := by
  -- An integer is read through the integer view, and a test for a text looks at what is displayed.
  cases t with
  | field name =>
    have same : r'.doc.int name = r.doc.int name := by
      rw [Document.int, Document.int, doc.asInt]
    rw [step, step, same]
  | hasInt name value =>
    have same : r'.hasInt name value = r.hasInt name value := by
      rw [Reading.hasInt, Reading.hasInt, doc.asInt]
    rw [step, step, same]
  | hasText name value =>
    have same : r'.hasText name value = r.hasText name value := by
      rw [Reading.hasText, Reading.hasText, doc.display]
    rw [step, step, same]
  | metric name =>
    have same : r'.metric name = r.metric name := by
      rw [Reading.metric, Reading.metric, metrics]
    rw [step, step, same]
  | ref offset => rw [step, step, Reading.fromTop?, Reading.fromTop?, slots]
  | floatScale name mult add => cases plain
  | literal value => rfl
  | cached => rfl
  | count => rfl
  | operator op => rcases stack with _ | ⟨a, _ | ⟨b, rest⟩⟩ <;> rfl
  | exponential => cases stack <;> rfl
  | absolute => cases stack <;> rfl

theorem evaluate_respelled {tokens : List Token} (plain : ∀ t ∈ tokens, t.scales = false) :
    evaluate r' tokens = evaluate r tokens := by
  have run (stack : List Int64) : run r' tokens stack = run r tokens stack := by
    induction tokens generalizing stack with
    | nil => rfl
    | cons t rest ih =>
      rw [List.forall_mem_cons] at plain
      rw [Token.run, Token.run, step_respelled doc slots metrics plain.1]
      cases step r t stack with
      | error e => rfl
      | ok next => exact ih plain.2 next
  rw [evaluate, evaluate, run]

end Token

namespace Stat
open Outcome

def scales : Stat → Bool
  | floatScale _ _ _ => true
  | _ => false

/-- A statistic that no scaled decimal is part of. -/
def Unscaled (s : Stat) : Prop := ∀ p ∈ s.parts, p.scales = false

instance : DecidablePred Unscaled := fun s =>
  inferInstanceAs (Decidable (∀ p ∈ s.parts, p.scales = false))

theorem Unscaled.operand {s : Stat} (unscaled : s.Unscaled) {o : Stat} (member : o ∈ s.operands) :
    o.Unscaled :=
  fun p inside => unscaled p (mem_parts_iff.2 (.inr ⟨o, member, inside⟩))

theorem mem_joinOperands {op : StatOp} {codes : List (List Token)} {t : Token}
    (member : t ∈ joinOperands op codes) : t = .operator op ∨ ∃ code ∈ codes, t ∈ code := by
  cases codes with
  | nil => cases member
  | cons first rest =>
    rcases List.mem_append.1 member with here | later
    · exact .inr ⟨first, List.mem_cons_self, here⟩
    · obtain ⟨code, inRest, inside⟩ := List.mem_flatMap.1 later
      rcases List.mem_append.1 inside with here | last
      · exact .inr ⟨code, List.mem_cons_of_mem first inRest, here⟩
      · exact .inl (List.mem_singleton.1 last)

/-- Its instructions scale nothing either. -/
theorem plain_of_compile {scope : Scope} {s : Stat} (unscaled : s.Unscaled) {tokens : List Token}
    (compiled : s.compile scope = .ok tokens) : ∀ t ∈ tokens, t.scales = false := by
  induction s using operands_induction generalizing tokens with
  | step s below =>
    have inner (o : Stat) (operand : o ∈ s.operands) {code : List Token}
        (here : o.compile scope = .ok code) : ∀ t ∈ code, t.scales = false :=
      below o operand (unscaled.operand operand) here
    have followed {o : Stat} (operand : o ∈ s.operands) {last : Token} (plain : last.scales = false)
        (here : (do o.rejectCombination; let code ← o.compile scope; return code ++ [last]) =
          Except.ok tokens) : ∀ t ∈ tokens, t.scales = false := by
      obtain ⟨-, code, each, rfl⟩ := compile_unary_eq_ok_iff.1 here
      rw [List.forall_mem_append]
      exact ⟨inner o operand each, List.forall_mem_singleton.2 plain⟩
    cases s with
    | operation op operands =>
      simp only [compile, bind_eq_ok_iff, pure_eq_ok_iff] at compiled
      obtain ⟨codes, each, rfl⟩ := compiled
      intro t member
      rcases mem_joinOperands member with rfl | ⟨code, inCodes, inside⟩
      · rfl
      · obtain ⟨o, operand, here⟩ := exists_mem_of_forall₂ (compileAll_eq_ok each) inCodes
        exact inner o operand here t inside
    | combination op left right =>
      simp only [compile, bind_eq_ok_iff, pure_eq_ok_iff] at compiled
      obtain ⟨leftCode, leftHere, rightCode, rightHere, rfl⟩ := compiled
      rw [List.forall_mem_append]
      exact ⟨inner left List.mem_cons_self leftHere,
        inner right (List.mem_cons_of_mem left List.mem_cons_self) rightHere⟩
    | exponential o => exact followed List.mem_cons_self rfl compiled
    | absolute o => exact followed List.mem_cons_self rfl compiled
    | cached o => exact followed List.mem_cons_self rfl compiled
    | metric handle =>
      simp only [compile, bind_eq_ok_iff, pure_eq_ok_iff] at compiled
      obtain ⟨-, -, rfl⟩ := compiled
      exact List.forall_mem_singleton.2 rfl
    | slot ref =>
      simp only [compile, bind_eq_ok_iff, pure_eq_ok_iff] at compiled
      obtain ⟨offset, -, rfl⟩ := compiled
      exact List.forall_mem_singleton.2 rfl
    | floatScale field mult add => cases unscaled _ (mem_parts_iff.2 (.inl rfl))
    | _ =>
      cases compiled
      exact List.forall_mem_singleton.2 rfl

end Stat

namespace Entry
open Outcome

theorem load_alike {e e' : Entry} (alike : e.Alike Document.Respelled e') {tokens : List Token}
    (plain : ∀ t ∈ tokens, t.scales = false) (width : Nat) :
    Related (Entry.Alike Document.Respelled) (e.load tokens width) (e'.load tokens width) := by
  rw [load, load, Token.evaluate_respelled alike.doc alike.slots alike.metrics plain]
  cases Token.evaluate e.toReading tokens with
  | error fault => exact .error fault
  | ok values =>
    show Related _ (if values.length = width then _ else _) (if values.length = width then _ else _)
    by_cases fits : values.length = width
    · rw [if_pos fits, if_pos fits]
      exact .ok ⟨alike.doc, congrArg (· ++ values) alike.slots, alike.metrics, alike.group⟩
    · rw [if_neg fits, if_neg fits]
      exact .error _

theorem mapM_load_alike {es es' : List Entry} (alike : List.Forall₂ (Entry.Alike Document.Respelled) es es')
    {tokens : List Token} (plain : ∀ t ∈ tokens, t.scales = false) (width : Nat) :
    Related (List.Forall₂ (Entry.Alike Document.Respelled)) (es.mapM (Entry.load tokens width))
      (es'.mapM (Entry.load tokens width)) := by
  induction alike with
  | nil => exact .ok .nil
  | @cons e e' es es' here _ ih =>
    rw [List.mapM_cons, List.mapM_cons]
    exact (load_alike here plain width).bind fun _ _ first => ih.bind fun _ _ rest => .ok (.cons first rest)

end Entry
end Rollup
