import Mathlib.Data.List.GetD
import Mathlib.Data.List.Induction
import Rollup.Key

namespace Rollup.Key

theorem last?_eq (k : Key) : k.last? = k.terms.getLast? := by
  cases k with
  | root => rfl
  | child parent t => rw [terms_child, List.getLast?_concat, last?]

theorem isEmpty_iff (k : Key) : k.isEmpty = true ↔ k.terms = [] := by
  cases k with
  | root => exact iff_of_true rfl rfl
  | child parent t => simp [isEmpty]

theorem feed_of_beq {a b : Key} (same : (a == b) = true) {σ : Type} (hasher : Hasher σ) (state : σ) :
    a.feed hasher state = b.feed hasher state := by
  rw [feed, feed, beq_iff.1 same]

theorem hash_of_beq {a b : Key} (same : (a == b) = true) : hash a = hash b := feed_of_beq same _ _

theorem child_beq_child {a b : Key} {t u : Term} :
    (a.child t == b.child u) = true ↔ (a == b) = true ∧ t = u := by
  rw [beq_iff, beq_iff, terms_child, terms_child, List.append_singleton_inj]

/-- An integer and the text that shows it make keys that look alike and are not. -/
theorem display_child_int (k : Key) (v : Int64) :
    (k.child (.int v)).display = (k.child (.text (toString v))).display := by
  simp only [display, terms_child, List.map_append, List.map_singleton, Term.display]

/-- A key is made from one made before, given by its place among these, and a term. -/
structure Extension where
  base : Nat
  term : Term

/-- The keys that a run of extensions makes, the root first. A place beyond them stands for the root. -/
def made (run : List Extension) : List Key :=
  run.foldl (fun keys e => keys ++ [(keys.getD e.base .root).child e.term]) [.root]

/-- The terms that the run has added on the way to each of them. -/
def added (run : List Extension) : List (List Term) :=
  run.foldl (fun lists e => lists ++ [lists.getD e.base [] ++ [e.term]]) [[]]

theorem made_concat (run : List Extension) (e : Extension) :
    made (run ++ [e]) = made run ++ [((made run).getD e.base .root).child e.term] := by
  rw [made, List.foldl_append]
  rfl

theorem added_concat (run : List Extension) (e : Extension) :
    added (run ++ [e]) = added run ++ [(added run).getD e.base [] ++ [e.term]] := by
  rw [added, List.foldl_append]
  rfl

theorem map_terms_made (run : List Extension) : (made run).map terms = added run := by
  induction run using List.reverseRecOn with
  | nil => rfl
  | append_singleton run e ih =>
    rw [made_concat, added_concat, ← ih, List.map_append, List.map_singleton, terms_child]
    exact congrArg (fun base => (made run).map terms ++ [base ++ [e.term]]) (List.getD_map _ _ _).symm

theorem prefix_made_append (run more : List Extension) : made run <+: made (run ++ more) := by
  induction more using List.reverseRecOn with
  | nil => simp
  | append_singleton more e ih =>
    rw [← List.append_assoc, made_concat]
    exact ih.trans (List.prefix_append _ _)

/-- Over every run of extensions, each key shows the terms added on the way to it, in order, and goes on to do so
whatever is made later. The length kept in a key, its last term and whether it is the root are those of its list
of terms. Two keys, however their chains came about, are equal exactly when their terms are, and then no hasher
tells them apart; extensions of them are equal exactly when they are and the terms added are. An integer and the
text that shows it are added as different terms, though the keys look alike. -/
theorem made_exact (run more : List Extension) :
    (made run).map terms = added run ∧
    made run <+: made (run ++ more) ∧
    (∀ k : Key, k.length = k.terms.length ∧ k.last? = k.terms.getLast? ∧ (k.isEmpty = true ↔ k.terms = [])) ∧
    ∀ a b : Key, ((a == b) = true ↔ a.terms = b.terms) ∧
      ((a == b) = true → hash a = hash b ∧
        ∀ (σ : Type) (hasher : Hasher σ) (state : σ), a.feed hasher state = b.feed hasher state) ∧
      (∀ t u, (a.child t == b.child u) = true ↔ (a == b) = true ∧ t = u) ∧
      ∀ v, (a.child (.int v) == b.child (.text (toString v))) = false ∧
        (a.child (.int v)).display = (a.child (.text (toString v))).display := by
  refine ⟨map_terms_made run, prefix_made_append run more, ?_, ?_⟩
  · intro k
    exact ⟨k.length_terms.symm, k.last?_eq, k.isEmpty_iff⟩
  · intro a b
    refine ⟨beq_iff, ?_, fun t u => child_beq_child, ?_⟩
    · intro same
      exact ⟨hash_of_beq same, fun σ hasher state => feed_of_beq same hasher state⟩
    · intro v
      refine ⟨?_, a.display_child_int v⟩
      rw [← Bool.not_eq_true, child_beq_child]
      rintro ⟨-, same⟩
      cases same

/-- Two keys of the same terms, by chains of their own, and a third that shares the chain of one of them. -/
def twoWays : List Extension :=
  [⟨0, .text "US"⟩, ⟨1, .int 7⟩, ⟨0, .text "US"⟩, ⟨3, .int 7⟩, ⟨1, .text "7"⟩]

theorem made_exact_of_twoWays :
    (made twoWays).map terms =
      [[], [.text "US"], [.text "US", .int 7], [.text "US"], [.text "US", .int 7], [.text "US", .text "7"]] ∧
    ∃ a b c, (made twoWays)[2]? = some a ∧ (made twoWays)[4]? = some b ∧ (made twoWays)[5]? = some c ∧
      (a == b) = true ∧ hash a = hash b ∧ (a == c) = false ∧ a.display = c.display := by
  obtain ⟨shown, -, -, pairs⟩ := made_exact twoWays []
  have outer := pairs (.child .root (.text "US")) (.child .root (.text "US"))
  have same : (Key.child (.child .root (.text "US")) (.int 7) == .child (.child .root (.text "US")) (.int 7)) = true :=
    (outer.2.2.1 _ _).2 ⟨outer.1.2 rfl, rfl⟩
  obtain ⟨apart, alike⟩ := outer.2.2.2 7
  exact ⟨shown, _, _, _, rfl, rfl, rfl, same, ((pairs _ _).2.1 same).1, apart, alike⟩

end Rollup.Key
