import Rollup.Table
import Rollup.Term

namespace Rollup

/-- Group ids count from one; group zero holds the documents that left every group. -/
abbrev GroupId := Nat

/-- A key is the root or its parent's key and one more term, so children share their parent's chain. -/
inductive Key where
  | root
  | child (parent : Key) (term : Term)
with
  /-- How many terms a key has. Every key keeps the number, so its chain is not walked for it. -/
  @[computed_field] length : Key → Nat
    | .root => 0
    | .child parent _ => parent.length + 1
  deriving DecidableEq

/-- What a hash is worked out with: it takes in how many terms there are, and each of them. -/
structure Hasher (σ : Type) where
  count : σ → Nat → σ
  term : σ → Term → σ

namespace Key

def isEmpty : Key → Bool
  | root => true
  | child _ _ => false

def last? : Key → Option Term
  | root => none
  | child _ t => some t

/-- Walks from the innermost term outwards, putting each term before those already met. -/
def termsBefore : Key → List Term → List Term
  | root, met => met
  | child parent t, met => parent.termsBefore (t :: met)

/-- The terms from the outermost grouping to the innermost. -/
def terms (k : Key) : List Term := k.termsBefore []

theorem termsBefore_eq (k : Key) (met : List Term) : k.termsBefore met = k.terms ++ met := by
  induction k generalizing met with
  | root => rfl
  | child parent t ih => rw [terms, termsBefore, termsBefore, ih (t :: met), ih [t]]; simp

@[simp] theorem terms_root : root.terms = [] := rfl

@[simp] theorem terms_child (k : Key) (t : Term) : (child k t).terms = k.terms ++ [t] :=
  k.termsBefore_eq [t]

theorem length_terms (k : Key) : k.terms.length = k.length := by
  induction k with
  | root => rfl
  | child parent t ih => simp [length, ih]

theorem terms_injective {a b : Key} (h : a.terms = b.terms) : a = b := by
  induction a generalizing b with
  | root =>
    cases b with
    | root => rfl
    | child parent t => simp at h
  | child parent t ih =>
    cases b with
    | root => simp at h
    | child parent' t' =>
      simp only [terms_child] at h
      have parts := List.append_inj' h rfl
      rw [ih parts.1, List.singleton_inj.1 parts.2]

/-- Keys are told apart by their lengths first, and by their terms only where these are alike. -/
instance : BEq Key where
  beq a b := a.length == b.length && a.terms == b.terms

theorem beq_iff {a b : Key} : (a == b) = true ↔ a.terms = b.terms := by
  show (a.length == b.length && a.terms == b.terms) = true ↔ _
  rw [Bool.and_eq_true, beq_iff_eq, beq_iff_eq, ← length_terms, ← length_terms]
  exact ⟨And.right, fun same => ⟨congrArg List.length same, same⟩⟩

instance : LawfulBEq Key where
  eq_of_beq same := terms_injective (beq_iff.1 same)
  rfl := beq_iff.2 rfl

/-- Hands a key over to a hasher: its length, then its terms from the outermost one. -/
def feed {σ : Type} (hasher : Hasher σ) (state : σ) (k : Key) : σ :=
  k.terms.foldl hasher.term (hasher.count state k.terms.length)

instance : Hashable Key where
  hash k := k.feed ⟨fun state n => mixHash state (hash n), fun state t => mixHash state (hash t)⟩ 7

def ofTerms (ts : List Term) : Key := ts.foldl child root

/-- The terms one after the other, separated by slashes. -/
def display (k : Key) : String := "/".intercalate (k.terms.map Term.display)

end Key

/-- The live groups and the key of each. -/
abbrev KeyMap := Table GroupId Key

/-- Before any grouping there is one group, under the root key. -/
def KeyMap.initial : KeyMap := Table.empty.insert 1 Key.root

/-- One line of output: a group's key and its values in column order. -/
structure ResultRow where
  key : Key
  values : List Float
  deriving DecidableEq

end Rollup
