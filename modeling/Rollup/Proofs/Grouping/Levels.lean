import Mathlib.Data.List.Dedup
import Rollup.Proofs.Session.Split

namespace Rollup

namespace Key

theorem ofTerms_append (ts : List Term) (t : Term) : ofTerms (ts ++ [t]) = (ofTerms ts).child t := by
  rw [ofTerms, List.foldl_append]
  rfl

@[simp] theorem terms_ofTerms (ts : List Term) : (ofTerms ts).terms = ts := by
  have general (ts : List Term) (k : Key) : (ts.foldl child k).terms = k.terms ++ ts := by
    induction ts generalizing k with
    | nil => exact (List.append_nil _).symm
    | cons t rest ih =>
      rw [List.foldl_cons, ih, terms_child, List.append_assoc]
      rfl
  exact general ts root

@[simp] theorem ofTerms_terms (k : Key) : ofTerms k.terms = k := terms_injective (terms_ofTerms k.terms)

end Key

/-- The terms of a document under fields, if it has one under each. -/
def Document.tuple? (fields : List Field) (d : Document) : Option (List Term) := fields.mapM d.term?

theorem Document.tuple?_append_eq_some_iff (fields : List Field) (f : Field) (d : Document)
    (tuple : List Term) :
    d.tuple? (fields ++ [f]) = some tuple ↔
      ∃ ts t, d.tuple? fields = some ts ∧ d.term? f = some t ∧ tuple = ts ++ [t] := by
  rw [tuple?, List.mapM_append]
  simp only [List.mapM_cons, List.mapM_nil, Option.bind_eq_bind, Option.bind_eq_some_iff,
    Option.pure_def, Option.some.injEq]
  constructor
  · intro h
    obtain ⟨ts, here, last, ⟨t, term, rest, rfl, rfl⟩, rfl⟩ := h
    exact ⟨ts, t, here, term, rfl⟩
  · intro h
    obtain ⟨ts, t, here, term, rfl⟩ := h
    exact ⟨ts, here, [t], ⟨t, term, [], rfl, rfl⟩, rfl⟩

/-- The distinct tuples that documents have under fields. -/
def Reading.tuples (fields : List Field) (rs : List Reading) : List (List Term) :=
  (rs.filterMap (·.doc.tuple? fields)).dedup

theorem Reading.nodup_tuples (fields : List Field) (rs : List Reading) : (tuples fields rs).Nodup :=
  List.nodup_dedup _

theorem Reading.mem_tuples_iff (fields : List Field) (rs : List Reading) (ts : List Term) :
    ts ∈ tuples fields rs ↔ ∃ r ∈ rs, r.doc.tuple? fields = some ts := by
  rw [tuples, List.mem_dedup, List.mem_filterMap]

theorem compare_append_singleton {p q : List Term} {t u : Term} (length : p.length = q.length)
    (less : compare p q = .lt ∨ p = q ∧ compare t u = .lt) :
    compare (p ++ [t]) (q ++ [u]) = .lt := by
  induction p generalizing q with
  | nil =>
    have empty : q = [] := List.length_eq_zero_iff.1 length.symm
    subst empty
    rcases less with before | ⟨-, last⟩
    · cases before
    · simp [last]
  | cons x rest ih =>
    cases q with
    | nil => cases length
    | cons y others =>
      have shorter : rest.length = others.length := Nat.succ.inj length
      rw [List.cons_append, List.cons_append, List.compare_cons_cons, Ordering.then_eq_lt]
      rcases less with before | ⟨same, last⟩
      · rw [List.compare_cons_cons, Ordering.then_eq_lt] at before
        rcases before with first | ⟨first, later⟩
        · exact .inl first
        · exact .inr ⟨first, ih shorter (.inl later)⟩
      · cases same
        exact .inr ⟨Std.ReflOrd.compare_self, ih shorter (.inr ⟨rfl, last⟩)⟩

namespace Session

/-- The documents are grouped by their tuples under fields: those with a tuple are in the group under its
key, and groups are numbered in the order of their tuples. -/
structure Leveled (fields : List Field) (keys : KeyMap) (s : Session) : Prop where
  keyed : ∀ e ∈ s.entries, keys.get? e.group = (e.doc.tuple? fields).map Key.ofTerms
  outside : keys.get? 0 = none
  length : ∀ g k, keys.get? g = some k → k.terms.length = fields.length
  ordered : ∀ g h k l, keys.get? g = some k → keys.get? h = some l → g < h →
    compare k.terms l.terms = .lt

/-- Sessions that differ in the groups of their documents only. -/
structure Regrouped (s t : Session) : Prop where
  readings : t.readings = s.readings
  width : t.width = s.width
  stack : t.stack = s.stack
  groupLimit : t.groupLimit = s.groupLimit
  failAfter : t.failAfter = s.failAfter

theorem Regrouped.refl (s : Session) : s.Regrouped s := ⟨rfl, rfl, rfl, rfl, rfl⟩

theorem Regrouped.trans {s t u : Session} (first : s.Regrouped t) (second : t.Regrouped u) :
    s.Regrouped u where
  readings := second.readings.trans first.readings
  width := second.width.trans first.width
  stack := second.stack.trans first.stack
  groupLimit := second.groupLimit.trans first.groupLimit
  failAfter := second.failAfter.trans first.failAfter

theorem Regrouped.inStep {s t : Session} (h : s.Regrouped t) (inStep : s.InStep) : t.InStep where
  width := by
    rw [h.width, h.stack]
    exact inStep.width
  slots e member := by
    have reading : e.toReading ∈ s.readings := h.readings ▸ List.mem_map_of_mem member
    obtain ⟨e', member', same⟩ := List.mem_map.1 reading
    have full : e'.slots.length = s.width := inStep.slots e' member'
    rw [h.width, ← full, same]

theorem regrouped_splitInto (f : Field) (cs : List Child) (s : Session) :
    s.Regrouped (s.splitInto f cs) := by
  refine ⟨?_, rfl, rfl, rfl, rfl⟩
  rw [readings, splitInto, List.map_map]
  rfl

theorem KeyMap.eq_of_get?_initial {g : GroupId} {k : Key} (found : KeyMap.initial.get? g = some k) :
    g = 1 ∧ k = .root := by
  rw [KeyMap.initial, Table.get?_insert] at found
  by_cases first : g = 1
  · rw [if_pos first] at found
    cases found
    exact ⟨first, rfl⟩
  · rw [if_neg first] at found
    cases found

namespace Leveled
variable {fields : List Field} {keys : KeyMap} {s : Session}

/-- Before any split all documents are on the level of no fields. -/
theorem initial (together : ∀ e ∈ s.entries, e.group = 1) : s.Leveled [] .initial where
  keyed e member := by
    rw [together e member]
    rfl
  outside := rfl
  length g k found := by
    rw [(KeyMap.eq_of_get?_initial found).2]
    rfl
  ordered g h k l gFound hFound less := by
    have same : g = h := (KeyMap.eq_of_get?_initial gFound).1.trans (KeyMap.eq_of_get?_initial hFound).1.symm
    exact absurd same (Nat.ne_of_lt less)

theorem group_unique (lv : s.Leveled fields keys) {g h : GroupId} {k : Key}
    (gFound : keys.get? g = some k) (hFound : keys.get? h = some k) : g = h := by
  rcases Nat.lt_trichotomy g h with less | same | greater
  · exact absurd (lv.ordered g h k k gFound hFound less) (Table.irrefl_lt k.terms)
  · exact same
  · exact absurd (lv.ordered h g k k hFound gFound greater) (Table.irrefl_lt k.terms)

theorem get?_group_eq_some_iff (lv : s.Leveled fields keys) {e : Entry} (member : e ∈ s.entries)
    (k : Key) : keys.get? e.group = some k ↔ e.doc.tuple? fields = some k.terms := by
  rw [lv.keyed e member, Option.map_eq_some_iff]
  constructor
  · intro h
    obtain ⟨ts, tuple, rfl⟩ := h
    rw [Key.terms_ofTerms]
    exact tuple
  · intro tuple
    exact ⟨k.terms, tuple, k.ofTerms_terms⟩

/-- A document has a tuple on the next level when it is in the group of the outer terms and has the last
one. -/
theorem tuple?_append_eq_some_iff (lv : s.Leveled fields keys) {e : Entry} (member : e ∈ s.entries)
    {g : GroupId} {k : Key} (found : keys.get? g = some k) (f : Field) (t : Term) :
    e.doc.tuple? (fields ++ [f]) = some (k.terms ++ [t]) ↔ e.group = g ∧ e.doc.term? f = some t := by
  rw [Document.tuple?_append_eq_some_iff]
  constructor
  · intro h
    obtain ⟨ts, t', outer, inner, same⟩ := h
    have parts := List.append_inj' same rfl
    have here : keys.get? e.group = some k := by
      rw [lv.get?_group_eq_some_iff member, outer, parts.1]
    have last : t = t' := List.singleton_inj.1 parts.2
    exact ⟨lv.group_unique here found, last ▸ inner⟩
  · intro h
    obtain ⟨rfl, inner⟩ := h
    exact ⟨k.terms, t, (lv.get?_group_eq_some_iff member k).1 found, inner, rfl⟩

/-- An exploding split makes one child for every tuple of the next level. -/
theorem size_explosion (lv : s.Leveled fields keys) (f : Field) :
    (s.explosion f keys).size = (Reading.tuples (fields ++ [f]) s.readings).length := by
  let tuple (c : Cell) : List Term := ((keys.get? c.group).map Key.terms).getD [] ++ [c.term]
  have keyOf (c : Cell) (member : c ∈ (s.cells f keys).keys) : ∃ k, keys.get? c.group = some k := by
    have live := ((s.mem_keys_cells f keys c).1 member).1
    exact Option.isSome_iff_exists.1 live
  have tuple_eq (c : Cell) (k : Key) (found : keys.get? c.group = some k) :
      tuple c = k.terms ++ [c.term] := by
    simp only [tuple, found, Option.map_some, Option.getD_some]
  have injective : ∀ a ∈ (s.cells f keys).keys, ∀ b ∈ (s.cells f keys).keys,
      tuple a = tuple b → a = b := by
    intro a aMember b bMember same
    obtain ⟨k, aFound⟩ := keyOf a aMember
    obtain ⟨l, bFound⟩ := keyOf b bMember
    rw [tuple_eq a k aFound, tuple_eq b l bFound] at same
    have parts := List.append_inj' same rfl
    have sameKey : k = l := Key.terms_injective parts.1
    have sameGroup : a.group = b.group := lv.group_unique aFound (sameKey ▸ bFound)
    have sameTerm : a.term = b.term := List.singleton_inj.1 parts.2
    obtain ⟨aTerm, aGroup⟩ := a
    obtain ⟨bTerm, bGroup⟩ := b
    simp only at sameGroup sameTerm
    rw [sameGroup, sameTerm]
  have distinct : ((s.cells f keys).keys.map tuple).Nodup :=
    (s.cells f keys).nodup_keys.map_on injective
  have same : ((s.cells f keys).keys.map tuple).Perm (Reading.tuples (fields ++ [f]) s.readings) := by
    rw [List.perm_ext_iff_of_nodup distinct (Reading.nodup_tuples _ _)]
    intro ts
    rw [Reading.mem_tuples_iff, List.mem_map]
    constructor
    · intro h
      obtain ⟨c, member, rfl⟩ := h
      obtain ⟨k, found⟩ := keyOf c member
      obtain ⟨-, e, eMember, term, group⟩ := (s.mem_keys_cells f keys c).1 member
      refine ⟨e.toReading, List.mem_map_of_mem eMember, ?_⟩
      rw [tuple_eq c k found]
      exact (lv.tuple?_append_eq_some_iff eMember found f c.term).2 ⟨group, term⟩
    · intro h
      obtain ⟨r, rMember, here⟩ := h
      obtain ⟨e, member, rfl⟩ := List.mem_map.1 rMember
      obtain ⟨outer, t, outerHere, term, rfl⟩ := (Document.tuple?_append_eq_some_iff ..).1 here
      have found : keys.get? e.group = some (Key.ofTerms outer) := by
        rw [lv.get?_group_eq_some_iff member, Key.terms_ofTerms]
        exact outerHere
      refine ⟨⟨t, e.group⟩, (s.mem_keys_cells f keys _).2 ⟨?_, e, member, term, rfl⟩, ?_⟩
      · exact Table.contains_of_get? found
      · rw [tuple_eq _ _ found, Key.terms_ofTerms]
  rw [Session.size_explosion, ← same.length_eq, List.length_map]

/-- After an exploding split the documents are grouped on the next level. -/
theorem splitInto (lv : s.Leveled fields keys) (f : Field) :
    (s.splitInto f ((s.explosion f keys).children keys)).Leveled (fields ++ [f])
      (Child.keyMap (((s.explosion f keys).children keys).zipIdx 1)) where
  keyed e' member' := by
    obtain ⟨e, member, rfl⟩ := List.mem_map.1 member'
    refine Option.ext fun k => ?_
    rw [Entry.get?_keyMap_move (s.distinct_explosion f keys), Option.map_eq_some_iff]
    constructor
    · intro h
      obtain ⟨c, chosen, term, parent, rfl⟩ := h
      obtain ⟨-, k, found, key⟩ := (s.mem_children_explosion f keys c).1 chosen
      refine ⟨k.terms ++ [c.term], ?_, ?_⟩
      · exact (lv.tuple?_append_eq_some_iff member found f c.term).2 ⟨parent.symm, term⟩
      · rw [Key.ofTerms_append, Key.ofTerms_terms, key]
    · intro h
      obtain ⟨tuple, here, rfl⟩ := h
      obtain ⟨outer, t, outerHere, term, rfl⟩ := (Document.tuple?_append_eq_some_iff ..).1 here
      have found : keys.get? e.group = some (Key.ofTerms outer) := by
        rw [lv.get?_group_eq_some_iff member, Key.terms_ofTerms]
        exact outerHere
      have chosen := (s.mem_children_explosion f keys ⟨e.group, t, (Key.ofTerms outer).child t⟩).2
        ⟨⟨e, member, term, rfl⟩, _, found, rfl⟩
      exact ⟨_, chosen, term, rfl, (Key.ofTerms_append outer t).symm⟩
  outside := Child.get?_keyMap_zero _
  length g k found := by
    obtain ⟨c, member, rfl⟩ := (Child.get?_keyMap_eq_some_iff _ g k).1 found
    have chosen := List.fst_mem_of_mem_zipIdx member
    obtain ⟨-, k, parent, key⟩ := (s.mem_children_explosion f keys c).1 chosen
    rw [key, Key.terms_child, List.length_append, List.length_append, lv.length _ _ parent]
    rfl
  ordered g h k l gFound hFound less := by
    obtain ⟨a, aMember, rfl⟩ := (Child.get?_keyMap_eq_some_iff _ g k).1 gFound
    obtain ⟨b, bMember, rfl⟩ := (Child.get?_keyMap_eq_some_iff _ h l).1 hFound
    have aParent := (s.mem_children_explosion f keys a).1 (List.fst_mem_of_mem_zipIdx aMember)
    have bParent := (s.mem_children_explosion f keys b).1 (List.fst_mem_of_mem_zipIdx bMember)
    obtain ⟨-, p, aFound, aKey⟩ := aParent
    obtain ⟨-, q, bFound, bKey⟩ := bParent
    obtain ⟨aId, aPlace⟩ := List.mk_mem_zipIdx_iff_le_and_getElem?_sub.1 aMember
    obtain ⟨bId, bPlace⟩ := List.mk_mem_zipIdx_iff_le_and_getElem?_sub.1 bMember
    obtain ⟨aRange, aHere⟩ := List.getElem?_eq_some_iff.1 aPlace
    obtain ⟨bRange, bHere⟩ := List.getElem?_eq_some_iff.1 bPlace
    have lower : g - 1 < h - 1 := Nat.sub_lt_sub_right aId less
    have before := List.pairwise_iff_getElem.1 (s.pairwise_explosion f keys) _ _ aRange bRange lower
    rw [aHere, bHere] at before
    have sameLength : p.terms.length = q.terms.length := by
      rw [lv.length _ _ aFound, lv.length _ _ bFound]
    rw [aKey, bKey, Key.terms_child, Key.terms_child]
    apply compare_append_singleton sameLength
    rcases before with parents | ⟨same, terms⟩
    · exact .inl (lv.ordered _ _ _ _ aFound bFound (Nat.compare_eq_lt.1 parents))
    · have sameKey : p = q := by
        rw [same, bFound] at aFound
        exact (Option.some.inj aFound).symm
      exact .inr ⟨congrArg Key.terms sameKey, terms⟩

/-- Dropping the documents outside all groups stays on the level. -/
theorem kept (lv : s.Leveled fields keys) {t : Session}
    (h : (keep keys).on s = (.ok keys, t)) : t.Leveled fields keys := by
  cases h
  refine ⟨?_, lv.outside, lv.length, lv.ordered⟩
  intro e' member'
  obtain ⟨e, member, rfl⟩ := List.mem_map.1 member'
  have here := lv.keyed e member
  by_cases live : keys.contains e.group
  · simp only [live, if_true]
    exact here
  · have missing : keys.get? e.group = none := Option.not_isSome_iff_eq_none.1 live
    simp only [live]
    rw [missing] at here
    exact lv.outside.trans here

end Leveled

theorem on_keep (keys : KeyMap) (s : Session) :
    ∃ t, (keep keys).on s = (.ok keys, t) ∧ s.Regrouped t := by
  refine ⟨_, rfl, ?_, rfl, rfl, rfl, rfl⟩
  rw [readings, List.map_map]
  refine List.map_congr_left ?_
  intro e _
  by_cases live : keys.contains e.group
  · simp [live]
  · simp [live]

end Session
end Rollup
