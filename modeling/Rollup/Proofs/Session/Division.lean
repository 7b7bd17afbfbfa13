import Rollup.Proofs.Ranking
import Rollup.Proofs.Session.Offspring

namespace Rollup

/-- The place of an entry's cell in a list of cells, counted from one; zero if it is not among them. -/
def Entry.numberIn (f : Field) (cells : List Cell) (e : Entry) : GroupId :=
  (((e.doc.term? f).bind fun t => cells.idxOf? ⟨t, e.group⟩).map (· + 1)).getD 0

namespace Session

/-- A session divided into cells: the groups are numbered from one in the order of the cells, each under the
key of its cell's group extended by the term, every entry is in the group of its cell or in none, and all else
is as before. -/
structure DividedInto (f : Field) (keys : KeyMap) (cells : List Cell) (s : Session) (children : KeyMap)
    (t : Session) : Prop where
  ids : children.keys = List.range' 1 cells.length
  key : ∀ i c, cells[i]? = some c → ∃ parent, keys.get? c.group = some parent ∧
    children.get? (i + 1) = some (parent.child c.term)
  session : t = { s with
    entries := s.entries.map fun (e : Entry) => { e with group := e.numberIn f cells }
    groupCount := cells.length + 1 }

end Session

theorem idxOf?_eq_some_iff_of_nodup {α : Type} [DecidableEq α] {l : List α} (distinct : l.Nodup) (a : α)
    (i : Nat) : l.idxOf? a = some i ↔ l[i]? = some a := by
  rw [List.idxOf?_eq_some_iff, List.getElem?_eq_some_iff]
  constructor
  · intro h
    obtain ⟨inRange, here, -⟩ := h
    exact ⟨inRange, here⟩
  · intro h
    obtain ⟨inRange, here⟩ := h
    refine ⟨inRange, here, fun j before same => ?_⟩
    have position := distinct.getElem_inj_iff.1 (same.trans here.symm)
    omega

/-- The id of the child for a cell is the place of the cell. -/
theorem Child.get?_ids {cs : List Child} (distinct : (cs.map cell).Nodup) (c : Cell) :
    (ids (cs.zipIdx 1)).get? c = ((cs.map cell).idxOf? c).map (· + 1) := by
  apply Option.ext
  intro i
  rw [get?_ids_eq_some_iff distinct]
  simp only [Option.map_eq_some_iff, idxOf?_eq_some_iff_of_nodup distinct, List.getElem?_map,
    List.mk_mem_zipIdx_iff_le_and_getElem?_sub]
  constructor
  · intro h
    obtain ⟨child, ⟨positive, here⟩, cell⟩ := h
    exact ⟨i - 1, ⟨child, here, cell⟩, Nat.sub_add_cancel positive⟩
  · intro h
    obtain ⟨j, ⟨child, here, cell⟩, rfl⟩ := h
    exact ⟨child, ⟨Nat.le_add_left 1 j, here⟩, cell⟩

theorem Entry.move_eq {cs : List Child} (distinct : (cs.map Child.cell).Nodup) (f : Field) (e : Entry) :
    e.move f (Child.ids (cs.zipIdx 1)) = { e with group := e.numberIn f (cs.map Child.cell) } := by
  simp only [move, numberIn, Child.get?_ids distinct, Option.map_bind, Function.comp_def]

/-- An entry has no number exactly when its cell is not listed. -/
theorem Entry.numberIn_eq_zero_iff (f : Field) (cells : List Cell) (e : Entry) :
    e.numberIn f cells = 0 ↔ ∀ c ∈ cells, ¬(e.doc.term? f = some c.term ∧ e.group = c.group) := by
  have outside : e.numberIn f cells = 0 ↔
      (e.doc.term? f).bind (fun t => cells.idxOf? ⟨t, e.group⟩) = none := by
    rw [numberIn]
    cases (e.doc.term? f).bind fun t => cells.idxOf? ⟨t, e.group⟩ <;> simp
  rw [outside, Option.bind_eq_none_iff]
  simp only [List.idxOf?_eq_none_iff]
  constructor
  · intro missing c member here
    obtain ⟨term, group⟩ := here
    exact missing c.term term (group ▸ member)
  · intro missing t term member
    exact missing ⟨t, e.group⟩ member ⟨term, rfl⟩

/-- Every chosen term makes a child if terms are chosen for groups with a key only. -/
theorem Choice.length_children {c : Choice} {keys : KeyMap}
    (within : ∀ g, c.contains g = true → keys.contains g = true) :
    (c.children keys).length = c.size := by
  have listed : c.children keys = keys.toList.flatMap fun e =>
      ((c.get? e.1).map fun terms => terms.map fun t => (⟨e.1, t, e.2.child t⟩ : Child)).getD [] := by
    apply List.flatMap_congr
    intro e _
    cases c.get? e.1 <;> rfl
  have other := Table.flatMap_toList_comm (t := c) (u := keys) fun g terms key =>
    terms.map fun t => (⟨g, t, key.child t⟩ : Child)
  rw [listed, ← other, List.length_flatMap, Choice.size, Table.values, List.length_flatten, List.map_map]
  congr 1
  apply List.map_congr_left
  intro e member
  have chosen : c.contains e.1 = true := Table.contains_of_mem member
  obtain ⟨key, found⟩ := Option.isSome_iff_exists.1 (within e.1 chosen)
  simp [found]

namespace Session
variable {f : Field} {keys : KeyMap} {s : Session}

theorem Offspring.dividedInto {cs : List Child} (offspring : s.Offspring f keys cs) :
    s.DividedInto f keys (cs.map Child.cell) (Child.keyMap (cs.zipIdx 1)) (s.splitInto f cs) where
  ids := by
    rw [Table.keys, Child.toList_keyMap, List.map_map, List.length_map]
    exact List.zipIdx_map_snd 1 cs
  key i c here := by
    rw [List.getElem?_map, Option.map_eq_some_iff] at here
    obtain ⟨child, here, rfl⟩ := here
    obtain ⟨parent, found, key⟩ := offspring.parent child (List.mem_of_getElem? here)
    refine ⟨parent, found, (Child.get?_keyMap_eq_some_iff cs (i + 1) _).2 ⟨child, ?_, key⟩⟩
    exact List.mk_mem_zipIdx_iff_le_and_getElem?_sub.2 ⟨Nat.le_add_left 1 i, here⟩
  session := by
    have moved : Entry.move f (Child.ids (cs.zipIdx 1)) =
        fun e => { e with group := e.numberIn f (cs.map Child.cell) } := by
      funext e
      exact e.move_eq offspring.distinct f
    rw [splitInto, moved, List.length_map]

/-- A split into offspring is refused where that makes too many groups and else divides the session. -/
theorem on_split_of_offspring {choice : Choice}
    (within : ∀ g, choice.contains g = true → keys.contains g = true)
    (offspring : s.Offspring f keys (choice.children keys)) {cells : List Cell}
    (listed : (choice.children keys).map Child.cell = cells) :
    if s.groupLimit < cells.length + 1 then
      (split f keys choice).on s = (.error (.groupLimitExceeded cells.length s.groupLimit), s)
    else ∃ children t, (split f keys choice).on s = (.ok children, t) ∧
      s.DividedInto f keys cells children t := by
  have length : choice.size = cells.length := by
    rw [← listed, List.length_map, Choice.length_children within]
  have divided := offspring.dividedInto
  rw [listed] at divided
  rw [on_split, length]
  by_cases full : s.groupLimit < cells.length + 1
  · simp only [if_pos full]
  · simp only [if_neg full]
    exact ⟨_, _, rfl, divided⟩

theorem ne_zero_of_contains (noZero : keys.get? 0 = none) {g : GroupId} (live : keys.contains g = true) :
    g ≠ 0 := by
  intro zero
  rw [zero, Table.contains, noZero] at live
  cases live

theorem contains_ofCells (cells : List Cell) (g : GroupId) :
    (Choice.ofCells cells).contains g = true ↔ ∃ c ∈ cells, c.group = g := by
  have present := Table.isSome_get?_foldl (fun cell : Cell => some cell.group)
    (fun cell old => old.getD [] ++ [cell.term]) (fun _ _ => rfl) cells .empty g
  simpa [Choice.ofCells, Choice.add, Table.contains] using present

/-- The cells of an exploding split are those of the documents in the groups that have a key. -/
theorem mem_cells_explosion (s : Session) (f : Field) (keys : KeyMap) (c : Cell) :
    c ∈ ((s.explosion f keys).children keys).map Child.cell ↔ keys.contains c.group = true ∧
      ∃ e ∈ s.entries, e.group = c.group ∧ e.doc.term? f = some c.term := by
  rw [List.mem_map]
  constructor
  · intro h
    obtain ⟨child, member, rfl⟩ := h
    obtain ⟨⟨e, eMember, term, group⟩, parent, found, -⟩ :=
      (s.mem_children_explosion f keys child).1 member
    exact ⟨Table.contains_of_get? found, e, eMember, group, term⟩
  · intro h
    obtain ⟨live, e, eMember, group, term⟩ := h
    obtain ⟨parent, found⟩ := Option.isSome_iff_exists.1 live
    refine ⟨⟨c.group, c.term, parent.child c.term⟩, ?_, rfl⟩
    exact (s.mem_children_explosion f keys _).2 ⟨⟨e, eMember, term, group⟩, parent, found, rfl⟩

theorem contains_of_contains_explosion {g : GroupId}
    (chosen : (s.explosion f keys).contains g = true) : keys.contains g = true := by
  obtain ⟨c, member, rfl⟩ := (contains_ofCells _ g).1 chosen
  exact ((s.mem_keys_cells f keys c).1 member).1

/-- Splitting by all terms: the cells are those of the documents in the groups that have a key, by group and
then by term, and if they are not too many the session is divided into them. -/
theorem on_splitExplode_cells (f : Field) (noZero : keys.get? 0 = none) (s : Session) :
    ∃ cells : List Cell,
      (cells.Pairwise fun a b =>
        a.group < b.group ∨ a.group = b.group ∧ compare a.term b.term = .lt) ∧
      (∀ c, c ∈ cells ↔ keys.contains c.group = true ∧
        ∃ e ∈ s.entries, e.group = c.group ∧ e.doc.term? f = some c.term) ∧
      (∀ e ∈ s.entries, e.doc.term? f = none ∨ e.group = 0 ∨ keys.contains e.group = false →
        e.numberIn f cells = 0) ∧
      if s.groupLimit < cells.length + 1 then
        (splitExplode f keys).on s = (.error (.groupLimitExceeded cells.length s.groupLimit), s)
      else ∃ children t, (splitExplode f keys).on s = (.ok children, t) ∧
        s.DividedInto f keys cells children t := by
  refine ⟨((s.explosion f keys).children keys).map Child.cell, ?_, s.mem_cells_explosion f keys, ?_,
    on_split_of_offspring (fun _ => contains_of_contains_explosion) (s.offspring_explosion f keys) rfl⟩
  · rw [List.pairwise_map]
    refine (s.pairwise_explosion f keys).imp ?_
    intro a b order
    rwa [Nat.compare_eq_lt] at order
  · intro e _ outside
    rw [Entry.numberIn_eq_zero_iff]
    intro c member here
    obtain ⟨term, group⟩ := here
    obtain ⟨live, -⟩ := (s.mem_cells_explosion f keys c).1 member
    rw [term, group] at outside
    rcases outside with nothing | zero | dead
    · cases nothing
    · exact ne_zero_of_contains noZero live zero
    · rw [dead] at live
      cases live

/-- Documents of three groups and of none, of which one has no integer; the count is pushed. -/
def mixedGroups : Session :=
  let docs : List Document := [⟨[("f", .int 30), ("w", .int 2)]⟩, ⟨[("f", .text "7"), ("w", .int 1)]⟩,
    ⟨[("f", .int 7), ("w", .int 5)]⟩, ⟨[("f", .text "x"), ("w", .int 9)]⟩, ⟨[("f", .int 7)]⟩,
    ⟨[("f", .int 30)]⟩, ⟨[("f", .int 7), ("w", .int 3)]⟩, ⟨[("f", .int (-2)), ("w", .int 4)]⟩]
  let opened := Session.new 0 docs { Settings.standard with groupLimit := 5 }
  ((assign [1, 1, 2, 2, 0, 3, 1, 2]).on ((push .count).on opened).2).2

/-- Keys for the first two groups. -/
def twoGroups : KeyMap := .ofList [(1, .child .root (.text "a")), (2, .child .root (.text "b"))]

theorem on_splitExplode_cells_of_mixedGroups : twoGroups.get? 0 = none ∧
    ∃ cells children t, (splitExplode ⟨"f", .int⟩ twoGroups).on mixedGroups = (.ok children, t) ∧
      mixedGroups.DividedInto ⟨"f", .int⟩ twoGroups cells children t ∧ cells.length = 4 ∧
      t.groups = [2, 1, 4, 0, 0, 0, 1, 3] := by
  have noZero : twoGroups.get? 0 = none := by decide
  have groups : ((splitExplode ⟨"f", .int⟩ twoGroups).on mixedGroups).2.groups =
      [2, 1, 4, 0, 0, 0, 1, 3] := by decide +kernel
  have count : ((splitExplode ⟨"f", .int⟩ twoGroups).on mixedGroups).2.groupCount = 5 := by
    decide +kernel
  obtain ⟨cells, -, -, -, outcome⟩ := on_splitExplode_cells ⟨"f", .int⟩ noZero mixedGroups
  by_cases full : mixedGroups.groupLimit < cells.length + 1
  · rw [if_pos full] at outcome
    have other : mixedGroups.groups ≠ [2, 1, 4, 0, 0, 0, 1, 3] := by decide
    rw [outcome] at groups
    exact absurd groups other
  · rw [if_neg full] at outcome
    obtain ⟨children, t, split, divided⟩ := outcome
    rw [split] at groups count
    rw [divided.session] at count
    exact ⟨noZero, cells, children, t, split, divided, Nat.succ.inj count, groups⟩

namespace Scored

/-- Whether a term comes before another: by its score in the total order, the greatest first or at the bottom
the least first, and for the same score by the term. -/
def Before (bottom : Bool) (a b : Scored) : Prop :=
  (if bottom then Number.Order.place a.score < Number.Order.place b.score
    else Number.Order.place b.score < Number.Order.place a.score) ∨
  Number.Order.place a.score = Number.Order.place b.score ∧ compare a.term b.term = .lt

theorem before_of_le {bottom : Bool} {a b : Scored} (first : Scored.le bottom a b)
    (tie : Scored.le bottom b a → compare a.term b.term = .lt) : a.Before bottom b := by
  -- Scores that come no later than each other have the same place, and then the terms decide.
  by_cases back : Scored.le bottom b a = true
  · refine .inr ⟨?_, tie back⟩
    cases bottom <;> simp [Scored.le, Number.Order.totalLe] at first back <;> omega
  · refine .inl ?_
    cases bottom <;> simp [Scored.le, Number.Order.totalLe] at back ⊢ <;> exact back

end Scored

/-- The terms of a group are those of its documents, each with the total over the documents that have it. -/
theorem mem_scored {group : GroupId} (inside : group ≠ 0) (f : Field) (stat : Stat) (s : Session)
    (a : Scored) :
    a ∈ s.scored f stat group ↔ (∃ e ∈ s.entries, e.group = group ∧ e.doc.term? f = some a.term) ∧
      a.score = stat.total (s.inCell f ⟨a.term, group⟩) := by
  have present (c : Cell) : c ∈ (s.cellTotals f).keys ↔ ∃ e ∈ s.entries, e.cell? f = some c := by
    rw [Table.mem_keys_iff, ← Option.isSome_iff_exists, isSome_get?_cellTotals]
  rw [scored, List.mem_map]
  constructor
  · intro h
    obtain ⟨c, member, rfl⟩ := h
    obtain ⟨listed, here⟩ := List.mem_filter.1 member
    obtain ⟨e, eMember, inCell⟩ := (present c).1 listed
    obtain ⟨term, same, -⟩ := (e.cell?_eq_some_iff f c).1 inCell
    cases of_decide_eq_true here
    exact ⟨⟨e, eMember, same, term⟩, rfl⟩
  · intro h
    obtain ⟨⟨e, eMember, same, term⟩, score⟩ := h
    refine ⟨⟨a.term, group⟩, List.mem_filter.2 ⟨(present _).2 ⟨e, eMember, ?_⟩, decide_eq_true rfl⟩, ?_⟩
    · exact (e.cell?_eq_some_iff f _).2 ⟨term, same, inside⟩
    · rw [← score]

/-- The terms of a group as they are ranked. -/
def ranking (f : Field) (stat : Stat) (bottom : Bool) (s : Session) (group : GroupId) : List Scored :=
  stableSort (Scored.le bottom) (s.scored f stat group)

theorem pairwise_ranking (f : Field) (stat : Stat) (bottom : Bool) (s : Session) (group : GroupId) :
    (s.ranking f stat bottom group).Pairwise (Scored.Before bottom) := by
  refine (pairwise_stableSort_of_pairwise (Scored.le_trans bottom) (Scored.le_total bottom)
    (s.pairwise_scored f stat group)).imp ?_
  intro a b order
  exact Scored.before_of_le order.1 order.2

/-- Only groups that have a key are scored. -/
theorem contains_of_contains_scores {ref : StatRef} {totals : Table Cell (List Float)} {g : GroupId}
    (scored : (scores keys ref totals).contains g = true) : keys.contains g = true := by
  let group? (e : Cell × List Float) : Option GroupId :=
    if keys.contains e.1.group then some e.1.group else none
  rw [Table.contains, scores, Table.isSome_get?_foldl group?
    fun e old => old.getD [] ++ [⟨ref.read e.2, e.1.term⟩]] at scored
  · rcases scored with nothing | ⟨e, -, here⟩
    · cases nothing
    · cases live : keys.contains e.1.group with
      | true =>
        simp [group?, live] at here
        rwa [← here]
      | false => simp [group?, live] at here
  · intro ranked e
    cases live : keys.contains e.1.group <;> simp [group?, live]

theorem contains_of_contains_choiceOfBest {k : Nat} {stat : Stat} {bottom : Bool} {g : GroupId}
    (chosen : (s.choiceOfBest f keys k stat bottom).contains g = true) : keys.contains g = true := by
  rw [choiceOfBest, Table.contains, Table.get?_map, Option.isSome_map] at chosen
  exact contains_of_contains_scores chosen

theorem offspring_choiceOfBest (f : Field) (keys : KeyMap) (k : Nat) (stat : Stat) (bottom : Bool)
    (s : Session) :
    (s.restamped stat.width).Offspring f keys ((s.choiceOfBest f keys k stat bottom).children keys) := by
  have each : List.Forall₂ (Entry.Loaded stat.width) s.entries (s.pushed stat).entries :=
    List.forall₂_map_right_iff.2 (List.forall₂_same.2 fun e _ => e.loaded_pushed stat)
  have best := (offspring_best f keys (s.stack.push stat.shape).1 k bottom (s.pushed stat)).of_loaded each
  exact ⟨best.distinct, best.parent, best.somebody⟩

theorem cells_choiceOfBest (inStep : s.InStep) (f : Field) (keys : KeyMap) (k : Nat) (stat : Stat)
    (bottom : Bool) :
    ((s.choiceOfBest f keys k stat bottom).children keys).map Child.cell =
      keys.keys.flatMap fun g => ((s.ranking f stat bottom g).take k).map fun a => ⟨a.term, g⟩ := by
  rw [Choice.children, List.map_flatMap, Table.keys, List.flatMap_map]
  apply List.flatMap_congr
  intro e member
  have live : keys.contains e.1 = true := Table.contains_of_mem member
  rw [getD_get?_choiceOfBest inStep f live, Scored.best, List.map_map, List.map_map]
  rfl

/-- Splitting by the best terms: the cells are the first few of each group's ranking, and if they are not too
many the session is divided into them. The statistic that terms are ranked by leaves nothing behind. -/
theorem on_splitTopK_ranking (inStep : s.InStep) {stat : Stat} (built : stat.Built) {ref : StatRef}
    {u : Session} (pushes : (push stat).on s = (.ok ref, u)) (noZero : keys.get? 0 = none) (f : Field)
    (k : Nat) (bottom : Bool) :
    ∃ (ranking : GroupId → List Scored) (cells : List Cell),
      (∀ g, keys.contains g = true → (ranking g).Pairwise (Scored.Before bottom) ∧
        ∀ a, a ∈ ranking g ↔ (∃ e ∈ s.entries, e.group = g ∧ e.doc.term? f = some a.term) ∧
          a.score = stat.total (s.inCell f ⟨a.term, g⟩)) ∧
      (cells = keys.keys.flatMap fun g => ((ranking g).take k).map fun a => ⟨a.term, g⟩) ∧
      ∃ outcome t, (splitTopK f keys k stat bottom).on s = (outcome, t) ∧
        (if s.groupLimit < cells.length + 1 then
          outcome = .error (.groupLimitExceeded cells.length s.groupLimit) ∧ t = s.restamped stat.width
        else ∃ children, outcome = .ok children ∧
          (s.restamped stat.width).DividedInto f keys cells children t) ∧
        t.stack.slots = s.stack.slots ∧ t.stack.widths = s.stack.widths ∧ t.width = s.width ∧
        t.readings = s.readings := by
  obtain ⟨tokens, compiled⟩ := (on_push_eq_ok_iff inStep built).1 ⟨ref, u, pushes⟩
  have divided := on_split_of_offspring (fun _ => contains_of_contains_choiceOfBest)
    (s.offspring_choiceOfBest f keys k stat bottom)
    (cells_choiceOfBest inStep f keys k stat bottom)
  have limit : (s.restamped stat.width).groupLimit = s.groupLimit := rfl
  rw [← on_splitTopK inStep built compiled, limit] at divided
  refine ⟨s.ranking f stat bottom, _, fun g live => ⟨s.pairwise_ranking f stat bottom g, fun a => ?_⟩,
    rfl, ?_⟩
  · exact (stableSort_perm _ _).mem_iff.trans (mem_scored (ne_zero_of_contains noZero live) f stat s a)
  · generalize keys.keys.flatMap _ = cells at divided ⊢
    by_cases full : s.groupLimit < cells.length + 1
    · simp only [if_pos full] at divided ⊢
      exact ⟨_, _, divided, ⟨rfl, rfl⟩, rfl, rfl, rfl, rfl⟩
    · simp only [if_neg full] at divided ⊢
      obtain ⟨children, t, split, parts⟩ := divided
      refine ⟨_, t, split, ⟨children, rfl, parts⟩, ?_⟩
      rw [parts.session]
      refine ⟨rfl, rfl, rfl, ?_⟩
      simp [readings, restamped]

/-- The mean of a field. -/
def meanWeight : Stat := .combination .divide (.intField "w") .count

theorem on_splitTopK_ranking_of_mixedGroups : mixedGroups.InStep ∧ meanWeight.Built ∧
    (∃ ref u, (push meanWeight).on mixedGroups = (.ok ref, u)) ∧ twoGroups.get? 0 = none ∧
    ∃ cells children t, (splitTopK ⟨"f", .int⟩ twoGroups 1 meanWeight false).on mixedGroups =
        (.ok children, t) ∧
      (mixedGroups.restamped 2).DividedInto ⟨"f", .int⟩ twoGroups cells children t ∧
      cells.length = 2 ∧ t.groups = [0, 1, 2, 0, 0, 0, 1, 0] ∧ t.readings = mixedGroups.readings := by
  have inStep : mixedGroups.InStep := ⟨rfl, by decide⟩
  have built : meanWeight.Built := .combination (.intField "w") .count rfl
  have noZero : twoGroups.get? 0 = none := by decide
  have compiled : meanWeight.compile mixedGroups.scope = .ok [.field "w", .count] := rfl
  have pushes := on_push inStep built compiled
  have groups : ((splitTopK ⟨"f", .int⟩ twoGroups 1 meanWeight false).on mixedGroups).2.groups =
      [0, 1, 2, 0, 0, 0, 1, 0] := by decide +kernel
  have count : ((splitTopK ⟨"f", .int⟩ twoGroups 1 meanWeight false).on mixedGroups).2.groupCount = 3 := by
    decide +kernel
  obtain ⟨ranking, cells, -, -, outcome, t, split, result, -, -, -, readings⟩ :=
    on_splitTopK_ranking inStep built pushes noZero ⟨"f", .int⟩ 1 false
  rw [split] at groups count
  by_cases full : mixedGroups.groupLimit < cells.length + 1
  · rw [if_pos full] at result
    have other : mixedGroups.groups ≠ [0, 1, 2, 0, 0, 0, 1, 0] := by decide
    rw [result.2] at groups
    exact absurd groups other
  · rw [if_neg full] at result
    obtain ⟨children, rfl, divided⟩ := result
    rw [divided.session] at count
    exact ⟨inStep, built, ⟨_, _, pushes⟩, noZero, cells, children, t, split, divided,
      Nat.succ.inj count, groups, readings⟩

end Session
end Rollup
