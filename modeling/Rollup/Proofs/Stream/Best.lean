import Rollup.Proofs.Number.Comparison
import Rollup.Proofs.Ranking
import Rollup.Proofs.Stream.Fold
import Rollup.Proofs.Table
import Rollup.Stream.Best

namespace Rollup
open Number Number.Binary64

namespace Candidate

/-- The order of ranks alone, in which candidates can tie. -/
def rankLe (a b : Candidate) : Bool := Order.rankLe a.rank b.rank

theorem rankLe_trans (a b c : Candidate) (first : rankLe a b) (second : rankLe b c) : rankLe a c :=
  Binary64.rankLe_trans a.rank b.rank c.rank first second

theorem rankLe_total (a b : Candidate) : (rankLe a b || rankLe b a) = true :=
  Binary64.rankLe_total a.rank b.rank

/-- Behind candidates with lower numbers a candidate ties with none. -/
theorem le_eq_rankLe {a b : Candidate} (earlier : a.number < b.number) : a.le b = rankLe a b := by
  simp [le, rankLe, Nat.le_of_lt earlier]

end Candidate

namespace Shortlist

/-- A candidate with a higher number than those before it finds its place by rank. -/
theorem insertLast_le_eq {c : Candidate} {l : List Candidate} (earlier : ∀ a ∈ l, a.number < c.number) :
    insertLast Candidate.le c l = insertLast Candidate.rankLe c l :=
  insertLast_congr fun a member => Candidate.le_eq_rankLe (earlier a member)

/-- The best candidates stay the best: one that is offered later than all of them comes in by its rank, and
the worst one goes only when there is no room for both. -/
theorem kept_offer {k : Nat} {c : Candidate} {s : Shortlist} {offered : List Candidate}
    (earlier : ∀ a ∈ offered, a.number < c.number)
    (best : s.kept = (stableSort Candidate.rankLe offered).take k) :
    (s.offer k c).kept = (stableSort Candidate.rankLe (offered ++ [c])).take k := by
  have keptEarlier : ∀ a ∈ s.kept, a.number < c.number := by
    intro a member
    rw [best] at member
    exact earlier a ((stableSort_perm _ _).mem_iff.1 (List.mem_of_mem_take member))
  have sorted : s.kept.Pairwise fun a b => Candidate.rankLe a b = true := by
    rw [best]
    exact (pairwise_stableSort Candidate.rankLe_trans Candidate.rankLe_total offered).sublist
      (List.take_sublist k _)
  have bound : s.kept.length ≤ k := by
    rw [best]
    exact List.length_take_le k _
  rw [stableSort_concat, ← take_insertLast, ← best, offer]
  by_cases room : s.kept.length < k
  · have length : (insertLast Candidate.rankLe c s.kept).length ≤ k := by
      rw [(insertLast_perm _ c s.kept).length_eq]
      exact room
    simp only [if_pos room, insertLast_le_eq keptEarlier, List.take_of_length_le length]
  · have full : s.kept.length = k := by omega
    simp only [if_neg room]
    cases last : s.kept.getLast? with
    | none =>
      have nobody : s.kept = [] := List.getLast?_eq_none_iff.1 last
      have none : k = 0 := by simpa [nobody] using full.symm
      simp [nobody, none]
    | some worst =>
      obtain ⟨front, parts⟩ := List.getLast?_eq_some_iff.1 last
      rw [parts, List.forall_mem_append, List.forall_mem_singleton] at keptEarlier
      have beats : c.beats worst = !Candidate.rankLe worst c := by
        rw [Candidate.beats, Candidate.le_eq_rankLe keptEarlier.2]
      have length : k = front.length + 1 := by
        rw [← full, parts, List.length_append, List.length_singleton]
      rw [parts] at sorted ⊢
      rw [length, take_insertLast_concat Candidate.rankLe_trans c sorted]
      cases after : Candidate.rankLe worst c with
      | true => simp [beats, after]
      | false => simp [beats, after, insertLast_le_eq keptEarlier.1]

end Shortlist

namespace Selection
variable (sel : Selection)

/-- Whether the score of a record comes no later than that of another: NaN after everything, else the greatest
first or, at the bottom, the least. The two zeros are equal. -/
def noLater (a b : Record) : Bool :=
  let x := sel.sortRef.read a.stats
  let y := sel.sortRef.read b.stats
  y.isNaN || (!x.isNaN && if sel.bottom then x ≤ y else y ≤ x)

/-- The row of a record under the key of its group. -/
def row (parent : Key) (r : Record) : ResultRow := ⟨parent.child r.term, sel.statRefs.map (·.read r.stats)⟩

theorem rankLe_candidate (a b : Record) (i j : Nat) :
    (sel.candidate i a).rankLe (sel.candidate j b) = sel.noLater a b := by
  simp only [Candidate.rankLe, candidate, noLater]
  cases sel.bottom with
  | true => simp [Binary64.rankLe_eq]
  | false => simp [rankLe_neg]

theorem noLater_trans (a b c : Record) (first : sel.noLater a b) (second : sel.noLater b c) :
    sel.noLater a c := by
  rw [← rankLe_candidate sel _ _ 0 0] at *
  exact Candidate.rankLe_trans _ _ _ first second

theorem noLater_total (a b : Record) : (sel.noLater a b || sel.noLater b a) = true := by
  rw [← rankLe_candidate sel a b 0 0, ← rankLe_candidate sel b a 0 0]
  exact Candidate.rankLe_total _ _

/-- The records of the groups that have a key, numbered in the order they come. -/
def numbered (records : List Record) : List (Record × Nat) :=
  (records.filter (sel.keys.contains ·.group)).zipIdx

/-- What a group was offered, one candidate for each of its records. -/
def offered (group : GroupId) (records : List Record) : List Candidate :=
  ((sel.numbered records).filter (·.1.group = group)).map fun e => sel.candidate e.2 e.1

/-- The first few records of a group in the stable order of their scores. -/
def leading (group : GroupId) (records : List Record) : List Record :=
  (stableSort sel.noLater (records.filter (·.group = group))).take sel.k

section Numbered
variable {sel} {r : Record} {group : GroupId}

theorem numbered_concat_of_live (live : sel.keys.contains r.group = true) (records : List Record) :
    sel.numbered (records ++ [r]) = sel.numbered records ++ [(r, (sel.numbered records).length)] := by
  simp [numbered, live, List.zipIdx_append]

theorem numbered_concat_of_not_live (dead : sel.keys.contains r.group = false) (records : List Record) :
    sel.numbered (records ++ [r]) = sel.numbered records := by
  simp [numbered, dead]

theorem offered_concat_self (live : sel.keys.contains r.group = true) (records : List Record) :
    sel.offered r.group (records ++ [r]) =
      sel.offered r.group records ++ [sel.candidate (sel.numbered records).length r] := by
  simp [offered, numbered_concat_of_live live]

theorem offered_concat_of_ne (other : r.group ≠ group) (records : List Record) :
    sel.offered group (records ++ [r]) = sel.offered group records := by
  cases live : sel.keys.contains r.group with
  | true => simp [offered, numbered_concat_of_live live, other]
  | false => rw [offered, numbered_concat_of_not_live live, offered]

theorem number_lt_of_mem_offered {records : List Record} {c : Candidate}
    (member : c ∈ sel.offered group records) : c.number < (sel.numbered records).length := by
  obtain ⟨⟨r, i⟩, inGroup, rfl⟩ := List.mem_map.1 member
  have position := List.snd_lt_of_mem_zipIdx (List.mem_of_mem_filter inGroup)
  simpa [candidate, numbered] using position

/-- Numbers apart, a live group is offered its records. -/
theorem fst_numbered (live : sel.keys.contains group = true) (records : List Record) :
    ((sel.numbered records).filter (·.1.group = group)).map Prod.fst =
      records.filter (·.group = group) := by
  have fst : (sel.numbered records).map Prod.fst = records.filter (sel.keys.contains ·.group) :=
    List.zipIdx_map_fst 0 _
  have filtered := List.filter_map (f := Prod.fst) (p := fun r : Record => decide (r.group = group))
    (l := sel.numbered records)
  rw [fst, List.filter_filter] at filtered
  refine filtered.symm.trans (List.filter_congr ?_)
  intro r _
  by_cases here : r.group = group
  · simp [here, live]
  · simp [here]

theorem length_offered (live : sel.keys.contains group = true) (records : List Record) :
    (sel.offered group records).length = (records.filter (·.group = group)).length := by
  rw [← fst_numbered live, offered, List.length_map, List.length_map]

/-- The best of what a live group is offered come from its leading records. -/
theorem best_offered (live : sel.keys.contains group = true) (records : List Record) (parent : Key) :
    ((stableSort Candidate.rankLe (sel.offered group records)).take sel.k).map
        (fun c => (⟨parent.child c.term, c.values⟩ : ResultRow)) =
      (sel.leading group records).map (sel.row parent) := by
  have byScore : (fun a b : Record × Nat =>
      Candidate.rankLe (sel.candidate a.2 a.1) (sel.candidate b.2 b.1)) =
        fun a b => sel.noLater a.1 b.1 := by
    funext a b
    exact sel.rankLe_candidate a.1 b.1 a.2 b.2
  rw [offered, stableSort_map, byScore, leading, ← fst_numbered live, stableSort_map, List.map_take,
    List.map_take, List.map_map, List.map_map]
  rfl

end Numbered

/-- What a board stands for once some records were offered: the next candidate gets the next number, and each
group that was offered something has the best of it. -/
structure Holds (records : List Record) (board : Board) : Prop where
  next : board.next = (sel.numbered records).length
  lists : ∀ group, board.groups.get? group =
    if sel.offered group records = [] then none
    else some ⟨(stableSort Candidate.rankLe (sel.offered group records)).take sel.k,
      (sel.offered group records).length⟩

namespace Holds
variable {sel} {records : List Record} {board : Board}

theorem empty : sel.Holds [] .empty where
  next := rfl
  lists _ := rfl

/-- The shortlist of a group, also before anything was offered to it. -/
theorem getD_get? (holds : sel.Holds records board) (group : GroupId) :
    (board.groups.get? group).getD .empty =
      ⟨(stableSort Candidate.rankLe (sel.offered group records)).take sel.k,
        (sel.offered group records).length⟩ := by
  rw [holds.lists]
  by_cases nothing : sel.offered group records = []
  · rw [if_pos nothing, nothing]
    exact congrArg (Shortlist.mk · 0) List.take_nil.symm
  · rw [if_neg nothing]
    rfl

theorem offer (positive : sel.k ≠ 0) (holds : sel.Holds records board) (r : Record) :
    sel.Holds (records ++ [r]) (sel.offer r board) := by
  cases live : sel.keys.contains r.group with
  | false =>
    have untouched : sel.offer r board = board := by simp [Selection.offer, live]
    have apart (group : GroupId) : sel.offered group (records ++ [r]) = sel.offered group records := by
      rw [offered, numbered_concat_of_not_live live, offered]
    rw [untouched]
    refine ⟨?_, fun group => ?_⟩
    · rw [numbered_concat_of_not_live live]
      exact holds.next
    · rw [apart]
      exact holds.lists group
  | true =>
    let c := sel.candidate board.next r
    have taken : sel.offer r board = ⟨board.groups.update r.group fun old =>
        (old.getD .empty).offer sel.k c, board.next + 1⟩ := by
      simp [Selection.offer, live, positive, c]
    rw [taken]
    refine ⟨?_, fun group => ?_⟩
    · rw [numbered_concat_of_live live, List.length_append, List.length_singleton]
      exact congrArg (· + 1) holds.next
    · show (board.groups.update r.group _).get? group = _
      rw [Table.get?_update]
      by_cases here : group = r.group
      · subst here
        have old := holds.getD_get? r.group
        have earlier : ∀ a ∈ sel.offered r.group records, a.number < c.number := by
          intro a member
          have number : c.number = (sel.numbered records).length := holds.next
          rw [number]
          exact number_lt_of_mem_offered member
        have kept := Shortlist.kept_offer earlier (congrArg Shortlist.kept old)
        have seen : (((board.groups.get? r.group).getD .empty).offer sel.k c).seen =
            (sel.offered r.group records).length + 1 := by
          rw [old, Shortlist.offer]
        rw [if_pos rfl, offered_concat_self live, ← holds.next, if_neg (List.append_ne_nil_of_right_ne_nil _
          (List.cons_ne_nil _ _)), ← kept, List.length_append, List.length_singleton, ← seen]
      · rw [if_neg here, offered_concat_of_ne fun same => here same.symm]
        exact holds.lists group

end Holds

variable {sel}

/-- A board holds what the records of a stream make of it. -/
theorem holds_foldl (positive : sel.k ≠ 0) (records : List Record) :
    sel.Holds records (records.foldl (fun board r => sel.offer r board) .empty) := by
  induction records using List.reverseRecOn with
  | nil => exact .empty
  | append_singleton rest r ih =>
    rw [List.foldl_append]
    exact ih.offer positive r

/-- The rows go through the key map group by group. -/
theorem rows_foldl (positive : sel.k ≠ 0) (records : List Record) :
    sel.rows (records.foldl (fun board r => sel.offer r board) .empty) =
      sel.keys.toList.flatMap fun e => (sel.leading e.1 records).map (sel.row e.2) := by
  have holds := holds_foldl positive records
  generalize records.foldl (fun board r => sel.offer r board) .empty = board at holds ⊢
  have listed : sel.rows board = board.groups.toList.flatMap fun e =>
      ((sel.keys.get? e.1).map fun parent =>
        e.2.kept.map fun c => ResultRow.mk (parent.child c.term) c.values).getD [] := by
    rw [rows]
    apply List.flatMap_congr
    intro e _
    cases sel.keys.get? e.1 <;> rfl
  rw [listed, Table.flatMap_toList_comm fun _ (list : Shortlist) (parent : Key) =>
    list.kept.map fun c => ResultRow.mk (parent.child c.term) c.values]
  apply List.flatMap_congr
  intro e member
  have live : sel.keys.contains e.1 = true := Table.contains_of_mem member
  rw [← best_offered live, holds.lists]
  by_cases nothing : sel.offered e.1 records = []
  · rw [if_pos nothing, nothing]
    exact List.take_nil.symm ▸ rfl
  · rw [if_neg nothing]
    rfl

/-- How many terms of a live group were offered. -/
theorem seen_foldl (positive : sel.k ≠ 0) (records : List Record) {group : GroupId}
    (live : sel.keys.contains group = true) :
    seen (records.foldl (fun board r => sel.offer r board) .empty) group =
      (records.filter (·.group = group)).length := by
  rw [seen, (holds_foldl positive records).lists, ← length_offered live]
  by_cases nothing : sel.offered group records = []
  · rw [if_pos nothing, nothing]
    rfl
  · rw [if_neg nothing]
    rfl

theorem keys_rows (positive : sel.k ≠ 0) (records : List Record) :
    (sel.rows (records.foldl (fun board r => sel.offer r board) .empty)).map (·.key) =
      sel.keys.toList.flatMap fun e => ((sel.leading e.1 records).map (·.term)).map e.2.child := by
  simp only [rows_foldl positive, List.map_flatMap, List.map_map]
  rfl

/-- A stream is listed group by group as a stable sort by score would have it, cut down to so many records. -/
theorem result_stablySorted (positive : 1 ≤ sel.k) {deadline : Deadline} (inTime : deadline.missed = false)
    (records : List Record) :
    ∃ board, sel.sink.result deadline (records.map .ok) .empty = .ok board ∧
      (sel.rows board = sel.keys.toList.flatMap fun e =>
        (((records.filter (·.group = e.1)).mergeSort sel.noLater).take sel.k).map (sel.row e.2)) ∧
      ∀ group, sel.keys.contains group = true →
        seen board group = (records.filter (·.group = group)).length := by
  have room : sel.k ≠ 0 := Nat.ne_of_gt positive
  have sorted (l : List Record) : l.mergeSort sel.noLater = stableSort sel.noLater l :=
    (stableSort_eq_mergeSort sel.noLater_trans sel.noLater_total l).symm
  refine ⟨_, Sink.result_collecting sel.offer inTime records .empty, ?_, ?_⟩
  · simp only [sorted]
    exact rows_foldl room records
  · intro group live
    exact seen_foldl room records live

/-- The best two by the first slot for two groups, with the second slot shown. -/
def twoBest : Selection where
  k := 2
  bottom := false
  sortRef := .single ⟨0, 0, 1⟩
  statRefs := [.single ⟨0, 1, 2⟩]
  keys := .ofList [(1, .child .root (.text "a")), (2, .child .root (.text "b"))]

/-- Records of three groups, of which the last has no key: scores that tie, zeros of different sign, infinities
and one that is undefined. -/
def mixedScores : List Record :=
  [⟨"f", .int 1, 1, [-0, 10]⟩, ⟨"f", .text "x", 2, [0 / 0, 11]⟩, ⟨"f", .int 2, 1, [-5, 12]⟩,
    ⟨"f", .int 3, 1, [0, 13]⟩, ⟨"f", .int 4, 3, [7, 14]⟩, ⟨"f", .text "y", 2, [-1 / 0, 15]⟩,
    ⟨"f", .int 5, 1, [-0, 16]⟩]

theorem result_stablySorted_of_mixedScores : 1 ≤ twoBest.k ∧ Deadline.none.missed = false ∧
    ∃ board, twoBest.sink.result .none (mixedScores.map .ok) .empty = .ok board ∧
      twoBest.rows board =
        [⟨.ofTerms [.text "a", .int 1], [10]⟩, ⟨.ofTerms [.text "a", .int 3], [13]⟩,
          ⟨.ofTerms [.text "b", .text "y"], [15]⟩, ⟨.ofTerms [.text "b", .text "x"], [11]⟩] ∧
      seen board 1 = 4 ∧ seen board 2 = 2 := by
  have positive : 1 ≤ twoBest.k := by decide
  have inTime : Deadline.none.missed = false := rfl
  obtain ⟨board, filled, rows, seen⟩ := result_stablySorted positive inTime mixedScores
  refine ⟨positive, inTime, board, filled, ?_, seen 1 rfl, seen 2 rfl⟩
  rw [rows]
  simp only [← stableSort_eq_mergeSort twoBest.noLater_trans twoBest.noLater_total]
  decide +kernel

end Selection
end Rollup
