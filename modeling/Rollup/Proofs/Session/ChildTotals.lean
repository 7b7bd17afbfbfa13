import Rollup.Proofs.Grouping.Levels
import Rollup.Proofs.Session.Offspring

namespace Rollup

theorem Entry.sums_map_move (f : Field) (ids : Table Cell GroupId) (width : Nat) (es : List Entry) :
    sums width (es.map (move f ids)) = sums width es := by
  simp only [sums, List.foldl_map]
  rfl

/-- The record of the cell that a child takes its documents from. -/
def Child.record (f : Field) (s : Session) (c : Child) : Record :=
  ⟨f.name, c.term, c.parent, Entry.sums s.width (s.entries.filter fun e => e.cell? f = some c.cell)⟩

namespace Session
variable {f : Field} {keys : KeyMap} {s : Session} {cs : List Child}

namespace Offspring

/-- A document is in the cell of a child exactly when it is moved into its group. -/
theorem cell?_eq_some_iff (made : s.Offspring f keys cs) (outside : keys.get? 0 = none) {c : Child}
    {i : GroupId} (numbered : (c, i) ∈ cs.zipIdx 1) (e : Entry) :
    e.cell? f = some c.cell ↔ (e.move f (Child.ids (cs.zipIdx 1))).group = i := by
  obtain ⟨parent, found, -⟩ := made.parent c (List.fst_mem_of_mem_zipIdx numbered)
  have live : c.parent ≠ 0 := by
    intro zero
    rw [zero, outside] at found
    cases found
  rw [Entry.cell?_eq_some_iff, Entry.group_move_eq_iff made.distinct numbered]
  simp [live, Child.cell]

/-- The documents of a child are those that its cell had. -/
theorem filter_entries (made : s.Offspring f keys cs) (outside : keys.get? 0 = none) {c : Child}
    {i : GroupId} (numbered : (c, i) ∈ cs.zipIdx 1) :
    (s.splitInto f cs).entries.filter (·.group = i) =
      (s.entries.filter fun e => e.cell? f = some c.cell).map (Entry.move f (Child.ids (cs.zipIdx 1))) := by
  rw [entries_splitInto, List.filter_map]
  apply congrArg
  apply List.filter_congr
  intro e _
  exact decide_eq_decide.2 (made.cell?_eq_some_iff outside numbered e).symm

theorem members_eq (made : s.Offspring f keys cs) (outside : keys.get? 0 = none) {c : Child}
    {i : GroupId} (numbered : (c, i) ∈ cs.zipIdx 1) :
    (s.splitInto f cs).members i = s.inCell f c.cell := by
  rw [members_of_pos (List.le_snd_of_mem_zipIdx numbered), made.filter_entries outside numbered, inCell,
    List.map_map]
  rfl

theorem get?_cellTotals (made : s.Offspring f keys cs) (outside : keys.get? 0 = none) {c : Child}
    {i : GroupId} (numbered : (c, i) ∈ cs.zipIdx 1) :
    (s.cellTotals f).get? c.cell = some (c.record f s).stats := by
  obtain ⟨e, member, here⟩ := made.somebody c (List.fst_mem_of_mem_zipIdx numbered)
  have moved := (Entry.group_move_eq_iff made.distinct numbered f e).2 here
  have cell := (made.cell?_eq_some_iff outside numbered e).2 moved
  exact (s.get?_cellTotals_eq_some_iff f _ _).2 ⟨⟨e, member, cell⟩, rfl⟩

theorem record_mem_stream (made : s.Offspring f keys cs) (outside : keys.get? 0 = none)
    (sound : s.failAfter = none) {c : Child} {i : GroupId} (numbered : (c, i) ∈ cs.zipIdx 1) :
    .ok (c.record f s) ∈ s.stream [f] := by
  have listed := ((s.cellTotals f).mem_toList_iff _ _).2 (made.get?_cellTotals outside numbered)
  rw [stream_of_failAfter sound]
  apply List.mem_map_of_mem
  rw [fieldRecords, List.mem_map]
  exact ⟨_, listed, rfl⟩

end Offspring

/-- What a live handle reads from the stream of a field before a split is what it says of the children
afterwards. Each child extends the key of a group by the term of a record of this group; the documents in it
are those that were in the group and have the term, and the totals of the record are those of exactly
these. -/
theorem groupStats_child {children : KeyMap} {t : Session} (inStep : s.InStep)
    (sound : s.failAfter = none) (outside : keys.get? 0 = none)
    (split : (splitExplode f keys).on s = (.ok children, t) ∨
      ∃ k stat bottom, (splitTopK f keys k stat bottom).on s = (.ok children, t))
    {i : GroupId} {key : Key} (found : children.get? i = some key) :
    ∃ parent r, keys.get? r.group = some parent ∧ key = parent.child r.term ∧ .ok r ∈ s.stream [f] ∧
      (∀ ref, s.stack.isValid ref = true →
        ∃ totals, t.groupStats ref = .ok totals ∧ totals[i]? = some (ref.read r.stats)) ∧
      List.Forall₂ (fun e e' : Entry => e'.toReading = e.toReading ∧
        (e'.group = i ↔ e.doc.term? f = some r.term ∧ e.group = r.group)) s.entries t.entries ∧
      r.stats = Entry.sums t.width (t.entries.filter (·.group = i)) := by
  obtain ⟨cs, n, made, rfl, rfl⟩ := exists_offspring inStep split
  obtain ⟨c, numbered, rfl⟩ := (Child.get?_keyMap_eq_some_iff cs i key).1 found
  obtain ⟨parent, parentFound, key⟩ := made.parent c (List.fst_mem_of_mem_zipIdx numbered)
  have inRange : i < ((s.restamped n).splitInto f cs).groupCount := by
    have place := (List.mk_mem_zipIdx_iff_le_and_getElem?_sub.1 numbered).2
    have below : i - 1 < cs.length := (List.getElem?_eq_some_iff.1 place).1
    exact Nat.lt_succ_of_le (Nat.le_of_pred_lt below)
  have stepped : ((s.restamped n).splitInto f cs).InStep :=
    (regrouped_splitInto f cs _).inStep (inStep.restamped n)
  refine ⟨parent, c.record f s, parentFound, key,
    made.record_mem_stream outside sound numbered, fun ref live => ?_, ?_, ?_⟩
  · have same : ((s.restamped n).splitInto f cs).stack.isValid ref = true :=
      (s.stack.isValid_advanced n ref).trans live
    obtain ⟨totals, summed, -, each⟩ := groupStats_eq_ok stepped same
    refine ⟨totals, summed, ?_⟩
    have members : ((s.restamped n).splitInto f cs).members i = s.inCell f c.cell :=
      made.members_eq outside numbered
    rw [each i inRange, members, read_cellTotals inStep live (made.get?_cellTotals outside numbered)]
  · apply (forall₂_splitInto_iff f cs (s.restamped n)).2
    intro e _
    exact ⟨rfl, Entry.group_move_eq_iff made.distinct numbered f e⟩
  · have entries : ((s.restamped n).splitInto f cs).entries.filter (·.group = i) = _ :=
      made.filter_entries outside numbered
    rw [entries, Entry.sums_map_move]
    rfl

/-- Sales of two shops with the mean of their amounts pushed. -/
def market : Session :=
  ((push (.combination .divide (.intField "sold") .count)).on
    (.new 0 [⟨[("shop", .text "a"), ("sold", .int 4)]⟩, ⟨[("shop", .text "b"), ("sold", .int 3)]⟩,
      ⟨[("shop", .text "a"), ("sold", .int 8)]⟩, ⟨[("sold", .int 5)]⟩] .standard)).2

theorem groupStats_child_of_market :
    let shop : Field := ⟨"shop", .text⟩
    let mean : StatRef := .aggregate .divide ⟨0, 0, 1⟩ ⟨0, 1, 2⟩
    market.InStep ∧ market.failAfter = none ∧ KeyMap.initial.get? 0 = none ∧
      market.stack.isValid mean = true ∧
      ∃ children t, (splitTopK shop .initial 2 (.intField "sold") true).on market = (.ok children, t) ∧
        children.get? 2 = some (.child .root (.text "a")) ∧
        ∃ r : Record, r.term = .text "a" ∧ .ok r ∈ market.stream [shop] ∧
          ∃ totals, t.groupStats mean = .ok totals ∧ totals[2]? = some (mean.read r.stats) ∧
            (t.entries.filter (·.group = 2)).map (·.slots) = [[4, 1], [8, 1]] := by
  intro shop mean
  have inStep : market.InStep := ⟨rfl, by decide⟩
  have live : market.stack.isValid mean = true := rfl
  have named : ((splitTopK shop .initial 2 (.intField "sold") true).on market).1.toOption.bind (·.get? 2) =
      some (.child .root (.text "a")) := by decide +kernel
  have slots : (((splitTopK shop .initial 2 (.intField "sold") true).on market).2.entries.filter
      (·.group = 2)).map (·.slots) = [[4, 1], [8, 1]] := by decide +kernel
  rcases ranked : (splitTopK shop .initial 2 (.intField "sold") true).on market with ⟨outcome, t⟩
  rw [ranked] at named slots
  cases outcome with
  | error e => cases named
  | ok children =>
    have found : children.get? 2 = some (.child .root (.text "a")) := named
    obtain ⟨parent, r, -, key, streamed, values, -⟩ :=
      groupStats_child inStep rfl rfl (.inr ⟨2, _, true, ranked⟩) found
    obtain ⟨totals, summed, here⟩ := values mean live
    exact ⟨inStep, rfl, rfl, live, children, t, rfl, found, r, (Key.child.inj key).2.symm, streamed, totals,
      summed, here, slots⟩

end Session
end Rollup
