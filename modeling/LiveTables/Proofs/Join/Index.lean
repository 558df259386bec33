import LiveTables.Proofs.Join.Contents

/-!
# What an engine knows about rows and keys

Besides the joined rows an engine tells which of them a row stands in, under which key a row is linked, and how many
groups there are. It looks these up in indexes that stand beside one another: the keys of the rows, the groups with their
rows and pairings, the pairings under their numbers, and the slots. The indexes of a sound engine agree
(`Sound.coherent`). So after every run the answers agree with the joined rows and with the calls (`run_index`): a row is
under the key of its last link (`keyClass?_run_eq_lastKey?`), and there are as many groups as different keys of rows that
are linked (`Sound.groupCount_eq`).
-/

open scoped List

namespace LiveTables

open Match

namespace Value

/-- Two optional values are the same if both are missing, or both are there and the same. -/
theorem rel_same_iff {v? w? : Option Value} :
    Option.Rel (fun v w => v.same w = true) v? w? ↔ v?.map canonical = w?.map canonical := by
  constructor
  · rintro (hsame | -)
    · rw [Option.map_some, Option.map_some, same_iff.1 hsame]
    · rfl
  · intro h
    rcases v? with - | v <;> rcases w? with - | w
    · exact .none
    · cases h
    · cases h
    · exact .some (same_iff.2 (Option.some.inj h))

end Value

namespace JoinCall

/-! ## The key of the last link -/

/-- The key under which a call links its row. -/
def key? : JoinCall → Option Value
  | link _ _ key => some key
  | unlink _ _ => none

/-- The key of the last link of a row, if the row was not unlinked since. -/
def lastKey? (calls : List JoinCall) (side : Side) (row : Nat) : Option Value :=
  (calls.filter fun c => c.side = side ∧ c.row = row).getLast?.bind key?

theorem class?_eq (c : JoinCall) : c.class? = c.key?.map Value.canonical := by
  cases c <;> rfl

theorem lastKey?_append_singleton (calls : List JoinCall) (c : JoinCall) (side : Side) (row : Nat) :
    lastKey? (calls ++ [c]) side row = if side = c.side ∧ row = c.row then c.key? else lastKey? calls side row := by
  rw [lastKey?, List.filter_append]
  split_ifs with h
  · simp [h]
  · have hother : ¬ (c.side = side ∧ c.row = row) := fun heq => h ⟨heq.1.symm, heq.2.symm⟩
    simp [hother, lastKey?]

end JoinCall

namespace JoinEngine

open Numbered

variable {e : JoinEngine} {m : Matching} {side : Side} {row id n : Nat} {key : Value} {t : Numbered}

/-! ## Agreement of the indexes -/

/-- The indexes of an engine agree: groups, keys, pairings and slots tell the same, no group is left behind when it is
empty, and no row, pairing or identifier is missing where it is looked for. -/
structure Coherent (e : JoinEngine) : Prop where
  /-- No two groups are of one key. -/
  classes : (e.groups.map (·.1.canonical)).Nodup
  /-- The key of a row leads to a group. -/
  grouped : ∀ side row key, e.key? side row = some key → ∃ g, e.group? key = some g ∧ row ∈ g.rows side
  /-- A group holds the rows that are linked under its key, each once. -/
  rows : ∀ x ∈ e.groups, ∀ side, (x.2.rows side).Nodup ∧
    ∀ row, row ∈ x.2.rows side ↔ ∃ key, e.key? side row = some key ∧ key.same x.1 = true
  /-- A group lists pairings, and they are pairings of its rows. -/
  filled : ∀ x ∈ e.groups, x.2.pairings ≠ []
  standing : ∀ x ∈ e.groups, ∀ n ∈ x.2.pairings, ∃ p, e.pairing? n = some p ∧
    ∀ side row, p.on side = some row → row ∈ x.2.rows side
  /-- Every pairing is listed once, in one group. -/
  listed : (e.pairings.map (·.1)).Nodup ∧ e.groups.flatMap (·.2.pairings) ~ e.pairings.map (·.1)
  /-- The slot of an identifier leads to the pairing that holds it. -/
  slots : ∀ id n, e.pairingAt? id = some n ↔ ∃ p, e.pairing? n = some p ∧ p.row = some id
  count : e.rowCount = e.rows.length

/-- Every pairing is listed in the group of its key, and in no other. -/
theorem Stored.flatMap_pairings_perm (h : e.Stored t)
    (hall : ∀ x ∈ t, x.2.key.canonical ∈ e.groups.map (·.1.canonical)) :
    e.groups.flatMap (·.2.pairings) ~ t.numbers := by
  have hunder (x : Value × RowGroup) (hx : x ∈ e.groups) : x.2.pairings = t.under x.1 := by
    rw [← h.indexes.pairings, groupOf_eq_of_some (group?_of_mem h.indexes.classes hx)]
  have hnodup : (e.groups.flatMap (·.2.pairings)).Nodup := by
    rw [List.nodup_flatMap]
    refine ⟨fun x hx => ?_, ?_⟩
    · rw [hunder x hx]
      exact h.keeps.distinct.sublist (List.filter_sublist.map _)
    · have hclasses := h.indexes.classes
      rw [List.Nodup, List.pairwise_map] at hclasses
      refine hclasses.imp_of_mem fun {x y} hx hy hne n (hnx : n ∈ x.2.pairings) (hny : n ∈ y.2.pairings) => hne ?_
      rw [hunder x hx, mem_under] at hnx
      rw [hunder y hy, mem_under] at hny
      obtain ⟨p, hp, hpx⟩ := hnx
      obtain ⟨q, hq, hqy⟩ := hny
      -- one number belongs to one pairing
      obtain rfl : p = q := congrArg Prod.snd (List.inj_on_of_nodup_map h.keeps.distinct hp hq rfl)
      rw [← Value.same_iff.1 hpx, Value.same_iff.1 hqy]
  refine (List.perm_ext_iff_of_nodup hnodup h.keeps.distinct).2 fun n => ?_
  rw [List.mem_flatMap, numbers, List.mem_map]
  constructor
  · rintro ⟨x, hx, hn⟩
    rw [hunder x hx, mem_under] at hn
    obtain ⟨p, hp, -⟩ := hn
    exact ⟨(n, p), hp, rfl⟩
  · rintro ⟨y, hy, rfl⟩
    obtain ⟨x, hx, hclass⟩ := List.mem_map.1 (hall y hy)
    refine ⟨x, hx, ?_⟩
    rw [hunder x hx, mem_under]
    exact ⟨y.2, hy, Value.same_iff.2 hclass.symm⟩

/-- A group holds the rows that are linked under its key. -/
theorem Represents.mem_rows_groupOf (h : e.Represents m) (hm : m.Sound) :
    row ∈ (e.groupOf key).rows side ↔ e.keyClass? side row = some key.canonical := by
  obtain ⟨t, hstored, -⟩ := h.stored
  rw [hstored.indexes.rows, h.keys, h.keyClass?]
  exact Matching.mem_rowsUnder hm

/-- The key of a row leads to a group, and the row is in it. -/
theorem Represents.exists_group (h : e.Represents m) (hm : m.Sound) (hkey : e.key? side row = some key) :
    ∃ g, e.group? key = some g ∧ row ∈ g.rows side := by
  have hclass : e.keyClass? side row = some key.canonical := keyClass?_eq_some_iff.2 ⟨key, hkey, rfl⟩
  have hrow : ∃ s, m.rowsUnder s key ≠ [] := by
    rw [h.keyClass?] at hclass
    exact ⟨side, List.ne_nil_of_mem ((Matching.mem_rowsUnder hm).2 hclass)⟩
  obtain ⟨g, hg⟩ := Option.ne_none_iff_exists'.1 ((h.group?_ne_none_iff hm).2 (hm.exists_rowsUnder_iff.1 hrow))
  exact ⟨g, hg, groupOf_eq_of_some hg ▸ (h.mem_rows_groupOf hm).2 hclass⟩

/-- The indexes of a sound engine agree. -/
theorem Sound.coherent (h : e.Sound) : e.Coherent := by
  obtain ⟨m, hrepresents, hm⟩ := h
  obtain ⟨t, hstored, ht⟩ := hrepresents.stored
  have hfind {x : Value × RowGroup} (hx : x ∈ e.groups) := group?_of_mem hstored.indexes.classes hx
  have hgroup {x : Value × RowGroup} (hx : x ∈ e.groups) : x.2 = e.groupOf x.1 := (groupOf_eq_of_some (hfind hx)).symm
  have hnumbers : e.pairings.map (·.1) = t.numbers := by
    rw [hstored.keeps.pairings, List.map_map]
    rfl
  exact
    { classes := hstored.indexes.classes
      grouped := fun side row key => hrepresents.exists_group hm
      rows := by
        intro x hx side
        rw [hgroup hx]
        refine ⟨?_, fun row => ?_⟩
        · rw [hstored.indexes.rows, hrepresents.keys]
          exact (hm.distinct side).nodup_under
        · rw [hrepresents.mem_rows_groupOf hm, keyClass?_eq_some_iff]
          simp only [Value.same_iff]
      filled := by
        intro x hx
        have hsome : e.group? x.1 ≠ none := by
          rw [hfind hx]
          exact Option.some_ne_none _
        rw [hgroup hx, hstored.indexes.pairings, under_ne_nil_iff, ht]
        exact (hrepresents.group?_ne_none_iff hm).1 hsome
      standing := by
        intro x hx n hn
        rw [hgroup hx, hstored.indexes.pairings, mem_under] at hn
        obtain ⟨p, hp, hsame⟩ := hn
        refine ⟨p.pairing, hstored.keeps.pairing?_of_mem hp, fun side row hon => ?_⟩
        rw [Match.on_pairing] at hon
        have hpm : p ∈ m.pairings := ht ▸ List.mem_map_of_mem (f := (·.2)) hp
        rw [hgroup hx, hrepresents.mem_rows_groupOf hm, hrepresents.keyClass?, ← Value.same_iff.1 hsame]
        exact (sits_of_some hon).1 ((hm.exact.stands p hpm).sits side)
      listed := by
        rw [hnumbers]
        refine ⟨hstored.keeps.distinct, hstored.flatMap_pairings_perm fun x hx => ?_⟩
        rw [← not_not (a := _ ∈ _), ← group?_eq_none_iff, ← ne_eq, hrepresents.group?_ne_none_iff hm]
        exact ⟨x.2, ht ▸ List.mem_map_of_mem hx, Value.same_refl _⟩
      slots := by
        intro id n
        rw [hstored.keeps.pairingAt?_eq_some_iff]
        simp only [hstored.keeps.pairing?_eq_some_iff]
        constructor
        · rintro ⟨p, hp, hrow⟩
          exact ⟨_, ⟨p, hp, rfl⟩, hrow⟩
        · rintro ⟨_, ⟨p, hp, rfl⟩, hrow⟩
          exact ⟨p, hp, hrow⟩
      count := hrepresents.rowCount }

/-- There are as many groups as different keys under which rows are linked. -/
theorem Sound.groupCount_eq (h : e.Sound) {left right : Keyed} (hl : left.Distinct) (hr : right.Distinct)
    (hclasses : e.keyClass? = classesOf left right) :
    e.groupCount = ((left ++ right).map fun r => r.2.canonical).toFinset.card := by
  obtain ⟨m, hrepresents, hm⟩ := h
  rw [hrepresents.groupCount hm]
  congr 1
  ext g
  have hlinked : (∃ side row, m.keyClass? side row = some g) ↔
      (∃ row, left.classOf row = some g) ∨ ∃ row, right.classOf row = some g := by
    rw [← hrepresents.keyClass?, hclasses]
    exact ⟨fun ⟨side, hrow⟩ => by cases side <;> [exact .inl hrow; exact .inr hrow],
      fun hrow => hrow.elim (fun hleft => ⟨.left, hleft⟩) fun hright => ⟨.right, hright⟩⟩
  have hpaired := hm.exists_pairing_iff (g := g)
  rw [hlinked] at hpaired
  simpa [hl.classOf_eq_some_iff, hr.classOf_eq_some_iff, or_and_right, exists_or] using hpaired

/-! ## The keys of the rows -/

theorem map_canonical_key? : (e.key? side row).map Value.canonical = e.keyClass? side row := rfl

/-- After every run a row is under the key of its last link. -/
theorem keyClass?_run_eq_lastKey? (kind : JoinKind) (calls : List JoinCall) (side : Side) (row : Nat) :
    (run kind calls).keyClass? side row = (JoinCall.lastKey? calls side row).map Value.canonical := by
  induction calls using List.reverseRecOn with
  | nil => cases side <;> rfl
  | append_singleton calls c ih =>
    rw [run_append_singleton, (sound_run kind calls).classes_perform, Match.relabel, JoinCall.lastKey?_append_singleton,
      c.class?_eq]
    split_ifs with h
    · rfl
    · exact ih

end JoinEngine

open JoinCall

/-- After every run the indexes of an engine agree: there is one group for every key under which rows are linked, it
lists its rows and its pairings, and no empty group is left. So the joined rows of a row are those in which it stands on
its side, each once; a row is under the key of its last link, if it was not unlinked since, and otherwise under none;
and there are as many groups as there are different keys among the rows that are linked. -/
theorem run_index (kind : JoinKind) (calls : List JoinCall) :
    let e := JoinEngine.run kind calls
    e.Coherent ∧
    (∀ side row, (e.joinedRowsOf side row).Nodup ∧
      ∀ id, id ∈ e.joinedRowsOf side row ↔ id ∈ e.rows ∧ e.sourceRow? side id = some row) ∧
    (∀ side row, Option.Rel (fun k k' => k.same k' = true) (e.key? side row) (lastKey? calls side row)) ∧
    e.groupCount = ((linked calls .left ++ linked calls .right).map fun r => r.2.canonical).toFinset.card := by
  have hsound := JoinEngine.sound_run kind calls
  refine ⟨hsound.coherent, fun side row => ⟨hsound.nodup_joinedRowsOf side row, fun id => hsound.mem_joinedRowsOf_iff⟩,
    fun side row => ?_, ?_⟩
  · rw [Value.rel_same_iff, JoinEngine.map_canonical_key?]
    exact JoinEngine.keyClass?_run_eq_lastKey? kind calls side row
  · exact hsound.groupCount_eq (distinct_linked calls .left) (distinct_linked calls .right)
      (JoinEngine.keyClass?_run kind calls)

end LiveTables
