import LiveTables.Proofs.Join.Run
import Mathlib.Data.Finset.Card

/-!
# What an engine shows

Whatever can be read of an engine that represents a matching is what can be read of the matching: the joined rows and
what stands in them, the keys of the rows, the joined rows of a row, and the pairings that a group lists
(`Represents.rows`, `Represents.sourceRow?`, `Represents.joinedRowsOf`, `Represents.listed`). So an engine is sound if
it represents a sound matching (`JoinEngine.Sound`), and after every run its groups hold the cross products of their two
sides, and its joined rows are those that the nested loop finds (`run_eq_nestedLoop`).
-/

open scoped List

namespace LiveTables

open Numbered

namespace JoinEngine

variable {e : JoinEngine} {m : Matching} {t : Numbered} {side : Side} {row id n : Nat} {key : Value}

/-- The pairings that the group of a key lists. -/
def listed (e : JoinEngine) (key : Value) : List Pairing := e.pairingsIn (e.groupOf key)

/-- The class of the key under which a row is linked. -/
def keyClass? (e : JoinEngine) (side : Side) : Nat → Option Value := Keyed.classOf (e.keys side)

/-! ## Slots and pairings -/

theorem mem_rows : id ∈ e.rows ↔ e.pairingAt? id ≠ none := by
  simp only [rows, List.mem_map, List.mem_filter, Prod.exists, List.mk_mem_zipIdx_iff_getElem?, pairingAt?]
  constructor
  · rintro ⟨slot, id, ⟨hslot, hsome⟩, rfl⟩
    rw [hslot]
    exact Option.isSome_iff_ne_none.1 hsome
  · intro h
    obtain ⟨n, hn⟩ := Option.ne_none_iff_exists'.1 h
    exact ⟨some n, id, ⟨Option.join_eq_some_iff.1 hn, rfl⟩, rfl⟩

/-- The joined rows are told in ascending order. -/
theorem pairwise_rows (e : JoinEngine) : e.rows.Pairwise (· < ·) := by
  have hrange : (e.slots.zipIdx.map (·.2)).Pairwise (· < ·) := by
    rw [List.zipIdx_map_snd]
    exact List.pairwise_lt_range' 1
  exact hrange.sublist (List.filter_sublist.map _)

theorem nodup_rows (e : JoinEngine) : e.rows.Nodup := e.pairwise_rows.imp Nat.ne_of_lt

theorem contains_iff : e.contains id = true ↔ id ∈ e.rows := by
  rw [contains, mem_rows, Option.isSome_iff_ne_none]

theorem mem_rows_of_sourceRow? (h : e.sourceRow? side id = some row) : id ∈ e.rows := by
  rw [mem_rows]
  intro hnone
  rw [sourceRow?, hnone] at h
  exact absurd h (by simp)

/-- The pairings of numbers that are kept. -/
theorem Keeps.filterMap_pairing? (h : e.Keeps t) {ts : Numbered} (hts : ∀ x ∈ ts, x ∈ t) :
    (numbers ts).filterMap e.pairing? = ts.map (·.2.pairing) := by
  rw [numbers, List.filterMap_map, ← List.filterMap_eq_map]
  exact List.filterMap_congr fun x hx => h.pairing?_of_mem (hts x hx)

theorem Keeps.pairingAt?_eq_some_iff (h : e.Keeps t) :
    e.pairingAt? id = some n ↔ ∃ p, (n, p) ∈ t ∧ p.row = some id := by
  rw [h.slots.slot, mem_held]

theorem Keeps.mem_rows (h : e.Keeps t) : id ∈ e.rows ↔ ∃ p ∈ t.map (·.2), p.row = some id := by
  rw [JoinEngine.mem_rows, Option.ne_none_iff_exists']
  simp only [h.pairingAt?_eq_some_iff, List.mem_map, Prod.exists]
  exact ⟨fun ⟨n, p, hp, hrow⟩ => ⟨p, ⟨n, p, hp, rfl⟩, hrow⟩, fun ⟨p, ⟨n, _, hp, heq⟩, hrow⟩ => ⟨n, p, heq ▸ hp, hrow⟩⟩

/-- The joined rows of a row are looked for in the group of its key. -/
theorem joinedRowsOf_eq_listed (e : JoinEngine) (side : Side) (row : Nat) : e.joinedRowsOf side row =
    match e.key? side row with
    | none => []
    | some key => ((e.listed key).filter (·.on side = some row)).filterMap (·.row) := by
  rw [joinedRowsOf]
  rcases e.key? side row with - | key
  · rfl
  · dsimp only
    rw [Option.bind_some, listed, groupOf]
    rcases e.group? key with - | g <;> rfl

/-! ## What a matching shows -/

namespace Represents

variable (h : e.Represents m)

include h

theorem key? (side : Side) (row : Nat) : e.key? side row = m.key? side row := by
  rw [JoinEngine.key?, h.keys, Matching.key?]

theorem keyClass? : e.keyClass? = m.keyClass? := by
  funext side
  rw [JoinEngine.keyClass?, h.keys, Matching.keyClass?]

theorem rows : e.rows = m.rows := by
  obtain ⟨t, hstored, ht⟩ := h.stored
  have hmem (id : Nat) : id ∈ e.rows ↔ id ∈ m.rows := by
    rw [hstored.keeps.mem_rows, Matching.mem_rows, ht]
  have hheld : (Match.rows m.pairings).Nodup := by
    rw [← ht, ← map_fst_held]
    exact hstored.keeps.slots.ids.nodup
  have hperm : e.rows ~ m.rows :=
    (List.perm_ext_iff_of_nodup e.nodup_rows (Matching.rows_perm.nodup_iff.2 hheld)).2 hmem
  refine hperm.eq_of_pairwise (fun a b _ _ => Nat.le_antisymm) (e.pairwise_rows.imp Nat.le_of_lt) ?_
  have hsorted : m.rows.Pairwise fun a b => decide (a ≤ b) = true :=
    List.pairwise_mergeSort (by simpa using fun _ _ _ => Nat.le_trans) (by simpa using Nat.le_total) _
  simpa using hsorted

theorem pairingAt? (hm : m.Sound) (id : Nat) :
    (e.pairingAt? id).bind e.pairing? = (m.pairing? id).map Match.pairing := by
  obtain ⟨t, hstored, ht⟩ := h.stored
  rcases hn : e.pairingAt? id with - | n
  · have hnone : m.pairing? id = none := by
      rw [Option.eq_none_iff_forall_ne_some]
      intro p hp
      have hmem : id ∈ e.rows := hstored.keeps.mem_rows.2 ⟨p, ht ▸ hm.pairing?_eq_some_iff.1 hp⟩
      exact JoinEngine.mem_rows.1 hmem hn
    rw [hnone]
    rfl
  · obtain ⟨p, hp, hrow⟩ := hstored.keeps.pairingAt?_eq_some_iff.1 hn
    have hpm : p ∈ m.pairings := ht ▸ List.mem_map_of_mem (f := (·.2)) hp
    rw [Option.bind_some, hstored.keeps.pairing?_of_mem hp, hm.pairing?_eq_some_iff.2 ⟨hpm, hrow⟩, Option.map_some]

theorem sourceRow? (hm : m.Sound) : e.sourceRow? = m.sourceRow? := by
  funext side id
  rw [JoinEngine.sourceRow?, h.pairingAt? hm, Option.bind_map, Matching.sourceRow?]
  exact congrArg _ (funext fun p => p.on_pairing side)

theorem rowCount : e.rowCount = e.rows.length := by
  obtain ⟨t, hstored, ht⟩ := h.stored
  rw [hstored.keeps.slots.count, h.rows, Matching.rows_perm.length_eq, ← ht, ← map_fst_held, List.length_map]

theorem filterMap_row : e.pairings.filterMap (·.2.row) = Match.rows m.pairings := by
  obtain ⟨t, hstored, ht⟩ := h.stored
  rw [hstored.keeps.pairings, List.filterMap_map, ← ht, Match.rows, List.filterMap_map]
  rfl

/-- A group lists the pairings of its key. -/
theorem listed (key : Value) : e.listed key = (m.pairings.filter (·.key.same key)).map Match.pairing := by
  obtain ⟨t, hstored, ht⟩ := h.stored
  rw [JoinEngine.listed, pairingsIn, hstored.indexes.pairings, under,
    hstored.keeps.filterMap_pairing? fun x hx => (List.mem_filter.1 hx).1, ← ht, List.filter_map, List.map_map]
  rfl

theorem joinedRowsOf (hm : m.Sound) (side : Side) (row : Nat) : e.joinedRowsOf side row = m.joinedRowsOf side row := by
  rw [joinedRowsOf_eq_listed, h.key?, hm.joinedRowsOf_eq_group]
  rcases m.key? side row with - | key
  · rfl
  · simp [h.listed, List.filter_map, List.filterMap_map, Function.comp_def]

/-- There is a group of a key exactly if there is a pairing of the key. -/
theorem group?_ne_none_iff (hm : m.Sound) : e.group? key ≠ none ↔ ∃ p ∈ m.pairings, p.key.same key = true := by
  obtain ⟨t, hstored, ht⟩ := h.stored
  constructor
  · intro hgroup
    obtain ⟨s, hs⟩ := hstored.populated key hgroup
    rw [h.keys] at hs
    exact hm.exists_rowsUnder_iff.1 ⟨s, hs⟩
  · rw [← ht, ← under_ne_nil_iff, ← hstored.indexes.pairings, groupOf]
    intro hunder hnone
    rw [hnone] at hunder
    exact hunder rfl

/-- There are as many groups as different keys of pairings. -/
theorem groupCount (hm : m.Sound) : e.groupCount = (m.pairings.map (·.key.canonical)).toFinset.card := by
  obtain ⟨t, hstored, ht⟩ := h.stored
  have hclass (k : Value) : k.canonical ∈ e.groups.map (·.1.canonical) ↔
      k.canonical ∈ m.pairings.map (·.key.canonical) := by
    rw [← not_iff_not, ← group?_eq_none_iff, ← not_iff_not, not_not, ← ne_eq, h.group?_ne_none_iff hm, List.mem_map]
    simp only [Value.same_iff]
  have hclasses : (e.groups.map (·.1.canonical)).toFinset = (m.pairings.map (·.key.canonical)).toFinset := by
    ext g
    rw [List.mem_toFinset, List.mem_toFinset]
    constructor
    · intro hg
      obtain ⟨x, -, rfl⟩ := List.mem_map.1 hg
      exact (hclass x.1).1 hg
    · intro hg
      obtain ⟨p, -, rfl⟩ := List.mem_map.1 hg
      exact (hclass p.key).2 hg
  rw [← hclasses, List.toFinset_card_of_nodup hstored.indexes.classes, List.length_map, JoinEngine.groupCount]

end Represents

/-! ## Sound engines -/

/-- An engine is sound if it represents a sound matching. -/
def Sound (e : JoinEngine) : Prop := ∃ m : Matching, e.Represents m ∧ m.Sound

/-- The rows that stand together in a joined row. -/
def sidesOf (e : JoinEngine) (id : Nat) : Option Nat × Option Nat := (e.sourceRow? .left id, e.sourceRow? .right id)

theorem sound_empty (kind : JoinKind) : Sound { kind } := ⟨_, represents_empty kind, Matching.sound_empty kind⟩

theorem sound_run (kind : JoinKind) (calls : List JoinCall) : (run kind calls).Sound :=
  ⟨_, represents_run kind calls, Matching.sound_run kind calls⟩

theorem kind_run (kind : JoinKind) (calls : List JoinCall) : (run kind calls).kind = kind :=
  (represents_run kind calls).kind.trans (Matching.kind_run kind calls)

theorem keyClass?_run (kind : JoinKind) (calls : List JoinCall) :
    (run kind calls).keyClass? = classesOf (JoinCall.linked calls .left) (JoinCall.linked calls .right) := by
  rw [(represents_run kind calls).keyClass?, JoinCall.keyClass?_run]
  funext side
  cases side <;> rfl

theorem keyClass?_eq_none_iff : e.keyClass? side row = none ↔ e.key? side row = none := by
  simp [keyClass?, Keyed.classOf, key?]

theorem keyClass?_eq_some_iff {g : Value} :
    e.keyClass? side row = some g ↔ ∃ k, e.key? side row = some k ∧ k.canonical = g := by
  simp [keyClass?, Keyed.classOf, key?]

namespace Sound

variable (h : e.Sound)

include h

theorem perform (c : JoinCall) : (e.perform c).1.Sound := by
  obtain ⟨m, hrepresents, hm⟩ := h
  exact ⟨_, (hrepresents.perform hm c).1, (hm.performs c).sound hm⟩

theorem kind_perform (c : JoinCall) : (e.perform c).1.kind = e.kind := by
  obtain ⟨m, hrepresents, hm⟩ := h
  rw [(hrepresents.perform hm c).1.kind, (hm.performs c).kind, hrepresents.kind]

/-- A call gives its row another key class, and no other row. -/
theorem classes_perform (c : JoinCall) :
    (e.perform c).1.keyClass? = Match.relabel e.keyClass? c.side c.row c.class? := by
  obtain ⟨m, hrepresents, hm⟩ := h
  rw [(hrepresents.perform hm c).1.keyClass?, (hm.performs c).classes, hrepresents.keyClass?]

theorem distinct (side : Side) : Keyed.Distinct (e.keys side) := by
  obtain ⟨m, hrepresents, hm⟩ := h
  exact hrepresents.keys side ▸ hm.distinct side

theorem rowCount_eq : e.rowCount = e.rows.length := by
  obtain ⟨m, hrepresents, -⟩ := h
  exact hrepresents.rowCount

theorem mem_joinedRowsOf_iff : id ∈ e.joinedRowsOf side row ↔ id ∈ e.rows ∧ e.sourceRow? side id = some row := by
  obtain ⟨m, hrepresents, hm⟩ := h
  rw [hrepresents.joinedRowsOf hm, hrepresents.rows, hrepresents.sourceRow? hm]
  exact hm.mem_joinedRowsOf_iff

theorem nodup_joinedRowsOf (side : Side) (row : Nat) : (e.joinedRowsOf side row).Nodup := by
  obtain ⟨m, hrepresents, hm⟩ := h
  rw [hrepresents.joinedRowsOf hm]
  exact hm.nodup_joinedRowsOf side row

variable {left right : Keyed} (hl : left.Distinct) (hr : right.Distinct) (hclasses : e.keyClass? = classesOf left right)

include hl hr hclasses

/-- A group lists all pairs of its rows, or if one side is empty, the rows of the other one alone. -/
theorem listed_perm (key : Value) :
    (e.listed key).map (fun p => (p.left, p.right)) ~ groupSides (left.under key) (right.under key) := by
  obtain ⟨m, hrepresents, hm⟩ := h
  rw [hrepresents.listed, List.map_map]
  exact hm.group_perm hl hr (hrepresents.keyClass?.symm.trans hclasses) key

/-- The joined rows are those that the nested loop finds. -/
theorem rows_perm_nestedLoop : e.rows.map e.sidesOf ~ nestedLoop e.kind left right := by
  obtain ⟨m, hrepresents, hm⟩ := h
  have hsides : e.sidesOf = m.sidesOf := by
    funext id
    rw [sidesOf, hrepresents.sourceRow? hm, Matching.sidesOf]
  rw [hrepresents.rows, hsides, hrepresents.kind]
  exact hm.rows_perm_nestedLoop hl hr (hrepresents.keyClass?.symm.trans hclasses)

end Sound

end JoinEngine

open JoinCall

/-- After every run, a group lists exactly the pairings of its rows, each once: all pairs, or if one side
is empty, the rows of the other alone. Hence the joined rows show, each once, what the nested loop finds
among the rows that are linked, and their number is counted. -/
theorem run_eq_nestedLoop (kind : JoinKind) (calls : List JoinCall) :
    let e := JoinEngine.run kind calls
    let left := linked calls .left
    let right := linked calls .right
    (∀ key, (groupSides (left.under key) (right.under key)).Nodup ∧
      (e.listed key).map (fun p => (p.left, p.right)) ~ groupSides (left.under key) (right.under key)) ∧
    e.rows.map (fun id => (e.sourceRow? .left id, e.sourceRow? .right id)) ~ nestedLoop kind left right ∧
    e.rowCount = (nestedLoop kind left right).length := by
  have hsound := JoinEngine.sound_run kind calls
  have hl := distinct_linked calls .left
  have hr := distinct_linked calls .right
  have hclasses := JoinEngine.keyClass?_run kind calls
  have hrows := hsound.rows_perm_nestedLoop hl hr hclasses
  rw [JoinEngine.kind_run] at hrows
  refine ⟨fun key => ⟨nodup_groupSides hl.nodup_under hr.nodup_under, hsound.listed_perm hl hr hclasses key⟩, hrows, ?_⟩
  rw [hsound.rowCount_eq, ← hrows.length_eq, List.length_map]

end LiveTables
