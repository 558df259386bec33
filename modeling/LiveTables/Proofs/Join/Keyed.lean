import LiveTables.Proofs.Data.Lookup
import LiveTables.Proofs.Join.Standing

/-!
# Rows with keys, and their nested-loop join

A source of a join is, for the join, a list of rows with their keys. `nestedLoop` joins two such lists
from scratch. Its members are the sides of the pairings that stand and are visible
(`mem_nestedLoop`), each once (`nodup_nestedLoop`).
-/

open scoped List

namespace LiveTables

/-- Rows of a source with their keys. -/
abbrev Keyed := List (Nat × Value)

namespace Keyed

/-- Every row occurs once. -/
def Distinct (rows : Keyed) : Prop := (rows.map (·.1)).Nodup

/-- The canonical key of a row. -/
def classOf (rows : Keyed) (row : Nat) : Option Value := (rows.lookup row).map Value.canonical

/-- The rows whose key is the same as a given one. -/
def under (rows : Keyed) (key : Value) : List Nat := (rows.filter (·.2.same key)).map (·.1)

variable {rows : Keyed} {row source : Nat} {key g : Value}

theorem distinct_nil : Distinct [] := List.nodup_nil

theorem Distinct.lookup_eq_some_iff (h : rows.Distinct) : rows.lookup row = some key ↔ (row, key) ∈ rows :=
  lookup_eq_some_iff_mem h

theorem Distinct.classOf_eq_some_iff (h : rows.Distinct) :
    rows.classOf row = some g ↔ ∃ k, (row, k) ∈ rows ∧ k.canonical = g := by
  simp [classOf, h.lookup_eq_some_iff]

theorem classOf_eq_none_iff : rows.classOf row = none ↔ row ∉ rows.map (·.1) := by
  rw [classOf, Option.map_eq_none_iff, lookup_eq_none_iff_not_mem]

theorem Distinct.mem_under (h : rows.Distinct) :
    row ∈ rows.under key ↔ rows.classOf row = some key.canonical := by
  rw [h.classOf_eq_some_iff, under, List.mem_map]
  simp [Value.same_iff]

theorem Distinct.nodup_under (h : rows.Distinct) : (rows.under key).Nodup :=
  List.Nodup.sublist (List.filter_sublist.map _) h

theorem isEmpty_under (rows : Keyed) (key : Value) : (rows.under key).isEmpty = !rows.any (·.2.same key) := by
  rw [Bool.eq_iff_iff]
  simp [under]

theorem Distinct.under_eq_nil_iff (h : rows.Distinct) :
    rows.under key = [] ↔ ∀ row, rows.classOf row ≠ some key.canonical := by
  simp only [List.eq_nil_iff_forall_not_mem, h.mem_under, ne_eq]

theorem Distinct.append_singleton (h : rows.Distinct) (hfresh : rows.classOf row = none) :
    Distinct (rows ++ [(row, key)]) := by
  rw [Distinct, List.map_append, List.nodup_append']
  exact ⟨h, List.nodup_singleton _, by simpa using classOf_eq_none_iff.1 hfresh⟩

theorem Distinct.classOf_append_singleton (h : rows.Distinct) (hfresh : rows.classOf source = none) :
    classOf (rows ++ [(source, key)]) row =
      if row = source then some key.canonical else rows.classOf row := by
  refine Option.ext fun g => ?_
  rw [(h.append_singleton hfresh).classOf_eq_some_iff]
  split_ifs with heq
  · subst heq
    have hnot : ∀ k, (row, k) ∉ rows := fun k hk =>
      classOf_eq_none_iff.1 hfresh (List.mem_map_of_mem hk)
    simp [hnot]
  · rw [h.classOf_eq_some_iff]
    simp [heq]

theorem Distinct.filter_ne (h : rows.Distinct) : Distinct (rows.filter (·.1 ≠ source)) :=
  List.Nodup.sublist (List.filter_sublist.map _) h

theorem Distinct.classOf_filter_ne (h : rows.Distinct) :
    classOf (rows.filter (·.1 ≠ source)) row = if row = source then none else rows.classOf row := by
  refine Option.ext fun g => ?_
  rw [h.filter_ne.classOf_eq_some_iff]
  split_ifs with heq
  · simp [heq]
  · rw [h.classOf_eq_some_iff]
    simp [heq]

end Keyed

/-- The classes under which the rows of two sources are linked. -/
def classesOf (left right : Keyed) : Side → Nat → Option Value
  | .left => left.classOf
  | .right => right.classOf

/-- What a left row finds on the right: all rows of the same key, or if there are none, and left rows may
stand alone, nothing. -/
def matchesOf (kind : JoinKind) (right : Keyed) (l : Nat × Value) : List (Option Nat × Option Nat) :=
  if right.under l.2 = [] then if kind.isOuter .left then [(some l.1, none)] else []
  else (right.under l.2).map fun r => (some l.1, some r)

/-- The right rows that no left row finds, if right rows may stand alone. -/
def unmatched (kind : JoinKind) (left right : Keyed) : List (Option Nat × Option Nat) :=
  if kind.isOuter .right then
    (right.filter fun r => left.under r.2 = []).map fun r => (none, some r.1)
  else []

/-- The join of two lists of rows, from scratch. -/
def nestedLoop (kind : JoinKind) (left right : Keyed) : List (Option Nat × Option Nat) :=
  left.flatMap (matchesOf kind right) ++ unmatched kind left right

variable {kind : JoinKind} {left right : Keyed}

theorem mem_matchesOf {l : Nat × Value} {x : Option Nat × Option Nat} :
    x ∈ matchesOf kind right l ↔ (∃ r ∈ right.under l.2, x = (some l.1, some r)) ∨
      (right.under l.2 = [] ∧ kind.isOuter .left = true ∧ x = (some l.1, none)) := by
  rw [matchesOf]
  split_ifs with hempty houter
  · simp [hempty, houter]
  · simp [hempty, houter]
  · rw [List.mem_map]
    simp only [hempty, false_and, or_false]
    exact exists_congr fun r => and_congr_right fun _ => eq_comm

theorem mem_unmatched {x : Option Nat × Option Nat} : x ∈ unmatched kind left right ↔
    kind.isOuter .right = true ∧ ∃ r k, (r, k) ∈ right ∧ left.under k = [] ∧ x = (none, some r) := by
  rw [unmatched]
  split_ifs with houter
  · simp only [houter, List.mem_map, List.mem_filter, decide_eq_true_eq, Prod.exists, true_and]
    constructor
    · rintro ⟨r, k, ⟨hmem, hempty⟩, rfl⟩
      exact ⟨r, k, hmem, hempty, rfl⟩
    · rintro ⟨r, k, hmem, hempty, rfl⟩
      exact ⟨r, k, ⟨hmem, hempty⟩, rfl⟩
  · simp [houter]

theorem mem_nestedLoop_both {l r : Nat} : (some l, some r) ∈ nestedLoop kind left right ↔
    ∃ k, (l, k) ∈ left ∧ r ∈ right.under k := by
  simp only [nestedLoop, List.mem_append, List.mem_flatMap, mem_matchesOf, mem_unmatched]
  simp

theorem mem_nestedLoop_left {l : Nat} : (some l, none) ∈ nestedLoop kind left right ↔
    kind.isOuter .left = true ∧ ∃ k, (l, k) ∈ left ∧ right.under k = [] := by
  simp only [nestedLoop, List.mem_append, List.mem_flatMap, mem_matchesOf, mem_unmatched]
  simp
  tauto

theorem mem_nestedLoop_right {r : Nat} : (none, some r) ∈ nestedLoop kind left right ↔
    kind.isOuter .right = true ∧ ∃ k, (r, k) ∈ right ∧ left.under k = [] := by
  simp only [nestedLoop, List.mem_append, List.mem_flatMap, mem_matchesOf, mem_unmatched]
  simp

theorem not_mem_nestedLoop_neither : (none, none) ∉ nestedLoop kind left right := by
  simp only [nestedLoop, List.mem_append, List.mem_flatMap, mem_matchesOf, mem_unmatched]
  simp

theorem stands_both_iff {key : Value} {l r : Nat} :
    (Match.mk key (some l) (some r) none).Stands (classesOf left right) ↔
      left.classOf l = some key.canonical ∧ right.classOf r = some key.canonical := by
  simp [Match.stands_iff Side.left, Match.Sits, Match.on, Side.other, classesOf]

theorem stands_left_iff {key : Value} {l : Nat} :
    (Match.mk key (some l) none none).Stands (classesOf left right) ↔
      left.classOf l = some key.canonical ∧ ∀ r, right.classOf r ≠ some key.canonical := by
  simp [Match.stands_iff Side.left, Match.Sits, Match.on, Side.other, classesOf]

theorem stands_right_iff {key : Value} {r : Nat} :
    (Match.mk key none (some r) none).Stands (classesOf left right) ↔
      right.classOf r = some key.canonical ∧ ∀ l, left.classOf l ≠ some key.canonical := by
  simp [Match.stands_iff Side.left, Match.Sits, Match.on, Side.other, classesOf, and_comm]

/-- A key of a class may be any of the class, if only the class matters. -/
theorem exists_key_iff {Q : Value → Prop} {P : Value → Prop} :
    (∃ key : Value, (∃ k : Value, Q k ∧ k.canonical = key.canonical) ∧ P key.canonical) ↔
      ∃ k : Value, Q k ∧ P k.canonical := by
  constructor
  · rintro ⟨key, ⟨k, hk, hclass⟩, hP⟩
    exact ⟨k, hk, hclass ▸ hP⟩
  · rintro ⟨k, hk, hP⟩
    exact ⟨k, ⟨k, hk, rfl⟩, hP⟩

/-- The nested loop finds the visible ones among the pairings that stand. -/
theorem mem_nestedLoop (hl : left.Distinct) (hr : right.Distinct) {l r : Option Nat} :
    (l, r) ∈ nestedLoop kind left right ↔
      (∃ key, (Match.mk key l r none).Stands (classesOf left right)) ∧
        kind.isVisible l.isSome r.isSome = true := by
  rcases l with - | l <;> rcases r with - | r
  · simp [not_mem_nestedLoop_neither, JoinKind.isVisible]
  · simp only [mem_nestedLoop_right, stands_right_iff, hr.classOf_eq_some_iff, hl.under_eq_nil_iff,
      JoinKind.isVisible, Option.isSome_none, Option.isSome_some]
    rw [exists_key_iff (P := fun g => ∀ l, left.classOf l ≠ some g), and_comm]
  · simp only [mem_nestedLoop_left, stands_left_iff, hl.classOf_eq_some_iff, hr.under_eq_nil_iff,
      JoinKind.isVisible, Option.isSome_none, Option.isSome_some]
    rw [exists_key_iff (P := fun g => ∀ r, right.classOf r ≠ some g), and_comm]
  · simp only [mem_nestedLoop_both, stands_both_iff, hl.classOf_eq_some_iff, hr.mem_under,
      JoinKind.isVisible, Option.isSome_some, and_true]
    exact (exists_key_iff (P := fun g => right.classOf r = some g)).symm

theorem fst_of_mem_matchesOf {l : Nat × Value} {x : Option Nat × Option Nat}
    (h : x ∈ matchesOf kind right l) : x.1 = some l.1 := by
  rcases mem_matchesOf.1 h with ⟨r, -, rfl⟩ | ⟨-, -, rfl⟩ <;> rfl

theorem nodup_matchesOf (hr : right.Distinct) (l : Nat × Value) : (matchesOf kind right l).Nodup := by
  rw [matchesOf]
  split_ifs
  · exact List.nodup_singleton _
  · exact List.nodup_nil
  · exact hr.nodup_under.map fun r r' heq => by simpa using heq

theorem nodup_unmatched (hr : right.Distinct) : (unmatched kind left right).Nodup := by
  rw [unmatched]
  split_ifs
  · have hrows : ((right.filter fun r => left.under r.2 = []).map (·.1)).Nodup :=
      List.Nodup.sublist (List.filter_sublist.map _) hr
    have hmap := hrows.map (f := fun r => ((none : Option Nat), some r)) fun r r' heq => by
      simpa using heq
    simpa [Function.comp_def] using hmap
  · exact List.nodup_nil

/-- The nested loop finds nothing twice. -/
theorem nodup_nestedLoop (hl : left.Distinct) (hr : right.Distinct) :
    (nestedLoop kind left right).Nodup := by
  rw [nestedLoop, List.nodup_append', List.nodup_flatMap]
  refine ⟨⟨fun l _ => nodup_matchesOf hr l, ?_⟩, nodup_unmatched hr, ?_⟩
  · rw [Keyed.Distinct, List.Nodup, List.pairwise_map] at hl
    refine hl.imp fun {l l'} hne x hx hx' => hne ?_
    exact Option.some.inj ((fst_of_mem_matchesOf hx).symm.trans (fst_of_mem_matchesOf hx'))
  · intro x hx hx'
    obtain ⟨l, -, hl⟩ := List.mem_flatMap.1 hx
    obtain ⟨-, r, k, -, -, rfl⟩ := mem_unmatched.1 hx'
    exact absurd (fst_of_mem_matchesOf hl) (by simp)

/-! ## Which rows meet -/

/-- Two rows meet if their keys are the same. -/
def Keyed.Meet (left right : Keyed) (l r : Nat) : Prop :=
  ∃ g, left.classOf l = some g ∧ right.classOf r = some g

theorem Keyed.meet_comm {l r : Nat} : left.Meet right l r ↔ right.Meet left r l :=
  exists_congr fun _ => and_comm

theorem Keyed.Distinct.meet_iff (hl : left.Distinct) (hr : right.Distinct) {l r : Nat} :
    left.Meet right l r ↔ ∃ k, (l, k) ∈ left ∧ r ∈ right.under k := by
  simp only [Meet, hl.classOf_eq_some_iff, hr.mem_under]
  constructor
  · rintro ⟨g, ⟨k, hmem, rfl⟩, hpartner⟩
    exact ⟨k, hmem, hpartner⟩
  · rintro ⟨k, hmem, hpartner⟩
    exact ⟨_, ⟨k, hmem, rfl⟩, hpartner⟩

/-- A row of the right side stands alone if it meets none. -/
theorem Keyed.Distinct.alone_iff (hl : left.Distinct) (hr : right.Distinct) {r : Nat} :
    (∃ k, (r, k) ∈ right ∧ left.under k = []) ↔
      right.classOf r ≠ none ∧ ∀ l, ¬ left.Meet right l r := by
  have hmeet {k : Value} (hmem : (r, k) ∈ right) : left.under k = [] ↔ ∀ l, ¬ left.Meet right l r := by
    have hclass := hr.classOf_eq_some_iff.2 ⟨k, hmem, rfl⟩
    simp [hl.under_eq_nil_iff, Meet, hclass]
  rw [Option.ne_none_iff_exists']
  simp only [hr.classOf_eq_some_iff]
  constructor
  · rintro ⟨k, hmem, halone⟩
    exact ⟨⟨_, k, hmem, rfl⟩, (hmeet hmem).1 halone⟩
  · rintro ⟨⟨g, k, hmem, -⟩, halone⟩
    exact ⟨k, hmem, (hmeet hmem).2 halone⟩

/-- What the nested loop finds depends only on which rows there are and which of them meet. -/
theorem mem_nestedLoop_congr {left' right' : Keyed} (hl : left.Distinct) (hr : right.Distinct)
    (hl' : left'.Distinct) (hr' : right'.Distinct)
    (hleft : ∀ l, left'.classOf l = none ↔ left.classOf l = none)
    (hright : ∀ r, right'.classOf r = none ↔ right.classOf r = none)
    (hmeet : ∀ l r, left'.Meet right' l r ↔ left.Meet right l r) {x : Option Nat × Option Nat} :
    x ∈ nestedLoop kind left' right' ↔ x ∈ nestedLoop kind left right := by
  rcases x with ⟨_ | l, _ | r⟩
  · simp [not_mem_nestedLoop_neither]
  · rw [mem_nestedLoop_right, mem_nestedLoop_right, hl.alone_iff hr, hl'.alone_iff hr']
    simp only [ne_eq, hright, hmeet]
  · have hmeet' (r : Nat) : right'.Meet left' r l ↔ right.Meet left r l := by
      rw [Keyed.meet_comm, hmeet, Keyed.meet_comm]
    rw [mem_nestedLoop_left, mem_nestedLoop_left, hr.alone_iff hl, hr'.alone_iff hl']
    simp only [ne_eq, hleft, hmeet']
  · rw [mem_nestedLoop_both, mem_nestedLoop_both, ← hl.meet_iff hr, ← hl'.meet_iff hr', hmeet]

theorem Keyed.meet_iff_eq {l r : Nat} (hl : left.classOf l ≠ none) :
    left.Meet right l r ↔ left.classOf l = right.classOf r := by
  obtain ⟨g, hg⟩ := Option.ne_none_iff_exists'.1 hl
  simp [Meet, hg, eq_comm]

/-- Two nested loops over the same rows agree if and only if rows have the same key in both or in neither. -/
theorem nestedLoop_perm_iff {left' right' : Keyed} (hl : left.Distinct) (hr : right.Distinct)
    (hl' : left'.Distinct) (hr' : right'.Distinct)
    (hleft : ∀ l, left'.classOf l = none ↔ left.classOf l = none)
    (hright : ∀ r, right'.classOf r = none ↔ right.classOf r = none) :
    nestedLoop kind left' right' ~ nestedLoop kind left right ↔
      ∀ l r, left.classOf l ≠ none → right.classOf r ≠ none →
        (left'.classOf l = right'.classOf r ↔ left.classOf l = right.classOf r) := by
  constructor
  · intro hperm l r hlive _
    rw [← Keyed.meet_iff_eq hlive, ← Keyed.meet_iff_eq (mt (hleft l).1 hlive), hl.meet_iff hr,
      hl'.meet_iff hr', ← mem_nestedLoop_both, ← mem_nestedLoop_both]
    exact hperm.mem_iff
  · intro hsame
    refine (List.perm_ext_iff_of_nodup (nodup_nestedLoop hl' hr') (nodup_nestedLoop hl hr)).2 fun _ =>
      mem_nestedLoop_congr hl hr hl' hr' hleft hright fun l r => ?_
    by_cases hlive : left.classOf l = none ∨ right.classOf r = none
    · -- neither of them meets any row
      rcases hlive with hdead | hdead
      · simp [Keyed.Meet, hdead, (hleft l).2 hdead]
      · simp [Keyed.Meet, hdead, (hright r).2 hdead]
    · rw [not_or] at hlive
      rw [Keyed.meet_iff_eq hlive.1, Keyed.meet_iff_eq (mt (hleft l).1 hlive.1)]
      exact hsame l r hlive.1 hlive.2

/-! ## A single group -/

/-- What stands together in a group with the given rows: all pairs, or if one side is empty, the rows of
the other one alone. -/
def groupSides (ls rs : List Nat) : List (Option Nat × Option Nat) :=
  if rs = [] then ls.map fun l => (some l, none)
  else if ls = [] then rs.map fun r => (none, some r)
  else ls.flatMap fun l => rs.map fun r => (some l, some r)

theorem nodup_groupSides {ls rs : List Nat} (hl : ls.Nodup) (hr : rs.Nodup) :
    (groupSides ls rs).Nodup := by
  rw [groupSides]
  split_ifs
  · exact hl.map fun l l' heq => by simpa using heq
  · exact hr.map fun r r' heq => by simpa using heq
  · rw [List.nodup_flatMap]
    refine ⟨fun l _ => hr.map fun r r' heq => by simpa using heq, hl.imp ?_⟩
    intro l l' hne x hx hx'
    obtain ⟨r, -, rfl⟩ := List.mem_map.1 hx
    obtain ⟨r', -, heq⟩ := List.mem_map.1 hx'
    exact hne (by simpa using (congrArg Prod.fst heq).symm)

theorem mem_groupSides {ls rs : List Nat} {l r : Option Nat} : (l, r) ∈ groupSides ls rs ↔
    (∃ x ∈ ls, ∃ y ∈ rs, l = some x ∧ r = some y) ∨ (rs = [] ∧ r = none ∧ ∃ x ∈ ls, l = some x) ∨
      (ls = [] ∧ l = none ∧ ∃ y ∈ rs, r = some y) := by
  rw [groupSides]
  split_ifs with hrs hls
  · subst hrs
    cases l <;> simp [and_comm, eq_comm]
  · subst hls
    cases r <;> simp [and_comm, eq_comm]
  · cases l <;> cases r <;> simp [hrs, hls]

/-- The pairings of a group are those that stand under its key. -/
theorem mem_groupSides_under {key : Value} (hl : left.Distinct) (hr : right.Distinct)
    {l r : Option Nat} : (l, r) ∈ groupSides (left.under key) (right.under key) ↔
      (Match.mk key l r none).Stands (classesOf left right) := by
  rw [mem_groupSides, hl.under_eq_nil_iff, hr.under_eq_nil_iff]
  rcases l with - | l <;> rcases r with - | r
  · have hnot : ¬ (Match.mk key none none none).Stands (classesOf left right) := fun h =>
      ((Match.stands_iff Side.left).1 h).2.2 rfl rfl
    simp [hnot]
  · simp [stands_right_iff, hr.mem_under, and_comm]
  · simp [stands_left_iff, hl.mem_under, and_comm]
  · simp [stands_both_iff, hl.mem_under, hr.mem_under]

end LiveTables
