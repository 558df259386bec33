import LiveTables.Proofs.Join.Sound

/-!
# Reading a matching

The joined rows of a sound matching are the visible ones among its pairings, and each identifier belongs to
one of them. Which pairings there are depends only on the key classes of the rows, so that a group holds
the cross product of its two sides (`Sound.group_perm`), and the joined rows are those of the nested-loop
join of whatever rows are linked (`Sound.rows_perm_nestedLoop`).
-/

open scoped List

namespace LiveTables

open Match

/-- Pairings with one identifier are one. -/
theorem Match.eq_of_row_eq {ps : List Match} {p q : Match} {id : Nat} (h : (rows ps).Nodup)
    (hp : p ∈ ps) (hq : q ∈ ps) (hprow : p.row = some id) (hqrow : q.row = some id) : p = q := by
  obtain ⟨before, after, rfl⟩ := List.append_of_mem hp
  have hmiddle : rows (before ++ p :: after) ~ id :: rows (before ++ after) := by
    rw [rows_append, rows_append]
    have hcons : rows (p :: after) = id :: rows after := List.filterMap_cons_some hprow
    rw [hcons]
    exact List.perm_middle
  have hnot : id ∉ rows (before ++ after) := (List.nodup_cons.1 (hmiddle.nodup_iff.1 h)).1
  have hq' : q = p ∨ q ∈ before ++ after := by simpa [or_left_comm] using hq
  rcases hq' with rfl | hq'
  · rfl
  · exact absurd (mem_rows.2 ⟨q, hq', hqrow⟩) hnot

/-- Whether a pairing stands depends on its key's class. -/
theorem Match.Stands.of_canonical {cls : Side → Nat → Option Value} {p q : Match} (h : p.Stands cls)
    (hsides : p.sides = q.sides) (hkey : p.key.canonical = q.key.canonical) : q.Stands cls := by
  have hboth := (sides_eq_iff Side.left).1 hsides
  rw [stands_iff Side.left] at h ⊢
  simpa [Sits, ← hboth.1, ← hboth.2, ← hkey] using h

/-- A row that is linked can stand in a pairing of its key. -/
theorem Match.exists_stands {cls : Side → Nat → Option Value} {side : Side} {row : Nat} {key : Value}
    (hlinked : cls side row = some key.canonical) :
    ∃ other, (ofSides key side (some row) other).Stands cls := by
  by_cases hother : ∃ o, cls side.other o = some key.canonical
  · obtain ⟨o, ho⟩ := hother
    refine ⟨some o, (stands_iff side).2 ⟨?_, ?_, by simp⟩⟩
    · rwa [sits_of_some on_ofSides_self, key_ofSides]
    · rwa [sits_of_some on_ofSides_other, key_ofSides]
  · refine ⟨none, (stands_iff side).2 ⟨?_, ?_, by simp⟩⟩
    · rwa [sits_of_some on_ofSides_self, key_ofSides]
    · rw [sits_of_none on_ofSides_other, key_ofSides]
      exact fun o ho => hother ⟨o, ho⟩

namespace Matching

variable {m : Matching} {p : Match} {side : Side} {row id : Nat}

theorem Sound.nodup_rows (h : m.Sound) : (Match.rows m.pairings).Nodup := h.ids.nodup

theorem Sound.pairing?_eq_some_iff (h : m.Sound) :
    m.pairing? id = some p ↔ p ∈ m.pairings ∧ p.row = some id := by
  constructor
  · intro hp
    exact ⟨List.mem_of_find?_eq_some hp, by simpa using List.find?_some hp⟩
  · rintro ⟨hp, hrow⟩
    obtain ⟨q, hq⟩ : ∃ q, m.pairing? id = some q := by
      rw [← Option.isSome_iff_exists, pairing?, List.find?_isSome]
      exact ⟨p, hp, by simpa using hrow⟩
    have hqrow : q.row = some id := by simpa using List.find?_some hq
    rw [hq, eq_of_row_eq h.nodup_rows (List.mem_of_find?_eq_some hq) hp hqrow hrow]

theorem mem_rows : id ∈ m.rows ↔ ∃ p ∈ m.pairings, p.row = some id := by
  rw [rows, List.mem_mergeSort, List.mem_filterMap]

theorem rows_perm : m.rows ~ Match.rows m.pairings := List.mergeSort_perm _ _

theorem toFinset_rows : m.rows.toFinset = (Match.rows m.pairings).toFinset :=
  List.toFinset_eq_of_perm _ _ rows_perm

theorem Sound.sourceRow?_eq (h : m.Sound) (hp : p ∈ m.pairings) (hrow : p.row = some id) :
    m.sourceRow? side id = p.on side := by
  rw [sourceRow?, h.pairing?_eq_some_iff.2 ⟨hp, hrow⟩, Option.bind_some]

/-- The rows that stand together in a joined row. -/
def sidesOf (m : Matching) (id : Nat) : Option Nat × Option Nat :=
  (m.sourceRow? .left id, m.sourceRow? .right id)

theorem Sound.sidesOf_eq (h : m.Sound) (hp : p ∈ m.pairings) (hrow : p.row = some id) :
    m.sidesOf id = p.sides := by
  rw [sidesOf, h.sourceRow?_eq hp hrow, h.sourceRow?_eq hp hrow]
  rfl

/-- The joined rows show the visible pairings. -/
theorem Sound.map_sidesOf_rows_perm (h : m.Sound) :
    m.rows.map m.sidesOf ~ (m.pairings.filter m.kind.shows).map sides := by
  refine (rows_perm.map m.sidesOf).trans (List.Perm.of_eq ?_)
  have hall (ps : List Match) (hps : ∀ p ∈ ps, p ∈ m.pairings) :
      (Match.rows ps).map m.sidesOf = (ps.filter m.kind.shows).map sides := by
    induction ps with
    | nil => rfl
    | cons p ps ih =>
      have hp := hps p List.mem_cons_self
      have hshown : p.row.isSome = m.kind.shows p := h.shown p hp
      rw [Match.rows] at ih ⊢
      rw [List.filterMap_cons, List.filter_cons, ← hshown]
      rcases hrow : p.row with - | id
      · simpa using ih fun q hq => hps q (List.mem_cons_of_mem _ hq)
      · simpa [h.sidesOf_eq hp hrow] using ih fun q hq => hps q (List.mem_cons_of_mem _ hq)
  exact hall _ fun p hp => hp

/-! ## The joined rows of a row -/

theorem mem_joinedRowsOf : id ∈ m.joinedRowsOf side row ↔ ∃ p ∈ m.pairings, p.on side = some row ∧ p.row = some id := by
  simp [joinedRowsOf, and_assoc]

theorem Sound.nodup_joinedRowsOf (h : m.Sound) (side : Side) (row : Nat) : (m.joinedRowsOf side row).Nodup :=
  List.Nodup.sublist (List.filter_sublist.filterMap _) h.nodup_rows

theorem Sound.mem_joinedRowsOf_iff (h : m.Sound) :
    id ∈ m.joinedRowsOf side row ↔ id ∈ m.rows ∧ m.sourceRow? side id = some row := by
  rw [mem_joinedRowsOf]
  constructor
  · rintro ⟨p, hp, hon, hid⟩
    exact ⟨mem_rows.2 ⟨p, hp, hid⟩, (h.sourceRow?_eq hp hid).trans hon⟩
  · rintro ⟨hid, hsource⟩
    obtain ⟨p, hp, hrow⟩ := mem_rows.1 hid
    exact ⟨p, hp, (h.sourceRow?_eq hp hrow).symm.trans hsource, hrow⟩

/-- A row stands in pairings of its key. -/
theorem Sound.same_of_on (h : m.Sound) {key : Value} (hp : p ∈ m.pairings) (hon : p.on side = some row)
    (hlinked : m.key? side row = some key) : p.key.same key = true := by
  obtain ⟨k, hk, hclass⟩ := keyClass?_eq_some_iff.1 ((sits_of_some hon).1 ((h.exact.stands p hp).sits side))
  obtain rfl := Option.some.inj (hlinked.symm.trans hk)
  exact Value.same_iff.2 hclass.symm

/-- The joined rows of a row are all in the group of its key. -/
theorem Sound.joinedRowsOf_eq_group (h : m.Sound) (side : Side) (row : Nat) :
    m.joinedRowsOf side row = match m.key? side row with
      | none => []
      | some key => ((m.pairings.filter (·.key.same key)).filter (·.on side = some row)).filterMap (·.row) := by
  have hkey {p : Match} (hp : p ∈ m.pairings) (hon : p.on side = some row) :
      (m.key? side row).map Value.canonical = some p.key.canonical :=
    (sits_of_some hon).1 ((h.exact.stands p hp).sits side)
  rw [joinedRowsOf]
  rcases hlink : m.key? side row with - | key
  · have hnone : m.pairings.filter (·.on side = some row) = [] := by
      rw [List.filter_eq_nil_iff]
      intro p hp hon
      have hp' := hkey hp (by simpa using hon)
      simp [hlink] at hp'
    rw [hnone, List.filterMap_nil]
  · have hsame : (m.pairings.filter (·.key.same key)).filter (·.on side = some row) =
        m.pairings.filter (·.on side = some row) := by
      rw [List.filter_filter]
      refine List.filter_congr fun p hp => ?_
      by_cases hon : p.on side = some row
      · have hp' := hkey hp hon
        rw [hlink, Option.map_some, Option.some.injEq] at hp'
        simp [hon, Value.same_iff.2 hp'.symm]
      · simp [hon]
    simp only [hsame]

/-! ## Groups and the join as a whole -/

/-- There is a pairing of a key exactly if a row is linked under it. -/
theorem Sound.exists_pairing_iff (h : m.Sound) {g : Value} :
    (∃ p ∈ m.pairings, p.key.canonical = g) ↔ ∃ side row, m.keyClass? side row = some g := by
  constructor
  · rintro ⟨p, hp, rfl⟩
    have hstands := h.exact.stands p hp
    obtain ⟨side, hocc⟩ := hstands.occupied
    obtain ⟨row, hon⟩ := Option.ne_none_iff_exists'.1 hocc
    exact ⟨side, row, (sits_of_some hon).1 (hstands.sits side)⟩
  · rintro ⟨side, row, hlinked⟩
    obtain ⟨key, -, rfl⟩ := keyClass?_eq_some_iff.1 hlinked
    obtain ⟨other, hstands⟩ := exists_stands hlinked
    obtain ⟨p, hp, -, hkey⟩ := h.exact.exists_of_stands hstands
    rw [key_ofSides] at hkey
    exact ⟨p, hp, hkey⟩

/-- A row is linked under a key exactly if there is a pairing of the key. -/
theorem Sound.exists_rowsUnder_iff (h : m.Sound) {key : Value} :
    (∃ side, m.rowsUnder side key ≠ []) ↔ ∃ p ∈ m.pairings, p.key.same key = true := by
  simp only [Value.same_iff, h.exists_pairing_iff, ne_eq, rowsUnder_eq_nil_iff h, not_forall, not_not]

/-- Pairings wait for a row of a side exactly if the side has none of the key. -/
theorem Sound.exists_waiting_iff (h : m.Sound) {key : Value} (hother : m.rowsUnder side.other key ≠ []) :
    (∃ p ∈ m.pairings, p.key.same key = true ∧ p.on side = none) ↔ m.rowsUnder side key = [] := by
  rw [rowsUnder_eq_nil_iff h]
  constructor
  · rintro ⟨p, hp, hkey, hopen⟩ row hrow
    exact (sits_of_none hopen).1 ((h.exact.stands p hp).sits side) row (Value.same_iff.1 hkey ▸ hrow)
  · intro hmine
    obtain ⟨row, hrow⟩ := List.exists_mem_of_ne_nil _ hother
    have hstands : (ofSides key side none (some row)).Stands m.keyClass? := by
      refine (stands_iff side).2 ⟨?_, ?_, by simp⟩
      · rwa [sits_of_none on_ofSides_self, key_ofSides]
      · rw [sits_of_some on_ofSides_other, key_ofSides]
        exact (mem_rowsUnder h).1 hrow
    obtain ⟨p, hp, hsides, hkey⟩ := h.exact.exists_of_stands hstands
    rw [key_ofSides] at hkey
    refine ⟨p, hp, Value.same_iff.2 hkey, ?_⟩
    rw [((sides_eq_iff side).1 hsides).1, on_ofSides_self]

/-- The rows that stand together under a key are those that a pairing of the key may have. -/
theorem Sound.mem_group (h : m.Sound) {key : Value} {l r : Option Nat} :
    (l, r) ∈ (m.pairings.filter (·.key.same key)).map sides ↔
      (Match.mk key l r none).Stands m.keyClass? := by
  simp only [List.mem_map, List.mem_filter, Value.same_iff]
  constructor
  · rintro ⟨p, ⟨hp, hkey⟩, hsides⟩
    exact (h.exact.stands p hp).of_canonical hsides hkey
  · intro hstands
    obtain ⟨p, hp, hsides, hkey⟩ := h.exact.exists_of_stands hstands
    exact ⟨p, ⟨hp, hkey⟩, hsides⟩

theorem Sound.nodup_group (h : m.Sound) (f : Match → Bool) : ((m.pairings.filter f).map sides).Nodup :=
  List.Nodup.sublist (List.filter_sublist.map _) h.exact.nodup

end Matching

variable {left right : Keyed}

/-- A group holds all pairs of its rows, or if one side is empty, the rows of the other one alone. -/
theorem Matching.Sound.group_perm {m : Matching} (h : m.Sound) (hl : left.Distinct)
    (hr : right.Distinct) (hclasses : m.keyClass? = classesOf left right) (key : Value) :
    (m.pairings.filter (·.key.same key)).map sides ~ groupSides (left.under key) (right.under key) := by
  refine (List.perm_ext_iff_of_nodup (h.nodup_group _)
    (nodup_groupSides hl.nodup_under hr.nodup_under)).2 ?_
  rintro ⟨l, r⟩
  rw [h.mem_group, hclasses, mem_groupSides_under hl hr]

/-- The joined rows are those that the nested loop finds. -/
theorem Matching.Sound.rows_perm_nestedLoop {m : Matching} (h : m.Sound) (hl : left.Distinct)
    (hr : right.Distinct) (hclasses : m.keyClass? = classesOf left right) :
    m.rows.map m.sidesOf ~ nestedLoop m.kind left right := by
  refine h.map_sidesOf_rows_perm.trans ?_
  refine (List.perm_ext_iff_of_nodup (h.nodup_group _) (nodup_nestedLoop hl hr)).2 ?_
  rintro ⟨l, r⟩
  rw [mem_nestedLoop hl hr, ← hclasses]
  simp only [List.mem_map, List.mem_filter]
  constructor
  · rintro ⟨p, ⟨hp, hshows⟩, hsides⟩
    obtain ⟨rfl, rfl⟩ := Prod.mk.inj hsides
    exact ⟨⟨p.key, stands_shape.2 (h.exact.stands p hp)⟩, hshows⟩
  · rintro ⟨⟨key, hstands⟩, hvisible⟩
    obtain ⟨p, hp, hsides, -⟩ := h.exact.exists_of_stands hstands
    obtain ⟨rfl, rfl⟩ := Prod.mk.inj hsides
    exact ⟨p, ⟨hp, hvisible⟩, hsides⟩

end LiveTables
