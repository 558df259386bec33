import LiveTables.FieldMap
import LiveTables.Proofs.Data.Ordered

/-!
# Field maps are one to one

A field map keeps each pair twice, under its column and under its field. A pair is added only if neither was there,
so the two lists hold the same pairs (`FieldMap.Paired.insert`), and what was put together by adding pairs is one to
one: a column is found again by its field (`FieldMap.Built.field?_eq_some_iff`), and its field may be written to a
stream (`FieldMap.Built.isAssignable_of_field?`).
-/

namespace LiveTables.FieldMap

variable {m m' : FieldMap} {column : String} {field : Nat} {e : FieldMapError}

/-- Whether a column is mapped. -/
def maps (m : FieldMap) (column : String) : Bool := (m.field? column).isSome

/-- Field maps that were put together by adding pairs. -/
inductive Built : FieldMap → Prop
  | empty : Built {}
  | insert {m m' : FieldMap} {column : String} {field : Nat} (h : Built m)
      (hinsert : m.insert column field = .ok m') : Built m'

/-- What the addition of a pair amounts to. -/
theorem insert_eq_ok (h : m.insert column field = .ok m') :
    isAssignable field = true ∧ m.column? field = none ∧ m.field? column = none ∧
      m' = ⟨Ordered.put column field m.byColumn, Ordered.put field column m.byField⟩ := by
  rw [insert, add] at h
  split_ifs at h with hassignable hfield hcolumn
  exact ⟨by simpa using hassignable, by simpa using hfield, by simpa using hcolumn, (Except.ok.inj h).symm⟩

theorem add_of_insert_eq_ok (h : m.insert column field = .ok m') : m.add column field = (m', .ok ()) := by
  rw [insert] at h
  split at h
  · next hadd => rw [hadd, Except.ok.inj h]
  · cases h

/-- A pair that fits is one more. -/
theorem byColumn_perm_of_insert (h : m.insert column field = .ok m') :
    m'.byColumn.Perm ((column, field) :: m.byColumn) := by
  obtain ⟨-, -, hcolumn, rfl⟩ := insert_eq_ok h
  exact Ordered.put_perm (lookup_eq_none_iff_not_mem.1 hcolumn)

/-- A pair that does not fit leaves both lists as they are. -/
theorem add_of_insert_eq_error (h : m.insert column field = .error e) : m.add column field = (m, .error e) := by
  rw [insert, add] at h
  rw [add]
  split_ifs at h ⊢
  all_goals cases h
  all_goals rfl

/-- The two lists ascend and hold the same pairs, and the fields may be given to columns. -/
structure Paired (m : FieldMap) : Prop where
  columns : Ordered.Ascending m.byColumn
  fields : Ordered.Ascending m.byField
  perm : m.byField.Perm (m.byColumn.map Prod.swap)
  assignable : ∀ p ∈ m.byColumn, isAssignable p.2 = true

namespace Paired

theorem field?_eq_some_iff (h : m.Paired) : m.field? column = some field ↔ (column, field) ∈ m.byColumn :=
  lookup_eq_some_iff_mem h.columns.nodup

theorem column?_eq_some_iff (h : m.Paired) : m.column? field = some column ↔ (column, field) ∈ m.byColumn := by
  rw [column?, lookup_eq_some_iff_mem h.fields.nodup, h.perm.mem_iff]
  simp

theorem map_fields_perm (h : m.Paired) : (m.byField.map (·.1)).Perm (m.byColumn.map Prod.snd) := by
  simpa [Function.comp_def] using h.perm.map (·.1)

theorem column?_eq_none_iff (h : m.Paired) : m.column? field = none ↔ field ∉ m.byColumn.map Prod.snd := by
  rw [column?, lookup_eq_none_iff_not_mem, h.map_fields_perm.mem_iff]

theorem size_eq (h : m.Paired) : m.size = m.byColumn.length := by
  rw [size, h.perm.length_eq, List.length_map]

/-- A pair that fits goes into both lists. -/
theorem insert (h : m.Paired) (hinsert : m.insert column field = .ok m') : m'.Paired := by
  have hmore := byColumn_perm_of_insert hinsert
  obtain ⟨hassignable, hfield, -, rfl⟩ := insert_eq_ok hinsert
  refine ⟨h.columns.put, h.fields.put, ?_, fun p hp => ?_⟩
  · exact (Ordered.put_perm (lookup_eq_none_iff_not_mem.1 hfield)).trans
      ((h.perm.cons _).trans (hmore.map Prod.swap).symm)
  · rcases List.mem_cons.1 (hmore.mem_iff.1 hp) with rfl | hp
    · exact hassignable
    · exact h.assignable p hp

end Paired

namespace Built

theorem paired (h : m.Built) : m.Paired := by
  induction h with
  | empty => exact ⟨.nil, .nil, .refl _, by simp⟩
  | insert _ hinsert ih => exact ih.insert hinsert

/-- A field is that of a column just where the column is that of the field. -/
theorem field?_eq_some_iff (h : m.Built) : m.field? column = some field ↔ m.column? field = some column := by
  rw [h.paired.field?_eq_some_iff, h.paired.column?_eq_some_iff]

/-- The field of a column may be given to one. -/
theorem isAssignable_of_field? (h : m.Built) (hfield : m.field? column = some field) :
    isAssignable field = true := h.paired.assignable _ (h.paired.field?_eq_some_iff.1 hfield)

/-- A column is found by its field. -/
theorem column?_of_field? (h : m.Built) (hfield : m.field? column = some field) :
    m.column? field = some column := h.field?_eq_some_iff.1 hfield

/-- A map is known by the fields of the columns. -/
theorem ext (h : m.Built) (h' : m'.Built) (hfield : ∀ column, m.field? column = m'.field? column) : m = m' := by
  have hcolumns : m.byColumn = m'.byColumn := h.paired.columns.ext h'.paired.columns hfield
  have hfields : m.byField = m'.byField := h.paired.fields.ext h'.paired.fields fun field => by
    ext column
    exact (h.field?_eq_some_iff.symm.trans (by rw [hfield])).trans h'.field?_eq_some_iff
  obtain ⟨byColumn, byField⟩ := m
  exact congrArg₂ FieldMap.mk hcolumns hfields

end Built

end LiveTables.FieldMap
