import LiveTables.Join.Table
import LiveTables.Proofs.Computed.Dependents
import LiveTables.Proofs.Table.Feed
import Mathlib.Data.Option.Basic

/-!
# Tables with more computed columns

What a table does hardly depends on which columns are computed from the others. With more of them registered, stored and
joined tables read the columns that they had as before (`Computed.read_extend`), a stored table accepts the same edits
and makes the same of them (`Table.attempt_extend`), and what is announced differs only in that updates name some of the
new columns besides, or name nothing else (`Announces`).
-/

namespace LiveTables

/-! ## Registered columns -/

namespace Computed

variable {c : Computed} {more : List ComputedColumn} {id table : String} {isStored : String → Bool}
  {kindOf : String → Option Kind} {col : ComputedColumn} {stored : String → Except TableError Value}

/-- The columns with more of them registered, the newest first. -/
def extend (c : Computed) (more : List ComputedColumn) : Computed := { newestFirst := more ++ c.newestFirst }

/-- The other columns read as before. -/
theorem read_extend (hid : id ∉ more.map (·.id)) : (c.extend more).read stored id = c.read stored id := by
  induction more with
  | nil => rfl
  | cons col more ih =>
    rw [List.map_cons, List.mem_cons, not_or] at hid
    have hcons : (c.extend (col :: more)).newestFirst = col :: (c.extend more).newestFirst := rfl
    rw [read_of_cons hcons hid.1, ih hid.2]

theorem column?_extend (hid : id ∉ more.map (·.id)) : (c.extend more).column? id = c.column? id := by
  induction more with
  | nil => rfl
  | cons col more ih =>
    rw [List.map_cons, List.mem_cons, not_or] at hid
    have hcons : (c.extend (col :: more)).newestFirst = col :: (c.extend more).newestFirst := rfl
    rw [column?_of_cons hcons hid.1, ih hid.2]

theorem ids_extend (c : Computed) (more : List ComputedColumn) :
    (c.extend more).ids = c.ids ++ (more.map (·.id)).reverse := by
  simp [ids, toList, extend]

/-- What depends on some columns are the columns that did, and then some of the new ones. -/
theorem exists_dependentsOf_extend (c : Computed) (more : List ComputedColumn) (touched : List String) :
    ∃ extra ⊆ more.map (·.id), (c.extend more).dependentsOf touched = c.dependentsOf touched ++ extra := by
  have hlist : (c.extend more).toList = c.toList ++ more.reverse := by simp [toList, extend]
  rw [dependentsOf, hlist, dependentsAmong_append]
  refine ⟨_, fun id hid => ?_, rfl⟩
  have hmem := (dependentsAmong_sublist _ more.reverse).subset hid
  rwa [List.map_reverse, List.mem_reverse] at hmem

/-- A column is registered if its identifier is not known and all that it depends on is. -/
theorem accepted?_register : accepted? (c.register table isStored col) =
    if ¬ c.Knows isStored col.id ∧ ∀ d ∈ col.dependencies, c.Knows isStored d then some (c.extend [col], ())
    else none := by
  rw [register_eq]
  split_ifs with hknown hok hok
  · exact absurd hknown hok.1
  · rfl
  · have hall : col.dependencies.find? (fun d => !decide (c.Knows isStored d)) = none := by simpa using hok.2
    rw [hall]
    rfl
  · rcases hfind : col.dependencies.find? (fun d => !decide (c.Knows isStored d)) with - | missing
    · exact absurd ⟨hknown, by simpa using hfind⟩ hok
    · rfl

end Computed

/-- New columns were not known. -/
theorem Layered.kind?_eq_none_of_extend {kindOf : String → Option Kind} {c : Computed} {more : List ComputedColumn}
    {id : String} (h : Layered kindOf (c.extend more).newestFirst) (hid : id ∈ more.map (·.id)) :
    c.kind? kindOf id = none := by
  induction more with
  | nil => cases hid
  | cons col more ih =>
    have hcons : (c.extend (col :: more)).newestFirst = col :: (c.extend more).newestFirst := rfl
    have hnone : (c.extend more).kind? kindOf col.id = none := h.kind?_eq_none hcons
    rw [hcons] at h
    cases h with
    | cons _ _ tail =>
      by_cases hmem : id ∈ more.map (·.id)
      · exact ih tail hmem
      · obtain rfl : id = col.id := (List.mem_cons.1 hid).resolve_right hmem
        rw [Computed.kind?_eq, Computed.column?_extend hmem] at hnone
        rw [Computed.kind?_eq]
        exact hnone

/-! ## What is announced -/

/-- Signals that are announced alike, but for `fresh` columns: an update may name some of these besides, and there may be
updates that name nothing else. -/
inductive Announces (fresh : List String) : List Signal → List Signal → Prop
  | nil : Announces fresh [] []
  | same {ss ss' : List Signal} (s : Signal) (rest : Announces fresh ss ss') : Announces fresh (s :: ss) (s :: ss')
  | wider {ss ss' : List Signal} (row : Nat) (columns : List String) {extra : List String} (hextra : extra ⊆ fresh)
      (rest : Announces fresh ss ss') :
      Announces fresh (.event (.updated row columns) :: ss) (.event (.updated row (columns ++ extra)) :: ss')
  | extra {ss ss' : List Signal} (row : Nat) {columns : List String} (hcolumns : columns ⊆ fresh)
      (rest : Announces fresh ss ss') : Announces fresh ss (.event (.updated row columns) :: ss')

namespace Announces

variable {fresh : List String}

theorem refl (ss : List Signal) : Announces fresh ss ss := by
  induction ss with
  | nil => exact .nil
  | cons s ss ih => exact .same s ih

/-- Columns are announced one by one, and more columns follow. -/
theorem updates (row : Nat) (columns : List String) {extra : List String} (hextra : extra ⊆ fresh) :
    Announces fresh (columns.map fun c => .event (.updated row [c]))
      ((columns ++ extra).map fun c => .event (.updated row [c])) := by
  induction columns with
  | nil =>
    induction extra with
    | nil => exact .nil
    | cons c extra ih =>
      obtain ⟨hc, hextra⟩ := List.cons_subset.1 hextra
      exact .extra row (List.cons_subset.2 ⟨hc, List.nil_subset _⟩) (ih hextra)
  | cons c columns ih => exact .same _ ih

end Announces

/-! ## Stored tables -/

namespace Table

variable {t t' : Table} {more : List ComputedColumn} {id : String} {row : Nat} {value : Value}

/-- The table with more computed columns, the newest first. -/
def extend (t : Table) (more : List ComputedColumn) : Table := { t with computed := t.computed.extend more }

/-- What an edit makes of a table and announces, if the table accepts it. -/
def attempt (t : Table) : Edit → Option (Table × List Signal)
  | .addRow => some (t.addRow.1, t.addRow.2.2)
  | .setValue column row value => accepted? (t.setValue column row value)
  | .deleteRow row => accepted? (t.deleteRow row)

theorem perform_of_attempt {e : Edit} {done : Table × List Signal} (h : t.attempt e = some done) :
    t.perform e = done := by
  cases e with
  | addRow => exact Option.some.inj h
  | setValue column row value => simp only [perform, accepted?_eq_some.1 h]
  | deleteRow row => simp only [perform, accepted?_eq_some.1 h]

/-- The same edit of a table and of the table with more columns. -/
def Alongside (more : List ComputedColumn) (done done' : Table × List Signal) : Prop :=
  done'.1 = done.1.extend more ∧ Announces (more.map (·.id)) done.2 done'.2

/-- A write to a stored column is accepted or not, whatever is computed. -/
theorem setValue_extend (hfresh : ∀ id ∈ more.map (·.id), t.computed.kind? t.storedKind? id = none) :
    Option.Rel (Alongside more) (accepted? (t.setValue id row value))
      (accepted? ((t.extend more).setValue id row value)) := by
  have hlive : (t.extend more).isLive row = t.isLive row := rfl
  have hstored : (t.extend more).column? id = t.column? id := rfl
  rw [setValue, setValue, hlive, hstored]
  by_cases hnew : id ∈ more.map (·.id)
  · -- before, there is no such column; afterwards it is computed
    have hnone := hfresh id hnew
    rw [Computed.kind?_eq] at hnone
    have hcolumn : t.column? id = none := by
      rcases hcol : t.computed.column? id with - | col
      · simpa [hcol, storedKind?] using hnone
      · simp [hcol] at hnone
    simp only [hcolumn]
    split_ifs <;> exact .none
  · have hcomputed : (t.extend more).computed.column? id = t.computed.column? id := Computed.column?_extend hnew
    rw [hcomputed]
    split_ifs
    · exact .none
    · exact .none
    · rcases t.column? id with - | column
      · exact .none
      · dsimp only
        rcases column.write row value with ⟨written, e | ⟨⟩⟩
        · exact .none
        · obtain ⟨extra, hextra, hdependents⟩ := t.computed.exists_dependentsOf_extend more [id]
          have hdependents' : (t.extend more).computed.dependentsOf [id] = t.computed.dependentsOf [id] ++ extra :=
            hdependents
          refine .some ⟨rfl, .same _ ?_⟩
          rw [hdependents', ← List.cons_append]
          exact .updates row (id :: t.computed.dependentsOf [id]) hextra

/-- An edit is accepted or not, and makes the same of the rows, whatever is computed. -/
theorem attempt_extend (hfresh : ∀ id ∈ more.map (·.id), t.computed.kind? t.storedKind? id = none) (e : Edit) :
    Option.Rel (Alongside more) (t.attempt e) ((t.extend more).attempt e) := by
  cases e with
  | addRow => exact .some ⟨rfl, .refl _⟩
  | setValue column row value => exact setValue_extend hfresh
  | deleteRow row =>
    have hlive : (t.extend more).isLive row = t.isLive row := rfl
    rw [attempt, attempt, deleteRow, deleteRow, hlive]
    split_ifs
    · exact .none
    · exact .some ⟨rfl, .refl _⟩

theorem knows_iff : t.computed.Knows (fun id => (t.column? id).isSome) id ↔ id ∈ t.columnIds := by
  have hstored : (t.column? id).isSome = true ↔ id ∈ t.columns.map (·.spec.id) := by simp [column?]
  rw [Computed.Knows, hstored, columnIds, List.mem_append]

/-- A column is registered if its identifier is new and all that it depends on is there. -/
theorem accepted?_addComputed (t : Table) (col : ComputedColumn) : accepted? (t.addComputed col) =
    if col.id ∉ t.columnIds ∧ ∀ d ∈ col.dependencies, d ∈ t.columnIds then some (t.extend [col], ()) else none := by
  have hadd : accepted? (t.addComputed col) =
      (accepted? (t.computed.register t.name (fun id => (t.column? id).isSome) col)).map fun done =>
        ({ t with computed := done.1 }, done.2) := by
    rw [addComputed]
    rcases t.computed.register t.name (fun id => (t.column? id).isSome) col with ⟨computed, e | ⟨⟩⟩ <;> rfl
  simp only [hadd, Computed.accepted?_register, knows_iff]
  split_ifs <;> rfl

end Table

/-! ## Joined tables -/

namespace JoinedTable

variable {j : JoinedTable} {more : List ComputedColumn} {id : String}

/-- The joined table with more computed columns, the newest first. -/
def extend (j : JoinedTable) (more : List ComputedColumn) : JoinedTable :=
  { j with computed := j.computed.extend more }

theorem columnIds_extend (j : JoinedTable) (more : List ComputedColumn) :
    (j.extend more).columnIds = j.columnIds ++ (more.map (·.id)).reverse := by
  have hids : (j.extend more).computed.ids = j.computed.ids ++ (more.map (·.id)).reverse := j.computed.ids_extend more
  rw [columnIds, hids, ← List.append_assoc]
  rfl

/-- Changed columns are announced as before, and more columns follow. -/
theorem announces_updateEvents (j : JoinedTable) (more : List ComputedColumn) (row : Nat) (columns : List String) :
    Announces (more.map (·.id)) ((j.updateEvents row columns).map .event)
      (((j.extend more).updateEvents row columns).map .event) := by
  obtain ⟨extra, hextra, hdependents⟩ := j.computed.exists_dependentsOf_extend more columns
  have hdependents' : (j.extend more).computed.dependentsOf columns = j.computed.dependentsOf columns ++ extra :=
    hdependents
  simp only [updateEvents, hdependents', List.map_cons, List.map_map]
  exact .same _ (.updates row (j.computed.dependentsOf columns) hextra)

theorem knows_iff : j.computed.Knows (fun id => (j.column? id).isSome) id ↔ id ∈ j.columnIds := by
  have hlookup (columns : List (String × Kind)) : columns.lookup id ≠ none ↔ id ∈ columns.map (·.1) := by
    rw [Ne, List.lookup_eq_none_iff]
    simp
  have hstored : (j.column? id).isSome = true ↔ id ∈ j.sideIds .left ∨ id ∈ j.sideIds .right := by
    rw [Option.isSome_iff_ne_none, column?, sideIds, sideIds, columns, columns, ← hlookup, ← hlookup]
    rcases j.leftColumns.lookup id with - | kind
    · simp
    · simp
  rw [Computed.Knows, hstored, columnIds, List.mem_append, List.mem_append]

theorem accepted?_addComputed (j : JoinedTable) (col : ComputedColumn) : accepted? (j.addComputed col) =
    if col.id ∉ j.columnIds ∧ ∀ d ∈ col.dependencies, d ∈ j.columnIds then some (j.extend [col], ()) else none := by
  have hadd : accepted? (j.addComputed col) =
      (accepted? (j.computed.register j.name (fun id => (j.column? id).isSome) col)).map fun done =>
        ({ j with computed := done.1 }, done.2) := by
    rw [addComputed]
    rcases j.computed.register j.name (fun id => (j.column? id).isSome) col with ⟨computed, e | ⟨⟩⟩ <;> rfl
  simp only [hadd, Computed.accepted?_register, knows_iff]
  split_ifs <;> rfl

end JoinedTable

end LiveTables
