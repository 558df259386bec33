import LiveTables.Proofs.Delta.FieldMap
import Mathlib.Data.List.Induction
import Mathlib.Data.List.Nodup

/-!
# Field maps as dictionaries

Pairs can be added one after the other, in any order, just where no two of them share a column or a field and every
field may be given to a column (`Admissible`, `exists_ofList_iff`). The map then consists of just these pairs
(`built_of_ofList`), and is known by what it says of each column (`Built.ext`).

So it does not matter by which way a map comes about: by additions of which some fail (`insertEach`), from a dictionary,
or by numbering columns.
-/

namespace LiveTables.FieldMap

variable {m m' : FieldMap} {column : String} {field : Nat} {pairs pairs' calls : List (String × Nat)}
  {e : FieldMapError}

/-- Pairs of which no two share a column or a field, and whose fields may be given to columns. -/
structure Admissible (pairs : List (String × Nat)) : Prop where
  assignable : ∀ p ∈ pairs, isAssignable p.2 = true
  nodup_columns : (pairs.map Prod.fst).Nodup
  nodup_fields : (pairs.map Prod.snd).Nodup

theorem isAssignable_iff : isAssignable field = true ↔ 1 ≤ field ∧ field ≤ Wire.maxField ∧ field ≠ rowField := by
  simp only [isAssignable, Bool.and_eq_true, decide_eq_true_eq]
  omega

namespace Admissible

theorem perm (h : Admissible pairs) (hp : pairs.Perm pairs') : Admissible pairs' where
  assignable p hmem := h.assignable p (hp.mem_iff.2 hmem)
  nodup_columns := (hp.map Prod.fst).nodup_iff.1 h.nodup_columns
  nodup_fields := (hp.map Prod.snd).nodup_iff.1 h.nodup_fields

theorem sublist (h : Admissible pairs) (hs : pairs'.Sublist pairs) : Admissible pairs' where
  assignable p hmem := h.assignable p (hs.subset hmem)
  nodup_columns := h.nodup_columns.sublist (hs.map Prod.fst)
  nodup_fields := h.nodup_fields.sublist (hs.map Prod.snd)

theorem cons_iff : Admissible ((column, field) :: pairs) ↔
    (isAssignable field = true ∧ column ∉ pairs.map Prod.fst ∧ field ∉ pairs.map Prod.snd) ∧ Admissible pairs := by
  constructor
  · rintro ⟨hassignable, hcolumns, hfields⟩
    obtain ⟨hfield, hassignable⟩ := List.forall_mem_cons.1 hassignable
    rw [List.map_cons, List.nodup_cons] at hcolumns hfields
    exact ⟨⟨hfield, hcolumns.1, hfields.1⟩, hassignable, hcolumns.2, hfields.2⟩
  · rintro ⟨⟨hfield, hcolumn, hfree⟩, hassignable, hcolumns, hfields⟩
    exact ⟨List.forall_mem_cons.2 ⟨hfield, hassignable⟩, List.nodup_cons.2 ⟨hcolumn, hcolumns⟩,
      List.nodup_cons.2 ⟨hfree, hfields⟩⟩

end Admissible

/-! ### What a map says -/

theorem field?_eq_none_iff : m.field? column = none ↔ column ∉ m.byColumn.map Prod.fst :=
  lookup_eq_none_iff_not_mem

namespace Built

theorem admissible (h : m.Built) : Admissible m.byColumn where
  assignable := h.paired.assignable
  nodup_columns := h.paired.columns.nodup
  nodup_fields := h.paired.map_fields_perm.nodup_iff.1 h.paired.fields.nodup

/-- A pair can be added just where it is admissible with those that are there. -/
theorem exists_insert_iff (h : m.Built) :
    (∃ m', m.insert column field = .ok m') ↔ Admissible ((column, field) :: m.byColumn) := by
  rw [Admissible.cons_iff, and_iff_left h.admissible, ← h.paired.column?_eq_none_iff, ← field?_eq_none_iff,
    FieldMap.insert, add]
  split_ifs with hassignable hfield hcolumn
  · simp_all
  · simp_all [Option.isSome_iff_ne_none]
  · simp_all [Option.isSome_iff_ne_none]
  · simp_all

end Built

/-! ### Pairs added one after the other -/

/-- Adds pairs one after the other, as long as they fit. -/
def insertList (m : FieldMap) (pairs : List (String × Nat)) : Except FieldMapError FieldMap :=
  pairs.foldlM (fun m (column, field) => m.insert column field) m

theorem insertList_cons_of_ok (h : m.insert column field = .ok m') :
    m.insertList ((column, field) :: pairs) = m'.insertList pairs := by
  show (m.insert column field >>= fun m' => m'.insertList pairs) = _
  rw [h]
  rfl

theorem insertList_cons_of_error {e : FieldMapError} (h : m.insert column field = .error e) :
    m.insertList ((column, field) :: pairs) = .error e := by
  show (m.insert column field >>= fun m' => m'.insertList pairs) = _
  rw [h]
  rfl

/-- When pairs were added, the map consists of them and of what was there. -/
theorem Built.insertList (h : m.Built) (hm' : m.insertList pairs = .ok m') :
    m'.Built ∧ m'.byColumn.Perm (pairs ++ m.byColumn) := by
  induction pairs generalizing m with
  | nil =>
    cases hm'
    exact ⟨h, .refl _⟩
  | cons p pairs ih =>
    obtain ⟨column, field⟩ := p
    cases hinsert : m.insert column field with
    | error e =>
      rw [insertList_cons_of_error hinsert] at hm'
      cases hm'
    | ok m₁ =>
      rw [insertList_cons_of_ok hinsert] at hm'
      obtain ⟨hbuilt, hperm⟩ := ih (h.insert hinsert) hm'
      exact ⟨hbuilt, hperm.trans (((byColumn_perm_of_insert hinsert).append_left pairs).trans List.perm_middle)⟩

/-- Pairs can be added just where they are admissible with those that are there. -/
theorem Built.exists_insertList_iff (h : m.Built) :
    (∃ m', m.insertList pairs = .ok m') ↔ Admissible (pairs ++ m.byColumn) := by
  induction pairs generalizing m with
  | nil => exact ⟨fun _ => h.admissible, fun _ => ⟨m, rfl⟩⟩
  | cons p pairs ih =>
    obtain ⟨column, field⟩ := p
    cases hinsert : m.insert column field with
    | error e =>
      rw [insertList_cons_of_error hinsert]
      constructor
      · rintro ⟨m', hm'⟩
        cases hm'
      · intro hadmissible
        have hfirst := hadmissible.sublist ((List.sublist_append_right pairs m.byColumn).cons_cons (column, field))
        obtain ⟨m', hm'⟩ := h.exists_insert_iff.2 hfirst
        rw [hinsert] at hm'
        cases hm'
    | ok m₁ =>
      have hperm : (pairs ++ m₁.byColumn).Perm ((column, field) :: pairs ++ m.byColumn) :=
        ((byColumn_perm_of_insert hinsert).append_left pairs).trans List.perm_middle
      rw [insertList_cons_of_ok hinsert, ih (h.insert hinsert)]
      exact ⟨fun hall => hall.perm hperm, fun hall => hall.perm hperm.symm⟩

/-- A list of pairs is a map just where it is admissible. -/
theorem exists_ofList_iff : (∃ m, ofList pairs = .ok m) ↔ Admissible pairs := by
  have h := @Built.exists_insertList_iff {} pairs .empty
  rwa [show byColumn {} = [] from rfl, List.append_nil] at h

theorem built_of_ofList (h : ofList pairs = .ok m) : m.Built ∧ m.byColumn.Perm pairs := by
  have hall := Built.empty.insertList h
  rwa [show byColumn {} = [] from rfl, List.append_nil] at hall

/-- A map says of each column what the pairs say that it was made of. -/
theorem field?_of_ofList (h : ofList pairs = .ok m) (column : String) : m.field? column = pairs.lookup column := by
  obtain ⟨hbuilt, hperm⟩ := built_of_ofList h
  have hadmissible := hbuilt.admissible
  ext field
  rw [field?, lookup_eq_some_iff_mem hadmissible.nodup_columns,
    lookup_eq_some_iff_mem (hadmissible.perm hperm).nodup_columns, hperm.mem_iff]

/-! ### Additions of which some fail -/

/-- Adds pairs one after the other, and tells which ones were added. -/
def insertEach (m : FieldMap) : List (String × Nat) → FieldMap × List (String × Nat)
  | [] => (m, [])
  | (column, field) :: calls =>
    match m.add column field with
    | (m, .ok ()) => ((m.insertEach calls).1, (column, field) :: (m.insertEach calls).2)
    | (m, .error _) => m.insertEach calls

theorem insertEach_cons_of_ok (h : m.insert column field = .ok m') :
    m.insertEach ((column, field) :: calls) =
      ((m'.insertEach calls).1, (column, field) :: (m'.insertEach calls).2) := by
  rw [insertEach, add_of_insert_eq_ok h]

theorem insertEach_cons_of_error (h : m.insert column field = .error e) :
    m.insertEach ((column, field) :: calls) = m.insertEach calls := by
  rw [insertEach, add_of_insert_eq_error h]

/-- Pairs that do not fit leave no trace: those that do make the same map. -/
theorem insertList_insertEach (m : FieldMap) (calls : List (String × Nat)) :
    m.insertList (m.insertEach calls).2 = .ok (m.insertEach calls).1 := by
  induction calls generalizing m with
  | nil => rfl
  | cons call calls ih =>
    obtain ⟨column, field⟩ := call
    cases hinsert : m.insert column field with
    | ok m' =>
      rw [insertEach_cons_of_ok hinsert]
      exact (insertList_cons_of_ok hinsert).trans (ih m')
    | error e =>
      rw [insertEach_cons_of_error hinsert]
      exact ih m

theorem insertEach_append_of_error {e : FieldMapError} (h : (m.insertEach calls).1.insert column field = .error e) :
    m.insertEach (calls ++ [(column, field)]) = m.insertEach calls := by
  induction calls generalizing m with
  | nil => exact insertEach_cons_of_error h
  | cons call calls ih =>
    obtain ⟨column', field'⟩ := call
    rw [List.cons_append]
    cases hinsert : m.insert column' field' with
    | ok m' =>
      rw [insertEach_cons_of_ok hinsert] at h
      rw [insertEach_cons_of_ok hinsert, insertEach_cons_of_ok hinsert, ih h]
    | error e' =>
      rw [insertEach_cons_of_error hinsert] at h
      rw [insertEach_cons_of_error hinsert, insertEach_cons_of_error hinsert, ih h]

/-! ### Dictionaries -/

/-- The pairs of a dictionary, the last of each column, in ascending order. -/
def lastPairs (pairs : List (String × Nat)) : List (String × Nat) :=
  pairs.foldl (fun d (column, field) => Ordered.put column field d) []

theorem ofDictionary_eq (pairs : List (String × Nat)) : ofDictionary pairs = ofList (lastPairs pairs) := rfl

theorem ascending_lastPairs (pairs : List (String × Nat)) : Ordered.Ascending (lastPairs pairs) := by
  induction pairs using List.reverseRecOn with
  | nil => exact .nil
  | append_singleton pairs p ih =>
    rw [lastPairs, List.foldl_append]
    exact ih.put

theorem lookup_lastPairs (pairs : List (String × Nat)) (column : String) :
    (lastPairs pairs).lookup column = pairs.reverse.lookup column := by
  induction pairs using List.reverseRecOn with
  | nil => rfl
  | append_singleton pairs p ih =>
    rw [lastPairs, List.foldl_append, List.reverse_append]
    show (Ordered.put p.1 p.2 (lastPairs pairs)).lookup column = (p :: pairs.reverse).lookup column
    rw [Ordered.lookup_put, lookup_cons, ih]

/-- No two columns of a dictionary have one field just where the fields of its pairs are distinct. -/
theorem admissible_lastPairs_iff : Admissible (lastPairs pairs) ↔
    ∀ column field, pairs.reverse.lookup column = some field →
      isAssignable field = true ∧ ∀ column', pairs.reverse.lookup column' = some field → column' = column := by
  have hcolumns := (ascending_lastPairs pairs).nodup
  have hmem : ∀ column field, (column, field) ∈ lastPairs pairs ↔ pairs.reverse.lookup column = some field :=
    fun column field => by rw [← lookup_lastPairs, lookup_eq_some_iff_mem hcolumns]
  have hfields : ((lastPairs pairs).map Prod.snd).Nodup ↔ ∀ column field, pairs.reverse.lookup column = some field →
      ∀ column', pairs.reverse.lookup column' = some field → column' = column := by
    rw [List.nodup_map_iff_inj_on (hcolumns.of_map _)]
    constructor
    · intro h column field hcolumn column' hcolumn'
      exact congrArg Prod.fst (h _ ((hmem column' field).2 hcolumn') _ ((hmem column field).2 hcolumn) rfl)
    · rintro h ⟨column, field⟩ hcolumn ⟨column', field'⟩ hcolumn' rfl
      rw [h column' field ((hmem _ _).1 hcolumn') column ((hmem _ _).1 hcolumn)]
  constructor
  · rintro ⟨hassignable, -, hnodup⟩ column field hcolumn
    exact ⟨hassignable _ ((hmem column field).2 hcolumn), hfields.1 hnodup column field hcolumn⟩
  · intro h
    exact ⟨fun p hp => (h p.1 p.2 ((hmem _ _).1 hp)).1, hcolumns, hfields.2 fun c f hc => (h c f hc).2⟩

/-- A dictionary is a map just where its fields may be given to columns and are distinct. -/
theorem exists_ofDictionary_iff : (∃ m, ofDictionary pairs = .ok m) ↔
    ∀ column field, pairs.reverse.lookup column = some field →
      isAssignable field = true ∧ ∀ column', pairs.reverse.lookup column' = some field → column' = column := by
  rw [ofDictionary_eq, exists_ofList_iff, admissible_lastPairs_iff]

/-- The map says of each column what the dictionary says. -/
theorem field?_of_ofDictionary (h : ofDictionary pairs = .ok m) (column : String) :
    m.field? column = pairs.reverse.lookup column := by
  rw [ofDictionary_eq] at h
  rw [field?_of_ofList h, lookup_lastPairs]

/-- The pairs of a map in the order of its columns are the dictionary of the map. -/
theorem Built.lastPairs_byColumn (h : m.Built) : lastPairs m.byColumn = m.byColumn := by
  have hreverse := h.admissible.perm m.byColumn.reverse_perm.symm
  refine (ascending_lastPairs _).ext h.paired.columns fun column => ?_
  ext field
  rw [lookup_lastPairs, lookup_eq_some_iff_mem hreverse.nodup_columns,
    lookup_eq_some_iff_mem h.admissible.nodup_columns, List.mem_reverse]

/-- A map is written as a dictionary and read back. -/
theorem Built.ofDictionary_byColumn (h : m.Built) : ofDictionary m.byColumn = .ok m := by
  rw [ofDictionary_eq, h.lastPairs_byColumn]
  obtain ⟨m', hm'⟩ := exists_ofList_iff.2 h.admissible
  have hsame : m' = m := (built_of_ofList hm').1.ext h fun column => field?_of_ofList hm' column
  rw [hm', hsame]

/-! ### Columns that are numbered -/

/-- As many columns can be numbered as there are numbers before the one that is taken. -/
theorem admissible_zipIdx_iff {columns : List String} :
    Admissible (columns.zipIdx 1) ↔ columns.Nodup ∧ columns.length < rowField := by
  have hmem : ∀ field, field ∈ (columns.zipIdx 1).map Prod.snd ↔ 1 ≤ field ∧ field < 1 + columns.length := by
    intro field
    rw [List.zipIdx_map_snd, List.mem_range'_1]
  constructor
  · rintro ⟨hassignable, hcolumns, -⟩
    rw [List.zipIdx_map_fst] at hcolumns
    refine ⟨hcolumns, Nat.lt_of_not_le fun hlength => ?_⟩
    -- with more columns one of them would have the number that is taken
    obtain ⟨p, hp, hrow⟩ := List.mem_map.1 ((hmem rowField).2 ⟨by decide, by omega⟩)
    exact (isAssignable_iff.1 (hassignable p hp)).2.2 hrow
  · rintro ⟨hcolumns, hlength⟩
    refine ⟨fun p hp => ?_, by rwa [List.zipIdx_map_fst], ?_⟩
    · obtain ⟨hpos, hlt⟩ := (hmem p.2).1 (List.mem_map_of_mem hp)
      have hmax : rowField ≤ Wire.maxField := by decide
      exact isAssignable_iff.2 ⟨hpos, by omega, by omega⟩
    · rw [List.zipIdx_map_snd]
      exact List.nodup_range'

/-- Columns that are numbered have their places as fields, counted from 1. -/
theorem field?_of_sequential {columns : List String} (h : sequential columns = .ok m) (column : String) (field : Nat) :
    m.field? column = some field ↔ ∃ i, columns[i]? = some column ∧ field = i + 1 := by
  have hcolumns := (exists_ofList_iff.1 ⟨m, h⟩).nodup_columns
  rw [field?_of_ofList h, lookup_eq_some_iff_mem hcolumns, List.mk_mem_zipIdx_iff_le_and_getElem?_sub]
  constructor
  · rintro ⟨hpos, hplace⟩
    exact ⟨field - 1, hplace, by omega⟩
  · rintro ⟨i, hplace, rfl⟩
    exact ⟨by omega, hplace⟩

/-- For every run of additions, failing ones included: columns and fields are inverse to each other, a field is between
1 and the largest one and is not that of the row, an addition that fails changes nothing, the map is the one that the
other additions alone make, there are as many pairs as additions that did not fail, and the map is read back from its
dictionary. A dictionary, in which the last pair of a column counts, is a map just where its fields are in that range
and no two columns have the same, and the map says what the dictionary says. Columns can be numbered just where they
are distinct and at most 8190, and then the column at place `i` has the field `i + 1`. -/
theorem insertions_one_to_one (calls pairs : List (String × Nat)) (columns : List String) :
    (let (m, added) := insertEach {} calls;
      (∀ column field, m.field? column = some field ↔ m.column? field = some column) ∧
        (∀ column field, m.field? column = some field → 1 ≤ field ∧ field ≤ Wire.maxField ∧ field ≠ rowField) ∧
        (∀ column field e, m.insert column field = .error e → insertEach {} (calls ++ [(column, field)]) = (m, added)) ∧
        ofList added = .ok m ∧ m.size = added.length ∧ ofDictionary m.byColumn = .ok m) ∧
      ((∃ m, ofDictionary pairs = .ok m) ↔ ∀ column field, pairs.reverse.lookup column = some field →
        (1 ≤ field ∧ field ≤ Wire.maxField ∧ field ≠ rowField) ∧
          ∀ column', pairs.reverse.lookup column' = some field → column' = column) ∧
      (∀ m, ofDictionary pairs = .ok m → ∀ column, m.field? column = pairs.reverse.lookup column) ∧
      ((∃ m, sequential columns = .ok m) ↔ columns.Nodup ∧ columns.length ≤ 8190) ∧
      ∀ m, sequential columns = .ok m → ∀ column field,
        m.field? column = some field ↔ ∃ i, columns[i]? = some column ∧ field = i + 1 := by
  refine ⟨?_, ?_, fun m h => field?_of_ofDictionary h, ?_, fun m h => field?_of_sequential h⟩
  · -- the map is made of the pairs that were added, and all that is said of it follows from that
    have hmade : ofList (insertEach {} calls).2 = .ok (insertEach {} calls).1 := insertList_insertEach {} calls
    obtain ⟨hbuilt, hperm⟩ := built_of_ofList hmade
    have hsize : (insertEach {} calls).1.size = (insertEach {} calls).2.length := by
      rw [hbuilt.paired.size_eq, hperm.length_eq]
    exact ⟨fun column field => hbuilt.field?_eq_some_iff,
      fun column field hfield => isAssignable_iff.1 (hbuilt.isAssignable_of_field? hfield),
      fun column field e hfails => insertEach_append_of_error hfails, hmade, hsize, hbuilt.ofDictionary_byColumn⟩
  · rw [exists_ofDictionary_iff]
    simp only [isAssignable_iff]
  · rw [sequential, exists_ofList_iff, admissible_zipIdx_iff]
    exact and_congr_right fun _ => Nat.lt_succ_iff

/-- The second addition fails, since its field is that of another column. -/
example : insertEach {} [("bid", 1), ("ask", 1), ("ask", 2)] =
    (⟨[("ask", 2), ("bid", 1)], [(1, "bid"), (2, "ask")]⟩, [("bid", 1), ("ask", 2)]) := by decide

end LiveTables.FieldMap
