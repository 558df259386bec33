import LiveTables.Proofs.Network.Formed

/-!
# Columns that pass

A change of a cell comes up to a joined table as an event, unless the cell is in the key column of a joined
table on the way: a key that is found linked as it is does not come through. So what a table above has read
in between may stay. A column passes (`Passes`) if that cannot happen: no joined table on its way up takes it
for its key, except for one that stands on a stored table, or else it comes from a stored column all the way
(`Plain`).

A cell is due (`Due`) if its table will be told of a change of the cell, given what waits in the queues of the
joined tables. A row is legible (`Legible`) if it can be read, its passing columns are presumed as they are
but for cells that are due, and no cell of a plain column is due.
-/

namespace LiveTables.Network

open Notice

/-- What waits to be heard by the joined tables, on each of their sides. -/
abbrev Queues := Nat → Side → List Notice

/-- A column that comes from a stored column of a stored table. -/
inductive Plain (net : Network) : Nat → String → Prop
  | stored {n : Nat} {t : Table} {c : String} (table : net.table? n = some t)
      (column : t.storedKind? c ≠ none) : Plain net n c
  | source {n : Nat} {j : JoinedTable} {c : String} {s : Side} {kind : Kind}
      (joined : net.joined? n = some j) (column : j.column? c = some (s, kind))
      (below : Plain net (j.source s) c) : Plain net n c

/-- A column whose changes come up. -/
inductive Passes (net : Network) : Nat → String → Prop
  | stored {n : Nat} {t : Table} {c : String} (table : net.table? n = some t) : Passes net n c
  | plain {n : Nat} {c : String} (plain : Plain net n c) : Passes net n c
  | first {n : Nat} {j : JoinedTable} {t : Table} {c : String} {s : Side} {kind : Kind}
      (joined : net.joined? n = some j) (column : j.column? c = some (s, kind))
      (table : net.table? (j.source s) = some t) : Passes net n c
  | through {n : Nat} {j : JoinedTable} {c : String} {s : Side} {kind : Kind}
      (joined : net.joined? n = some j) (column : j.column? c = some (s, kind)) (other : c ≠ j.key s)
      (below : Passes net (j.source s) c) : Passes net n c
  | computed {n : Nat} {j : JoinedTable} {c : String} {col : ComputedColumn}
      (joined : net.joined? n = some j) (column : j.computed.column? c = some col)
      (dependencies : ∀ d ∈ col.dependencies, Passes net n d) : Passes net n c

/-- A cell whose table will be told of a change, by what waits at the table or below it, or because the
table has not linked a row of a stored table under its key yet. -/
inductive Due (net : Network) (Q : Queues) : Nat → Nat → String → Prop
  | told {n k r : Nat} {j : JoinedTable} {c : String} {s : Side} {kind : Kind}
      (joined : net.joined? n = some j) (column : j.column? c = some (s, kind)) (other : c ≠ j.key s)
      (row : j.engine.sourceRow? s k = some r) (tells : Tells (Q n s) r c) : Due net Q n k c
  | source {n k r : Nat} {j : JoinedTable} {c : String} {s : Side} {kind : Kind}
      (joined : net.joined? n = some j) (column : j.column? c = some (s, kind)) (other : c ≠ j.key s)
      (row : j.engine.sourceRow? s k = some r) (due : Due net Q (j.source s) r c) : Due net Q n k c
  | link {n k r : Nat} {j : JoinedTable} {t : Table} {s : Side} (joined : net.joined? n = some j)
      (row : j.engine.sourceRow? s k = some r) (table : net.table? (j.source s) = some t)
      (differs : j.engine.keyClass? s r ≠ net.actual (j.source s) r (j.key s)) : Due net Q n k (j.key s)
  | computed {n k : Nat} {j : JoinedTable} {c d : String} {col : ComputedColumn}
      (joined : net.joined? n = some j) (column : j.computed.column? c = some col)
      (dependency : d ∈ col.dependencies) (due : Due net Q n k d) : Due net Q n k c

/-- A row that can be read, and in which passing columns are presumed as they are, unless they are due. -/
structure Legible (net : Network) (Q : Queues) (n k : Nat) : Prop where
  live : k ∈ (net.shown n).rows
  readable : ∀ c kind, (net.shown n).columnKind c = .ok kind →
    ∃ v, (net.shown n).get c k = .ok v ∧ v.kind = kind
  sound : ∀ c, Passes net n c → net.actual n k c = net.presumed n k c ∨ Due net Q n k c
  exact : ∀ c, Plain net n c → ¬ Due net Q n k c

variable {net net' : Network} {Q Q' : Queues} {n k r K : Nat} {j : JoinedTable} {t : Table} {c : String}
  {s : Side} {kind : Kind} {P : Nat → Prop}

/-! ## Stored tables -/

theorem not_due_of_table? (ht : net.table? n = some t) : ¬ Due net Q n k c := by
  intro hdue
  have hnone := joined?_eq_none_of_table? ht
  cases hdue <;> simp_all

theorem actual_stored (ht : net.table? n = some t) : net.actual n k c = Value.class? (t.get c k) := by
  rw [actual, shown, see_stored ht]
  rfl

/-- A stored table is read in one way only. -/
theorem presumed_stored (ht : net.table? n = some t) : net.presumed n k c = net.actual n k c := by
  rw [presumed, actual, shown, see_stored ht, see_stored ht]

theorem rows_stored (ht : net.table? n = some t) : (net.shown n).rows = t.rows := by
  rw [shown, see_stored ht]
  rfl

theorem Formed.legible_stored (h : net.Formed) (ht : net.table? n = some t) (hk : k ∈ t.rows) :
    Legible net Q n k where
  live := by rwa [rows_stored ht]
  readable c kind hkind := by
    rw [shown, see_stored ht] at hkind ⊢
    exact (h.tables n t ht).get_ok hk hkind
  sound c _ := .inl (presumed_stored ht).symm
  exact c _ := not_due_of_table? ht

/-! ## Joined tables -/

section Joined

variable (h : net.Formed) (hj : net.joined? n = some j)

include h hj

theorem Formed.actual_source (hc : j.column? c = some (s, kind)) (hr : j.engine.sourceRow? s k = some r) :
    net.actual n k c = net.actual (j.source s) r c := by
  rw [actual, shown, h.ordered.see_joined hj, (h.valid n j hj).class?_stored hc hr, actual]

theorem Formed.presumed_source (hc : j.column? c = some (s, kind)) (hkey : c ≠ j.key s)
    (hr : j.engine.sourceRow? s k = some r) : net.presumed n k c = net.presumed (j.source s) r c := by
  rw [presumed, h.ordered.see_joined hj, (h.valid n j hj).class?_linked hc hkey hr, presumed]

/-- A key column is presumed as it is linked. -/
theorem Formed.presumed_key (hr : j.engine.sourceRow? s k = some r) :
    net.presumed n k (j.key s) = j.engine.keyClass? s r := by
  rw [presumed, h.ordered.see_joined hj, (h.valid n j hj).class?_linked_key hr]

theorem Formed.presumed_gap (hc : j.column? c = some (s, kind)) (hk : k ∈ j.engine.rows)
    (hr : j.engine.sourceRow? s k = none) : net.presumed n k c = some (j.gap c kind).canonical := by
  rw [presumed, h.ordered.see_joined hj, TableView.class?, (h.valid n j hj).get_gap hc hk hr (.inr rfl)]
  rfl

/-- A gap is presumed as it is. -/
theorem Formed.actual_gap (hc : j.column? c = some (s, kind)) (hk : k ∈ j.engine.rows)
    (hr : j.engine.sourceRow? s k = none) : net.actual n k c = net.presumed n k c := by
  rw [h.presumed_gap hj hc hk hr, actual, shown, h.ordered.see_joined hj, TableView.class?,
    (h.valid n j hj).get_gap hc hk hr (.inl rfl)]
  rfl

theorem Formed.presumed_of_not_mem (hk : k ∉ j.engine.rows) : net.presumed n k c = none := by
  rw [presumed, h.ordered.see_joined hj, JoinedTable.class?_of_not_mem hk]

theorem Formed.actual_computed {col : ComputedColumn} (hcol : j.computed.column? c = some col)
    (hdeps : ∀ d ∈ col.dependencies, net.actual n k d = net.presumed n k d) :
    net.actual n k c = net.presumed n k c := by
  simp only [actual, presumed, shown, h.ordered.see_joined hj] at hdeps ⊢
  exact (h.valid n j hj).class?_congr rfl Iff.rfl hcol hdeps

/-- When a cell of a source column is due. -/
theorem Formed.due_source_iff (hc : j.column? c = some (s, kind)) : Due net Q n k c ↔
    ∃ r, j.engine.sourceRow? s k = some r ∧
      ((c ≠ j.key s ∧ (Tells (Q n s) r c ∨ Due net Q (j.source s) r c)) ∨
        (c = j.key s ∧ (∃ t, net.table? (j.source s) = some t) ∧
          j.engine.keyClass? s r ≠ net.actual (j.source s) r c)) := by
  constructor
  · intro hdue
    cases hdue with
    | told hj' hc' hother hr htells =>
      obtain rfl := Option.some.inj (hj'.symm.trans hj)
      obtain ⟨rfl, rfl⟩ := Prod.mk.inj (Option.some.inj (hc'.symm.trans hc))
      exact ⟨_, hr, .inl ⟨hother, .inl htells⟩⟩
    | source hj' hc' hother hr hdue =>
      obtain rfl := Option.some.inj (hj'.symm.trans hj)
      obtain ⟨rfl, rfl⟩ := Prod.mk.inj (Option.some.inj (hc'.symm.trans hc))
      exact ⟨_, hr, .inl ⟨hother, .inr hdue⟩⟩
    | @link _ _ _ _ _ s' hj' hr ht hdiffers =>
      obtain rfl := Option.some.inj (hj'.symm.trans hj)
      obtain ⟨kind', hkey⟩ := (h.valid n _ hj).column?_key s'
      obtain ⟨rfl, rfl⟩ := Prod.mk.inj (Option.some.inj (hkey.symm.trans hc))
      exact ⟨_, hr, .inr ⟨rfl, ⟨_, ht⟩, hdiffers⟩⟩
    | computed hj' hcol =>
      obtain rfl := Option.some.inj (hj'.symm.trans hj)
      rw [(h.valid n _ hj).computed_eq_none hc] at hcol
      exact absurd hcol (by simp)
  · rintro ⟨r, hr, ⟨hother, htells | hdue⟩ | ⟨rfl, ⟨t, ht⟩, hdiffers⟩⟩
    · exact .told hj hc hother hr htells
    · exact .source hj hc hother hr hdue
    · exact .link hj hr ht hdiffers

/-- A cell of a computed column is due if one of a dependency is. -/
theorem Formed.due_computed_iff {col : ComputedColumn} (hcol : j.computed.column? c = some col) :
    Due net Q n k c ↔ ∃ d ∈ col.dependencies, Due net Q n k d := by
  have hvalid := h.valid n j hj
  constructor
  · intro hdue
    cases hdue with
    | told hj' hc =>
      obtain rfl := Option.some.inj (hj'.symm.trans hj)
      exact absurd (hc.symm.trans (hvalid.column?_eq_none hcol)) (by simp)
    | source hj' hc =>
      obtain rfl := Option.some.inj (hj'.symm.trans hj)
      exact absurd (hc.symm.trans (hvalid.column?_eq_none hcol)) (by simp)
    | @link _ _ _ _ _ s hj' =>
      obtain rfl := Option.some.inj (hj'.symm.trans hj)
      obtain ⟨kind, hkey⟩ := hvalid.column?_key s
      exact absurd (hkey.symm.trans (hvalid.column?_eq_none hcol)) (by simp)
    | computed hj' hcol' hd hdue =>
      obtain rfl := Option.some.inj (hj'.symm.trans hj)
      obtain rfl := Option.some.inj (hcol'.symm.trans hcol)
      exact ⟨_, hd, hdue⟩
  · rintro ⟨d, hd, hdue⟩
    exact .computed hj hcol hd hdue

theorem Formed.not_due_of_unknown (hc : j.column? c = none) (hcol : j.computed.column? c = none) :
    ¬ Due net Q n k c := by
  intro hdue
  cases hdue with
  | told hj' hc' =>
    obtain rfl := Option.some.inj (hj'.symm.trans hj)
    exact absurd (hc'.symm.trans hc) (by simp)
  | source hj' hc' =>
    obtain rfl := Option.some.inj (hj'.symm.trans hj)
    exact absurd (hc'.symm.trans hc) (by simp)
  | @link _ _ _ _ _ s hj' =>
    obtain rfl := Option.some.inj (hj'.symm.trans hj)
    obtain ⟨kind, hkey⟩ := (h.valid n _ hj).column?_key s
    exact absurd (hkey.symm.trans hc) (by simp)
  | computed hj' hcol' =>
    obtain rfl := Option.some.inj (hj'.symm.trans hj)
    exact absurd (hcol'.symm.trans hcol) (by simp)

end Joined

/-- A table has heard all that there is to say about the plain columns of a source row. -/
structure Heard (net : Network) (Q : Queues) (n : Nat) (j : JoinedTable) (s : Side) (r : Nat) : Prop where
  legible : Legible net Q (j.source s) r
  silent : ∀ c, Plain net (j.source s) c → ¬ Tells (Q n s) r c
  linked : Plain net (j.source s) (j.key s) →
    j.engine.keyClass? s r = net.actual (j.source s) r (j.key s)

/-- Plain columns are source columns. -/
theorem Plain.exists_column? (h : Plain net n c) (hj : net.joined? n = some j) :
    ∃ s kind, j.column? c = some (s, kind) ∧ Plain net (j.source s) c := by
  cases h with
  | stored ht _ => exact absurd ((joined?_eq_none_of_table? ht).symm.trans hj) (by simp)
  | source hj' hc hbelow =>
    obtain rfl := Option.some.inj (hj'.symm.trans hj)
    exact ⟨_, _, hc, hbelow⟩

theorem Formed.not_due_of_plain (h : net.Formed) (hj : net.joined? n = some j)
    (hheard : ∀ s r, j.engine.sourceRow? s k = some r → Heard net Q n j s r) (hplain : Plain net n c) :
    ¬ Due net Q n k c := by
  obtain ⟨s, kind, hc, hbelow⟩ := hplain.exists_column? hj
  rw [h.due_source_iff hj hc]
  rintro ⟨r, hr, ⟨-, htells | hdue⟩ | ⟨rfl, -, hdiffers⟩⟩
  · exact (hheard s r hr).silent c hbelow htells
  · exact (hheard s r hr).legible.exact c hbelow hdue
  · exact hdiffers ((hheard s r hr).linked hbelow)

/-- A source column that passes is presumed as it is, or due. -/
theorem Formed.sound_source (h : net.Formed) (hj : net.joined? n = some j) (hk : k ∈ j.engine.rows)
    (hc : j.column? c = some (s, kind))
    (hrow : ∀ r, j.engine.sourceRow? s k = some r →
      net.actual (j.source s) r c = net.presumed n k c ∨ Due net Q n k c) :
    net.actual n k c = net.presumed n k c ∨ Due net Q n k c := by
  rcases hr : j.engine.sourceRow? s k with - | r
  · exact .inl (h.actual_gap hj hc hk hr)
  · rw [h.actual_source hj hc hr]
    exact hrow r hr

/-- If the rows that stand in a joined row are heard of, the joined row is legible. -/
theorem Formed.legible_joined (h : net.Formed) (hj : net.joined? n = some j) (hk : k ∈ j.engine.rows)
    (hheard : ∀ s r, j.engine.sourceRow? s k = some r → Heard net Q n j s r) : Legible net Q n k where
  live := by rwa [h.ordered.rows_joined hj]
  readable c kind hkind := by
    rw [h.ordered.columnKind_joined hj] at hkind
    rw [shown, h.ordered.see_joined hj]
    refine (h.valid n j hj).get_ok hk (fun s r hr c kind hc => ?_) hkind
    exact (hheard s r hr).legible.readable c kind ((h.fits n j hj).kinds s c kind hc)
  sound c hpasses := by
    -- by the way that the column comes up, which ends at a source except for what is computed here
    induction hpasses with
    | stored ht => exact absurd ((joined?_eq_none_of_table? ht).symm.trans hj) (by simp)
    | @plain n c hplain =>
      obtain ⟨s, kind, hc, hbelow⟩ := hplain.exists_column? hj
      refine h.sound_source hj hk hc fun r hr => .inl ?_
      have hlegible := (hheard s r hr).legible
      by_cases hkey : c = j.key s
      · subst hkey
        rw [h.presumed_key hj hr, (hheard s r hr).linked hbelow]
      · rw [h.presumed_source hj hc hkey hr]
        exact (hlegible.sound c (.plain hbelow)).resolve_right (hlegible.exact c hbelow)
    | @first n j₁ t c s kind hj₁ hc ht =>
      obtain rfl := Option.some.inj (hj₁.symm.trans hj)
      refine h.sound_source hj hk hc fun r hr => ?_
      by_cases hkey : c = j₁.key s
      · subst hkey
        rw [h.presumed_key hj hr]
        by_cases hsame : j₁.engine.keyClass? s r = net.actual (j₁.source s) r (j₁.key s)
        · exact .inl hsame.symm
        · exact .inr (.link hj hr ht hsame)
      · rw [h.presumed_source hj hc hkey hr]
        exact .inl (presumed_stored ht).symm
    | @through n j₁ c s kind hj₁ hc hother hbelow _ =>
      obtain rfl := Option.some.inj (hj₁.symm.trans hj)
      refine h.sound_source hj hk hc fun r hr => ?_
      rw [h.presumed_source hj hc hother hr]
      exact ((hheard s r hr).legible.sound c hbelow).imp_right fun hdue => .source hj hc hother hr hdue
    | @computed n j₁ c col hj₁ hcol _ ih =>
      obtain rfl := Option.some.inj (hj₁.symm.trans hj)
      by_cases hdue : ∃ d ∈ col.dependencies, Due net Q n k d
      · obtain ⟨d, hd, hdue⟩ := hdue
        exact .inr (.computed hj hcol hd hdue)
      · refine .inl (h.actual_computed hj hcol fun d hd => ?_)
        exact (ih d hd hj hheard).resolve_right fun hd' => hdue ⟨d, hd, hd'⟩
  exact c hplain := h.not_due_of_plain hj hheard hplain

/-- Over stored sources, all columns pass. -/
theorem Formed.passes_of_stored (h : net.Formed) (hj : net.joined? n = some j)
    (hstored : ∀ s, ∃ t, net.table? (j.source s) = some t) (hknown : ∃ kind, j.columnKind c = .ok kind) :
    Passes net n c := by
  have hvalid := h.valid n j hj
  refine hvalid.column_induction (motive := fun c => (∃ kind, j.columnKind c = .ok kind) → Passes net n c)
    (fun c s kind hc _ => ?_) (fun c hc hcol hknown => ?_) (fun c col hcol ih _ => ?_) c hknown
  · obtain ⟨t, ht⟩ := hstored s
    exact .first hj hc ht
  · obtain ⟨kind, hkind⟩ := hknown
    rw [JoinedTable.columnKind_eq_ok_iff] at hkind
    simp [hc, hcol] at hkind
  · refine .computed hj hcol fun d hd => ih d hd ?_
    obtain ⟨kind, hkind⟩ := Option.ne_none_iff_exists'.1 (hvalid.registered.layered.known_of_mem hcol hd)
    exact ⟨kind, hvalid.columnKind_eq_ok.2 hkind⟩

/-! ## Networks that agree -/

namespace Agree

theorem plain (h : Agree net net' P) (hn : P n) (hplain : Plain net n c) : Plain net' n c := by
  induction hplain with
  | stored ht hc => exact .stored ((h.table? hn).trans ht) hc
  | source hj hc _ ih => exact .source ((h.joined? hn).trans hj) hc (ih (h.closed _ _ _ hn hj))

theorem passes (h : Agree net net' P) (hn : P n) (hpasses : Passes net n c) : Passes net' n c := by
  induction hpasses with
  | stored ht => exact .stored ((h.table? hn).trans ht)
  | plain hplain => exact .plain (h.plain hn hplain)
  | first hj hc ht =>
    exact .first ((h.joined? hn).trans hj) hc ((h.table? (h.closed _ _ _ hn hj)).trans ht)
  | through hj hc hother _ ih =>
    exact .through ((h.joined? hn).trans hj) hc hother (ih (h.closed _ _ _ hn hj))
  | computed hj hcol _ ih => exact .computed ((h.joined? hn).trans hj) hcol fun d hd => ih d hd hn

/-- If besides the queues are the same, the same cells are due. -/
theorem due (h : Agree net net' P) (ho : net.Ordered) (ho' : net'.Ordered)
    (hQ : ∀ n j s, P n → net.joined? n = some j → Q' n s = Q n s) (hn : P n)
    (hdue : Due net Q n k c) : Due net' Q' n k c := by
  induction hdue with
  | told hj hc hother hr htells =>
    exact .told ((h.joined? hn).trans hj) hc hother hr (hQ _ _ _ hn hj ▸ htells)
  | source hj hc hother hr _ ih =>
    exact .source ((h.joined? hn).trans hj) hc hother hr (ih (h.closed _ _ _ hn hj))
  | @link _ _ _ _ _ s hj hr ht hdiffers =>
    have hsource := h.closed _ _ s hn hj
    refine .link ((h.joined? hn).trans hj) hr ((h.table? hsource).trans ht) ?_
    rwa [h.actual ho ho' hsource]
  | computed hj hcol hd _ ih => exact .computed ((h.joined? hn).trans hj) hcol hd (ih hn)

theorem legible (h : Agree net net' P) (ho : net.Ordered) (ho' : net'.Ordered)
    (hQ : ∀ n j s, P n → net.joined? n = some j → Q' n s = Q n s) (hn : P n) (hlegible : Legible net Q n k) :
    Legible net' Q' n k where
  live := by rw [shown, h.see ho ho' hn]; exact hlegible.live
  readable := by rw [shown, h.see ho ho' hn]; exact hlegible.readable
  sound c hpasses := by
    rw [h.actual ho ho' hn, h.presumed ho ho' hn]
    exact (hlegible.sound c (h.symm.passes hn hpasses)).imp_right (h.due ho ho' hQ hn)
  exact c hplain hdue :=
    hlegible.exact c (h.symm.plain hn hplain)
      (h.symm.due ho' ho (fun n j s hn hj => (hQ n j s hn ((h.joined? hn).symm.trans hj)).symm) hn hdue)

end Agree

end LiveTables.Network
