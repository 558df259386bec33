import LiveTables.Proofs.Network.Acting

/-!
# Regular networks

Every network that arises by calls is in order, and its stored tables are well-formed, even if computed columns
compute just anything (`Arises.regular`).
-/

namespace LiveTables

open Network

variable {ω : Type} {o : Outside ω} {w : World ω} {n : Nat} {j : JoinedTable}

theorem JoinedTable.source_addComputed {j' : JoinedTable} {column : ComputedColumn}
    (hadd : j.addComputed column = (j', .ok ())) : j'.source = j.source := by
  obtain ⟨rfl, -⟩ := Prod.mk.inj hadd
  rfl

namespace Network

/-- An orderly network whose stored tables are well-formed. -/
structure Regular (net : Network) : Prop where
  orderly : net.Orderly
  tables : ∀ n t, net.table? n = some t → t.WellFormed

namespace Regular

variable {net net' : Network} {t : Table}

/-- The tables that come are well-formed. -/
theorem of_tables (h : net.Regular) (ho : net'.Orderly)
    (htables : ∀ n t, net'.table? n = some t → net.table? n = some t ∨ t.WellFormed) : net'.Regular :=
  ⟨ho, fun n t ht => (htables n t ht).elim (h.tables n t) id⟩

theorem quietly (h : net.Regular) (hquiet : net.Quietly net') : net'.Regular := by
  have hretains := hquiet.retains h.orderly
  refine h.of_tables hretains.orderly fun n t ht => ?_
  rcases hretains.contents n _ (content?_of_table? ht) with hold | ⟨-, schema, hnew⟩
  · exact .inl (table?_eq_some_iff.2 hold)
  · obtain rfl := Content.stored.inj hnew
    exact .inr (Table.wellFormed_ofSchema schema)

theorem setTable {t' : Table} (h : net.Regular) (ht : net.table? n = some t) (hformed : t'.WellFormed) :
    (net.setContent n (.stored t')).Regular := by
  refine h.of_tables (h.orderly.setTable ht) fun m u hu => ?_
  by_cases hm : m = n
  · subst hm
    rw [table?_eq_some_iff, content?_setContent_self (by simp [content?_of_table? ht])] at hu
    obtain rfl := Content.stored.inj (Option.some.inj hu)
    exact .inr hformed
  · exact .inl ((table?_congr (content?_setContent_of_ne hm)).symm.trans hu)

theorem setJoined {j' : JoinedTable} (h : net.Regular) (hj : net.joined? n = some j) (hsource : j'.source = j.source) :
    (net.setContent n (.joined j')).Regular := by
  refine h.of_tables (h.orderly.setJoined hj hsource) fun m u hu => ?_
  by_cases hm : m = n
  · subst hm
    rw [table?_eq_some_iff, content?_setContent_self (by simp [content?_of_joined? hj])] at hu
    cases Option.some.inj hu
  · exact .inl ((table?_congr (content?_setContent_of_ne hm)).symm.trans hu)

theorem insertJoined (h : net.Regular) (hsources : ∀ s, net.content? (j.source s) ≠ none) :
    (net.insertJoined j).1.Regular := by
  refine h.of_tables (h.orderly.insertJoined hsources) fun m u hu => ?_
  rw [table?_eq_some_iff, content?_insertJoined] at hu
  split_ifs at hu with hm
  · cases Option.some.inj hu
  · exact .inl (table?_eq_some_iff.2 hu)

/-- Single steps keep it so, whatever a column computes and whatever stands in the gaps. -/
theorem changes (h : net.Regular) (hchanges : net.Changes net') : net'.Regular := by
  cases hchanges with
  | quietly hquiet => exact h.quietly hquiet
  | @edit n t ht e =>
    have hformed := h.tables n t ht
    exact h.setTable ht ((Table.turns_perform hformed e).wellFormed hformed)
  | @addComputed n t t' column ht hadd => exact h.setTable ht ((h.tables n t ht).addComputed hadd).1
  | addComputedJoined hj hadd => exact h.setJoined hj (JoinedTable.source_addComputed hadd)
  | link hj engine => exact h.setJoined hj rfl
  | join hleft hright hj =>
    have ho := h.orderly.ordered
    obtain ⟨-, rfl, rfl, -⟩ := JoinedTable.built_of_sources hj
    refine h.insertJoined fun s => ?_
    cases s with
    | left => exact (ho.view?_eq_some_iff.1 hleft).1
    | right => exact (ho.view?_eq_some_iff.1 hright).1

theorem empty : Regular {} := ⟨.empty, fun n t ht => by cases ht⟩

end Regular

end Network

theorem Arises.regular (h : Arises o w) (ho : o.Quiet) : w.network.Regular :=
  have hstep {net net' : Network} (h : net.Regular) (hchanges : net.Changes net') := h.changes hchanges
  h.keeps hstep .empty (ho.keeps hstep)

end LiveTables
