import LiveTables.Proofs.Replica.Mirror
import LiveTables.Proofs.Table.Feed

/-!
# Replicas that write a table alone

A replica is put on a table, and from then on nobody else writes the table. Its changes may be refused, and
columns may be registered all the while. What the two come to (`Replica.Reachable`) is again a replica that
mirrors an image, that of the rows it shows (`Replica.Reachable.mirrors`).
-/

namespace LiveTables.Replica

variable {base t t' : Table} {i : Image} {r : Replica}

/-- What a new replica and its table come to, where nobody else writes the table. -/
inductive Reachable : Replica → Table → Prop
  | start {t : Table} (before : t.Reachable) : Reachable {} t
  | change {r : Replica} {t : Table} (before : Reachable r t) (signals : List Signal) (c : Change) :
    Reachable (r.applyChange .alone (t, signals) c).2.1 (r.applyChange .alone (t, signals) c).1.1
  | addComputed {r : Replica} {t t' : Table} {column : ComputedColumn} (before : Reachable r t)
      (done : t.addComputed column = (t', .ok ())) : Reachable r t'

namespace Mirrors

/-- A replica mirrors what it shows, and its table is like itself. -/
theorem rebase (h : Mirrors base i r t) : Mirrors t (r.image t) r t :=
  { h with alike := .refl t, image := rfl }

/-- A change that cannot be written changes nothing. -/
theorem applyChange_of_not_suits (h : Mirrors base i r t) {c : Change} (signals : List Signal)
    (hc : ¬ c.Suits base.storedKind?) :
    ∃ result, r.applyChange .alone (t, signals) c = ((t, signals), r, result) := by
  cases c with
  | add | delete => exact absurd trivial hc
  | update remote column value =>
    rcases hrow : r.localRow? remote with - | row
    · exact ⟨.ok false, by simp only [Replica.applyChange, update, hrow]⟩
    · rcases hset : t.setValue column row value with ⟨t', e | written⟩
      · exact ⟨.error e, by simp only [Replica.applyChange, update, hrow, TableHost.alone, hset]⟩
      · -- a write that goes through is of a stored column, with a value of its kind
        have hkind := (Table.setValue_eq_ok h.formed hset).2.2.1
        rw [h.alike.storedKind?] at hkind
        exact absurd hkind hc

/-- A column is registered. -/
theorem addComputed {column : ComputedColumn} (h : Mirrors base i r t) (hadd : t.addComputed column = (t', .ok ())) :
    Mirrors t' (r.image t') r t' := by
  obtain ⟨hformed, computed, rfl, -⟩ := h.formed.addComputed hadd
  exact { h with formed := hformed, alike := .refl _, image := rfl }

end Mirrors

/-- A replica that writes a table alone mirrors what it shows. -/
theorem Reachable.mirrors (h : Reachable r t) : Mirrors t (r.image t) r t := by
  induction h with
  | start before => exact mirrors_empty before.wellFormed
  | @change r t before signals c ih =>
    by_cases hc : c.Suits t.storedKind?
    · obtain ⟨t', signals', r', hit, happly, hmirrors⟩ := ih.applyChange signals hc
      rw [happly]
      exact hmirrors.rebase
    · obtain ⟨result, happly⟩ := ih.applyChange_of_not_suits signals hc
      rw [happly]
      exact ih
  | addComputed _ done ih => exact ih.addComputed done

/-! A replica on a table with a row of its own, and with two rows of the replica, of which one was deleted. -/

namespace Paired

def schema : Schema where
  name := "t"
  columns := [{ id := "a", kind := .int32 }, { id := "b", kind := .string }]
  nodup := by simp
  kind_default := by decide

/-- The table that the replica is put on. -/
def start : Table := ((Table.ofSchema schema).perform .addRow).1

/-- The replica and the table after the changes. -/
def state : Replica × Table :=
  [Change.add 4, .add 7, .update 7 "a" (.int32 1), .delete 4].foldl after ({}, start)

theorem reachable : Reachable state.1 state.2 := by
  have hstart : Reachable {} start := .start (.perform (.ofSchema schema) .addRow)
  have hadded := (hstart.change [] (.add 4)).change [] (.add 7)
  exact (hadded.change [] (.update 7 "a" (.int32 1))).change [] (.delete 4)

end Paired

end LiveTables.Replica
