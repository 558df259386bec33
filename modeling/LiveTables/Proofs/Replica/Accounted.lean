import LiveTables.Proofs.Replica.Piped
import LiveTables.Replica.Applier

/-!
# What becomes of the fields of a record

An applier goes through the fields of an update in order. A field is written if its number is mapped to a column
that has a kind, its payload reads as a value of the kind, and the table takes the value, so that the cell holds it
then; all others are left out, and nothing comes of them (`Applier.Sifts`). The fields of an added row, and of an
update of a row that is not known, are all left out.

The fields that were written and those that were left out are counted, and with the latter those that the decoder
left out before. Only a deletion counts nothing, whatever fields its record has (`Applier.counts_of_apply`).
-/

namespace LiveTables

variable {σ : Type} {host : TableHost σ} {s s' : σ} {a a' : Applier} {remote row : Nat}
  {fields written left : List (Nat × Wire.Payload)}

namespace Applier

/-- Fields are gone through for a local row, from one state of the host to another: those that are written, and
those that are left out. -/
inductive Sifts (host : TableHost σ) (a : Applier) (row : Nat) :
    σ → List (Nat × Wire.Payload) → List (Nat × Wire.Payload) → List (Nat × Wire.Payload) → σ → Prop
  | nil {s : σ} : Sifts host a row s [] [] [] s
  | write {s s' : σ} {field : Nat × Wire.Payload} {fields written left : List (Nat × Wire.Payload)} {column : String}
      {value : Value} {t : Table} {signals : List Signal} (hread : a.read? (host.table s) field = some (column, value))
      (hset : (host.table s).setValue column row value = (t, .ok signals)) (hget : t.get column row = .ok value)
      (rest : Sifts host a row (host.commit s t signals) fields written left s') :
      Sifts host a row s (field :: fields) (field :: written) left s'
  | leave {s s' : σ} {field : Nat × Wire.Payload} {fields written left : List (Nat × Wire.Payload)}
      (hnone : ∀ column value, a.read? (host.table s) field = some (column, value) →
        ∃ error, ((host.table s).setValue column row value).2 = .error error)
      (rest : Sifts host a row s fields written left s') :
      Sifts host a row s (field :: fields) written (field :: left) s'

/-- No field is lost, and none is counted twice. -/
theorem Sifts.perm (h : Sifts host a row s fields written left s') : (written ++ left).Perm fields := by
  induction h with
  | nil => exact .refl _
  | write _ _ _ _ ih => exact ih.cons _
  | leave _ _ ih => exact List.perm_middle.trans (ih.cons _)

/-- Fields are sifted as they are written to the local row of a remote one. -/
theorem exists_sifts (host : TableHost σ) (hrow : a.replica.localRow? remote = some row) (s : σ)
    (fields : List (Nat × Wire.Payload)) :
    ∃ s' written left, Sifts host a row s fields written left s' ∧
      a.writeFields host remote s fields = (s', written.length, left.length) := by
  induction fields generalizing s with
  | nil => exact ⟨s, [], [], .nil, rfl⟩
  | cons field fields ih =>
    rcases hread : a.read? (host.table s) field with - | ⟨column, value⟩
    · -- nothing that fits a column
      obtain ⟨s', written, left, hsifts, hwrite⟩ := ih s
      refine ⟨s', written, field :: left, .leave (by simp [hread]) hsifts, ?_⟩
      simp [writeFields, writeField, hread, hwrite]
    rcases hset : (host.table s).setValue column row value with ⟨t, error | signals⟩
    · -- the table refuses it
      obtain ⟨s', written, left, hsifts, hwrite⟩ := ih s
      refine ⟨s', written, field :: left, .leave ?_ hsifts, ?_⟩
      · intro column' value' hread'
        obtain ⟨rfl, rfl⟩ := Prod.mk.inj (Option.some.inj (hread.symm.trans hread'))
        exact ⟨error, congrArg Prod.snd hset⟩
      · simp [writeFields, writeField, hread, Replica.update, hrow, hset, hwrite]
    · -- the table takes it
      obtain ⟨s', written, left, hsifts, hwrite⟩ := ih (host.commit s t signals)
      refine ⟨s', field :: written, left, .write hread hset (Table.get_of_setValue hset) hsifts, ?_⟩
      simp [writeFields, writeField, hread, Replica.update, hrow, hset, hwrite]

/-- What an applier counts when it applied a record. Its fields are those that were written and those that were
left out. Fields are written only in updates of rows that have a local one, as they are sifted for it. What was left
out is counted with what the decoder skipped, except in a deletion. So each field is counted once, unless a deletion
came with fields. -/
theorem counts_of_apply {record : Record} {x : Applied} (h : a.apply host s record = (s', a', .ok x)) :
    ∃ written left, (written ++ left).Perm record.fields ∧
      x.applied = written.length ∧
      x.skipped = (if record.action = .delete then 0 else left.length + record.skipped) ∧
      (∀ row, record.action = .update → a.replica.localRow? record.row = some row →
        Sifts host a row s record.fields written left s') ∧
      ((record.action = .update → a.replica.localRow? record.row = none) → written = []) ∧
      (x.applied + x.skipped = record.fields.length + record.skipped ↔
        (record.action = .delete → record.fields = [] ∧ record.skipped = 0)) := by
  rcases haction : record.action with _ | _ | _
  · -- an addition
    simp only [apply, haction, Prod.mk.injEq, Except.ok.injEq] at h
    obtain ⟨-, -, rfl⟩ := h
    refine ⟨[], record.fields, .refl _, rfl, ?_, by simp, fun _ => rfl, ?_⟩
    · simp [Nat.add_comm]
    · simp [Nat.add_comm]
  · -- an update
    rcases hrow : a.replica.localRow? record.row with - | row
    · simp only [apply, haction, hrow, Prod.mk.injEq, Except.ok.injEq] at h
      obtain ⟨-, -, rfl⟩ := h
      refine ⟨[], record.fields, .refl _, rfl, ?_, by simp, fun _ => rfl, ?_⟩
      · simp [Nat.add_comm]
      · simp [Nat.add_comm]
    · obtain ⟨s₁, written, left, hsifts, hwrite⟩ := exists_sifts host hrow s record.fields
      simp only [apply, haction, hrow, hwrite, Prod.mk.injEq, Except.ok.injEq] at h
      obtain ⟨rfl, -, rfl⟩ := h
      have hlength := hsifts.perm.length_eq
      rw [List.length_append] at hlength
      refine ⟨written, left, hsifts.perm, rfl, ?_, ?_, by simp, ?_⟩
      · simp [Nat.add_comm]
      · intro row' _ hrow'
        exact Option.some.inj hrow' ▸ hsifts
      · simp only [reduceCtorEq, false_imp_iff, iff_true]
        omega
  · -- a deletion
    rcases hdelete : a.replica.delete host s record.row with ⟨s₁, replica, error | hit⟩
    · simp [apply, haction, hdelete, Except.map] at h
    · simp only [apply, haction, hdelete, Except.map, Prod.mk.injEq, Except.ok.injEq] at h
      obtain ⟨-, -, rfl⟩ := h
      refine ⟨[], record.fields, .refl _, rfl, rfl, by simp, fun _ => rfl, ?_⟩
      simp [eq_comm]

/-- A cell is written twice. The other fields fit no column, fit a computed column, have no column, or are not
mapped; and one had been skipped before. -/
theorem counts_of_apply_mixed :
    let m : FieldMap := ⟨[("a", 1), ("p", 2), ("z", 3)], [(1, "a"), (2, "p"), (3, "z")]⟩
    let a : Applier := { replica := ⟨[(4, 0)]⟩, fields := m }
    let fields : List (Nat × Wire.Payload) :=
      [(1, .varint 4), (1, .bytes [7]), (2, .varint 2), (3, .fixed32 0), (9, .varint 1), (1, .varint 6)]
    let record : Record := ⟨.update, 4, fields, 1⟩
    let now := a.apply .alone (Doubled.source, []) record
    let x : Applied := { localRow? := some 0, applied := 2, skipped := 5 }
    a.apply .alone (Doubled.source, []) record = (now.1, now.2.1, .ok x) ∧
      ∃ written left, (written ++ left).Perm fields ∧ written.length = 2 ∧
        Sifts .alone a 0 (Doubled.source, []) fields written left now.1 := by
  intro m a fields record now x
  have hdone : now.2.2 = .ok x := by decide +kernel
  have happly : a.apply .alone (Doubled.source, []) record = (now.1, now.2.1, .ok x) :=
    Prod.ext rfl (Prod.ext rfl hdone)
  obtain ⟨written, left, hperm, happlied, -, hsifts, -, -⟩ := counts_of_apply happly
  exact ⟨happly, written, left, hperm, happlied.symm, hsifts 0 rfl rfl⟩

/-- A deletion comes with a field, which is not counted. -/
theorem not_counted_deletion :
    ¬ ∀ (σ : Type) (host : TableHost σ) (s s' : σ) (a a' : Applier) (record : Record) (x : Applied),
      a.apply host s record = (s', a', .ok x) →
        x.applied + x.skipped = record.fields.length + record.skipped := by
  intro h
  have hcounted := h _ .alone (Doubled.source, []) _ { replica := ⟨[(4, 0)]⟩, fields := ⟨[("a", 1)], [(1, "a")]⟩ } _
    ⟨.delete, 4, [(1, .varint 1)], 0⟩ { localRow? := some 0 } rfl
  exact absurd hcounted (by decide)

end Applier

end LiveTables
