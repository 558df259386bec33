import LiveTables.Proofs.Change.Image
import LiveTables.Proofs.Data.Lookup
import LiveTables.Proofs.Table.Operations
import LiveTables.Replica.Basic

/-!
# Replicas mirror images

A replica of a table that nobody else writes mirrors an image (`Replica.Mirrors`): its rows are those of the
image, each with a live local row of its own, and the stored cells of that row are the cells of the image. A
change that can be written (`Change.Suits`) is applied without an error, makes of the replica and its table what
`Replica.after` says, and turns the image as it should (`Replica.Mirrors.applyChange`); so do batches
(`Replica.Mirrors.applyBatches`).
-/

namespace LiveTables

/-- The cells of a row that was just added. -/
def Table.defaults (t : Table) : Cells := fun id => (t.spec? id).map (·.default)

/-- A change that can be written: what is updated is a stored column, with a value of its kind. -/
def Change.Suits (kindOf : String → Option Kind) : Change → Prop
  | .update _ column value => kindOf column = some value.kind
  | _ => True

instance (kindOf : String → Option Kind) : DecidablePred (Change.Suits kindOf)
  | .update _ column value => inferInstanceAs (Decidable (kindOf column = some value.kind))
  | .add _ | .delete _ => isTrue trivial

theorem Change.Suits.mono {kindOf kindOf' : String → Option Kind} {c : Change} (h : c.Suits kindOf)
    (hkinds : ∀ id k, kindOf id = some k → kindOf' id = some k) : c.Suits kindOf' := by
  cases c with
  | update row column value => exact hkinds _ _ h
  | add | delete => trivial

namespace Replica

variable {base t t' : Table} {i : Image} {r r' : Replica} {remote row : Nat}

/-- What a replica shows of the remote rows that it has. -/
def image (r : Replica) (t : Table) : Image := fun remote =>
  (r.localRow? remote).map fun row column => (t.stored row column).toOption

/-- A replica whose table is like `base` and shows the rows and cells of an image. -/
structure Mirrors (base : Table) (i : Image) (r : Replica) (t : Table) : Prop where
  formed : t.WellFormed
  alike : base.Alike t
  remotes : (r.rows.map (·.1)).Nodup
  locals : (r.rows.map (·.2)).Nodup
  live : ∀ e ∈ r.rows, e.2 ∈ t.rows
  image : r.image t = i

/-- A replica without rows, on any table. -/
theorem mirrors_empty (h : t.WellFormed) : Mirrors t (fun _ => none) {} t where
  formed := h
  alike := .refl t
  remotes := List.nodup_nil
  locals := List.nodup_nil
  live := by simp
  image := rfl

/-- A remote row shows the same if its local row does. -/
theorem image_eq (hrow : r'.localRow? remote = r.localRow? remote)
    (hstored : ∀ row, r.localRow? remote = some row → ∀ c, t'.stored row c = t.stored row c) :
    r'.image t' remote = r.image t remote := by
  unfold image
  rw [hrow]
  rcases hlocal : r.localRow? remote with - | row
  · rfl
  · simp only [Option.map_some, hstored row hlocal]

/-! ### What a change makes of a replica -/

/-- The replica and its table after a change that can be written. -/
def after : Replica × Table → Change → Replica × Table
  | (r, t), .add remote =>
    match r.localRow? remote with
    | none => ({ rows := (remote, t.live.size) :: r.rows }, t.addRow.1)
    | some _ => (r, t)
  | (r, t), .update remote column value =>
    match r.localRow? remote with
    | none => (r, t)
    | some row => (r, t.write column row value)
  | (r, t), .delete remote =>
    match r.localRow? remote with
    | none => (r, t)
    | some row => ({ rows := r.rows.filter (·.1 ≠ remote) }, t.remove row)

theorem after_add_of_none (hrow : r.localRow? remote = none) :
    after (r, t) (.add remote) = ({ rows := (remote, t.live.size) :: r.rows }, t.addRow.1) := by
  simp only [after, hrow]

theorem after_add_of_some (hrow : r.localRow? remote = some row) : after (r, t) (.add remote) = (r, t) := by
  simp only [after, hrow]

theorem after_update_of_none {column : String} {value : Value} (hrow : r.localRow? remote = none) :
    after (r, t) (.update remote column value) = (r, t) := by
  simp only [after, hrow]

theorem after_update_of_some {column : String} {value : Value} (hrow : r.localRow? remote = some row) :
    after (r, t) (.update remote column value) = (r, t.write column row value) := by
  simp only [after, hrow]

theorem after_delete_of_none (hrow : r.localRow? remote = none) : after (r, t) (.delete remote) = (r, t) := by
  simp only [after, hrow]

theorem after_delete_of_some (hrow : r.localRow? remote = some row) :
    after (r, t) (.delete remote) = ({ rows := r.rows.filter (·.1 ≠ remote) }, t.remove row) := by
  simp only [after, hrow]

namespace Mirrors

variable (h : Mirrors base i r t)

include h

theorem mem_rows (hrow : r.localRow? remote = some row) : row ∈ t.rows :=
  h.live _ (mem_of_lookup_eq_some hrow)

/-- Different remote rows have different local ones. -/
theorem local_ne {remote' row' : Nat} (hrow : r.localRow? remote = some row)
    (hrow' : r.localRow? remote' = some row') (hne : remote' ≠ remote) : row' ≠ row := by
  rintro rfl
  have heq := List.inj_on_of_nodup_map h.locals (mem_of_lookup_eq_some hrow) (mem_of_lookup_eq_some hrow') rfl
  exact hne (Prod.mk.inj heq).1.symm

theorem image_of_none (hrow : r.localRow? remote = none) : i remote = none := by
  rw [← h.image, Replica.image, hrow, Option.map_none]

theorem image_of_some (hrow : r.localRow? remote = some row) :
    i remote = some fun column => (t.stored row column).toOption := by
  rw [← h.image, Replica.image, hrow, Option.map_some]

/-- The remote rows are the rows of the image. -/
theorem mem_remotes : remote ∈ r.rows.map (·.1) ↔ i remote ≠ none := by
  have hkeys : remote ∈ r.rows.map (·.1) ↔ r.localRow? remote ≠ none := by
    rw [localRow?, ne_eq, lookup_eq_none_iff_not_mem, not_not]
  rw [hkeys, ← h.image, Replica.image, ne_eq, ne_eq, Option.map_eq_none_iff]

/-! ### Changes -/

theorem addRow (hrow : r.localRow? remote = none) :
    Mirrors base (i.apply base.defaults (.add remote)) { rows := (remote, t.live.size) :: r.rows }
      t.addRow.1 where
  formed := h.formed.addRow
  alike := h.alike.trans Table.alike_addRow
  remotes := List.nodup_cons.2 ⟨lookup_eq_none_iff_not_mem.1 hrow, h.remotes⟩
  locals := by
    refine List.nodup_cons.2 ⟨fun hmem => ?_, h.locals⟩
    obtain ⟨e, he, heq⟩ := List.mem_map.1 hmem
    have hlt : e.2 < t.live.size := Table.lt_of_mem_rows (h.live e he)
    exact Nat.ne_of_lt hlt heq
  live := by
    intro e he
    rcases List.mem_cons.1 he with rfl | he
    · exact Table.mem_rows_addRow.2 (.inr rfl)
    · exact Table.mem_rows_addRow.2 (.inl (h.live e he))
  image := by
    funext remote'
    by_cases hremote : remote' = remote
    · subst hremote
      have hself := Image.apply_self base.defaults i (.add remote')
      rw [Change.row, h.image_of_none hrow] at hself
      rw [hself, Replica.image, localRow?, lookup_cons, if_pos rfl, Option.map_some]
      congr 1
      funext column
      rw [h.formed.stored_addRow_self, h.alike.spec?]
      rfl
    · rw [Image.apply_of_ne (show remote' ≠ (Change.add remote).row from hremote), ← h.image]
      refine image_eq ?_ fun row' hrow' => h.formed.stored_addRow (h.mem_rows hrow')
      rw [localRow?, lookup_cons, if_neg hremote, localRow?]

theorem write {column : String} {value : Value} (hrow : r.localRow? remote = some row)
    (hkind : base.storedKind? column = some value.kind) :
    Mirrors base (i.apply base.defaults (.update remote column value)) r (t.write column row value) where
  formed := h.formed.write (h.alike.storedKind? ▸ hkind) row
  alike := h.alike.trans Table.alike_write
  remotes := h.remotes
  locals := h.locals
  live := h.live
  image := by
    funext remote'
    by_cases hremote : remote' = remote
    · subst hremote
      have hself := Image.apply_self base.defaults i (.update remote' column value)
      rw [Change.row, h.image_of_some hrow] at hself
      rw [hself, Replica.image, hrow, Option.map_some, Change.effect, Option.map_some]
      congr 1
      funext column'
      by_cases hcolumn : column' = column
      · subst hcolumn
        rw [Function.update_self, h.formed.stored_write_self (h.mem_rows hrow) (h.alike.storedKind? ▸ hkind)]
        rfl
      · rw [Function.update_of_ne hcolumn, Table.stored_write_of_ne hcolumn]
    · rw [Image.apply_of_ne (show remote' ≠ (Change.update remote column value).row from hremote), ← h.image]
      exact image_eq rfl fun row' hrow' => Table.stored_write (h.local_ne hrow hrow' hremote)

theorem remove (hrow : r.localRow? remote = some row) :
    Mirrors base (i.apply base.defaults (.delete remote)) { rows := r.rows.filter (·.1 ≠ remote) }
      (t.remove row) where
  formed := h.formed.remove (h.mem_rows hrow)
  alike := h.alike.trans Table.alike_remove
  remotes := h.remotes.sublist (List.filter_sublist.map _)
  locals := h.locals.sublist (List.filter_sublist.map _)
  live := by
    intro e he
    obtain ⟨he, hremote⟩ := List.mem_filter.1 he
    have hlocal : r.localRow? e.1 = some e.2 := (lookup_eq_some_iff_mem h.remotes).2 he
    exact Table.mem_rows_remove.2 ⟨h.live e he, h.local_ne hrow hlocal (by simpa using hremote)⟩
  image := by
    funext remote'
    by_cases hremote : remote' = remote
    · subst hremote
      have hself := Image.apply_self base.defaults i (.delete remote')
      rw [Change.row] at hself
      rw [hself, Replica.image, localRow?, lookup_filter_ne, if_pos rfl]
      rfl
    · rw [Image.apply_of_ne (show remote' ≠ (Change.delete remote).row from hremote), ← h.image]
      refine image_eq ?_ fun row' hrow' => Table.stored_remove (h.local_ne hrow hrow' hremote)
      rw [localRow?, lookup_filter_ne, if_neg hremote, localRow?]

/-- A change of a row that is not there, or an addition of one that is, changes nothing. -/
theorem apply_of_none {c : Change} (hrow : r.localRow? c.row = none) (hadd : ∀ remote, c ≠ .add remote) :
    i.apply base.defaults c = i := by
  have hnone := h.image_of_none hrow
  have heffect : c.effect base.defaults (i c.row) = i c.row := by
    rw [hnone]
    cases c with
    | add remote => exact absurd rfl (hadd remote)
    | update | delete => rfl
  rw [Image.apply, heffect, Function.update_eq_self]

theorem apply_add_of_some (hrow : r.localRow? remote = some row) :
    i.apply base.defaults (.add remote) = i := by
  have heffect : (Change.add remote).effect base.defaults (i remote) = i remote := by
    rw [h.image_of_some hrow]
    rfl
  rw [Image.apply, Change.row, heffect, Function.update_eq_self]

/-- A change that can be written turns the image as it should. -/
theorem after {c : Change} (hc : c.Suits base.storedKind?) :
    Mirrors base (i.apply base.defaults c) (after (r, t) c).1 (after (r, t) c).2 := by
  cases c with
  | add remote =>
    rcases hrow : r.localRow? remote with - | row
    · rw [after_add_of_none hrow]
      exact h.addRow hrow
    · rw [after_add_of_some hrow, h.apply_add_of_some hrow]
      exact h
  | update remote column value =>
    rcases hrow : r.localRow? remote with - | row
    · rw [after_update_of_none hrow, h.apply_of_none (c := .update remote column value) hrow (by simp)]
      exact h
    · rw [after_update_of_some hrow]
      exact h.write hrow hc
  | delete remote =>
    rcases hrow : r.localRow? remote with - | row
    · rw [after_delete_of_none hrow, h.apply_of_none (c := .delete remote) hrow (by simp)]
      exact h
    · rw [after_delete_of_some hrow]
      exact h.remove hrow

/-- A change that can be written is applied without an error. -/
theorem applyChange_eq_after {c : Change} (signals : List Signal) (hc : c.Suits base.storedKind?) :
    ∃ signals' hit, r.applyChange .alone (t, signals) c =
      (((Replica.after (r, t) c).2, signals'), (Replica.after (r, t) c).1, .ok hit) := by
  cases c with
  | add remote =>
    rcases hrow : r.localRow? remote with - | row
    · refine ⟨signals ++ t.addRow.2.2, true, ?_⟩
      rw [after_add_of_none hrow]
      simp only [Replica.applyChange, add, hrow]
      rfl
    · refine ⟨signals, true, ?_⟩
      rw [after_add_of_some hrow]
      simp only [Replica.applyChange, add, hrow]
  | update remote column value =>
    rcases hrow : r.localRow? remote with - | row
    · refine ⟨signals, false, ?_⟩
      rw [after_update_of_none hrow]
      simp only [Replica.applyChange, update, hrow]
    · obtain ⟨written, hset⟩ :=
        Table.setValue_ok h.formed (h.mem_rows hrow) (h.alike.storedKind? ▸ hc)
      refine ⟨signals ++ written, true, ?_⟩
      rw [after_update_of_some hrow]
      simp only [Replica.applyChange, update, hrow, TableHost.alone, hset]
  | delete remote =>
    rcases hrow : r.localRow? remote with - | row
    · refine ⟨signals, false, ?_⟩
      rw [after_delete_of_none hrow]
      simp only [Replica.applyChange, delete, hrow]
    · have hdelete := Table.deleteRow_ok (h.mem_rows hrow)
      refine ⟨signals ++ [.event (.deleted row)], true, ?_⟩
      rw [after_delete_of_some hrow]
      simp only [Replica.applyChange, delete, hrow, TableHost.alone, hdelete]

/-- A change that can be written is applied. -/
theorem applyChange {c : Change} (signals : List Signal) (hc : c.Suits base.storedKind?) :
    ∃ t' signals' r' hit, r.applyChange .alone (t, signals) c = ((t', signals'), r', .ok hit) ∧
      Mirrors base (i.apply base.defaults c) r' t' := by
  obtain ⟨signals', hit, happly⟩ := h.applyChange_eq_after signals hc
  exact ⟨_, signals', _, hit, happly, h.after hc⟩

/-- Changes that can be written turn the image one after the other. -/
theorem foldl_after {changes : List Change} (hall : ∀ c ∈ changes, c.Suits base.storedKind?) :
    Mirrors base (i.applyAll base.defaults changes) (changes.foldl Replica.after (r, t)).1
      (changes.foldl Replica.after (r, t)).2 := by
  induction changes generalizing i r t with
  | nil => exact h
  | cons c changes ih =>
    obtain ⟨hc, hrest⟩ := List.forall_mem_cons.1 hall
    exact ih (h.after hc) hrest

/-- Changes that can be written are applied without an error. -/
theorem applyBatch_eq_after {changes : List Change} (signals : List Signal)
    (hall : ∀ c ∈ changes, c.Suits base.storedKind?) :
    ∃ signals' count, r.applyBatch .alone (t, signals) changes =
      (((changes.foldl Replica.after (r, t)).2, signals'), (changes.foldl Replica.after (r, t)).1, .ok count) := by
  induction changes generalizing i r t signals with
  | nil => exact ⟨signals, 0, rfl⟩
  | cons c changes ih =>
    obtain ⟨hc, hrest⟩ := List.forall_mem_cons.1 hall
    obtain ⟨signals₁, hit, happly⟩ := h.applyChange_eq_after signals hc
    obtain ⟨signals₂, count, hbatch⟩ := ih (h.after hc) signals₁ hrest
    refine ⟨signals₂, if hit then count + 1 else count, ?_⟩
    rw [Replica.applyBatch, happly]
    simp only [hbatch]
    rfl

/-- Changes that can be written are applied. -/
theorem applyBatch {changes : List Change} (signals : List Signal)
    (hall : ∀ c ∈ changes, c.Suits base.storedKind?) :
    ∃ t' signals' r' count, r.applyBatch .alone (t, signals) changes = ((t', signals'), r', .ok count) ∧
      Mirrors base (i.applyAll base.defaults changes) r' t' := by
  obtain ⟨signals', count, hbatch⟩ := h.applyBatch_eq_after signals hall
  exact ⟨_, signals', _, count, hbatch, h.foldl_after hall⟩

end Mirrors

/-- Applies batches one after the other, with what became of each. -/
def applyBatches {σ : Type} (host : TableHost σ) :
    σ → Replica → List (List Change) → σ × Replica × List (Except TableError Nat)
  | s, r, [] => (s, r, [])
  | s, r, batch :: rest =>
    let (s, r, result) := r.applyBatch host s batch
    let (s, r, results) := applyBatches host s r rest
    (s, r, result :: results)

/-- Batches of changes that can be written are applied, each without an error. -/
theorem Mirrors.applyBatches {batches : List (List Change)} (h : Mirrors base i r t) (signals : List Signal)
    (hall : ∀ c ∈ batches.flatten, c.Suits base.storedKind?) :
    ∃ t' signals' r', ∃ counts : List Nat,
      r.applyBatches .alone (t, signals) batches = ((t', signals'), r', counts.map .ok) ∧
        Mirrors base (i.applyAll base.defaults batches.flatten) r' t' := by
  induction batches generalizing i r t signals with
  | nil => exact ⟨t, signals, r, [], rfl, h⟩
  | cons batch batches ih =>
    rw [List.flatten_cons, List.forall_mem_append] at hall
    obtain ⟨t₁, signals₁, r₁, count, hbatch, h₁⟩ := h.applyBatch signals hall.1
    obtain ⟨t₂, signals₂, r₂, counts, hbatches, h₂⟩ := ih h₁ signals₁ hall.2
    refine ⟨t₂, signals₂, r₂, count :: counts, ?_, ?_⟩
    · rw [Replica.applyBatches, hbatch]
      simp only [hbatches]
      rfl
    · rw [List.flatten_cons, Image.applyAll_append]
      exact h₂

end Replica

end LiveTables
