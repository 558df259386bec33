import LiveTables.Proofs.Computed.Unfold
import LiveTables.Proofs.Network.Typed

/-!
# Reading ends

To read a computed column a table reads the dependencies in the same row, in the same way, and a joined table reads the
rows of its sources. Nothing in this keeps count of how deep the reads are nested. Here they are counted: `readWithin`
reads literally like that, and gives up where reads are nested deeper than allowed.

It never has to give up if as many reads may be nested as there are computed columns in the tables below
(`Kinded.readWithin_eq`), because a dependency was registered before the column (`Layered.rank_lt`) and a source is older
than the joined table.
-/

namespace LiveTables

open Network

variable {net : Network} {n row depth : Nat} {id : String}

/-- A read that ended. -/
def ended {α : Type} (r : Except TableError α) : ExceptT TableError Option α := .mk (some r)

/-- Reads that end one by one end together. -/
theorem mapM_ended {α β : Type} {xs : List α} {f : α → ExceptT TableError Option β} {g : α → Except TableError β}
    (h : ∀ x ∈ xs, f x = ended (g x)) : xs.mapM f = ended (xs.mapM g) := by
  induction xs with
  | nil => rfl
  | cons x xs ih =>
    obtain ⟨hx, hxs⟩ := List.forall_mem_cons.1 h
    rw [List.mapM_cons, List.mapM_cons, hx, ih hxs]
    rcases g x with e | b
    · rfl
    · rcases xs.mapM g with e | bs
      · rfl
      · rfl

namespace ComputedColumn

variable {c : ComputedColumn}

/-- Computes the value of a row by reads that need not end. -/
def evaluateWithin (c : ComputedColumn) (read : String → ExceptT TableError Option Value) :
    ExceptT TableError Option Value := do
  ended ((c.compute (← c.dependencies.mapM read)).readAs c.kind)

theorem evaluateWithin_eq {read : String → ExceptT TableError Option Value} {read' : String → Except TableError Value}
    (h : ∀ d ∈ c.dependencies, read d = ended (read' d)) : c.evaluateWithin read = ended (c.evaluate read') := by
  rw [evaluateWithin, mapM_ended h, evaluate]
  rcases c.dependencies.mapM read' with e | vs
  · rfl
  · rfl

end ComputedColumn

/-! ## What tables have in common -/

namespace Content

/-- The computed columns of a table. -/
def computed : Content → Computed
  | .stored t => t.computed
  | .joined j => j.computed

/-- The kind of a column that is not computed: a stored one, or one of a source. -/
def sourceKind? : Content → String → Option Kind
  | .stored t => t.storedKind?
  | .joined j => j.sourceKind?

end Content

namespace Network

/-- Reads a cell of a table. Computed columns and joined tables read others on the way; not more reads than a given
number may be nested. -/
def readWithin (net : Network) : (depth n : Nat) → (id : String) → (row : Nat) → ExceptT TableError Option Value
  | 0, _, _, _ => .mk none
  | depth + 1, n, id, row =>
    match net.content? n with
    | none => .mk none
    | some (.stored t) =>
      if t.isLive row then
        match t.column? id with
        | some _ => ended (t.stored row id)
        | none =>
          match t.computed.column? id with
          | some c => c.evaluateWithin fun d => readWithin net depth n d row
          | none => ended (.error (.columnNotFound t.name id))
      else ended (.error (.rowNotFound t.name row))
    | some (.joined j) =>
      if j.engine.contains row then
        match j.column? id with
        | some (side, kind) =>
          match j.engine.sourceRow? side row with
          | some r => readWithin net depth (j.source side) id r
          | none => ended ((j.gap id kind).readAs kind)
        | none =>
          match j.computed.column? id with
          | some c => c.evaluateWithin fun d => readWithin net depth n d row
          | none => ended (.error (.columnNotFound j.name id))
      else ended (.error (.rowNotFound j.name row))

variable {content : Content} {t : Table} {j : JoinedTable} {most : Nat}

namespace Kinded

theorem layered (h : net.Kinded) (hcontent : net.content? n = some content) :
    Layered content.sourceKind? content.computed.newestFirst := by
  cases content with
  | stored t => exact (h.regular.tables n t (table?_eq_some_iff.2 hcontent)).layered
  | joined j => exact h.layers n j (joined?_eq_some_iff.2 hcontent)

/-- A cell of a stored table is read in as many reads as the place of its column in the order of registration. -/
theorem readWithin_stored (h : net.Kinded) (ht : net.table? n = some t) (hdepth : t.computed.rank id < depth) :
    net.readWithin depth n id row = ended (t.get id row) := by
  have hlayered := (h.regular.tables n t ht).layered
  induction depth generalizing id with
  | zero => exact absurd hdepth (Nat.not_lt_zero _)
  | succ depth ih =>
    rw [readWithin, content?_of_table? ht, Table.get]
    dsimp only
    split_ifs with hlive
    · rcases hcol : t.computed.column? id with - | col
      · rw [Computed.read_eq_stored hcol, Table.stored]
        rcases t.column? id with - | c
        · rfl
        · rfl
      · have hstored : t.column? id = none := by
          simpa [Table.storedKind?] using hlayered.kindOf_eq_none hcol
        simp only [hstored]
        rw [hlayered.read_eq_evaluate hcol]
        refine ComputedColumn.evaluateWithin_eq fun d hd => ?_
        rw [ih (Nat.lt_of_lt_of_le (hlayered.rank_lt hcol hd) (Nat.le_of_lt_succ hdepth)), Table.get, if_pos hlive]
    · rfl

/-- So is a cell of a joined table, if the cells of the sources are read in the reads that are left. -/
theorem readWithin_joined {below : Nat} {source : Side → TableView} (h : net.Kinded) (hj : net.joined? n = some j)
    (hsource : ∀ s id row depth, below < depth → net.readWithin depth (j.source s) id row = ended ((source s).get id row))
    (hdepth : below + 1 + j.computed.rank id < depth) :
    net.readWithin depth n id row = ended (j.get source id row) := by
  have hlayers := h.layers n j hj
  have hlayered : Layered j.sourceKind? j.computed.newestFirst := hlayers
  induction depth generalizing id with
  | zero => exact absurd hdepth (Nat.not_lt_zero _)
  | succ depth ih =>
    rw [readWithin, content?_of_joined? hj, JoinedTable.get]
    dsimp only
    split_ifs with hlive
    · rcases hcol : j.computed.column? id with - | col
      · rw [Computed.read_eq_stored hcol, JoinedTable.stored]
        rcases j.column? id with - | ⟨side, kind⟩
        · rfl
        · dsimp only
          rcases j.engine.sourceRow? side row with - | r
          · rfl
          · exact hsource side id r depth (by omega)
      · simp only [hlayers.column?_eq_none hcol]
        rw [hlayered.read_eq_evaluate hcol]
        refine ComputedColumn.evaluateWithin_eq fun d hd => ?_
        have hlt := hlayered.rank_lt hcol hd
        rw [ih (by omega), JoinedTable.get, if_pos hlive]
    · rfl

/-- A cell is read in at most one read for each computed column and one more, in each table below. -/
theorem readWithin_eq (h : net.Kinded) (hmost : ∀ m content, net.content? m = some content → content.computed.size ≤ most)
    (hn : net.content? n ≠ none) (hdepth : (n + 1) * (most + 1) ≤ depth) :
    net.readWithin depth n id row = ended ((net.shown n).get id row) := by
  have ho := h.regular.orderly.ordered
  refine ho.induction (motive := fun n => ∀ id row depth, (n + 1) * (most + 1) ≤ depth →
    net.readWithin depth n id row = ended ((net.shown n).get id row)) (fun n t ht id row depth hdepth => ?_)
    (fun n j hj ih id row depth hdepth => ?_) n hn id row depth hdepth
  · have hrank : t.computed.rank id ≤ most :=
      (t.computed.rank_le_size id).trans (hmost n _ (content?_of_table? ht))
    have hone : most + 1 ≤ (n + 1) * (most + 1) := Nat.le_mul_of_pos_left _ (Nat.succ_pos n)
    rw [h.readWithin_stored ht (by omega), shown, see_stored ht]
    rfl
  · have hrank : j.computed.rank id ≤ most :=
      (j.computed.rank_le_size id).trans (hmost n _ (content?_of_joined? hj))
    -- all that is below may be read in `n * (most + 1)` reads, for the sources are older
    have hbelow (s : Side) (id : String) (row depth : Nat) (hd : n * (most + 1) - 1 < depth) :
        net.readWithin depth (j.source s) id row = ended ((net.shown (j.source s)).get id row) := by
      have hlt : (j.source s + 1) * (most + 1) ≤ n * (most + 1) := Nat.mul_le_mul_right _ (ho.source hj s).1
      exact ih s id row depth (by omega)
    have hpositive : 0 < n * (most + 1) :=
      Nat.mul_pos (Nat.lt_of_le_of_lt (Nat.zero_le _) (ho.source hj .left).1) (Nat.succ_pos most)
    have hsucc : (n + 1) * (most + 1) = n * (most + 1) + (most + 1) := Nat.succ_mul _ _
    rw [h.readWithin_joined hj hbelow (by omega), shown, ho.see_joined hj]
    rfl

end Kinded

end Network

end LiveTables
