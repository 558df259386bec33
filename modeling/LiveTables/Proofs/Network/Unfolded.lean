import LiveTables.Proofs.Network.Registering

/-!
# Computed columns are what they are written out

A computed column of a table, stored or joined, reads as the expression that it is when it is written out down to the
columns that are not computed, over what these show in the row now. Reading it ends, because what is read on the way was
registered before; and it does not matter whether it was registered before the row came and its cells were written, or
afterwards (`reads_unfolded`).
-/

namespace LiveTables

open Network World

namespace Network

variable {net : Network} {n row : Nat} {content : Content} {id : String}

/-- In a row that is there, a column is read through the computed columns. -/
theorem Ordered.exists_stored (h : net.Ordered) (hcontent : net.content? n = some content)
    (hrow : row ∈ (net.shown n).rows) :
    ∃ stored, ∀ id, (net.shown n).get id row = content.computed.read stored id := by
  cases content with
  | stored t =>
    rw [shown, see_stored (table?_eq_some_iff.2 hcontent)] at hrow ⊢
    exact ⟨t.stored row, fun id => Table.get_of_live hrow⟩
  | joined j =>
    rw [shown, h.see_joined (joined?_eq_some_iff.2 hcontent)] at hrow ⊢
    exact ⟨_, fun id => JoinedTable.get_of_mem hrow⟩

/-- A known column shows the value of what it is when written out, over what other columns show. -/
theorem Kinded.get_eq_eval (h : net.Kinded) (hcontent : net.content? n = some content)
    (hrow : row ∈ (net.shown n).rows) (hid : content.computed.kind? content.sourceKind? id ≠ none) :
    (net.shown n).get id row = (content.computed.unfold id).eval fun s => (net.shown n).get s row := by
  obtain ⟨stored, hget⟩ := h.regular.orderly.ordered.exists_stored hcontent hrow
  rw [hget, Computed.read_eq_eval]
  refine Expression.eval_congr fun s hs => ?_
  rw [hget, Computed.read_eq_stored ((h.layered hcontent).of_mem_columns hid s hs).1]

end Network

/-! ## Sums

A table has the columns `p` and `q`, computed from its column `a`, and the join of it with another table the column `r`,
computed from all of these.
-/

namespace Sums

open Chain (withTable schema nobody)

/-- The sum of integers. -/
def sum (vs : List Value) : Value :=
  .int32 (vs.foldl (fun n v => match v with | .int32 m => n + m | _ => n) 0)

/-- A column that adds others up. -/
def total (id : String) (dependencies : List String) : ComputedColumn where
  id := id
  kind := .int32
  dependencies := dependencies
  compute := sum

/-- A column that says that it computes an integer, and does not. -/
def wrong : ComputedColumn where
  id := "x"
  kind := .int32
  dependencies := ["r"]
  compute _ := .string ""

/-- Two stored tables, which are held. -/
def tables : Network := withTable (withTable {} (schema "b" "a")) (schema "u" "uk")

/-- Tables are joined and columns registered. -/
def calls : List Call :=
  [.addComputed 0 (total "p" ["a", "a"]), .addRow 0, .addComputed 0 (total "q" ["p", "a"]),
    .join 0 1 { kind := .leftOuter, leftKey := "a", rightKey := "uk", name? := some "n" }]

/-- Columns of the joined table are registered, which is held, and a cell is written. -/
def later : List Call :=
  [.addComputed 2 (total "r" ["q", "uk", "p"]), .setValue 0 "a" 0 (.int32 1), .addComputed 2 wrong]

/-- The world in the end. -/
def world? : Option (World Unit) := do
  let w ← Call.performAll nobody 9 { network := tables, outside := () } calls
  Call.performAll nobody 9 (w.modifyNetwork (·.hold 2)) later

theorem arises_world {w : World Unit} (h : world? = some w) : Arises nobody w := by
  have htables : Network.Quietly {} tables := .hold (.insert _ (.hold (.insert _ .refl)))
  rw [world?, Option.bind_eq_bind, Option.bind_eq_some_iff] at h
  obtain ⟨w₁, hcalls, hlater⟩ := h
  exact Arises.performAll (.quietly (Arises.performAll (.quietly (.start ()) htables) hcalls) (.hold .refl)) hlater

theorem acts_nobody (P : Network → Prop) : nobody.ActsWhere P := fun _ _ _ => ⟨fun _ _ => .refl, fun _ _ => .refl⟩

theorem passive_nobody : nobody.Passive := fun _ _ => ⟨fun _ _ => rfl, fun _ _ => rfl⟩

/-- The columns `r` and `x` as the joined table shows them in its row. -/
def cells (view : TableView) : List (Option Value) := ["r", "x"].map fun id => (view.get id 0).toOption

/-- The joined table has two computed columns, and no table has more; nothing is left that nobody holds; and the joined
table shows five in `r` in its only row, and nothing in `x`. -/
def checks (net : Network) : Bool :=
  (net.content? 2).map (·.computed.ids) = some ["r", "x"] && net.nodes.all (·.content.computed.size ≤ 2) &&
    (living net.held net.nodes []).length = net.nodes.length &&
    (net.view? 2).map (fun view => (view.rows, cells view)) = some ([0], [some (.int32 5), none])

theorem exists_world : ∃ w content view, world? = some w ∧ w.network.content? 2 = some content ∧
    content.computed.ids = ["r", "x"] ∧
    (∀ m content, w.network.content? m = some content → content.computed.size ≤ 2) ∧ w.network.Steady ∧
    w.network.view? 2 = some view ∧ view.rows = [0] ∧ view.get "r" 0 = .ok (.int32 5) ∧
    ∃ error, view.get "x" 0 = .error error := by
  have hall : world?.any (fun w => checks w.network) = true := by decide +kernel
  simp only [Option.any_eq_true, checks, Bool.and_eq_true, decide_eq_true_eq, List.all_eq_true] at hall
  obtain ⟨w, hw, ⟨⟨hids, hsizes⟩, hsteady⟩, hcells⟩ := hall
  obtain ⟨content, hcontent, hids⟩ := Option.map_eq_some_iff.1 hids
  obtain ⟨view, hview, hcells⟩ := Option.map_eq_some_iff.1 hcells
  obtain ⟨hrows, hcells⟩ := Prod.mk.inj hcells
  simp only [cells, List.map_cons, List.cons.injEq] at hcells
  refine ⟨w, content, view, hw, hcontent, hids, fun m content hm => ?_, hsteady, hview, hrows,
    Except.eq_ok_of_toOption hcells.1, ?_⟩
  · obtain ⟨x, hx, rfl⟩ := content?_eq_some_iff.1 hm
    exact hsizes x (node?_eq_some hx).1
  · rcases hx : view.get "x" 0 with error | v
    · exact ⟨error, rfl⟩
    · rw [hx] at hcells
      cases hcells.2.1

end Sums

/-! ## The result -/

/-- In every table of a network that arises by calls, whatever computed columns compute:

* each computed column depends on columns that are not computed, and on columns that were registered before it;
* to read a cell not more reads are nested than the tables up to this one have computed columns at most, and one more
  each, so that reading ends, with what the table shows;
* a computed column, written out by way of its dependencies down to columns that are not computed, is an expression of
  which the column shows the value in each row, over what those columns show there; if there is an error, it is the first
  one when the steps of the expression are taken in order.

And if the observers only watch, and nothing is left that nobody holds, rows and cells that are written and columns that
are registered, in whatever order, leave the network as if all columns had been registered first. -/
theorem reads_unfolded {ω : Type} {o : Outside ω} {w : World ω} (ho : o.ActsWhere Network.Typed) (h : Arises o w) :
    (∀ n content, w.network.content? n = some content → ∃ view, w.network.view? n = some view ∧
      (∀ before col after, content.computed.toList = before ++ col :: after →
        ∀ d ∈ col.dependencies, content.sourceKind? d ≠ none ∨ d ∈ before.map (·.id)) ∧
      (∀ most, (∀ m content, w.network.content? m = some content → content.computed.size ≤ most) →
        ∀ id row depth, (n + 1) * (most + 1) ≤ depth →
          w.network.readWithin depth n id row = ended (view.get id row)) ∧
      ∀ id col, content.computed.column? id = some col →
        content.computed.unfold id = .apply col.kind col.compute (col.dependencies.map content.computed.unfold) ∧
        (∀ s ∈ (content.computed.unfold id).columns,
          content.computed.column? s = none ∧ content.sourceKind? s ≠ none) ∧
        ∀ row ∈ view.rows, view.get id row = (content.computed.unfold id).eval (view.get · row) ∧
          ∀ error, view.get id row = .error error ↔
            ∃ before step after, (content.computed.unfold id).steps = before ++ step :: after ∧
              (∀ earlier ∈ before, ∃ v, earlier.eval (view.get · row) = .ok v) ∧
              step.eval (view.get · row) = .error error) ∧
    (o.Passive → w.network.sweep = w.network → ∀ depth calls, (∀ call ∈ calls, call.Plain) →
      (Call.tryAll o depth w calls).network =
        (Call.tryAll o depth w (calls.filter (·.registers) ++ calls.filter (!·.registers))).network) := by
  have hstep {net net' : Network} (h : net.Tight) (hchanges : net.Changes net') := h.changes hchanges
  have hacts : o.ActsWhere Network.Tight := ho.mono fun _ h => h.kinded.typed
  have htight : w.network.Tight := h.keeps hstep .empty (hacts.keeps hstep)
  have hordered := htight.kinded.regular.orderly.ordered
  refine ⟨fun n content hcontent => ?_, fun hpassive hsweep depth calls hplain =>
    network_tryAll hpassive htight (steady_of_sweep hsweep) hplain depth⟩
  have hlayered := htight.kinded.layered hcontent
  have hn : w.network.content? n ≠ none := by simp [hcontent]
  refine ⟨_, hordered.view?_eq hn, fun before col after hlist d hd => hlayered.earlier hlist hd,
    fun most hmost id row depth hdepth => htight.kinded.readWithin_eq hmost hn hdepth, fun id col hcol => ?_⟩
  have hknown : content.computed.kind? content.sourceKind? id ≠ none := by simp [Computed.kind?_of_column? hcol]
  have hcolumns := hlayered.of_mem_columns hknown
  refine ⟨hlayered.unfold_eq hcol, hcolumns, fun row hrow => ?_⟩
  have hget := htight.kinded.get_eq_eval hcontent hrow hknown
  refine ⟨hget, fun error => ?_⟩
  rw [hget]
  exact Expression.eval_eq_error_iff

/-- The join shows the sum, which is what `r` comes to when it is written out, and is read in a few reads. A column that
adds to it may be registered after a cell is written and a row added, or before. In `x` there is an error, in the last
step or before. -/
theorem reads_unfolded_sums : ∃ w content view, Sums.world? = some w ∧ w.network.content? 2 = some content ∧
    w.network.view? 2 = some view ∧ w.network.readWithin 9 2 "r" 0 = ended (.ok (.int32 5)) ∧
    (content.computed.unfold "r").eval (view.get · 0) = .ok (.int32 5) ∧
    (∃ error before step after, (content.computed.unfold "x").steps = before ++ step :: after ∧
      (∀ earlier ∈ before, ∃ v, earlier.eval (view.get · 0) = .ok v) ∧ step.eval (view.get · 0) = .error error) ∧
    ∀ depth, (Call.tryAll Chain.nobody depth w
        [.setValue 0 "a" 0 (.int32 2), .addRow 0, .addComputed 2 (Sums.total "s" ["r"])]).network =
      (Call.tryAll Chain.nobody depth w
        [.addComputed 2 (Sums.total "s" ["r"]), .setValue 0 "a" 0 (.int32 2), .addRow 0]).network := by
  obtain ⟨w, content, view, hw, hcontent, hids, hmost, hsteady, hview, hrows, hr, error, hx⟩ := Sums.exists_world
  obtain ⟨hall, horder⟩ := reads_unfolded (Sums.acts_nobody _) (Sums.arises_world hw)
  obtain ⟨view', hview', -, hends, hcolumns⟩ := hall 2 content hcontent
  obtain rfl := Option.some.inj (hview.symm.trans hview')
  have hrow : 0 ∈ view.rows := by simp [hrows]
  obtain ⟨r, hrcol⟩ := Computed.exists_column?_of_mem_ids (show "r" ∈ content.computed.ids by simp [hids])
  obtain ⟨x, hxcol⟩ := Computed.exists_column?_of_mem_ids (show "x" ∈ content.computed.ids by simp [hids])
  refine ⟨w, content, view, hw, hcontent, hview, (hends 2 hmost "r" 0 9 (by decide)).trans (congrArg ended hr),
    ((hcolumns "r" r hrcol).2.2 0 hrow).1.symm.trans hr,
    ⟨error, (((hcolumns "x" x hxcol).2.2 0 hrow).2 error).1 hx⟩, fun depth => ?_⟩
  refine horder Sums.passive_nobody (Steady.sweep_eq hsteady) depth _ fun call hcall => ?_
  simp only [List.mem_cons, List.not_mem_nil, or_false] at hcall
  rcases hcall with rfl | rfl | rfl
  · exact .inr trivial
  · exact .inr trivial
  · exact .inl rfl

end LiveTables
