import LiveTables.Proofs.Network.Maintained
import LiveTables.Proofs.Network.Regular

/-!
# Cells are of the kinds of their columns

Values come into the cells of a table from outside, and are checked on the way: the defaults of a schema when a column
is added, written values, what computed columns compute and what stands in gaps when it is read. A joined table asks
its sources, and has their columns in the kinds that they have there.

So a network keeps its kinds (`Kinded`) in every single step, whatever is computed and whoever acts, and in such
a network a cell that can be read is of the kind of its column, however deep it is read (`Kinded.typed`).
-/

namespace LiveTables

open Network

variable {net net' : Network} {n row : Nat} {t t' : Table} {j j' : JoinedTable} {source : Side → TableView}
  {id : String} {v : Value}

/-! ## Reading a joined table -/

namespace JoinedTable

section Sources

variable (hsources : ∀ s id kind r v, (id, kind) ∈ j.columns s → (source s).get id r = .ok v → v.kind = kind)

include hsources

/-- A source column shows a cell of the source, or a gap value, whose kind is checked. -/
theorem columnKind_of_stored (hget : j.stored source row id = .ok v) : j.columnKind id = .ok v.kind := by
  rw [stored] at hget
  rcases hc : j.column? id with - | ⟨s, kind⟩
  · rw [hc] at hget
    cases hget
  · rw [hc] at hget
    have hkind : v.kind = kind := by
      dsimp only at hget
      rcases hr : j.engine.sourceRow? s row with - | r
      · rw [hr] at hget
        obtain ⟨hgap, rfl⟩ := Value.readAs_eq_ok.1 hget
        exact hgap
      · rw [hr] at hget
        exact hsources s id kind r v (mem_columns_of_column? hc) hget
    rw [columnKind, hc, hkind]

/-- What is read is of the kind of its column, if the cells of the sources are of theirs. -/
theorem Layers.columnKind_of_get (h : j.Layers) (hget : (j.view source).get id row = .ok v) :
    j.columnKind id = .ok v.kind := by
  change (if j.engine.contains row then _ else _) = _ at hget
  split_ifs at hget
  rcases hcol : j.computed.column? id with - | col
  · rw [Computed.read_eq_stored hcol] at hget
    exact columnKind_of_stored hsources hget
  · rw [h.read_eq_evaluate hcol] at hget
    obtain ⟨vs, -, hkind, rfl⟩ := ComputedColumn.evaluate_eq_ok_iff.1 hget
    rw [h.columnKind_eq_ok, Computed.kind?_of_column? hcol, hkind]

end Sources

end JoinedTable

namespace Network

/-- Every cell that can be read is of the kind of its column. -/
def Typed (net : Network) : Prop :=
  ∀ n view id row v, net.view? n = some view → view.get id row = .ok v → view.columnKind id = .ok v.kind

/-- A network that is in order, and in which joined tables have the columns of their sources in the kinds that they
have there. -/
structure Kinded (net : Network) : Prop where
  regular : net.Regular
  layers : ∀ n j, net.joined? n = some j → j.Layers
  kinds : ∀ n j, net.joined? n = some j →
    ∀ s id kind, (id, kind) ∈ j.columns s → (net.shown (j.source s)).columnKind id = .ok kind

namespace Kinded

/-- Tables are read through each other down to the stored ones, whose cells are of their kinds. -/
theorem typed (h : net.Kinded) : net.Typed := by
  intro n view id row v hview hget
  have ho := h.regular.orderly.ordered
  obtain ⟨hn, rfl⟩ := ho.view?_eq_some_iff.1 hview
  refine ho.induction (motive := fun n => ∀ id row v, (net.shown n).get id row = .ok v →
    (net.shown n).columnKind id = .ok v.kind) (fun n t ht id row v hget => ?_) (fun n j hj ih id row v hget => ?_)
    n hn id row v hget
  · rw [shown, see_stored ht] at hget ⊢
    exact (h.regular.tables n t ht).columnKind_of_get hget
  · rw [ho.columnKind_joined hj]
    rw [shown, ho.see_joined hj, JoinedTable.viewWith_stored] at hget
    refine JoinedTable.Layers.columnKind_of_get (fun s id kind r v hid hcell => ?_) (h.layers n j hj) hget
    have hkind := ih s id r v hcell
    rw [h.kinds n j hj s id kind hid] at hkind
    exact (Except.ok.inj hkind).symm

/-! ## Single steps -/

/-- No table that is left has lost a column or changed the kind of one. -/
theorem of_kinds (net : Network) (hregular : net'.Regular)
    (hkinds : ∀ n, net'.content? n ≠ none →
      ∀ id kind, (net.shown n).columnKind id = .ok kind → (net'.shown n).columnKind id = .ok kind)
    (hjoined : ∀ n j, net'.joined? n = some j → j.Layers ∧
      ∀ s id kind, (id, kind) ∈ j.columns s → (net.shown (j.source s)).columnKind id = .ok kind) : net'.Kinded where
  regular := hregular
  layers n j hj := (hjoined n j hj).1
  kinds n j hj s id kind hid :=
    hkinds _ (hregular.orderly.ordered.source hj s).2 id kind ((hjoined n j hj).2 s id kind hid)

theorem empty : Kinded {} where
  regular := .empty
  layers n j hj := by cases hj
  kinds n j hj := by cases hj

theorem quietly (h : net.Kinded) (hquiet : net.Quietly net') : net'.Kinded := by
  have ho := h.regular.orderly.ordered
  have hretains := hquiet.retains h.regular.orderly
  refine of_kinds net (h.regular.quietly hquiet) (fun n hn id kind hkind => ?_) fun n j hj => ?_
  · obtain ⟨content, hc⟩ := Option.ne_none_iff_exists'.1 hn
    rcases hretains.contents n content hc with hold | ⟨hnew, -⟩
    · rwa [(ho.shown_congr hretains.orderly.ordered (hc.trans hold.symm)).2.2]
    · -- a table that comes had no columns before
      have hnone : net.content? n = none := by
        by_contra hn
        exact absurd (ho.lt_nextId hn) (Nat.not_lt_of_le hnew)
      rw [shown, see_of_none hnone] at hkind
      cases hkind
  · rcases hretains.contents n _ (content?_of_joined? hj) with hold | ⟨-, schema, hnew⟩
    · have hj₀ := joined?_eq_some_iff.2 hold
      exact ⟨h.layers n j hj₀, h.kinds n j hj₀⟩
    · cases hnew

/-- Another table in the place of one, with the columns that this had. -/
theorem setContent {content : Content} (h : net.Kinded) (hregular : (net.setContent n content).Regular)
    (hkinds : ∀ id kind, (net.shown n).columnKind id = .ok kind →
      ((net.setContent n content).shown n).columnKind id = .ok kind)
    (hjoined : ∀ j, (net.setContent n content).joined? n = some j → j.Layers ∧
      ∃ j₀, net.joined? n = some j₀ ∧ j.source = j₀.source ∧ j.columns = j₀.columns) :
    (net.setContent n content).Kinded := by
  have ho := h.regular.orderly.ordered
  refine of_kinds net hregular (fun m _ id kind hkind => ?_) fun m j hj => ?_
  · by_cases hm : m = n
    · subst hm
      exact hkinds id kind hkind
    · rwa [(ho.shown_congr hregular.orderly.ordered (content?_setContent_of_ne hm)).2.2]
  · by_cases hm : m = n
    · subst hm
      obtain ⟨hlayers, j₀, hj₀, hsource, hcolumns⟩ := hjoined j hj
      rw [hsource, hcolumns]
      exact ⟨hlayers, h.kinds m j₀ hj₀⟩
    · have hj₀ : net.joined? m = some j := (joined?_congr (content?_setContent_of_ne hm)).symm.trans hj
      exact ⟨h.layers m j hj₀, h.kinds m j hj₀⟩

theorem setTable (h : net.Kinded) (ht : net.table? n = some t) (hformed : t'.WellFormed)
    (hkinds : ∀ id kind, t.columnKind id = .ok kind → t'.columnKind id = .ok kind) :
    (net.setContent n (.stored t')).Kinded := by
  have hself : (net.setContent n (.stored t')).table? n = some t' :=
    table?_eq_some_iff.2 (content?_setContent_self (by simp [content?_of_table? ht]))
  refine h.setContent (h.regular.setTable ht hformed) (fun id kind hkind => ?_) fun j hj => ?_
  · rw [shown, see_stored ht] at hkind
    rw [shown, see_stored hself]
    exact hkinds id kind hkind
  · exact absurd ((joined?_eq_none_of_table? hself).symm.trans hj) (by simp)

theorem setJoined (h : net.Kinded) (hj : net.joined? n = some j) (hlayers : j'.Layers)
    (hsource : j'.source = j.source) (hcolumns : j'.columns = j.columns)
    (hkinds : ∀ id kind, j.columnKind id = .ok kind → j'.columnKind id = .ok kind) :
    (net.setContent n (.joined j')).Kinded := by
  have hself : (net.setContent n (.joined j')).joined? n = some j' :=
    joined?_eq_some_iff.2 (content?_setContent_self (by simp [content?_of_joined? hj]))
  have hregular := h.regular.setJoined hj hsource
  refine h.setContent hregular (fun id kind hkind => ?_) fun j₁ hj₁ => ?_
  · rw [h.regular.orderly.ordered.columnKind_joined hj] at hkind
    rw [hregular.orderly.ordered.columnKind_joined hself]
    exact hkinds id kind hkind
  · obtain rfl := Option.some.inj (hself.symm.trans hj₁)
    exact ⟨hlayers, j, hj, hsource, hcolumns⟩

theorem edit (h : net.Kinded) (ht : net.table? n = some t) (e : Table.Edit) :
    (net.setContent n (.stored (t.perform e).1)).Kinded := by
  have hformed := h.regular.tables n t ht
  have hturns := Table.turns_perform hformed e
  have hformed' := hturns.wellFormed hformed
  refine h.setTable ht hformed' fun id kind hkind => Except.eq_ok_of_toOption ?_
  rw [hturns.alike.columnKind hformed hformed', hkind]
  rfl

theorem insertJoined {l r : Nat} {left right : TableView} {spec : JoinSpec} (h : net.Kinded)
    (hleft : net.view? l = some left) (hright : net.view? r = some right)
    (hj : JoinedTable.ofSources spec l r left right = .ok j) : (net.insertJoined j).1.Kinded := by
  have ho := h.regular.orderly.ordered
  obtain ⟨hleftSource, rfl⟩ := ho.view?_eq_some_iff.1 hleft
  obtain ⟨hrightSource, rfl⟩ := ho.view?_eq_some_iff.1 hright
  obtain ⟨hbuilt, rfl, rfl, -⟩ := JoinedTable.built_of_sources hj
  have hsources (s : Side) : net.content? (j.source s) ≠ none := by
    cases s with
    | left => exact hleftSource
    | right => exact hrightSource
  have hregular := h.regular.insertJoined hsources
  refine of_kinds net hregular (fun m _ id kind hkind => ?_) fun m j₁ hj₁ => ?_
  · by_cases hm : m = net.nextId
    · rw [hm, shown, see_of_none ho.content?_nextId] at hkind
      cases hkind
    · have hsame : (net.insertJoined j).1.content? m = net.content? m := by rw [content?_insertJoined, if_neg hm]
      rwa [(ho.shown_congr hregular.orderly.ordered hsame).2.2]
  · have hcontent := content?_of_joined? hj₁
    rw [content?_insertJoined] at hcontent
    split_ifs at hcontent
    · obtain rfl := Content.joined.inj (Option.some.inj hcontent)
      refine ⟨?_, fun s id kind hid => ?_⟩
      · rw [JoinedTable.Layers, hbuilt.computed]
        exact .nil
      · have hkind := hbuilt.kinds s id kind hid
        cases s <;> exact hkind
    · have hj₀ := joined?_eq_some_iff.2 hcontent
      exact ⟨h.layers m j₁ hj₀, h.kinds m j₁ hj₀⟩

/-- Kinds are kept, whatever a column computes and whatever stands in the gaps. -/
theorem changes (h : net.Kinded) (hchanges : net.Changes net') : net'.Kinded := by
  cases hchanges with
  | quietly hquiet => exact h.quietly hquiet
  | edit ht e => exact h.edit ht e
  | @addComputed n t t' column ht hadd =>
    have hformed := h.regular.tables n t ht
    exact h.setTable ht (hformed.addComputed hadd).1 fun id kind => hformed.columnKind_addComputed hadd
  | @addComputedJoined n j j' column hj hadd =>
    have hlayers := h.layers n j hj
    have hkinds (id : String) (kind : Kind) (hkind : j.columnKind id = .ok kind) : j'.columnKind id = .ok kind :=
      hlayers.columnKind_addComputed hadd hkind
    obtain ⟨hlayers', computed, rfl, -⟩ := hlayers.addComputed hadd
    exact h.setJoined hj hlayers' rfl rfl hkinds
  | @link n j hj engine =>
    have hlayers : JoinedTable.Layers { j with engine } := h.layers n j hj
    exact h.setJoined hj hlayers rfl rfl fun id kind hkind => hkind
  | join hleft hright hj => exact h.insertJoined hleft hright hj

end Kinded

end Network

/-! ## An observer that writes

A table has an integer column with a default of its own, a computed column of integers that computes a text, and one
that is as it should be. An observer answers every row that comes by a write to it. The table is joined to an empty one
with texts in the gaps, and what this gives to another empty one.
-/

namespace Restless

open Chain (withTable schema copy)

/-- Observers that write to every row that comes. -/
def echo : Outside Unit where
  onEvent d w _ e := if e.action = .add then ((Call.setValue 0 "a" e.row (.int32 1)).perform d w).getD w else w
  onCell _ w _ _ := w

theorem acts_echo (P : Network → Prop) : echo.ActsWhere P := by
  refine fun d w _ => ⟨fun id e => ?_, fun _ _ => .refl⟩
  show w.Acts d (if e.action = .add then ((Call.setValue 0 "a" e.row (.int32 1)).perform d w).getD w else w)
  split_ifs
  · rcases hdone : (Call.setValue 0 "a" e.row (.int32 1)).perform d w with - | w'
    · exact .refl
    · exact .call .refl hdone
  · exact .refl

/-- A schema with one column, whose cells are seven at first. -/
def sevens : Schema where
  name := "b"
  columns := [{ id := "a", kind := .int32, default? := some (.int32 7) }]
  nodup := by simp
  kind_default := by simp; rfl

/-- The stored tables, the first of which is observed. -/
def tables : Network :=
  let net := withTable (withTable (withTable {} sevens) (schema "u" "uk")) (schema "v" "vk")
  (net.subscribe 0 .events (.observer 0)).1

/-- A column that does not compute what it says. -/
def wrong : ComputedColumn where
  id := "x"
  kind := .int32
  dependencies := ["a"]
  compute _ := .string "x"

def calls : List Call :=
  [.addComputed 0 wrong, .addComputed 0 (copy "p"), .addRow 0,
    .join 0 1 { kind := .leftOuter, leftKey := "p", rightKey := "uk", name? := some "n", gap := fun _ _ => .string "" },
    .join 3 2 { kind := .leftOuter, leftKey := "a", rightKey := "vk", name? := some "m" }]

/-- The world in the end. -/
def world? : Option (World Unit) := Call.performAll echo 9 { network := tables, outside := () } calls

theorem arises_world {w : World Unit} (h : world? = some w) : Arises echo w := by
  have htables : Network.Quietly {} tables :=
    .subscribe (.hold (.insert _ (.hold (.insert _ (.hold (.insert _ .refl)))))) fun _ _ => Listener.noConfusion
  exact Arises.performAll (.quietly (.start ()) htables) h

/-- What the last join shows in the column that is as it should be, in the other one and in the first gap. -/
def cells (net : Network) : Option (List (Option Value)) :=
  (net.view? 4).map fun view => ["p", "x", "uk"].map fun id => (view.get id 0).toOption

theorem exists_world : ∃ w, world? = some w ∧ cells w.network = some [some (.int32 1), none, none] := by
  have hall : world?.any (fun w => cells w.network = some [some (.int32 1), none, none]) = true := by decide +kernel
  simpa only [Option.any_eq_true, decide_eq_true_eq] using hall

end Restless

/-! ## The result -/

/-- Whatever is read of a table, stored or joined at any depth, is of the kind of its column: after any calls, whatever
computed columns compute, whatever stands in the gaps, and whatever observers do by calls in the middle of an
announcement. What they would do if they ever read a cell of another kind is left open. -/
theorem reads_typed {ω : Type} {o : Outside ω} {w : World ω} {n row : Nat} {view : TableView} {id : String} {v : Value}
    (ho : o.ActsWhere Network.Typed) (h : Arises o w) (hview : w.network.view? n = some view)
    (hget : view.get id row = .ok v) : view.columnKind id = .ok v.kind := by
  have hstep {net net' : Network} (h : net.Kinded) (hchanges : net.Changes net') := h.changes hchanges
  have hacts : o.ActsWhere Network.Kinded := ho.mono fun _ h => h.typed
  exact (h.keeps hstep .empty (hacts.keeps hstep)).typed n view id row v hview hget

/-- The last join shows the column that is computed of what the observer wrote, in its kind, and no text in the
others. -/
theorem reads_typed_restless : ∃ w view, Arises Restless.echo w ∧ w.network.view? 4 = some view ∧
    view.get "p" 0 = .ok (.int32 1) ∧ view.columnKind "p" = .ok .int32 ∧
    (view.get "x" 0).toOption = none ∧ (view.get "uk" 0).toOption = none := by
  obtain ⟨w, hw, hcells⟩ := Restless.exists_world
  obtain ⟨view, hview, hcells⟩ := Option.map_eq_some_iff.1 hcells
  simp only [List.map_cons, List.map_nil, List.cons.injEq] at hcells
  obtain ⟨hp, hx, huk, -⟩ := hcells
  have harises := Restless.arises_world hw
  have hget := Except.eq_ok_of_toOption hp
  exact ⟨w, view, harises, hview, hget, reads_typed (Restless.acts_echo _) harises hview hget, hx, huk⟩

end LiveTables
