import LiveTables.Proofs.Join.Reading
import LiveTables.Proofs.Network.Reachable

/-!
# Joined tables are maintained

After every call a joined table shows what its sources show, cell for cell, in rows that pair theirs. If
both key columns pass, the pairs are those of the nested-loop join of the rows that the sources show by the
keys that these have now. In general they are those of the nested-loop join by the keys under which the rows
are linked, so that the pairs are right if and only if rows are linked alike where their keys are the same
(`maintained`).
-/

open scoped List

namespace LiveTables

/-! ## Rows of a view with their keys -/

namespace TableView

variable {v : TableView} {key : String} {r : Nat}

/-- The rows of a view with their keys in a column, as far as these can be read. -/
def keyed (v : TableView) (key : String) : Keyed :=
  v.rows.filterMap fun row => (v.get key row).toOption.map (row, ·)

theorem mem_keyed {k : Value} : (r, k) ∈ v.keyed key ↔ r ∈ v.rows ∧ v.get key r = .ok k := by
  rw [keyed, List.mem_filterMap]
  constructor
  · rintro ⟨row, hrow, heq⟩
    obtain ⟨k', hk', heq⟩ := Option.map_eq_some_iff.1 heq
    obtain ⟨rfl, rfl⟩ := Prod.mk.inj heq
    rcases hget : v.get key row with e | k
    · simp [hget, Except.toOption] at hk'
    · rw [hget] at hk'
      exact ⟨hrow, congrArg Except.ok (Option.some.inj hk')⟩
  · rintro ⟨hrow, hget⟩
    exact ⟨r, hrow, by rw [hget]; rfl⟩

/-- If every key can be read, no row is left out. -/
theorem map_fst_keyed (h : ∀ row ∈ v.rows, v.class? row key ≠ none) :
    (v.keyed key).map (·.1) = v.rows := by
  rw [keyed, List.map_filterMap, List.filterMap_congr (g := some), List.filterMap_some]
  intro row hrow
  obtain ⟨g, hg⟩ := Option.ne_none_iff_exists'.1 (h row hrow)
  obtain ⟨k, hk, -⟩ := Value.class?_eq_some_iff.1 hg
  rw [hk]
  rfl

theorem distinct_keyed (hnodup : v.rows.Nodup) (h : ∀ row ∈ v.rows, v.class? row key ≠ none) :
    (v.keyed key).Distinct := by
  rwa [Keyed.Distinct, map_fst_keyed h]

theorem classOf_keyed (hnodup : v.rows.Nodup) (h : ∀ row ∈ v.rows, v.class? row key ≠ none)
    (hdead : ∀ row, row ∉ v.rows → v.class? row key = none) : (v.keyed key).classOf r = v.class? r key := by
  by_cases hr : r ∈ v.rows
  · obtain ⟨g, hg⟩ := Option.ne_none_iff_exists'.1 (h r hr)
    obtain ⟨k, hk, hcanonical⟩ := Value.class?_eq_some_iff.1 hg
    rw [hg]
    exact (distinct_keyed hnodup h).classOf_eq_some_iff.2 ⟨k, mem_keyed.2 ⟨hr, hk⟩, hcanonical⟩
  · rw [hdead r hr, Keyed.classOf_eq_none_iff, map_fst_keyed h]
    exact hr

end TableView

/-! ## What a joined table shows -/

namespace JoinedTable

variable {j : JoinedTable} {source : Side → TableView} {row : Nat} {s : Side} {c : String} {kind : Kind}

/-- The pairs of source rows that the joined rows show, in order. -/
def pairs (j : JoinedTable) : List (Option Nat × Option Nat) := j.engine.rows.map j.engine.sidesOf

/-- The rows of a source with the keys by which they are joined. -/
def keyed (j : JoinedTable) (source : Side → TableView) (s : Side) : Keyed := (source s).keyed (j.key s)

/-- A joined table shows the nested-loop join of what its sources show. -/
structure Maintained (j : JoinedTable) (source : Side → TableView) : Prop where
  nodup : j.pairs.Nodup
  pairs : j.pairs ~ nestedLoop j.engine.kind (j.keyed source .left) (j.keyed source .right)
  rowCount : j.engine.rowCount = (nestedLoop j.engine.kind (j.keyed source .left) (j.keyed source .right)).length
  cells : ∀ row ∈ j.engine.rows, ∀ s c kind, j.column? c = some (s, kind) → (j.view source).get c row =
    match j.engine.sourceRow? s row with
    | some r => (source s).get c r
    | none => .ok (j.gap c kind)

/-- A source column shows the cell of the source row, or the gap value. -/
theorem Valid.get_view (h : j.Valid) (hrow : row ∈ j.engine.rows) (hc : j.column? c = some (s, kind)) :
    (j.view source).get c row =
      match j.engine.sourceRow? s row with
      | some r => (source s).get c r
      | none => .ok (j.gap c kind) := by
  rw [← viewWith_stored]
  rcases hr : j.engine.sourceRow? s row with - | r
  · exact h.get_gap hc hrow hr (.inl rfl)
  · rw [get_of_mem hrow, Computed.read_eq_stored (h.computed_eq_none hc), stored, hc]
    simp only [hr]

/-- The pairs are those of the nested-loop join by the keys under which the rows are linked. -/
theorem Valid.pairs_perm (h : j.Valid) :
    j.pairs ~ nestedLoop j.engine.kind (j.engine.keys .left) (j.engine.keys .right) :=
  h.sound.rows_perm_nestedLoop (h.sound.distinct .left) (h.sound.distinct .right) <| by
    funext s
    cases s <;> rfl

theorem Valid.nodup_pairs (h : j.Valid) : j.pairs.Nodup :=
  h.pairs_perm.nodup_iff.2 (nodup_nestedLoop (h.sound.distinct .left) (h.sound.distinct .right))

/-- For the rest, only the pairs may be wrong. -/
theorem Valid.maintained_iff (h : j.Valid) : j.Maintained source ↔
    j.pairs ~ nestedLoop j.engine.kind (j.keyed source .left) (j.keyed source .right) := by
  refine ⟨Maintained.pairs, fun hpairs => ⟨h.nodup_pairs, hpairs, ?_, fun row hrow s c kind => h.get_view hrow⟩⟩
  rw [← hpairs.length_eq, pairs, List.length_map, h.sound.rowCount_eq]

end JoinedTable

/-! ## Settled networks -/

namespace Network

variable {net : Network} {n k : Nat} {j : JoinedTable} {s : Side}

/-- No row is shown twice. -/
theorem Formed.nodup_rows (h : net.Formed) (hn : net.content? n ≠ none) : (net.shown n).rows.Nodup := by
  rcases exists_of_content?_ne_none hn with ⟨t, ht⟩ | ⟨j, hj⟩
  · rw [rows_stored ht, Table.rows]
    exact List.nodup_range.filter _
  · rw [h.ordered.rows_joined hj]
    exact j.engine.nodup_rows

section Joined

variable (h : net.Settled) (hj : net.joined? n = some j)

include h hj

/-- The key of a row that a source shows can be read. -/
theorem Settled.class?_key_ne_none (s : Side) :
    ∀ k ∈ (net.shown (j.source s)).rows, (net.shown (j.source s)).class? k (j.key s) ≠ none := by
  intro k hk
  obtain ⟨kind, hc⟩ := (h.formed.valid n j hj).column?_key s
  have hkind := (h.formed.fits n j hj).kinds s _ kind (JoinedTable.mem_columns_of_column? hc)
  obtain ⟨v, hv, -⟩ := ((h.calm (h.formed.ordered.source hj s).2).2 k hk).readable _ kind hkind
  rw [TableView.class?, hv, Value.class?_ok]
  simp

/-- The keys of the rows that a source shows. -/
theorem Settled.distinct_keyed (s : Side) : (j.keyed (fun s => net.shown (j.source s)) s).Distinct :=
  TableView.distinct_keyed (h.formed.nodup_rows (h.formed.ordered.source hj s).2) (h.class?_key_ne_none hj s)

theorem Settled.classOf_keyed : (j.keyed (fun s => net.shown (j.source s)) s).classOf k =
    net.actual (j.source s) k (j.key s) :=
  TableView.classOf_keyed (h.formed.nodup_rows (h.formed.ordered.source hj s).2) (h.class?_key_ne_none hj s)
    fun _ hdead => h.formed.actual_of_dead hdead

/-- Exactly the rows that a source shows are linked. -/
theorem Settled.keyClass?_eq_none_iff : j.engine.keyClass? s k = none ↔
    net.actual (j.source s) k (j.key s) = none := by
  rw [← not_iff_not]
  refine (h.keyClass?_ne_none_iff hj).trans ⟨h.class?_key_ne_none hj s k, fun hactual => ?_⟩
  by_contra hdead
  exact hactual (h.formed.actual_of_dead hdead)

/-- A joined table is maintained if and only if rows are linked alike where their keys are the same. -/
theorem Settled.maintained_iff : j.Maintained (fun s => net.shown (j.source s)) ↔
    ∀ l ∈ (net.shown (j.source .left)).rows, ∀ r ∈ (net.shown (j.source .right)).rows,
      (j.engine.keyClass? .left l = j.engine.keyClass? .right r ↔
        net.actual (j.source .left) l j.leftKey = net.actual (j.source .right) r j.rightKey) := by
  have hvalid := h.formed.valid n j hj
  have hlinks (s : Side) (k : Nat) : Keyed.classOf (j.engine.keys s) k = none ↔
      (j.keyed (fun s => net.shown (j.source s)) s).classOf k = none := by
    rw [h.classOf_keyed hj]
    exact h.keyClass?_eq_none_iff hj
  have hlive (s : Side) (k : Nat) : net.actual (j.source s) k (j.key s) ≠ none ↔
      k ∈ (net.shown (j.source s)).rows := by
    rw [← h.keyClass?_ne_none_iff hj, ne_eq, ne_eq, h.keyClass?_eq_none_iff hj]
  rw [hvalid.maintained_iff, hvalid.pairs_perm.congr_left,
    nestedLoop_perm_iff (h.distinct_keyed hj .left) (h.distinct_keyed hj .right)
      (hvalid.sound.distinct .left) (hvalid.sound.distinct .right) (hlinks .left) (hlinks .right)]
  simp only [h.classOf_keyed hj, hlive]
  exact ⟨fun hsame l hl r hr => hsame l r hl hr, fun hsame l r hl hr => hsame l hl r hr⟩

/-- It is if both key columns pass. -/
theorem Settled.maintained (hpasses : ∀ s, Passes net (j.source s) (j.key s)) :
    j.Maintained fun s => net.shown (j.source s) := by
  refine (h.maintained_iff hj).2 fun l _ r _ => ?_
  rw [h.keyClass?_eq hj (hpasses .left), h.keyClass?_eq hj (hpasses .right)]
  rfl

end Joined

end Network

open Network

/-! ## A key that does not pass

A row of `b` shows its cell `a` in two computed columns, `p` and `q`. The join of `b` and `u` on `p` shows the
gap value of `q` where no row of `b` stands. Three more joins are chained on it, with the keys `q`, `a` and
`q`. A write to `a` takes the joined row away from the row of `b`, and lets it come back with a gap: `q` is
one, then zero, then one again. The last join hears of it only while `q` is zero.
-/

namespace Chain

/-- Observers that do nothing. -/
def nobody : Outside Unit where
  onEvent _ w _ _ := w
  onCell _ w _ _ := w

theorem quiet_nobody : nobody.Quiet := fun _ _ => ⟨fun _ _ _ => .refl, fun _ _ _ => .refl⟩

/-- A schema with one integer column. -/
def schema (name column : String) : Schema where
  name := name
  columns := [{ id := column, kind := .int32 }]
  nodup := by simp
  kind_default := by simp; rfl

/-- A network with one table more, which is held. -/
def withTable (net : Network) (s : Schema) : Network := (net.insert (.stored (.ofSchema s))).1.hold net.nextId

/-- The stored tables. -/
def tables : Network :=
  [("b", "a"), ("u", "uk"), ("v", "vk"), ("x", "xk"), ("y", "yk")].foldl
    (fun net names => withTable net (schema names.1 names.2)) {}

/-- A column that shows whether `a` is one. -/
def copy (id : String) : ComputedColumn where
  id := id
  kind := .int32
  dependencies := ["a"]
  compute vs := if vs = [.int32 1] then .int32 1 else .int32 0

/-- The gap value of `q` is one. -/
def gap (c : String) (kind : Kind) : Value := if c = "q" ∧ kind = .int32 then .int32 1 else kind.default

/-- Cells are written, and tables joined. -/
def calls : List Call :=
  [.addComputed 0 (copy "p"), .addComputed 0 (copy "q"),
    .addRow 0, .setValue 0 "a" 0 (.int32 1), .addRow 1, .setValue 1 "uk" 0 (.int32 1), .addRow 4,
    .join 0 1 { kind := .rightOuter, leftKey := "p", rightKey := "uk", name? := some "n", gap },
    .join 5 2 { kind := .leftOuter, leftKey := "q", rightKey := "vk", name? := some "s" },
    .join 6 3 { kind := .leftOuter, leftKey := "a", rightKey := "xk", name? := some "m" },
    .join 7 4 { kind := .inner, leftKey := "q", rightKey := "yk", name? := some "k" }]

/-- The world in the end. -/
def world? : Option (World Unit) := do
  let w ← Call.performAll nobody 9 { network := tables, outside := () } calls
  Call.performAll nobody 9 (w.modifyNetwork (·.hold 8)) [.setValue 0 "a" 0 (.int32 0)]

theorem eq_one_of_same {vs ws : List Value} (h : List.Forall₂ (fun v w => v.same w = true) vs ws)
    (hone : vs = [.int32 1]) : ws = [.int32 1] := by
  subst hone
  obtain ⟨w, rest, hw, hrest, rfl⟩ := List.forall₂_cons_left_iff.1 h
  obtain rfl := List.forall₂_nil_left_iff.1 hrest
  cases w <;> simp_all [Value.same]

theorem lawful_copy (id : String) (kindOf : String → Option Kind) : (copy id).Lawful kindOf where
  wellTyped vs _ := by
    show (if vs = [.int32 1] then Value.int32 1 else Value.int32 0).kind = .int32
    split_ifs <;> rfl
  congruent vs ws h := by
    have hflip : List.Forall₂ (fun v w => v.same w = true) ws vs :=
      (h.imp fun v w hvw => (Value.same_comm w v).trans hvw).flip
    have hone : vs = [.int32 1] ↔ ws = [.int32 1] := ⟨eq_one_of_same h, eq_one_of_same hflip⟩
    show (if vs = [.int32 1] then Value.int32 1 else Value.int32 0).same
      (if ws = [.int32 1] then Value.int32 1 else Value.int32 0) = true
    rw [if_congr hone rfl rfl, Value.same_refl]

theorem lawful_calls : ∀ call ∈ calls, ∀ net, call.Lawful net := by
  have hcopy (n : Nat) (id : String) (net : Network) : (Call.addComputed n (copy id)).Lawful net :=
    fun _ _ => lawful_copy id _
  have hdefault (l r : Nat) (spec : JoinSpec) (net : Network) (h : spec.gap = fun _ kind => kind.default) :
      (Call.join l r spec).Lawful net := fun c kind => by
    rw [h]
    cases kind <;> rfl
  have hgap (c : String) (kind : Kind) : (gap c kind).kind = kind := by
    rw [gap]
    split_ifs with h
    · exact h.2.symm
    · cases kind <;> rfl
  intro call hcall net
  simp only [calls, List.mem_cons, List.not_mem_nil, or_false] at hcall
  rcases hcall with rfl | rfl | rfl | rfl | rfl | rfl | rfl | rfl | rfl | rfl | rfl
  · exact hcopy 0 "p" net
  · exact hcopy 0 "q" net
  all_goals first | exact trivial | exact hgap | exact hdefault _ _ _ _ rfl

/-- After the calls, whoever observes. -/
theorem reachable_calls {ω : Type} {o : Outside ω} {outside : ω} {w : World ω}
    (h : Call.performAll o 9 { network := tables, outside } calls = some w) : Reachable o w := by
  have htables : Network.Quietly {} tables :=
    .hold (.insert _ (.hold (.insert _ (.hold (.insert _ (.hold (.insert _ (.hold (.insert _ .refl)))))))))
  exact Reachable.performAll (.quietly (.start outside) htables) lawful_calls h

theorem reachable_world {w : World Unit} (h : world? = some w) : Reachable nobody w := by
  rw [world?, Option.bind_eq_bind, Option.bind_eq_some_iff] at h
  obtain ⟨w₁, hcalls, hlast⟩ := h
  refine Reachable.performAll (.quietly (reachable_calls hcalls) (.hold .refl)) (fun call hmem net => ?_) hlast
  obtain rfl := List.mem_singleton.1 hmem
  exact trivial

/-- Whether the first join stands on stored tables. -/
def grounded (net : Network) : Bool :=
  (net.joined? 5).any fun j => (net.table? j.left).isSome && (net.table? j.right).isSome

/-- Then all its columns pass. -/
theorem passes_of_grounded {net : Network} {view : TableView} {c : String} (h : net.Formed)
    (hgrounded : grounded net = true) (hview : net.view? 5 = some view)
    (hcolumn : ∃ kind, view.columnKind c = .ok kind) : net.Passes 5 c := by
  simp only [grounded, Bool.and_eq_true, Option.any_eq_true, Option.isSome_iff_exists] at hgrounded
  obtain ⟨j, hj, ⟨t, ht⟩, u, hu⟩ := hgrounded
  obtain ⟨-, rfl⟩ := h.ordered.view?_eq_some_iff.1 hview
  rw [h.ordered.columnKind_joined hj] at hcolumn
  refine h.passes_of_stored hj (fun s => ?_) hcolumn
  cases s with
  | left => exact ⟨t, ht⟩
  | right => exact ⟨u, hu⟩

/-- How many rows a joined table has, and how many the nested loop finds. -/
def counts (net : Network) (n : Nat) : Option (Nat × Nat) := do
  let j ← net.joined? n
  let left ← net.view? j.left
  let right ← net.view? j.right
  return (j.engine.rowCount, (nestedLoop j.engine.kind (left.keyed j.leftKey) (right.keyed j.rightKey)).length)

theorem exists_world : ∃ w, world? = some w ∧ (w.network.joined? 5).map (fun j => (j.left, j.right)) = some (0, 1) ∧
    (w.network.table? 0).isSome ∧ (w.network.table? 1).isSome ∧ counts w.network 5 = some (1, 1) ∧
    counts w.network 8 = some (1, 0) := by
  have hall : world?.any (fun w => (w.network.joined? 5).map (fun j => (j.left, j.right)) = some (0, 1) ∧
      (w.network.table? 0).isSome ∧ (w.network.table? 1).isSome ∧ counts w.network 5 = some (1, 1) ∧
      counts w.network 8 = some (1, 0)) = true := by decide +kernel
  simpa only [Option.any_eq_true, decide_eq_true_eq] using hall

end Chain

/-! ## The result -/

/-- After every call a joined table shows the nested-loop join of what its sources show, if both key columns
pass; and if not, exactly if two rows are linked alike where their keys are the same. -/
theorem joined_maintained {ω : Type} {o : Outside ω} {w : World ω} {n : Nat} {j : JoinedTable}
    (h : Reachable o w) (ho : o.Quiet) (hj : w.network.joined? n = some j) : ∃ source : Side → TableView,
      (∀ s, w.network.view? (j.source s) = some (source s)) ∧ w.network.view? n = some (j.view source) ∧
      (∀ s, (j.keyed source s).map (·.1) = (source s).rows) ∧
      (j.Maintained source ↔ ∀ l ∈ (source .left).rows, ∀ r ∈ (source .right).rows,
        (j.engine.keyClass? .left l = j.engine.keyClass? .right r ↔
          (source .left).class? l j.leftKey = (source .right).class? r j.rightKey)) ∧
      ((∀ s, w.network.Passes (j.source s) (j.key s)) → j.Maintained source) := by
  have hsettled := h.settled ho
  have hordered := hsettled.formed.ordered
  refine ⟨fun s => w.network.shown (j.source s), fun s => hordered.view?_eq (hordered.source hj s).2, ?_,
    fun s => TableView.map_fst_keyed (hsettled.class?_key_ne_none hj s), hsettled.maintained_iff hj,
    hsettled.maintained hj⟩
  rw [hordered.view?_eq (by simp [content?_of_joined? hj]), shown, hordered.see_joined hj,
    JoinedTable.viewWith_stored]

/-- In the chain, the keys of the first join pass. -/
theorem joined_maintained_first : ∃ (w : World Unit) (j : JoinedTable) (source : Side → TableView),
    Chain.world? = some w ∧ w.network.joined? 5 = some j ∧
      (∀ s, w.network.view? (j.source s) = some (source s)) ∧ j.Maintained source := by
  obtain ⟨w, hw, hsources, hleft, hright, -, -⟩ := Chain.exists_world
  obtain ⟨j, hj, hsource⟩ := Option.map_eq_some_iff.1 hsources
  obtain ⟨hl, hr⟩ := Prod.mk.inj hsource
  obtain ⟨t, ht⟩ := Option.isSome_iff_exists.1 hleft
  obtain ⟨u, hu⟩ := Option.isSome_iff_exists.1 hright
  obtain ⟨source, hviews, -, -, -, hmaintained⟩ :=
    joined_maintained (Chain.reachable_world hw) Chain.quiet_nobody hj
  refine ⟨w, j, source, hw, hj, hviews, hmaintained fun s => ?_⟩
  cases s with
  | left => exact .stored (show w.network.table? j.left = some t from hl ▸ ht)
  | right => exact .stored (show w.network.table? j.right = some u from hr ▸ hu)

/-- The last join shows a row although no keys are the same. -/
theorem not_joined_maintained_last : ∃ (w : World Unit) (j : JoinedTable) (source : Side → TableView),
    Reachable Chain.nobody w ∧ w.network.joined? 8 = some j ∧
      (∀ s, w.network.view? (j.source s) = some (source s)) ∧ ¬ j.Maintained source := by
  obtain ⟨w, hw, -, -, -, -, hcounts⟩ := Chain.exists_world
  have hreach := Chain.reachable_world hw
  simp only [Chain.counts, Option.bind_eq_bind, Option.bind_eq_some_iff] at hcounts
  obtain ⟨j, hj, left, hleft, right, hright, hcounts⟩ := hcounts
  obtain ⟨hrows, hfound⟩ := Prod.mk.inj (Option.some.inj hcounts)
  refine ⟨w, j, JoinedTable.sourceView left right, hreach, hj, fun s => ?_, fun hmaintained => ?_⟩
  · cases s with
    | left => exact hleft
    | right => exact hright
  · have hsame : j.engine.rowCount = _ := hmaintained.rowCount
    exact absurd (hrows.symm.trans (hsame.trans hfound)) (by decide)

end LiveTables
