import LiveTables.Proofs.Network.Maintained
import LiveTables.Proofs.Observer.Attached
import LiveTables.Proofs.Observer.Watch

/-!
# Changes are told

If a write changes what a joined table shows in a row that lives on, an observer hears an update that names
the cell, and can read the new value by then (`change_told`). This holds of source columns and of computed
ones, registered at the joined table or below it, as long as the column passes; over stored sources, all columns
do (`Network.Formed.passes_of_stored`).
-/

namespace LiveTables

open Network Notice World

namespace Account

variable {L : Account} {c : String} {f : Nat → Option Value} {k : Nat}

/-- If what somebody has of a cell is not what it was, the last update that names it was followed. -/
theorem exists_named (hupdates : ∀ x ∈ L, x.2.row = k → x.2.action = .update)
    (hdiffers : L.latest c f k ≠ f k) :
    ∃ x ∈ L, x.2.action = .update ∧ x.2.row = k ∧ c ∈ x.2.columns ∧ x.1.class? k c = L.latest c f k := by
  induction L using List.reverseRecOn with
  | nil => exact absurd rfl hdiffers
  | append_singleton L x ih =>
    rw [latest_concat] at hdiffers ⊢
    by_cases hnamed : x.2.row = k ∧ c ∈ x.2.columns
    · obtain ⟨rfl, hc⟩ := hnamed
      have haction := hupdates x (List.mem_append_right _ List.mem_cons_self) rfl
      exact ⟨x, List.mem_append_right _ List.mem_cons_self, haction, rfl, hc, (look_named haction hc).symm⟩
    have hlook : look c (latest L c f) x k = latest L c f k := by
      by_cases hrow : x.2.row = k
      · subst hrow
        have haction := hupdates x (List.mem_append_right _ List.mem_cons_self) rfl
        exact look_other haction fun hc => hnamed ⟨rfl, hc⟩
      · exact look_of_ne (Ne.symm hrow)
    rw [hlook] at hdiffers ⊢
    obtain ⟨y, hy, hall⟩ := ih (fun y hy => hupdates y (List.mem_append_left _ hy)) hdiffers
    exact ⟨y, List.mem_append_left _ hy, hall⟩

end Account

/-- If a write changes a cell that passes, in a joined row that it neither deletes nor adds, then an update is
heard that names the cell, when the new value can be read. -/
theorem change_told {ω : Type} {o : Outside ω} {v : Spectator ω Account} {w w' : World ω} {i depth : Nat}
    {call : Call} {j : JoinedTable} {view view' : TableView} {c : String} (ho : o.Quiet) (hv : v.Attends o)
    (hhear : v.hear = Account.record) (h : Reachable o w) (hj : w.network.joined? v.node = some j)
    (hregistered : v.At (some i) w.network) (hview : w.network.view? v.node = some view)
    (hcolumn : ∃ kind, view.columnKind c = .ok kind) (hdeep : w.network.nextId ≤ depth)
    (hwrites : call.Writes) (hdone : call.perform (dispatch o depth) w = some w')
    (hview' : w'.network.view? v.node = some view') (hpasses : w'.network.Passes v.node c) :
    ∃ heard, v.mine w'.outside = v.mine w.outside ++ heard ∧ ∀ k a b,
      (∀ x ∈ heard, x.2.row = k → x.2.action = .update) →
      view.get c k = .ok a → view'.get c k = .ok b → a.same b = false →
      ∃ x ∈ heard, x.2.action = .update ∧ x.2.row = k ∧ c ∈ x.2.columns ∧
        ∃ d, x.1.get c k = .ok d ∧ d.same b = true := by
  have hsettled := h.settled ho
  obtain ⟨-, rfl⟩ := hsettled.formed.ordered.view?_eq_some_iff.1 hview
  have hcolumns : ∀ d ∈ [c], ∃ kind, (w.network.shown v.node).columnKind d = .ok kind := fun d hd => by
    rwa [List.mem_singleton.1 hd]
  have hstart := hsettled.watch hj hcolumns
  set a : Outset := ⟨[c], (w.network.shown v.node).rows.toFinset, fun c k => w.network.actual v.node k c⟩
  have hexists : w'.network.content? v.node ≠ none := fun hn => by
    rw [view?_eq_none hn] at hview'
    exact absurd hview' (by simp)
  obtain ⟨hsettled', L, hmine, hwatch⟩ := Ledger.exists_heard (v := fun _ => v) (b := a.ledger v.node) ho
    (fun _ => hv) (fun _ _ _ => rfl) (fun _ => hhear) hsettled (fun _ => hregistered) hdeep hwrites hdone hstart
    hexists
  obtain ⟨-, rfl⟩ := hsettled'.formed.ordered.view?_eq_some_iff.1 hview'
  -- in the end nothing is left to be heard
  obtain ⟨-, hlatest⟩ := Watch.settled hwatch hsettled'
  have hlatest := hlatest c (List.mem_singleton_self c) hpasses
  refine ⟨L (), hmine (), fun k x y hupdates hx hy hdiffers => ?_⟩
  have hbefore : a.class? c k = some x.canonical := by
    show w.network.actual v.node k c = _
    rw [actual, TableView.class?, hx, Value.class?_ok]
  have hafter : (L ()).latest c (a.class? c) k = some y.canonical := by
    rw [hlatest, actual, TableView.class?, hy, Value.class?_ok]
  -- the class of the cell has changed, so some update was followed
  have hchanged : (L ()).latest c (a.class? c) k ≠ a.class? c k := by
    rw [hafter, hbefore]
    intro heq
    rw [Value.same_iff.2 (Option.some.inj heq).symm] at hdiffers
    exact absurd hdiffers (by simp)
  obtain ⟨z, hz, haction, hrow, hc, hclass⟩ := Account.exists_named hupdates hchanged
  rw [hafter] at hclass
  obtain ⟨d, hd, hsame⟩ := Value.class?_eq_some_iff.1 hclass
  exact ⟨z, hz, haction, hrow, hc, d, hd, Value.same_iff.2 hsame⟩

/-! ## A computed column of the first join

The first join of the chain gets a computed column `z`, which shows whether `a` is one. The write blanks the joined
row, which lives on.
-/

namespace Chain

/-- The write that blanks the joined row. -/
def blank : Call := .setValue 0 "a" 0 (.int32 0)

theorem writes_blank : blank.Writes := trivial

/-- The world without records, before somebody registers. -/
def unrecorded? : Option (World (Nat → Account)) := do
  let joined ← Call.performAll recorders 9 { network := tables, outside := fun _ => [] } calls
  let joined ← Call.performAll recorders 9 joined [.addComputed 5 (copy "z")]
  return { network := joined.network.hold 8, outside := fun _ => [] }

theorem reachable_unrecorded {w₀ : World (Nat → Account)} (h : unrecorded? = some w₀) :
    Reachable recorders w₀ ∧ w₀.outside = fun _ => [] := by
  simp only [unrecorded?, Option.bind_eq_bind, Option.bind_eq_some_iff] at h
  obtain ⟨joined, hcalls, joined', hcomputed, heq⟩ := h
  obtain rfl := Option.some.inj heq
  refine ⟨.quietly (Reachable.performAll (reachable_calls hcalls) (fun call hmem net => ?_) hcomputed)
    (.hold .refl), rfl⟩
  obtain rfl := List.mem_singleton.1 hmem
  exact fun _ _ => lawful_copy "z" _

/-- What is to be found: the observer registered, the row with `z` before and after the write, and nothing heard
but updates of it. -/
def retold (w₀ w' : World (Nat → Account)) : Bool :=
  let shows (w : World (Nat → Account)) (z : Value) : Bool := (w.network.view? 5).any fun view =>
    (view.columnKind "z").toOption.isSome && (view.get "z" 0).toOption = some z
  w₀.network.nextId = 9 && (w₀.network.joined? 5).isSome && grounded w'.network &&
    (recorder 5).isAt (some 2) (w₀.subscribe 5 5).1.network &&
    shows (w₀.subscribe 5 5).1 (.int32 1) && shows w' (.int32 0) &&
    (w'.outside 5).all fun x => x.2.action = .update

theorem exists_recorded : ∃ w₀ w', unrecorded? = some w₀ ∧ retold w₀ w' = true ∧
    blank.perform (dispatch recorders 9) (w₀.subscribe 5 5).1 = some w' := by
  have hall : unrecorded?.any (fun w₀ =>
      (blank.perform (dispatch recorders 9) (w₀.subscribe 5 5).1).any
        fun w' => retold w₀ w') = true := by decide +kernel
  simp only [Option.any_eq_true] at hall
  obtain ⟨w₀, hw₀, w', hw', hretold⟩ := hall
  exact ⟨w₀, w', hw₀, hretold, hw'⟩

end Chain

/-- The new value of `z` is told. -/
theorem change_told_first : ∃ (w₀ w' : World (Nat → Account)), Chain.unrecorded? = some w₀ ∧
    Chain.blank.perform (dispatch recorders 9) (w₀.subscribe 5 5).1 = some w' ∧
    ∃ x ∈ w'.outside 5, x.2.action = .update ∧ x.2.row = 0 ∧ "z" ∈ x.2.columns ∧
      ∃ d, x.1.get "z" 0 = .ok d ∧ d.same (.int32 0) = true := by
  obtain ⟨w₀, w', hw₀, hretold, hdone⟩ := Chain.exists_recorded
  obtain ⟨hreach, hempty⟩ := Chain.reachable_unrecorded hw₀
  simp only [Chain.retold, Bool.and_eq_true, Option.any_eq_true, Option.isSome_iff_exists, decide_eq_true_eq,
    List.all_eq_true] at hretold
  obtain ⟨⟨⟨⟨⟨⟨hnext, j, hj⟩, hgrounded⟩, hregistered⟩, view, hview, ⟨kind, hkind⟩, ha⟩, view', hview',
    ⟨kind', hkind'⟩, hb⟩, hupdates⟩ := hretold
  have hreach : Reachable recorders (w₀.subscribe 5 5).1 := .quietly hreach (quietly_subscribe w₀ 5 5)
  have hjoined : (w₀.subscribe 5 5).1.network.joined? 5 = some j :=
    (joined?_congr (content?_subscribe _ _ _)).trans hj
  have hdeep : (w₀.subscribe 5 5).1.network.nextId ≤ 9 := Nat.le_of_eq hnext
  have hformed : w'.network.Formed :=
    (Reachable.settled (.call hreach hdeep (Chain.writes_blank.lawful _) hdone) quiet_recorders).formed
  obtain ⟨heard, hheard, htold⟩ := change_told (v := recorder 5)
    quiet_recorders (attends_recorder 5) rfl hreach hjoined (.of_isAt hregistered) hview
    ⟨kind, Except.eq_ok_of_toOption hkind⟩ hdeep Chain.writes_blank hdone hview'
    (Chain.passes_of_grounded hformed hgrounded hview' ⟨kind', Except.eq_ok_of_toOption hkind'⟩)
  have hmine : w'.outside 5 = heard := by
    have hmine : w'.outside 5 = w₀.outside 5 ++ heard := hheard
    rwa [hempty] at hmine
  refine ⟨w₀, w', hw₀, hdone, ?_⟩
  rw [hmine] at hupdates ⊢
  exact htold 0 (.int32 1) (.int32 0) (fun x hx _ => hupdates x hx) (Except.eq_ok_of_toOption ha)
    (Except.eq_ok_of_toOption hb) (by decide)

/-! ## A key of another scale

A computed column of a join on decimals shows how the key is written. A key that is written anew with another
scale is the same key, so that the row is found linked as it was, and nothing is told.
-/

namespace Scales

/-- A schema with one decimal column. -/
def schema (name column : String) : Schema where
  name := name
  columns := [{ id := column, kind := .decimal }]
  nodup := by simp
  kind_default := by simp; rfl

/-- One, with one fractional digit. -/
def short : Decimal := ⟨⟨10, by decide⟩, 1, by decide⟩

/-- One, with two fractional digits. -/
def long : Decimal := ⟨⟨100, by decide⟩, 2, by decide⟩

/-- A column that shows how one is written. It is well-typed, but not congruent. -/
def text : ComputedColumn where
  id := "text"
  kind := .string
  dependencies := ["k"]
  compute vs := if vs = [.decimal long] then .string "1.00" else .string "1.0"

theorem wellTyped_text (kindOf : String → Option Kind) : text.WellTyped kindOf := by
  intro vs _
  show (if vs = [.decimal long] then Value.string "1.00" else .string "1.0").kind = .string
  split_ifs <;> rfl

/-- A row is added and its key written, then the tables are joined. -/
def calls : List Call :=
  [.addRow 0, .setValue 0 "k" 0 (.decimal short),
    .join 0 1 { kind := .leftOuter, leftKey := "k", rightKey := "rk" }, .addComputed 2 text]

/-- The world in which somebody records what the join tells, before the key is written anew. -/
def recorded? : Option (World (Nat → Account)) := do
  let tables := Chain.withTable (Chain.withTable {} (schema "l" "k")) (schema "r" "rk")
  let joined ← Call.performAll recorders 3 { network := tables, outside := fun _ => [] } calls
  return (World.subscribe { network := joined.network.hold 2, outside := fun _ => [] } 2 2).1

end Scales

/-- The text of the key changes, and nothing is told. -/
theorem not_change_told_scale : (∀ kindOf, Scales.text.WellTyped kindOf) ∧
    ∃ (w w' : World (Nat → Account)) (view view' : TableView), Scales.recorded? = some w ∧
      (Call.setValue 0 "k" 0 (.decimal Scales.long)).perform (dispatch recorders 3) w = some w' ∧
      w.network.view? 2 = some view ∧ w'.network.view? 2 = some view' ∧
      view.get "text" 0 = .ok (.string "1.0") ∧ view'.get "text" 0 = .ok (.string "1.00") ∧
      w.outside 2 = [] ∧ w'.outside 2 = [] := by
  have hall : Scales.recorded?.any (fun w =>
      ((Call.setValue 0 "k" 0 (.decimal Scales.long)).perform (dispatch recorders 3) w).any fun w' =>
        (w.network.view? 2).any (fun view => (view.get "text" 0).toOption = some (.string "1.0")) &&
        (w'.network.view? 2).any (fun view => (view.get "text" 0).toOption = some (.string "1.00")) &&
        (w.outside 2).isEmpty && (w'.outside 2).isEmpty) = true := by decide +kernel
  simp only [Option.any_eq_true, Bool.and_eq_true, decide_eq_true_eq, List.isEmpty_iff] at hall
  obtain ⟨w, hw, w', hw', ⟨⟨⟨view, hview, hbefore⟩, view', hview', hafter⟩, hempty⟩, hempty'⟩ := hall
  exact ⟨Scales.wellTyped_text, w, w', view, view', hw, hw', hview, hview', Except.eq_ok_of_toOption hbefore,
    Except.eq_ok_of_toOption hafter, hempty, hempty'⟩

end LiveTables
