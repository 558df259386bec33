import LiveTables.Proofs.Network.Columns
import LiveTables.Proofs.Network.Joining
import LiveTables.Proofs.Table.Feed

/-!
# What can be reached

A world is reached by calls from outside, one after the other, in any order: rows are added and deleted and
cells written, tables are made, joined and given computed columns, and observers come and go (`Reachable`).
A call leaves a settled network settled (`settled_perform`), so that every reachable network is settled
(`Reachable.settled`).
-/

namespace LiveTables

open Network World

variable {ω : Type} {o : Outside ω} {w w' : World ω} {t : Table} {j : JoinedTable} {depth n : Nat}

/-- A call from outside on tables of a network. -/
inductive Call where
  | addRow (n : Nat)
  | setValue (n : Nat) (column : String) (row : Nat) (value : Value)
  | deleteRow (n row : Nat)
  | addComputed (n : Nat) (column : ComputedColumn)
  | join (left right : Nat) (spec : JoinSpec)

namespace Call

/-- The world after a call, if the call succeeds. A call that fails changes nothing. -/
def perform (d : Dispatch ω) (w : World ω) : Call → Option (World ω)
  | addRow n => do
    let t ← w.network.table? n
    return w.commit d n t.addRow.1 t.addRow.2.2
  | setValue n column row value => do
    let t ← w.network.table? n
    let written ← accepted? (t.setValue column row value)
    return w.commit d n written.1 written.2
  | deleteRow n row => do
    let t ← w.network.table? n
    let deleted ← accepted? (t.deleteRow row)
    return w.commit d n deleted.1 deleted.2
  | addComputed n column => do
    match ← w.network.content? n with
    | .stored t =>
      let (t, _) ← accepted? (t.addComputed column)
      return w.modifyNetwork (·.setContent n (.stored t))
    | .joined j =>
      let (j, _) ← accepted? (j.addComputed column)
      return w.modifyNetwork (·.setContent n (.joined j))
  | join left right spec => do
    let leftView ← w.network.view? left
    let rightView ← w.network.view? right
    let j ← (JoinedTable.ofSources spec left right leftView rightView).toOption
    return w.modifyNetwork fun net => (net.insertJoined j).1

/-- What a caller promises: computed columns are well-typed and compute the same from the same, and gap
values are of the kinds of their columns. -/
def Lawful (net : Network) : Call → Prop
  | addComputed n column => ∀ v, net.view? n = some v → column.Lawful fun c => (v.columnKind c).toOption
  | join _ _ spec => ∀ c kind, (spec.gap c kind).kind = kind
  | _ => True

/-- Calls that write rows or cells of a stored table. -/
def Writes : Call → Prop
  | addRow _ | setValue .. | deleteRow .. => True
  | _ => False

theorem Writes.lawful {call : Call} (h : call.Writes) (net : Network) : call.Lawful net := by
  cases call with
  | addComputed | join => exact h.elim
  | addRow | setValue | deleteRow => trivial

end Call

/-- An edit as a call on the table of a number. -/
def Table.Edit.call (n : Nat) : Table.Edit → LiveTables.Call
  | .addRow => .addRow n
  | .setValue column row value => .setValue n column row value
  | .deleteRow row => .deleteRow n row

/-- A call that writes is an edit of a table. -/
theorem Call.Writes.exists_edit {call : Call} (h : call.Writes) : ∃ n e, call = Table.Edit.call n e := by
  cases call with
  | addRow n => exact ⟨n, .addRow, rfl⟩
  | setValue n column row value => exact ⟨n, .setValue column row value, rfl⟩
  | deleteRow n row => exact ⟨n, .deleteRow row, rfl⟩
  | addComputed | join => exact h.elim

/-- An edit that goes through puts the edited table in its place, and announces what was done. -/
theorem Call.exists_commit_of_edit {e : Table.Edit} {d : Dispatch ω} (hdone : (e.call n).perform d w = some w') :
    ∃ t, w.network.table? n = some t ∧ w' = w.commit d n (t.perform e).1 (t.perform e).2 := by
  cases e with
  | addRow =>
    simp only [Table.Edit.call, Call.perform, Option.bind_eq_bind, Option.bind_eq_some_iff] at hdone
    obtain ⟨t, ht, hdone⟩ := hdone
    exact ⟨t, ht, (Option.some.inj hdone).symm⟩
  | setValue column row value =>
    simp only [Table.Edit.call, Call.perform, Option.bind_eq_bind, Option.bind_eq_some_iff] at hdone
    obtain ⟨t, ht, written, hset, hdone⟩ := hdone
    refine ⟨t, ht, ?_⟩
    simp only [Table.perform, accepted?_eq_some.1 hset]
    exact (Option.some.inj hdone).symm
  | deleteRow row =>
    simp only [Table.Edit.call, Call.perform, Option.bind_eq_bind, Option.bind_eq_some_iff] at hdone
    obtain ⟨t, ht, deleted, hdelete, hdone⟩ := hdone
    refine ⟨t, ht, ?_⟩
    simp only [Table.perform, accepted?_eq_some.1 hdelete]
    exact (Option.some.inj hdone).symm

/-- A computed column that is added is one of a stored or of a joined table, and nothing is announced. -/
theorem Call.addComputed_cases {column : ComputedColumn} {d : Dispatch ω}
    (hdone : (Call.addComputed n column).perform d w = some w') :
    (∃ t t', w.network.table? n = some t ∧ t.addComputed column = (t', .ok ()) ∧
      w' = w.modifyNetwork (·.setContent n (.stored t'))) ∨
    ∃ j j', w.network.joined? n = some j ∧ j.addComputed column = (j', .ok ()) ∧
      w' = w.modifyNetwork (·.setContent n (.joined j')) := by
  simp only [Call.perform, Option.bind_eq_bind, Option.bind_eq_some_iff] at hdone
  obtain ⟨content, hcontent, hdone⟩ := hdone
  cases content with
  | stored t =>
    simp only [Option.bind_eq_some_iff] at hdone
    obtain ⟨⟨t', ⟨⟩⟩, hadd, hdone⟩ := hdone
    exact .inl ⟨t, t', table?_eq_some_iff.2 hcontent, accepted?_eq_some.1 hadd, (Option.some.inj hdone).symm⟩
  | joined j =>
    simp only [Option.bind_eq_some_iff] at hdone
    obtain ⟨⟨j', ⟨⟩⟩, hadd, hdone⟩ := hdone
    exact .inr ⟨j, j', joined?_eq_some_iff.2 hcontent, accepted?_eq_some.1 hadd, (Option.some.inj hdone).symm⟩

/-- A joined table that is added is made of views of tables that are there, and nothing is announced. -/
theorem Call.exists_ofSources {left right : Nat} {spec : JoinSpec} {d : Dispatch ω}
    (hdone : (Call.join left right spec).perform d w = some w') :
    ∃ leftView rightView j, w.network.view? left = some leftView ∧ w.network.view? right = some rightView ∧
      JoinedTable.ofSources spec left right leftView rightView = .ok j ∧
      w' = w.modifyNetwork fun net => (net.insertJoined j).1 := by
  simp only [Call.perform, Option.bind_eq_bind, Option.bind_eq_some_iff] at hdone
  obtain ⟨leftView, hleft, rightView, hright, j, hj, hdone⟩ := hdone
  exact ⟨leftView, rightView, j, hleft, hright, Except.eq_ok_of_toOption hj, (Option.some.inj hdone).symm⟩

/-- The worlds that can be reached from an empty one. Announcements may nest as deep as there are numbers of
tables; the observers may have anything else on their minds after a call. -/
inductive Reachable (o : Outside ω) : World ω → Prop
  | start (outside : ω) : Reachable o { network := {}, outside }
  | quietly {w w' : World ω} (before : Reachable o w) (quiet : w.network.Quietly w'.network) : Reachable o w'
  | replay {w : World ω} (before : Reachable o w) (depth n observer : Nat) :
      Reachable o (w.subscribeWithReplay (dispatch o depth) n observer).1
  | call {w w' : World ω} {depth : Nat} {call : Call} (before : Reachable o w)
      (deep : w.network.nextId ≤ depth) (lawful : call.Lawful w.network)
      (done : call.perform (dispatch o depth) w = some w') : Reachable o w'

theorem quietly_subscribe (w : World ω) (n observer : Nat) : w.network.Quietly (w.subscribe n observer).1.network :=
  .subscribe .refl fun _ _ => Listener.noConfusion

/-- To bring an observer up to date is quiet. -/
theorem quietly_subscribeWithReplay (ho : o.Quiet) (depth n observer : Nat) :
    w.network.Quietly (w.subscribeWithReplay (dispatch o depth) n observer).1.network := by
  have hinform (events : List Event) (w : World ω) : w.network.Quietly
      (events.foldl (fun w e => (dispatch o depth).inform w observer e) w).network := by
    induction events generalizing w with
    | nil => exact .refl
    | cons e events ih => exact (ho.inform depth w observer e).trans (ih _)
  rw [subscribeWithReplay]
  rcases w.network.view? n with - | view
  · exact quietly_subscribe w n observer
  · have hhold : w.network.Quietly (w.modifyNetwork (·.hold n)).network := .hold .refl
    exact .release ((hhold.trans (hinform view.replay _)).trans (quietly_subscribe _ n observer))

/-- The kinds of the columns of a table. -/
theorem Table.Valid.toOption_columnKind (h : t.Valid) :
    (fun c => (t.columnKind c).toOption) = t.computed.kind? t.storedKind? :=
  funext h.wellFormed.toOption_columnKind

theorem JoinedTable.Valid.toOption_columnKind (h : j.Valid) :
    (fun c => (j.columnKind c).toOption) = j.computed.kind? j.sourceKind? := by
  funext c
  refine Option.ext fun kind => ?_
  rw [← h.columnKind_eq_ok]
  cases j.columnKind c <;> simp [Except.toOption]

/-- A write puts another table in the place of a stored one, and announces what changed. -/
theorem Call.Writes.exists_commit {call : Call} {d : Dispatch ω} (hwrites : call.Writes) (h : w.network.Formed)
    (hdone : call.perform d w = some w') : ∃ n t t' signals, w.network.table? n = some t ∧
      t.Writes t' signals ∧ w' = w.commit d n t' signals := by
  cases call with
  | addRow n =>
    simp only [Call.perform, Option.bind_eq_bind, Option.bind_eq_some_iff] at hdone
    obtain ⟨t, ht, hdone⟩ := hdone
    exact ⟨n, t, _, _, ht, (h.tables n t ht).writes_addRow, (Option.some.inj hdone).symm⟩
  | setValue n column row value =>
    simp only [Call.perform, Option.bind_eq_bind, Option.bind_eq_some_iff] at hdone
    obtain ⟨t, ht, written, hset, hdone⟩ := hdone
    exact ⟨n, t, _, _, ht, (h.tables n t ht).writes_setValue (accepted?_eq_some.1 hset),
      (Option.some.inj hdone).symm⟩
  | deleteRow n row =>
    simp only [Call.perform, Option.bind_eq_bind, Option.bind_eq_some_iff] at hdone
    obtain ⟨t, ht, deleted, hdelete, hdone⟩ := hdone
    exact ⟨n, t, _, _, ht, (h.tables n t ht).writes_deleteRow (accepted?_eq_some.1 hdelete),
      (Option.some.inj hdone).symm⟩
  | addComputed | join => exact hwrites.elim

section Perform

variable (ho : o.Quiet) (h : w.network.Settled)

include h

/-- Announcements nested as deep as there are numbers come up to all joined tables. -/
theorem deep_enough (hdeep : w.network.nextId ≤ depth) (ht : w.network.table? n = some t) :
    0 < depth ∧ ∀ K, w.network.joined? K ≠ none → K < n + depth := by
  have hn : n < w.network.nextId := h.formed.ordered.lt_nextId (by simp [content?_of_table? ht])
  refine ⟨by omega, fun K hK => ?_⟩
  obtain ⟨j, hj⟩ := Option.ne_none_iff_exists'.1 hK
  have hlt : K < w.network.nextId := h.formed.ordered.lt_nextId (by simp [content?_of_joined? hj])
  omega

theorem settled_addComputed {column : ComputedColumn} {d : Dispatch ω}
    (hlaw : (Call.addComputed n column).Lawful w.network)
    (hdone : (Call.addComputed n column).perform d w = some w') : w'.network.Settled := by
  have hview (hn : w.network.content? n ≠ none) := hlaw _ (h.formed.ordered.view?_eq hn)
  rcases Call.addComputed_cases hdone with ⟨t, t', ht, hadd, rfl⟩ | ⟨j, j', hj, hadd, rfl⟩
  · have hcolumn := hview (by simp [content?_of_table? ht])
    rw [shown, see_stored ht] at hcolumn
    refine settled_addComputed_stored h ht ?_ hadd
    rw [← (h.formed.tables n t ht).toOption_columnKind]
    exact hcolumn
  · have hcolumn := hview (by simp [content?_of_joined? hj])
    rw [h.formed.ordered.columnKind_joined hj] at hcolumn
    refine settled_addComputed_joined h hj ?_ hadd
    rw [← (h.formed.valid n j hj).toOption_columnKind]
    exact hcolumn

include ho

/-- A call leaves a settled network behind. -/
theorem settled_perform {call : Call} (hdeep : w.network.nextId ≤ depth) (hlaw : call.Lawful w.network)
    (hdone : call.perform (dispatch o depth) w = some w') : w'.network.Settled := by
  by_cases hwrites : call.Writes
  · obtain ⟨n, t, t', signals, ht, hwrites, rfl⟩ := hwrites.exists_commit h.formed hdone
    obtain ⟨hpositive, hdepth⟩ := deep_enough h hdeep ht
    exact settled_commit ho h ht hwrites hpositive hdepth
  cases call with
  | addRow | setValue | deleteRow => exact absurd trivial hwrites
  | addComputed n column => exact settled_addComputed h hlaw hdone
  | join left right spec =>
    obtain ⟨leftView, rightView, j, hleft, hright, hj, rfl⟩ := Call.exists_ofSources hdone
    exact settled_insertJoined h hleft hright hj hlaw

end Perform

/-- After every call nothing waits, and every joined table has linked what its sources hold. -/
theorem Reachable.settled (h : Reachable o w) (ho : o.Quiet) : w.network.Settled := by
  induction h with
  | start => exact settled_empty
  | quietly _ hquiet ih => exact hquiet.settled ih
  | replay _ depth n observer ih => exact (quietly_subscribeWithReplay ho depth n observer).settled ih
  | call _ hdeep hlaw hdone ih => exact settled_perform ho ih hdeep hlaw hdone

/-! ## Runs -/

/-- The world after some calls, one after the other, if they all succeed. -/
def Call.performAll (o : Outside ω) (depth : Nat) (w : World ω) (calls : List Call) : Option (World ω) :=
  calls.foldlM (fun w call => if w.network.nextId ≤ depth then call.perform (dispatch o depth) w else none) w

/-- What each of some calls keeps, they keep together. -/
theorem Call.performAll_induction {motive : World ω → Prop} {calls : List Call} (h : motive w)
    (step : ∀ call ∈ calls, ∀ {w w'}, motive w → w.network.nextId ≤ depth →
      call.perform (dispatch o depth) w = some w' → motive w')
    (hdone : Call.performAll o depth w calls = some w') : motive w' := by
  rw [Call.performAll] at hdone
  induction calls generalizing w with
  | nil =>
    obtain rfl := Option.some.inj hdone
    exact h
  | cons call calls ih =>
    rw [List.foldlM_cons, Option.bind_eq_bind, Option.bind_eq_some_iff] at hdone
    obtain ⟨w₁, hcall, hdone⟩ := hdone
    obtain ⟨hdeep, hcall⟩ := Option.ite_none_right_eq_some.1 hcall
    exact ih (step call List.mem_cons_self h hdeep hcall) (fun call hmem => step call (List.mem_cons_of_mem _ hmem)) hdone

/-- Calls that are lawful anywhere lead from reachable worlds to reachable ones. -/
theorem Reachable.performAll {calls : List Call} (h : Reachable o w)
    (hlaw : ∀ call ∈ calls, ∀ net, call.Lawful net) (hdone : Call.performAll o depth w calls = some w') :
    Reachable o w' :=
  Call.performAll_induction h (fun call hmem _ _ h hdeep hcall => h.call hdeep (hlaw call hmem _) hcall) hdone

end LiveTables
