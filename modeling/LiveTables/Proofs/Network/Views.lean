import LiveTables.Proofs.Join.Cells
import LiveTables.Proofs.Network.Contents

/-!
# Reading a network

The tables of a network are read through each other: a joined table reads its sources (`see_joined`), down to
the stored tables (`see_stored`). That may be done in either of the ways in which a joined table is read, so
that a cell has an actual class, and a class that the joins above presume from the links that they have made
(`actual`, `presumed`). Two networks that agree on a table and all that it is joined from show the table alike
(`Agree.see`).
-/

namespace LiveTables

/-- What is seen where there is no table. -/
def TableView.nowhere : TableView where
  name := ""
  columnIds := []
  columnKind id := .error (.columnNotFound "" id)
  rows := []
  rowCount := 0
  get _ row := .error (.rowNotFound "" row)

namespace Network

variable {net net' : Network} {id n k : Nat} {c : String} {t : Table} {j : JoinedTable} {s : Side}
  {cell cell' : CellReader} {x : Node} {older nodes : List Node}

/-- The view of a table among some nodes, with source columns read in a given way. -/
def seeAmong (cell : CellReader) : List Node → Nat → TableView
  | [], _ => .nowhere
  | x :: older, id =>
    if x.id = id then
      match x.content with
      | .stored t => t.view
      | .joined j => j.viewWith cell fun s => seeAmong cell older (j.source s)
    else seeAmong cell older id

/-- The view of a table, with source columns read in a given way. -/
def see (cell : CellReader) (net : Network) (id : Nat) : TableView := seeAmong cell net.nodes id

/-- The view of a table as it is. -/
abbrev shown (net : Network) (id : Nat) : TableView := net.see JoinedTable.stored id

/-- The class of a cell as it is. -/
def actual (net : Network) (n k : Nat) (c : String) : Option Value := (net.shown n).class? k c

/-- The class of a cell as it is linked. -/
def presumed (net : Network) (n k : Nat) (c : String) : Option Value :=
  (net.see JoinedTable.linkedCell n).class? k c

theorem see_of_none (h : net.content? id = none) : net.see cell id = .nowhere := by
  rw [content?, Option.map_eq_none_iff, node?] at h
  rw [see]
  generalize net.nodes = nodes at h
  induction nodes with
  | nil => rfl
  | cons x older ih =>
    rw [List.find?_cons] at h
    split at h
    · exact absurd h (by simp)
    · rename_i hne
      rw [seeAmong, if_neg (by simpa using hne)]
      exact ih h

theorem see_stored (h : net.table? id = some t) : net.see cell id = t.view := by
  obtain ⟨x, hx, hcontent⟩ := content?_eq_some_iff.1 (content?_of_table? h)
  rw [node?] at hx
  rw [see]
  generalize net.nodes = nodes at hx
  induction nodes with
  | nil => exact absurd hx (by simp)
  | cons y older ih =>
    rw [List.find?_cons] at hx
    rw [seeAmong]
    split at hx
    · rename_i heq
      obtain rfl := Option.some.inj hx
      rw [if_pos (by simpa using heq), hcontent]
    · rename_i hne
      rw [if_neg (by simpa using hne)]
      exact ih hx

/-- A node does not read itself or what is newer. -/
theorem seeAmong_cons_of_lt (h : id < x.id) : seeAmong cell (x :: older) id = seeAmong cell older id := by
  rw [seeAmong, if_neg (Nat.ne_of_gt h)]

theorem seeAmong_joined (hdescending : nodes.Pairwise fun a b => b.id < a.id)
    (hx : nodes.find? (·.id = id) = some x) (hcontent : x.content = .joined j)
    (hsource : ∀ s, j.source s < id) :
    seeAmong cell nodes id = j.viewWith cell fun s => seeAmong cell nodes (j.source s) := by
  induction nodes with
  | nil => exact absurd hx (by simp)
  | cons y older ih =>
    obtain ⟨hy, hdescending⟩ := List.pairwise_cons.1 hdescending
    rw [List.find?_cons] at hx
    split at hx
    · rename_i heq
      obtain rfl := Option.some.inj hx
      have hid : y.id = id := by simpa using heq
      have hskip (s : Side) : seeAmong cell (y :: older) (j.source s) = seeAmong cell older (j.source s) :=
        seeAmong_cons_of_lt (hid.symm ▸ hsource s)
      simp only [hskip]
      rw [seeAmong, if_pos hid, hcontent]
    · rename_i hne
      have hid : x.id = id := by simpa using List.find?_some hx
      have hlt : id < y.id := hid ▸ hy x (List.mem_of_find?_eq_some hx)
      have hskip (s : Side) : seeAmong cell (y :: older) (j.source s) = seeAmong cell older (j.source s) :=
        seeAmong_cons_of_lt (Nat.lt_trans (hsource s) hlt)
      simp only [hskip]
      rw [seeAmong_cons_of_lt hlt]
      exact ih hdescending hx

/-- A joined table is read through its sources. -/
theorem Ordered.see_joined (h : net.Ordered) (hj : net.joined? id = some j) :
    net.see cell id = j.viewWith cell fun s => net.see cell (j.source s) := by
  obtain ⟨x, hx, hcontent⟩ := content?_eq_some_iff.1 (content?_of_joined? hj)
  exact seeAmong_joined h.descending hx hcontent fun s => (h.source hj s).1

theorem viewAmong_eq_some (hdescending : nodes.Pairwise fun a b => b.id < a.id)
    (hsources : ∀ x ∈ nodes, ∀ s ∈ x.sources, s < x.id ∧ ∃ y ∈ nodes, y.id = s)
    (hid : ∃ x ∈ nodes, x.id = id) : viewAmong nodes id = some (seeAmong JoinedTable.stored nodes id) := by
  induction nodes generalizing id with
  | nil =>
    obtain ⟨x, hx, -⟩ := hid
    exact absurd hx List.not_mem_nil
  | cons x older ih =>
    obtain ⟨hx, hdescending⟩ := List.pairwise_cons.1 hdescending
    -- whatever is a source comes after the first node
    have hlater {y : Node} (hy : y ∈ x :: older) {s : Nat} (hs : s ∈ y.sources) :
        s < y.id ∧ ∃ z ∈ older, z.id = s := by
      obtain ⟨hlt, z, hz, rfl⟩ := hsources y hy s hs
      refine ⟨hlt, z, (List.mem_cons.1 hz).resolve_left ?_, rfl⟩
      rintro rfl
      rcases List.mem_cons.1 hy with rfl | hy
      · exact absurd hlt (Nat.lt_irrefl _)
      · exact absurd (hx y hy) (Nat.lt_asymm hlt)
    have ih' {id : Nat} (hid : ∃ y ∈ older, y.id = id) :
        viewAmong older id = some (seeAmong JoinedTable.stored older id) :=
      ih hdescending (fun y hy s hs => hlater (List.mem_cons_of_mem _ hy) hs) hid
    rw [viewAmong, seeAmong]
    split_ifs with heq
    · rcases hcontent : x.content with t | j
      · rfl
      · have hsource (s : Side) : ∃ y ∈ older, y.id = j.source s :=
          (hlater List.mem_cons_self (Node.source_mem_sources hcontent s)).2
        have hleft := ih' (hsource .left)
        have hright := ih' (hsource .right)
        simp only [JoinedTable.source] at hleft hright
        simp only [hleft, hright, JoinedTable.viewWith_stored]
        congr 2
        funext s
        cases s <;> rfl
    · obtain ⟨y, hy, hid⟩ := hid
      refine ih' ⟨y, (List.mem_cons.1 hy).resolve_left ?_, hid⟩
      rintro rfl
      exact heq hid

/-- What readers are shown is what is seen. -/
theorem Ordered.view?_eq (h : net.Ordered) (hid : net.content? id ≠ none) :
    net.view? id = some (net.shown id) := by
  obtain ⟨c, hc⟩ := Option.ne_none_iff_exists'.1 hid
  obtain ⟨x, hx, -⟩ := content?_eq_some_iff.1 hc
  obtain ⟨hmem, hid⟩ := node?_eq_some hx
  exact viewAmong_eq_some h.descending h.sources ⟨x, hmem, hid⟩

/-- A stored table is shown as it is. -/
theorem Ordered.view?_of_table? (h : net.Ordered) {t : Table} (ht : net.table? id = some t) :
    net.view? id = some t.view := by
  rw [h.view?_eq (by simp [content?_of_table? ht]), shown, see_stored ht]

theorem view?_eq_none (hid : net.content? id = none) : net.view? id = none := by
  rw [content?, Option.map_eq_none_iff, node?] at hid
  rw [view?]
  generalize net.nodes = nodes at hid
  induction nodes with
  | nil => rfl
  | cons x older ih =>
    rw [List.find?_cons] at hid
    split at hid
    · exact absurd hid (by simp)
    · rename_i hne
      rw [viewAmong, if_neg (by simpa using hne)]
      exact ih hid

theorem Ordered.view?_eq_some_iff (h : net.Ordered) {view : TableView} :
    net.view? id = some view ↔ net.content? id ≠ none ∧ net.shown id = view := by
  by_cases hid : net.content? id = none
  · simp [view?_eq_none hid, hid]
  · simp [h.view?_eq hid, hid]

theorem Ordered.rows_joined (h : net.Ordered) (hj : net.joined? id = some j) :
    (net.shown id).rows = j.engine.rows := by
  rw [shown, h.see_joined hj]
  rfl

theorem Ordered.columnKind_joined (h : net.Ordered) (hj : net.joined? id = some j) :
    (net.shown id).columnKind = j.columnKind := by
  rw [shown, h.see_joined hj]
  rfl

theorem Ordered.columnIds_joined (h : net.Ordered) (hj : net.joined? id = some j) :
    (net.shown id).columnIds = j.columnIds := by
  rw [shown, h.see_joined hj]
  rfl

/-- The names and kinds of the columns, and the rows, are a matter of the table alone. -/
theorem Ordered.shown_congr (h : net.Ordered) (h' : net'.Ordered)
    (hc : net'.content? id = net.content? id) :
    (net'.shown id).rows = (net.shown id).rows ∧
      (net'.shown id).columnIds = (net.shown id).columnIds ∧
      (net'.shown id).columnKind = (net.shown id).columnKind := by
  by_cases hid : net.content? id = none
  · rw [shown, see_of_none (hc.trans hid), shown, see_of_none hid]
    exact ⟨rfl, rfl, rfl⟩
  · rcases exists_of_content?_ne_none hid with ⟨t, ht⟩ | ⟨j, hj⟩
    · have ht' : net'.table? id = some t := (table?_congr hc).trans ht
      rw [shown, see_stored ht', shown, see_stored ht]
      exact ⟨rfl, rfl, rfl⟩
    · have hj' : net'.joined? id = some j := (joined?_congr hc).trans hj
      rw [h.rows_joined hj, h'.rows_joined hj', h.columnIds_joined hj, h'.columnIds_joined hj',
        h.columnKind_joined hj, h'.columnKind_joined hj']
      exact ⟨rfl, rfl, rfl⟩

/-! ## Networks that agree -/

/-- Two networks hold the same at certain numbers, and with a joined table these numbers include its
sources. -/
structure Agree (net net' : Network) (P : Nat → Prop) : Prop where
  contents : ∀ id, P id → net'.content? id = net.content? id
  closed : ∀ id j s, P id → net.joined? id = some j → P (j.source s)

namespace Agree

variable {P : Nat → Prop}

theorem joined? (h : Agree net net' P) (hid : P id) : net'.joined? id = net.joined? id :=
  joined?_congr (h.contents id hid)

theorem table? (h : Agree net net' P) (hid : P id) : net'.table? id = net.table? id :=
  table?_congr (h.contents id hid)

theorem symm (h : Agree net net' P) : Agree net' net P :=
  ⟨fun id hid => (h.contents id hid).symm, fun id j s hid hj => h.closed id j s hid ((h.joined? hid) ▸ hj)⟩

/-- Where networks agree, the same is seen. -/
theorem see (h : Agree net net' P) (ho : net.Ordered) (ho' : net'.Ordered) (hid : P id) :
    net'.see cell id = net.see cell id := by
  by_cases hnone : net.content? id = none
  · rw [see_of_none hnone, see_of_none ((h.contents id hid).trans hnone)]
  · refine ho.induction (motive := fun id => P id → net'.see cell id = net.see cell id)
      (fun id t ht hid => ?_) (fun id j hj ih hid => ?_) id hnone hid
    · rw [see_stored ht, see_stored ((h.table? hid).trans ht)]
    · have hsources : (fun s => net'.see cell (j.source s)) = fun s => net.see cell (j.source s) :=
        funext fun s => ih s (h.closed id j s hid hj)
      rw [ho.see_joined hj, ho'.see_joined ((h.joined? hid).trans hj), hsources]

theorem actual (h : Agree net net' P) (ho : net.Ordered) (ho' : net'.Ordered) (hid : P id) :
    net'.actual id k c = net.actual id k c := by
  rw [Network.actual, shown, h.see ho ho' hid, Network.actual]

theorem presumed (h : Agree net net' P) (ho : net.Ordered) (ho' : net'.Ordered) (hid : P id) :
    net'.presumed id k c = net.presumed id k c := by
  rw [Network.presumed, h.see ho ho' hid, Network.presumed]

end Agree

end Network

end LiveTables
