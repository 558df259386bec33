import LiveTables.Proofs.Network.Reading
import LiveTables.Proofs.Table.Extended

/-!
# Networks with more computed columns

One table of a network may have more computed columns (`Network.extend`). Then the network is built in the same way, its
tables are changed in the same way (`setContent_extend`), and every table shows the columns that it had as before
(`Tight.get_extend`). What writing to the tables never changes is their `frame`: who is joined from whom, which columns
there are, who listens and who is held. Where nothing is left that nobody holds (`Steady`), to hold a table and to let it
go again changes nothing (`Steady.release_eq`).
-/

namespace LiveTables

variable {content : Content} {more : List ComputedColumn} {col : ComputedColumn} {id : String}

/-! ## Tables of either sort -/

namespace Content

/-- The table with more computed columns, the newest first. -/
def extend (content : Content) (more : List ComputedColumn) : Content :=
  match content with
  | .stored t => .stored (t.extend more)
  | .joined j => .joined (j.extend more)

/-- The identifiers of all columns. -/
def columnIds : Content → List String
  | .stored t => t.columnIds
  | .joined j => j.columnIds

/-- The tables that a table is joined from. -/
def sources : Content → List Nat
  | .stored _ => []
  | .joined j => [j.left, j.right]

/-- The table with a computed column registered, if it accepts the column. -/
def register (content : Content) (col : ComputedColumn) : Option Content :=
  match content with
  | .stored t => (accepted? (t.addComputed col)).map fun done => .stored done.1
  | .joined j => (accepted? (j.addComputed col)).map fun done => .joined done.1

@[simp] theorem extend_nil (content : Content) : content.extend [] = content := by
  cases content <;> rfl

@[simp] theorem sources_extend (content : Content) (more : List ComputedColumn) :
    (content.extend more).sources = content.sources := by
  cases content <;> rfl

theorem register_eq (content : Content) (col : ComputedColumn) : content.register col =
    if col.id ∉ content.columnIds ∧ ∀ d ∈ col.dependencies, d ∈ content.columnIds then some (content.extend [col])
    else none := by
  cases content with
  | stored t =>
    rw [register, Table.accepted?_addComputed, columnIds]
    split_ifs <;> rfl
  | joined j =>
    rw [register, JoinedTable.accepted?_addComputed, columnIds]
    split_ifs <;> rfl

/-- New columns were not known. -/
theorem kind?_eq_none_of_extend
    (h : Layered (content.extend more).sourceKind? (content.extend more).computed.newestFirst)
    (hid : id ∈ more.map (·.id)) : content.computed.kind? content.sourceKind? id = none := by
  cases content with
  | stored t => exact Layered.kind?_eq_none_of_extend h hid
  | joined j => exact Layered.kind?_eq_none_of_extend h hid

end Content

namespace Node

/-- The node with more computed columns in its table. -/
def extend (x : Node) (more : List ComputedColumn) : Node := { x with content := x.content.extend more }

theorem sources_eq (x : Node) : x.sources = x.content.sources := by
  rw [sources]
  cases x.content <;> rfl

/-- The number of a node, with those of its sources. -/
def wiring (x : Node) : Nat × List Nat := (x.id, x.sources)

/-- What is not changed by writing. -/
def frame (x : Node) : (Nat × List Nat) × List String × Subject Listener × List (String × Subject Listener) :=
  (x.wiring, x.content.columnIds, x.events, x.cells)

end Node

namespace Network

variable {net net' : Network} {n m K : Nat} {c c₀ : Content} {t t' : Table} {j : JoinedTable} {s : Side}
  {stream : Stream} {kind : Kind}

/-- What is not changed by writing, and who is held. -/
def frame (net : Network) :
    List ((Nat × List Nat) × List String × Subject Listener × List (String × Subject Listener)) × List Nat :=
  (net.nodes.map Node.frame, net.held)

/-- The network with more computed columns in one table. -/
def extend (net : Network) (n : Nat) (more : List ComputedColumn) : Network := net.modify n (·.extend more)

/-- The columns that a table has more if one table has more columns. -/
def moreAt (n : Nat) (more : List ComputedColumn) (m : Nat) : List ComputedColumn := if m = n then more else []

@[simp] theorem extend_nil (net : Network) (n : Nat) : net.extend n [] = net := by
  have hnode (x : Node) : (if x.id = n then x.extend [] else x) = x := by
    split_ifs
    · rw [Node.extend, Content.extend_nil]
    · rfl
  simp only [extend, modify, hnode, List.map_id']

theorem node?_extend (net : Network) (n m : Nat) (more : List ComputedColumn) :
    (net.extend n more).node? m = (net.node? m).map (·.extend (moreAt n more m)) := by
  rw [extend, node?_modify (fun x => by rfl)]
  rcases hx : net.node? m with - | x
  · rfl
  · rw [Option.map_some, Option.map_some, (node?_eq_some hx).2, moreAt]
    split_ifs
    · rfl
    · rw [Node.extend, Content.extend_nil]

theorem content?_extend (net : Network) (n m : Nat) (more : List ComputedColumn) :
    (net.extend n more).content? m = (net.content? m).map (·.extend (moreAt n more m)) := by
  rw [content?, node?_extend, content?, Option.map_map, Option.map_map]
  rfl

theorem table?_extend (net : Network) (n m : Nat) (more : List ComputedColumn) :
    (net.extend n more).table? m = (net.table? m).map (·.extend (moreAt n more m)) := by
  rw [table?, content?_extend, table?]
  rcases net.content? m with - | c
  · rfl
  · cases c <;> rfl

theorem joined?_extend (net : Network) (n m : Nat) (more : List ComputedColumn) :
    (net.extend n more).joined? m = (net.joined? m).map (·.extend (moreAt n more m)) := by
  rw [joined?, content?_extend, joined?]
  rcases net.content? m with - | c
  · rfl
  · cases c <;> rfl

theorem subject_extend (net : Network) (n m : Nat) (more : List ComputedColumn) (stream : Stream) :
    (net.extend n more).subject m stream = net.subject m stream := by
  rw [subject, node?_extend, subject]
  rcases net.node? m with - | x
  · rfl
  · cases stream <;> rfl

/-- A table may be changed before the columns are registered, or afterwards. -/
theorem setContent_extend (net : Network) (n m : Nat) (more : List ComputedColumn) (c : Content) :
    (net.extend n more).setContent m (c.extend (moreAt n more m)) = (net.setContent m c).extend n more := by
  have hnode (x : Node) : (if (if x.id = n then x.extend more else x).id = m then
        { (if x.id = n then x.extend more else x) with content := c.extend (moreAt n more m) }
      else if x.id = n then x.extend more else x) =
      if (if x.id = m then { x with content := c } else x).id = n then
        (if x.id = m then { x with content := c } else x).extend more
      else if x.id = m then { x with content := c } else x := by
    by_cases hn : x.id = n
    · by_cases hm : x.id = m
      · subst hn hm
        simp [Node.extend, moreAt]
      · simp [hn, Node.extend, show n ≠ m from hn ▸ hm]
    · by_cases hm : x.id = m
      · simp [hm, moreAt, show m ≠ n from hm ▸ hn]
      · simp [hn, hm]
  simp only [extend, setContent, modify, List.map_map]
  congr 1
  exact List.map_congr_left fun x _ => hnode x

/-! ## What writing does not change -/

theorem frame_setContent (ho : net.Ordered) (hc : net.content? m = some c₀) (hsources : c.sources = c₀.sources)
    (hcolumns : c.columnIds = c₀.columnIds) : (net.setContent m c).frame = net.frame := by
  have hnodes : (net.setContent m c).nodes.map Node.frame = net.nodes.map Node.frame := by
    simp only [setContent, modify, List.map_map]
    refine List.map_congr_left fun x hx => ?_
    simp only [Function.comp_apply]
    split_ifs with hid
    · -- there is only one node of the number
      have hcontent : x.content = c₀ := by
        have hx' := ho.content?_of_mem hx
        rw [hid, hc] at hx'
        exact (Option.some.inj hx').symm
      rw [Node.frame, Node.wiring, Node.frame, Node.wiring, Node.sources_eq, Node.sources_eq, hcontent, hsources,
        hcolumns]
    · rfl
  exact congrArg (·, net.held) hnodes

theorem find?_frame (net : Network) (m : Nat) : net.frame.1.find? (·.1.1 = m) = (net.node? m).map Node.frame :=
  List.find?_map

theorem map_frame_congr (h : net'.frame = net.frame) :
    (net'.node? m).map Node.frame = (net.node? m).map Node.frame := by
  rw [← find?_frame, h, find?_frame]

/-- Who listens is a matter of the frame. -/
theorem subject_congr (h : net'.frame = net.frame) : net'.subject m stream = net.subject m stream := by
  have hnode := map_frame_congr (m := m) h
  rw [subject, subject]
  rcases hx : net.node? m with - | x
  · rw [hx, Option.map_none, Option.map_eq_none_iff] at hnode
    rw [hnode]
  · rw [hx, Option.map_some, Option.map_eq_some_iff] at hnode
    obtain ⟨x', hx', hframe⟩ := hnode
    obtain ⟨-, hevents⟩ := Prod.mk.inj (Prod.mk.inj hframe).2
    obtain ⟨hevents, hcells⟩ := Prod.mk.inj hevents
    rw [hx']
    cases stream with
    | events => exact hevents
    | cells column => simp only [Node.subject, hcells]

/-- Which columns there are is a matter of the frame. -/
theorem columnIds_congr (h : net'.frame = net.frame) :
    (net'.content? m).map Content.columnIds = (net.content? m).map Content.columnIds := by
  have hnode := congrArg (Option.map fun f => f.2.1) (map_frame_congr (m := m) h)
  rw [content?, content?, Option.map_map, Option.map_map]
  rwa [Option.map_map, Option.map_map] at hnode

/-! ## Holding -/

/-- How many nodes live is a matter of the wiring. -/
theorem length_living_congr {held wanted : List Nat} {nodes nodes' : List Node}
    (h : nodes'.map Node.wiring = nodes.map Node.wiring) :
    (living held nodes' wanted).length = (living held nodes wanted).length := by
  induction nodes generalizing nodes' wanted with
  | nil => rw [List.map_eq_nil_iff.1 h]
  | cons x older ih =>
    obtain ⟨x', older', rfl, hx, holder⟩ := List.map_eq_cons_iff.1 h
    obtain ⟨hid, hsources⟩ := Prod.mk.inj hx
    rw [living, living, hid, hsources]
    split_ifs
    · rw [List.length_cons, List.length_cons, ih holder]
    · exact ih holder

/-- Nothing is left that nobody holds. -/
def Steady (net : Network) : Prop := (living net.held net.nodes []).length = net.nodes.length

theorem steady_of_sweep (h : net.sweep = net) : net.Steady := by
  by_contra hne
  rw [Steady] at hne
  have hnodes := congrArg (·.nodes.length) h
  simp only [sweep, if_neg hne, List.length_map] at hnodes
  exact hne hnodes

namespace Steady

theorem sweep_eq (h : net.Steady) : net.sweep = net := if_pos h

theorem congr (h : net.Steady) (hnodes : net'.nodes.map Node.wiring = net.nodes.map Node.wiring)
    (hheld : net'.held = net.held) : net'.Steady := by
  have hlength := congrArg List.length hnodes
  rw [List.length_map, List.length_map] at hlength
  rw [Steady, hheld, length_living_congr hnodes, hlength]
  exact h

theorem of_frame (h : net.Steady) (hframe : net'.frame = net.frame) : net'.Steady := by
  obtain ⟨hnodes, hheld⟩ := Prod.mk.inj hframe
  refine h.congr ?_ hheld
  have hwiring := congrArg (List.map Prod.fst) hnodes
  rwa [List.map_map, List.map_map] at hwiring

theorem extend (h : net.Steady) (n : Nat) (more : List ComputedColumn) : (net.extend n more).Steady := by
  refine h.congr ?_ rfl
  simp only [Network.extend, modify, List.map_map]
  refine List.map_congr_left fun x _ => ?_
  simp only [Function.comp_apply]
  split_ifs
  · rw [Node.wiring, Node.wiring, Node.sources_eq, Node.sources_eq, Node.extend, Content.sources_extend]
  · rfl

/-- What lives also lives when more is held. -/
theorem hold (h : net.Steady) (K : Nat) : (net.hold K).Steady := by
  have hall {held wanted : List Nat} {nodes : List Node} (h : living held nodes wanted = nodes) :
      living (K :: held) nodes wanted = nodes := by
    induction nodes generalizing wanted with
    | nil => rfl
    | cons x older ih =>
      rw [living] at h
      split_ifs at h with hlives
      · rw [living, if_pos (hlives.imp_left (List.mem_cons_of_mem K)), ih (List.cons.inj h).2]
      · have hsublist : (living held older wanted).Sublist older := living_sublist
        have hle := hsublist.length_le
        rw [h, List.length_cons] at hle
        exact absurd hle (Nat.not_succ_le_self _)
  have hnodes : living net.held net.nodes [] = net.nodes := living_sublist.eq_of_length h
  rw [Steady, Network.hold, hall hnodes]

/-- If what was held last is let go, nobody goes. -/
theorem release_eq {held : List Nat} (hheld : net.held = K :: held) (h : ({ net with held } : Network).Steady) :
    net.release K = { net with held } := by
  rw [release, hheld, List.erase_cons_head]
  exact h.sweep_eq

/-- A table is held and let go. -/
theorem release_hold (h : net.Steady) (K : Nat) : (net.hold K).release K = net := release_eq rfl h

end Steady

/-! ## Reading -/

/-- A network that keeps its kinds, and in which joined tables have the key columns of their sources. -/
structure Tight (net : Network) : Prop where
  kinded : net.Kinded
  keys : ∀ n j, net.joined? n = some j → ∀ s, j.key s ∈ j.sideIds s

/-- A column has the kind that it was stored or registered with. -/
theorem Kinded.columnKind_eq_ok (h : net.Kinded) (hcontent : net.content? m = some content) :
    (net.shown m).columnKind id = .ok kind ↔ content.computed.kind? content.sourceKind? id = some kind := by
  cases content with
  | stored t =>
    have ht := table?_eq_some_iff.2 hcontent
    rw [shown, see_stored ht]
    exact (h.regular.tables m t ht).columnKind_eq_ok
  | joined j =>
    have hj := joined?_eq_some_iff.2 hcontent
    rw [h.regular.orderly.ordered.columnKind_joined hj]
    exact (h.layers m j hj).columnKind_eq_ok

namespace Tight

theorem empty : Tight {} := ⟨.empty, fun n j hj => by cases hj⟩

/-- Single steps leave the key columns alone. -/
theorem changes (h : net.Tight) (hchanges : net.Changes net') : net'.Tight := by
  refine ⟨h.kinded.changes hchanges, fun m j hj => ?_⟩
  have ho := h.kinded.regular.orderly
  -- a joined table that is changed has the key columns and the columns of the sources that it had
  have hset {n : Nat} {content : Content} (hcontent : ∀ j, content = .joined j → ∀ s, j.key s ∈ j.sideIds s)
      (hj : (net.setContent n content).joined? m = some j) (s : Side) : j.key s ∈ j.sideIds s := by
    by_cases hm : m = n
    · subst hm
      by_cases hn : net.content? m = none
      · rw [joined?_eq_some_iff, content?, setContent, node?_modify (fun x => by rfl)] at hj
        rw [content?, Option.map_eq_none_iff] at hn
        rw [hn] at hj
        cases hj
      · rw [joined?_eq_some_iff, content?_setContent_self hn] at hj
        exact hcontent j (Option.some.inj hj) s
    · exact h.keys m j ((joined?_congr (content?_setContent_of_ne hm)).symm.trans hj) s
  cases hchanges with
  | quietly hquiet =>
    rcases (hquiet.retains ho).contents m _ (content?_of_joined? hj) with hold | ⟨-, schema, hnew⟩
    · exact h.keys m j (joined?_eq_some_iff.2 hold)
    · cases hnew
  | edit | addComputed => exact hset (fun _ heq => by cases heq) hj
  | @addComputedJoined n j₀ j' column hj₀ hadd =>
    obtain ⟨-, computed, rfl, -⟩ := (h.kinded.layers n j₀ hj₀).addComputed hadd
    refine hset (fun j₁ heq s => ?_) hj
    obtain rfl := Content.joined.inj heq
    exact h.keys n j₀ hj₀ s
  | @link n j₀ hj₀ engine =>
    refine hset (fun j₁ heq s => ?_) hj
    obtain rfl := Content.joined.inj heq
    exact h.keys n j₀ hj₀ s
  | @join l r left right spec j' hleft hright hjoined =>
    have hcontent := content?_of_joined? hj
    rw [content?_insertJoined] at hcontent
    split_ifs at hcontent
    · obtain rfl := Content.joined.inj (Option.some.inj hcontent)
      obtain ⟨-, rfl⟩ := ho.ordered.view?_eq_some_iff.1 hleft
      obtain ⟨-, rfl⟩ := ho.ordered.view?_eq_some_iff.1 hright
      obtain ⟨hbuilt, -⟩ := JoinedTable.built_of_sources hjoined
      intro s
      obtain ⟨kind, hkind⟩ := hbuilt.keys s
      rw [hbuilt.ids]
      cases s with
      | left => exact ho.ordered.mem_columnIds hkind
      | right => exact ho.ordered.mem_columnIds hkind
    · exact h.keys m j (joined?_eq_some_iff.2 hcontent)

variable (h : net.Tight) (h' : (net.extend n more).Tight)

include h'

/-- The columns that a table has more were not known before. -/
theorem kind?_eq_none (hcontent : net.content? m = some content) (hid : id ∈ (moreAt n more m).map (·.id)) :
    content.computed.kind? content.sourceKind? id = none := by
  have hcontent' : (net.extend n more).content? m = some (content.extend (moreAt n more m)) := by
    rw [content?_extend, hcontent, Option.map_some]
  exact Content.kind?_eq_none_of_extend (h'.kinded.layered hcontent') hid

include h

/-- A column that a table shows is none of those that it has more. -/
theorem not_mem_moreAt (hm : net.content? m ≠ none) (hkind : (net.shown m).columnKind id = .ok kind) :
    id ∉ (moreAt n more m).map (·.id) := by
  obtain ⟨content, hcontent⟩ := Option.ne_none_iff_exists'.1 hm
  intro hid
  rw [h.kinded.columnKind_eq_ok hcontent, kind?_eq_none h' hcontent hid] at hkind
  cases hkind

/-- Of the columns that its source has more, a joined table knows none. -/
theorem not_mem_of_sideIds (hj : net.joined? K = some j) (hid : id ∈ j.sideIds s) :
    id ∉ (moreAt n more (j.source s)).map (·.id) := by
  obtain ⟨⟨id, kind⟩, hmem, rfl⟩ := List.mem_map.1 hid
  exact not_mem_moreAt h h' (h.kinded.regular.orderly.ordered.source hj s).2 (h.kinded.kinds K j hj s id kind hmem)

/-- Every table shows the columns that it had as before. -/
theorem get_extend {row : Nat} (hm : net.content? m ≠ none) (hkind : (net.shown m).columnKind id = .ok kind) :
    ((net.extend n more).shown m).get id row = (net.shown m).get id row := by
  have ho := h.kinded.regular.orderly.ordered
  have ho' := h'.kinded.regular.orderly.ordered
  refine ho.induction (motive := fun m => ∀ id kind row, (net.shown m).columnKind id = .ok kind →
    ((net.extend n more).shown m).get id row = (net.shown m).get id row) (fun m t ht id kind row hkind => ?_)
    (fun m j hj ih id kind row hkind => ?_) m hm id kind row hkind
  · have hnew := not_mem_moreAt h h' (by simp [content?_of_table? ht]) hkind
    have ht' : (net.extend n more).table? m = some (t.extend (moreAt n more m)) := by rw [table?_extend, ht]; rfl
    rw [shown, see_stored ht', shown, see_stored ht]
    show (if t.isLive row then _ else _) = if t.isLive row then _ else _
    split_ifs
    · exact Computed.read_extend hnew
    · rfl
  · have hnew := not_mem_moreAt h h' (by simp [content?_of_joined? hj]) hkind
    have hj' : (net.extend n more).joined? m = some (j.extend (moreAt n more m)) := by rw [joined?_extend, hj]; rfl
    have hlayers := h.kinded.layers m j hj
    -- the cells of the sources are shown as before, so that all that is known is read as before
    have hstored (id : String) (row : Nat) :
        j.stored (fun s => (net.extend n more).shown (j.source s)) row id =
          j.stored (fun s => net.shown (j.source s)) row id := by
      rw [JoinedTable.stored, JoinedTable.stored]
      rcases hc : j.column? id with - | ⟨s, kind⟩
      · rfl
      · dsimp only
        rcases j.engine.sourceRow? s row with - | r
        · rfl
        · exact ih s id kind r (h.kinded.kinds m j hj s id kind (JoinedTable.mem_columns_of_column? hc))
    rw [shown, ho'.see_joined hj', shown, ho.see_joined hj]
    show (if j.engine.contains row then _ else _) = if j.engine.contains row then _ else _
    split_ifs
    · refine (Computed.read_extend hnew).trans ?_
      have heq : j.stored (fun s => (net.extend n more).shown (j.source s)) row =
          j.stored (fun s => net.shown (j.source s)) row := funext fun id => hstored id row
      exact congrArg (j.computed.read · id) heq
    · rfl

end Tight

end Network

end LiveTables
