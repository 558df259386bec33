import LiveTables.Proofs.Network.Contents

/-!
# Who listens to whom

In a wired network every joined table is registered once for each of its sides, at the source of the side,
and no other joined table is registered anywhere (`Wired`). Observers come and go without touching that, and
so do tables: a table that is joined brings its registrations (`Wired.insertJoined`), and one that is swept
away takes them along (`Wired.sweep`).
-/

namespace LiveTables

namespace Subject

variable {ι : Type} {s : Subject ι}

/-- Registrations have different identifiers, all of which were given out. -/
structure Tidy (s : Subject ι) : Prop where
  fresh : ∀ e ∈ s.entries, e.1 < s.nextId
  nodup : (s.entries.map (·.1)).Nodup

theorem tidy_empty : (∅ : Subject ι).Tidy := ⟨fun _ he => absurd he List.not_mem_nil, List.nodup_nil⟩

theorem Tidy.subscribe (h : s.Tidy) (listener : ι) : (s.subscribe listener).1.Tidy where
  fresh e he := by
    rcases List.mem_append.1 he with he | he
    · exact Nat.lt_succ_of_lt (h.fresh e he)
    · rw [List.mem_singleton.1 he]
      exact Nat.lt_succ_self _
  nodup := by
    show ((s.entries ++ [(s.nextId, listener)]).map (·.1)).Nodup
    rw [List.map_append, List.nodup_append']
    refine ⟨h.nodup, List.nodup_singleton _, fun i hi hlast => ?_⟩
    obtain ⟨e, he, rfl⟩ := List.mem_map.1 hi
    have hnext : e.1 = s.nextId := List.mem_singleton.1 hlast
    exact absurd (h.fresh e he) (Nat.not_lt_of_le (Nat.le_of_eq hnext.symm))

/-- Some registrations of a tidy subject. -/
theorem Tidy.filter (h : s.Tidy) (keep : Nat × ι → Bool) :
    Tidy { s with entries := s.entries.filter keep } where
  fresh e he := h.fresh e (List.mem_filter.1 he).1
  nodup := h.nodup.sublist (List.filter_sublist.map _)

end Subject

namespace Network

variable {net net' : Network} {id m n K : Nat} {c : Content} {j : JoinedTable} {s : Side}

/-- The registrations for the events of a table. -/
def entries (net : Network) (n : Nat) : List (Nat × Listener) := (net.subject n .events).entries

theorem subject_of_node? {x : Node} (h : net.node? n = some x) : net.subject n .events = x.events := by
  rw [subject, h]
  rfl

theorem subject_of_content?_eq_none (h : net.content? n = none) (stream : Stream) :
    net.subject n stream = ∅ := by
  rw [content?, Option.map_eq_none_iff] at h
  rw [subject, h]

/-- The source of a side of a joined table. -/
def sourceOf? (net : Network) (K : Nat) (s : Side) : Option Nat := (net.joined? K).map (·.source s)

theorem sourceOf?_eq_some_iff : net.sourceOf? K s = some n ↔ ∃ j, net.joined? K = some j ∧ j.source s = n := by
  rw [sourceOf?, Option.map_eq_some_iff]

theorem sourceOf?_of_joined? (h : net.joined? K = some j) (s : Side) :
    net.sourceOf? K s = some (j.source s) := by
  rw [sourceOf?, h, Option.map_some]

theorem sourceOf?_congr (h : net'.content? K = net.content? K) (s : Side) :
    net'.sourceOf? K s = net.sourceOf? K s := by
  rw [sourceOf?, joined?_congr h, sourceOf?]

/-- Every joined table is registered for each side at the source of the side, once. -/
structure Wired (net : Network) : Prop where
  tidy : ∀ n, (net.subject n .events).Tidy
  joins : ∀ n K s, (∃ i, (i, .join K s) ∈ net.entries n) ↔ net.sourceOf? K s = some n
  once : ∀ n K s i i', (i, .join K s) ∈ net.entries n → (i', .join K s) ∈ net.entries n → i = i'

/-- The wiring is about the registrations of joined tables only. -/
theorem Wired.of_entries (h : net.Wired) (htidy : ∀ n, (net'.subject n .events).Tidy)
    (hentries : ∀ n K s i, (i, .join K s) ∈ net'.entries n ↔ (i, .join K s) ∈ net.entries n)
    (hsource : ∀ K s, net'.sourceOf? K s = net.sourceOf? K s) : net'.Wired where
  tidy := htidy
  joins n K s := by
    simp only [hentries, hsource]
    exact h.joins n K s
  once n K s i i' hi hi' := h.once n K s i i' ((hentries n K s i).1 hi) ((hentries n K s i').1 hi')

/-! ## Operations -/

theorem subject_setContent : (net.setContent m c).subject n .events = net.subject n .events := by
  rw [subject, setContent, node?_modify (fun x => by rfl), subject]
  rcases net.node? n with - | x
  · rfl
  · simp only [Option.map_some]
    split_ifs
    · rfl
    · rfl

theorem subject_modifySubject (f : Node → Subject Listener → Subject Listener) :
    (net.modify m fun x => x.modifySubject .events (f x)).subject n .events =
      match net.node? n with
      | some x => if n = m then f x x.events else x.events
      | none => ∅ := by
  rw [subject, node?_modify fun x => x.id_modifySubject _ _]
  rcases hx : net.node? n with - | x
  · rfl
  · obtain rfl := (node?_eq_some hx).2
    simp only [Option.map_some]
    split_ifs
    · rfl
    · rfl

theorem subject_modifySubject_cells (column : String) (f : Node → Subject Listener → Subject Listener) :
    (net.modify m fun x => x.modifySubject (.cells column) (f x)).subject n .events =
      net.subject n .events := by
  rw [subject, node?_modify fun x => x.id_modifySubject _ _, subject]
  rcases net.node? n with - | x
  · rfl
  · simp only [Option.map_some]
    split_ifs
    · rfl
    · rfl

theorem subject_subscribe (listener : Listener) :
    (net.subscribe m .events listener).1.subject n .events =
      if n = m ∧ net.content? n ≠ none then ((net.subject n .events).subscribe listener).1
      else net.subject n .events := by
  refine (subject_modifySubject fun x s => (s.subscribe listener).1).trans ?_
  rcases hx : net.node? n with - | x
  · have hnone : net.content? n = none := by rw [content?, hx, Option.map_none]
    rw [if_neg fun h => h.2 hnone, subject_of_content?_eq_none hnone]
  · have hsome : net.content? n ≠ none := by simp [content?, hx]
    rw [subject_of_node? hx]
    simp [hsome]

theorem subject_unsubscribe (i : Nat) :
    (net.unsubscribe ⟨m, .events, i⟩).subject n .events =
      if n = m then (net.subject n .events).unsubscribe i else net.subject n .events := by
  refine (subject_modifySubject fun x s => s.unsubscribe i).trans ?_
  rcases hx : net.node? n with - | x
  · have hnone : net.content? n = none := by rw [content?, hx, Option.map_none]
    rw [subject_of_content?_eq_none hnone]
    simp [Subject.unsubscribe, EmptyCollection.emptyCollection]
  · rw [subject_of_node? hx]

theorem subject_insert (h : net.Ordered) :
    (net.insert c).1.subject n .events = net.subject n .events := by
  rw [subject, node?, insert, List.find?_cons]
  by_cases heq : net.nextId = n
  · rw [subject_of_content?_eq_none (heq ▸ h.content?_nextId)]
    simp [heq, Node.subject]
  · simp [heq, subject, node?]

/-- Of the registrations at a node that is kept, those of joined tables that are gone are taken away. -/
theorem subject_restrict {nodes : List Node} (h : net.Ordered) (hsub : nodes.Sublist net.nodes)
    (hn : (net.restrict nodes).content? n ≠ none) :
    (net.restrict nodes).subject n .events = (net.subject n .events).forget fun
      | .join joined _ => joined ∉ nodes.map (·.id)
      | _ => false := by
  obtain ⟨c, hc⟩ := Option.ne_none_iff_exists'.1 hn
  obtain ⟨x', hx', -⟩ := content?_eq_some_iff.1 hc
  obtain ⟨hmem, rfl⟩ := node?_eq_some hx'
  rw [subject_of_node? hx']
  obtain ⟨x, hx, rfl⟩ := List.mem_map.1 hmem
  have hnode : net.node? x.id = some x := h.node?_of_mem (hsub.subset hx)
  rw [Node.id_keepJoins, subject_of_node? hnode]
  rfl

/-! ## Staying wired -/

/-- Another table with the same sources in the place of one. -/
theorem Wired.setContent (h : net.Wired)
    (hsource : ∀ s, (net.setContent n c).sourceOf? n s = net.sourceOf? n s) :
    (net.setContent n c).Wired := by
  refine h.of_entries (fun m => ?_) (fun m K s i => ?_) fun K s => ?_
  · rw [subject_setContent]
    exact h.tidy m
  · rw [entries, subject_setContent, entries]
  · by_cases heq : K = n
    · exact heq ▸ hsource s
    · exact sourceOf?_congr (content?_setContent_of_ne heq) s

/-- An observer that registers leaves the registrations of joined tables alone. -/
theorem mem_entries_subscribe {stream : Stream} {listener : Listener} (hl : ∀ K s, listener ≠ .join K s)
    {i : Nat} : (i, .join K s) ∈ (net.subscribe m stream listener).1.entries n ↔
      (i, .join K s) ∈ net.entries n := by
  cases stream with
  | cells column =>
    have hsubject : (net.subscribe m (.cells column) listener).1.subject n .events =
        net.subject n .events := subject_modifySubject_cells column fun x s => (s.subscribe listener).1
    rw [entries, hsubject, entries]
  | events =>
    rw [entries, subject_subscribe]
    split_ifs
    · have hother : (i, Listener.join K s) ≠ ((net.subject n .events).nextId, listener) := by
        intro heq
        exact hl K s (Prod.mk.inj heq).2.symm
      simp only [Subject.subscribe, List.mem_append, List.mem_singleton, hother, or_false]
      rfl
    · rfl

/-- So does the end of a registration that belongs to no joined table. -/
theorem mem_entries_unsubscribe {r : Registration}
    (hr : r.stream = .events → ∀ K s, (r.id, .join K s) ∉ net.entries r.node) {i : Nat} :
    (i, .join K s) ∈ (net.unsubscribe r).entries n ↔ (i, .join K s) ∈ net.entries n := by
  obtain ⟨m, stream, i'⟩ := r
  cases stream with
  | cells column =>
    have hsubject : (net.unsubscribe ⟨m, .cells column, i'⟩).subject n .events =
        net.subject n .events := subject_modifySubject_cells column fun x s => s.unsubscribe i'
    rw [entries, hsubject, entries]
  | events =>
    rw [entries, subject_unsubscribe]
    split_ifs with heq
    · subst heq
      have hother : (i, .join K s) ∈ net.entries n → i ≠ i' := by
        rintro hmem rfl
        exact hr rfl K s hmem
      simpa [Subject.unsubscribe, entries] using hother
    · rfl

/-- An observer may register anywhere. -/
theorem Wired.subscribe {stream : Stream} {listener : Listener} (h : net.Wired)
    (hl : ∀ K s, listener ≠ .join K s) : (net.subscribe m stream listener).1.Wired := by
  refine h.of_entries (fun n => ?_) (fun n K s i => mem_entries_subscribe hl)
    fun K s => sourceOf?_congr (content?_subscribe _ _ _) s
  cases stream with
  | cells column =>
    have hsubject : (net.subscribe m (.cells column) listener).1.subject n .events =
        net.subject n .events := subject_modifySubject_cells column fun x s => (s.subscribe listener).1
    rw [hsubject]
    exact h.tidy n
  | events =>
    rw [subject_subscribe]
    split_ifs
    · exact (h.tidy n).subscribe listener
    · exact h.tidy n

/-- A registration that belongs to no joined table may end. -/
theorem Wired.unsubscribe {r : Registration} (h : net.Wired)
    (hr : r.stream = .events → ∀ K s, (r.id, .join K s) ∉ net.entries r.node) :
    (net.unsubscribe r).Wired := by
  refine h.of_entries (fun n => ?_) (fun n K s i => mem_entries_unsubscribe hr)
    fun K s => sourceOf?_congr (content?_unsubscribe r) s
  obtain ⟨m, stream, i⟩ := r
  cases stream with
  | cells column =>
    have hsubject : (net.unsubscribe ⟨m, .cells column, i⟩).subject n .events =
        net.subject n .events := subject_modifySubject_cells column fun x s => s.unsubscribe i
    rw [hsubject]
    exact h.tidy n
  | events =>
    rw [subject_unsubscribe]
    split_ifs
    · exact (h.tidy n).filter _
    · exact h.tidy n

theorem Wired.hold (h : net.Wired) : (net.hold m).Wired :=
  h.of_entries h.tidy (fun _ _ _ _ => Iff.rfl) fun _ _ => rfl

/-- A stored table comes without registrations. -/
theorem Wired.insert_stored {t : Table} (h : net.Wired) (ho : net.Ordered) :
    (net.insert (.stored t)).1.Wired := by
  refine h.of_entries (fun n => ?_) (fun n K s i => ?_) fun K s => ?_
  · rw [subject_insert ho]
    exact h.tidy n
  · rw [entries, subject_insert ho, entries]
  · by_cases heq : K = net.nextId
    · have hnew : (net.insert (.stored t)).1.content? K = some (.stored t) := by
        rw [content?_insert, if_pos heq]
      have hold : net.content? K = none := heq ▸ ho.content?_nextId
      rw [sourceOf?, sourceOf?, joined?, joined?, hnew, hold]
    · exact sourceOf?_congr (by rw [content?_insert, if_neg heq]) s

/-- Of the registrations of joined tables those are kept whose both ends are. -/
theorem mem_entries_restrict {nodes : List Node} {i : Nat} (h : net.Ordered)
    (hsub : nodes.Sublist net.nodes) : (i, .join K s) ∈ (net.restrict nodes).entries n ↔
      (i, .join K s) ∈ net.entries n ∧ K ∈ nodes.map (·.id) ∧ (net.restrict nodes).content? n ≠ none := by
  by_cases hn : (net.restrict nodes).content? n = none
  · rw [entries, subject_of_content?_eq_none hn]
    simp only [hn, ne_eq, not_true_eq_false, and_false, iff_false]
    exact List.not_mem_nil
  · rw [entries, subject_restrict h hsub hn, Subject.forget, List.mem_filter, entries]
    simp [hn]

/-- A network stays wired when some nodes are kept, with their sources. -/
theorem Wired.restrict {nodes : List Node} (h : net.Wired) (ho : net.Ordered)
    (hsub : nodes.Sublist net.nodes) (hkept : (net.restrict nodes).Ordered) :
    (net.restrict nodes).Wired := by
  have hcontent {K : Nat} (hK : K ∈ nodes.map (·.id)) :
      (net.restrict nodes).content? K = net.content? K := by
    obtain ⟨x, hx, rfl⟩ := List.mem_map.1 hK
    rw [hkept.content?_restrict hx, ho.content?_of_mem (hsub.subset hx)]
  have hmem {K : Nat} (hK : (net.restrict nodes).content? K ≠ none) : K ∈ nodes.map (·.id) := by
    obtain ⟨c, hc⟩ := Option.ne_none_iff_exists'.1 hK
    obtain ⟨x, hx, rfl, -⟩ := exists_of_restrict hc
    exact List.mem_map_of_mem hx
  refine ⟨fun n => ?_, fun n K s => ?_, fun n K s i i' hi hi' => ?_⟩
  · by_cases hn : (net.restrict nodes).content? n = none
    · rw [subject_of_content?_eq_none hn]
      exact Subject.tidy_empty
    · rw [subject_restrict ho hsub hn]
      exact (h.tidy n).filter _
  · constructor
    · rintro ⟨i, hi⟩
      obtain ⟨hold, hK, -⟩ := (mem_entries_restrict ho hsub).1 hi
      rw [sourceOf?_congr (hcontent hK), ← h.joins]
      exact ⟨i, hold⟩
    · intro hsource
      obtain ⟨j, hj, rfl⟩ := sourceOf?_eq_some_iff.1 hsource
      have hK : K ∈ nodes.map (·.id) := hmem (by simp [content?_of_joined? hj])
      rw [sourceOf?_congr (hcontent hK), ← h.joins] at hsource
      obtain ⟨i, hi⟩ := hsource
      exact ⟨i, (mem_entries_restrict ho hsub).2 ⟨hi, hK, (hkept.source hj s).2⟩⟩
  · have hold := ((mem_entries_restrict ho hsub).1 hi).1
    exact h.once n K s i i' hold ((mem_entries_restrict ho hsub).1 hi').1

theorem Ordered.mem_entries_of_sweep {i : Nat} (h : net.Ordered)
    (hi : (i, .join K s) ∈ net.sweep.entries n) : (i, .join K s) ∈ net.entries n := by
  rcases sweep_cases net with heq | heq
  · rwa [heq] at hi
  · rw [heq] at hi
    exact ((mem_entries_restrict h survivors_sublist).1 hi).1

theorem Ordered.mem_entries_of_release {i : Nat} (h : net.Ordered)
    (hi : (i, .join K s) ∈ (net.release m).entries n) : (i, .join K s) ∈ net.entries n := by
  have h' : Ordered { net with held := net.held.erase m } := ⟨h.descending, h.bounded, h.sources⟩
  exact h'.mem_entries_of_sweep hi

theorem Wired.sweep (h : net.Wired) (ho : net.Ordered) : net.sweep.Wired := by
  have hkept := ho.sweep
  rcases sweep_cases net with heq | heq
  · rwa [heq]
  · rw [heq] at hkept ⊢
    exact h.restrict ho survivors_sublist hkept

theorem Wired.release (h : net.Wired) (ho : net.Ordered) : (net.release m).Wired := by
  have h' : Wired { net with held := net.held.erase m } :=
    h.of_entries h.tidy (fun _ _ _ _ => Iff.rfl) fun _ _ => rfl
  exact h'.sweep ⟨ho.descending, ho.bounded, ho.sources⟩

/-! ## A joined table comes -/

section InsertJoined

theorem content?_insertJoined : (net.insertJoined j).1.content? id =
    if id = net.nextId then some (.joined j) else net.content? id := by
  rw [← content?_insert]
  show (((net.insert (.joined j)).1.subscribe j.left .events (.join net.nextId .left)).1.subscribe
    j.right .events (.join net.nextId .right)).1.content? id = _
  rw [content?_subscribe, content?_subscribe]

/-- The registrations after a table was joined: its own come last, at its sources. -/
theorem subject_insertJoined (ho : net.Ordered) (hsources : ∀ s, net.content? (j.source s) ≠ none) :
    (net.insertJoined j).1.subject n .events =
      let left := if n = j.left then ((net.subject n .events).subscribe (.join net.nextId .left)).1
        else net.subject n .events
      if n = j.right then (left.subscribe (.join net.nextId .right)).1 else left := by
  have hcontent {s : Side} (hn : n = j.source s) : (net.insert (.joined j)).1.content? n ≠ none := by
    subst hn
    rw [content?_insert]
    split_ifs
    · simp
    · exact hsources s
  show (((net.insert (.joined j)).1.subscribe j.left .events (.join net.nextId .left)).1.subscribe
    j.right .events (.join net.nextId .right)).1.subject n .events = _
  rw [subject_subscribe, subject_subscribe, subject_insert ho, content?_subscribe]
  have hleft : (n = j.left ∧ (net.insert (.joined j)).1.content? n ≠ none) ↔ n = j.left :=
    and_iff_left_of_imp fun hn => hcontent (s := .left) hn
  have hright : (n = j.right ∧ (net.insert (.joined j)).1.content? n ≠ none) ↔ n = j.right :=
    and_iff_left_of_imp fun hn => hcontent (s := .right) hn
  simp only [hleft, hright]

theorem Ordered.insertJoined (h : net.Ordered) (hsources : ∀ s, net.content? (j.source s) ≠ none) :
    (net.insertJoined j).1.Ordered := by
  have hinsert : (net.insert (.joined j)).1.Ordered := by
    refine h.insert fun s hs => ?_
    have hcases : s = j.left ∨ s = j.right := by simpa [Node.sources] using hs
    rcases hcases with rfl | rfl
    · exact hsources .left
    · exact hsources .right
  exact (hinsert.subscribe .events _).subscribe .events _

/-- A joined table that comes brings its registrations. -/
theorem Wired.insertJoined (h : net.Wired) (ho : net.Ordered)
    (hsources : ∀ s, net.content? (j.source s) ≠ none) : (net.insertJoined j).1.Wired := by
  have hnone (n : Nat) (s : Side) (i : Nat) : (i, .join net.nextId s) ∉ net.entries n := by
    intro hi
    have hsource := (h.joins n net.nextId s).1 ⟨i, hi⟩
    rw [sourceOf?, joined?, ho.content?_nextId] at hsource
    exact absurd hsource (by simp)
  -- a table that is joined with itself has the left side first
  have hentry (n K : Nat) (s : Side) (i : Nat) : (i, .join K s) ∈ (net.insertJoined j).1.entries n ↔
      (i, .join K s) ∈ net.entries n ∨ K = net.nextId ∧ n = j.source s ∧
        i = (net.subject n .events).nextId + if s = .right ∧ n = j.left then 1 else 0 := by
    rw [entries, subject_insertJoined ho hsources, entries]
    have hsource : n = j.source s ↔ s = .left ∧ n = j.left ∨ s = .right ∧ n = j.right := by
      cases s <;> simp [JoinedTable.source]
    rw [hsource]
    generalize j.left = l, j.right = r
    split_ifs with hright hleft <;>
      cases s <;> simp_all [Subject.subscribe, and_comm]
  refine ⟨fun n => ?_, fun n K s => ?_, fun n K s i i' hi hi' => ?_⟩
  · rw [subject_insertJoined ho hsources]
    dsimp only
    split_ifs
    · exact ((h.tidy n).subscribe _).subscribe _
    · exact (h.tidy n).subscribe _
    · exact (h.tidy n).subscribe _
    · exact h.tidy n
  · simp only [hentry]
    by_cases hK : K = net.nextId
    · subst hK
      have hnew : (net.insertJoined j).1.joined? net.nextId = some j := by
        rw [joined?_eq_some_iff, content?_insertJoined, if_pos rfl]
      rw [sourceOf?_of_joined? hnew]
      simp [hnone, eq_comm]
    · have hold : (net.insertJoined j).1.content? K = net.content? K := by
        rw [content?_insertJoined, if_neg hK]
      rw [sourceOf?_congr hold, ← h.joins]
      simp [hK]
  · rcases (hentry n K s i).1 hi with hi | ⟨rfl, -, hi⟩
    · rcases (hentry n K s i').1 hi' with hi' | ⟨rfl, -⟩
      · exact h.once n K s i i' hi hi'
      · exact absurd hi (hnone n s i)
    · rcases (hentry n _ s i').1 hi' with hi' | ⟨-, -, hi'⟩
      · exact absurd hi' (hnone n s i')
      · rw [hi, hi']

end InsertJoined

/-! ## Orderly networks -/

/-- What holds of a network at all times, whatever its tables hold and compute. -/
structure Orderly (net : Network) : Prop where
  ordered : net.Ordered
  wired : net.Wired

namespace Orderly

theorem empty : Orderly {} where
  ordered := ⟨.nil, fun x hx => absurd hx List.not_mem_nil, fun x hx => absurd hx List.not_mem_nil⟩
  wired := by
    refine ⟨fun n => Subject.tidy_empty, fun n K s => ?_, fun n K s i i' hi => absurd hi List.not_mem_nil⟩
    have hsource : sourceOf? {} K s = none := rfl
    rw [hsource]
    exact ⟨fun ⟨i, hi⟩ => absurd hi List.not_mem_nil, fun heq => absurd heq (by simp)⟩

theorem hold (h : net.Orderly) : (net.hold m).Orderly := ⟨h.ordered.hold, h.wired.hold⟩

theorem release (h : net.Orderly) : (net.release m).Orderly := ⟨h.ordered.release, h.wired.release h.ordered⟩

theorem insert_stored (h : net.Orderly) (t : Table) : (net.insert (.stored t)).1.Orderly :=
  ⟨h.ordered.insert fun _ hs => absurd hs List.not_mem_nil, h.wired.insert_stored h.ordered⟩

/-- Another stored table in the place of one. -/
theorem setTable {t t' : Table} (h : net.Orderly) (ht : net.table? n = some t) :
    (net.setContent n (.stored t')).Orderly where
  ordered := h.ordered.setTable ht
  wired := by
    have hself : (net.setContent n (.stored t')).table? n = some t' :=
      table?_eq_some_iff.2 (content?_setContent_self (by simp [content?_of_table? ht]))
    refine h.wired.setContent fun s => ?_
    rw [sourceOf?, joined?_eq_none_of_table? hself, sourceOf?, joined?_eq_none_of_table? ht]

/-- Another joined table in the place of one, with the same sources. -/
theorem setJoined {j' : JoinedTable} (h : net.Orderly) (hj : net.joined? n = some j) (hsource : j'.source = j.source) :
    (net.setContent n (.joined j')).Orderly where
  ordered := h.ordered.setJoined hj hsource
  wired := by
    have hself : (net.setContent n (.joined j')).joined? n = some j' :=
      joined?_eq_some_iff.2 (content?_setContent_self (by simp [content?_of_joined? hj]))
    refine h.wired.setContent fun s => ?_
    rw [sourceOf?_of_joined? hself, sourceOf?_of_joined? hj, hsource]

theorem insertJoined (h : net.Orderly) (hsources : ∀ s, net.content? (j.source s) ≠ none) :
    (net.insertJoined j).1.Orderly :=
  ⟨h.ordered.insertJoined hsources, h.wired.insertJoined h.ordered hsources⟩

end Orderly

end Network

end LiveTables
