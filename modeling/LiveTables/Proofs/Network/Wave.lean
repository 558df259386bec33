import LiveTables.Proofs.Network.Passing

/-!
# Changes on their way

While a change of a stored table comes up, joined tables lag behind their sources. `Port` says what holds all
the while between a joined table and one of its sources: the table has linked the rows that are there under
the keys that are presumed, but for what waits to be heard or is due. `Wave` says so of the whole network.

A table that takes in what it has heard, and puts its own changes into the queues of the tables above it, keeps
the wave going (`Wave.advance`). That is the only step; what the tables above have linked stays right or becomes
due, whatever columns they read (`Advance.keeps_or_due`).
-/

namespace LiveTables.Network

open Notice

variable {net net' : Network} {Q Q' : Queues} {n n₀ m k r K : Nat} {j : JoinedTable} {t : Table} {c : String}
  {s : Side} {kind : Kind} {P : Nat → Prop} {E R : List Notice} {f : Nat → Option Value}

/-- What somebody has of the cells of a column who has `R` still to hear: the classes `f` are those that are
presumed, unless that is to be heard, or due. -/
def Known (net : Network) (Q : Queues) (n : Nat) (c : String) (f : Nat → Option Value)
    (R : List Notice) : Prop :=
  ∀ k, f k = net.presumed n k c ∨ Adds R k ∨ Tells R k c ∨ Due net Q n k c

/-- What holds between a joined table and the source of one of its sides: rows are linked under the keys that
are presumed, unless that is to be heard. -/
structure Port (net : Network) (Q : Queues) (K : Nat) (j : JoinedTable) (s : Side) : Prop where
  known : Passes net (j.source s) (j.key s) →
    Known net Q (j.source s) (j.key s) (j.engine.keyClass? s) (Q K s)
  gone : ∀ k, j.engine.keyClass? s k ≠ none → k ∉ (net.shown (j.source s)).rows → Deletes (Q K s) k
  come : ∀ k ∈ (net.shown (j.source s)).rows, j.engine.keyClass? s k = none → Adds (Q K s) k
  refills : Refills (· ∈ (net.shown (j.source s)).rows) (Q K s)
  legible : ∀ x ∈ Q K s, x.event.action ≠ .delete → Legible net Q (j.source s) x.event.row
  settles : Settles (Plain net (j.source s)) (Q K s)

/-- A change that came from the table `n₀` is on its way: what waits is heard above that table only. -/
structure Wave (net : Network) (n₀ : Nat) (Q : Queues) : Prop where
  formed : net.Formed
  port : ∀ K j, net.joined? K = some j → ∀ s, Port net Q K j s
  cone : ∀ K j s, net.joined? K = some j → Q K s ≠ [] → Reaches net n₀ (j.source s)

/-- A row of which all is heard, as far as plain columns are concerned. -/
theorem Port.heard (hp : Port net Q K j s) (hlegible : Legible net Q (j.source s) r)
    (hadds : ¬ Adds (Q K s) r) (hsilent : ∀ c, Plain net (j.source s) c → ¬ Tells (Q K s) r c) :
    Heard net Q K j s r := by
  refine ⟨hlegible, hsilent, fun hplain => ?_⟩
  have hsound := (hlegible.sound _ (.plain hplain)).resolve_right (hlegible.exact _ hplain)
  rcases hp.known (.plain hplain) r with hknown | hknown | hknown | hknown
  · rw [hknown, hsound]
  · exact absurd hknown hadds
  · exact absurd hknown (hsilent _ hplain)
  · exact absurd hknown (hlegible.exact _ hplain)

/-- At a side where nothing waits, a row is heard of if it is legible. -/
theorem Port.heard_of_silent (hp : Port net Q K j s) (hlegible : Legible net Q (j.source s) r)
    (hempty : Q K s = []) : Heard net Q K j s r := by
  refine hp.heard hlegible ?_ fun c _ => ?_
  · rw [hempty]
    exact not_adds_nil
  · rw [hempty]
    exact not_tells_nil

/-- At a side where nothing waits, a row that is linked is there. -/
theorem Port.live_of_silent (hp : Port net Q K j s) (hempty : Q K s = [])
    (hlinked : j.engine.keyClass? s r ≠ none) : r ∈ (net.shown (j.source s)).rows := by
  by_contra hdead
  have hgone := hp.gone r hlinked hdead
  rw [hempty] at hgone
  exact not_deletes_nil hgone

/-- Where networks and queues agree, the same is known. -/
theorem Agree.known (h : Agree net net' P) (ho : net.Ordered) (ho' : net'.Ordered)
    (hQ : ∀ n j s, P n → net.joined? n = some j → Q' n s = Q n s) (hn : P n)
    (hknown : Known net Q n c f R) : Known net' Q' n c f R := by
  intro k
  rw [h.presumed ho ho' hn]
  exact (hknown k).imp_right (Or.imp_right (Or.imp_right (h.due ho ho' hQ hn)))

/-- Where networks and queues agree, what holds of one side of a table holds in both. -/
theorem Agree.port (h : Agree net net' P) (ho : net.Ordered) (ho' : net'.Ordered)
    (hQ : ∀ n j s, P n → net.joined? n = some j → Q' n s = Q n s) (hsource : P (j.source s)) (hK : Q' K s = Q K s)
    (hp : Port net Q K j s) : Port net' Q' K j s where
  known hpasses := by
    rw [hK]
    exact h.known ho ho' hQ hsource (hp.known (h.symm.passes hsource hpasses))
  gone := by rw [hK, shown, h.see ho ho' hsource]; exact hp.gone
  come := by rw [hK, shown, h.see ho ho' hsource]; exact hp.come
  refills := by rw [hK, shown, h.see ho ho' hsource]; exact hp.refills
  legible x hx haction := h.legible ho ho' hQ hsource (hp.legible x (hK ▸ hx) haction)
  settles := by
    have hplain : Plain net' (j.source s) = Plain net (j.source s) :=
      funext fun c => propext ⟨h.symm.plain hsource, h.plain hsource⟩
    rw [hK, hplain]
    exact hp.settles

/-- The sources of a joined table exist. -/
theorem Ordered.agree_self (h : net.Ordered) : Agree net net fun m => net.content? m ≠ none where
  contents _ _ := rfl
  closed _ _ s _ hj := (h.source hj s).2

/-- It matters only what waits at the joined tables that exist. -/
theorem Wave.congr (h : Wave net n₀ Q) (hQ : ∀ K j s, net.joined? K = some j → Q' K s = Q K s) :
    Wave net n₀ Q' where
  formed := h.formed
  port K j hj s := by
    have ho := h.formed.ordered
    exact ho.agree_self.port ho ho (fun m j s _ hj => hQ m j s hj) (ho.source hj s).2 (hQ K j s hj)
      (h.port K j hj s)
  cone K j s hj hne := h.cone K j s hj (hQ K j s hj ▸ hne)

/-! ## Still tables -/

/-- Nothing waits at a table or below it. -/
inductive Still (net : Network) (Q : Queues) : Nat → Prop
  | stored {n : Nat} {t : Table} (table : net.table? n = some t) : Still net Q n
  | joined {n : Nat} {j : JoinedTable} (joined : net.joined? n = some j) (empty : ∀ s, Q n s = [])
      (below : ∀ s, Still net Q (j.source s)) : Still net Q n

/-- No cell of a joined table is due if nothing waits at it and no cell of a source is due. -/
theorem Formed.not_due_of_silent (h : net.Formed) (hj : net.joined? n = some j)
    (hport : ∀ s, Port net Q n j s) (hempty : ∀ s, Q n s = [])
    (hbelow : ∀ s r c, ¬ Due net Q (j.source s) r c) (k : Nat) (c : String) : ¬ Due net Q n k c := by
  refine (h.valid n j hj).column_induction (fun c s kind hc => ?_)
    (fun c hc hcol => h.not_due_of_unknown hj hc hcol) (fun c col hcol hdeps => ?_) c
  · rw [h.due_source_iff hj hc, hempty]
    rintro ⟨r, hr, ⟨-, htells | hdue⟩ | ⟨rfl, ⟨t, ht⟩, hdiffers⟩⟩
    · exact not_tells_nil htells
    · exact hbelow s r c hdue
    · -- the key of a stored row is linked as it is, once all is heard
      have hknown := (hport s).known (.stored ht) r
      rw [hempty, presumed_stored ht] at hknown
      simp [hdiffers, hbelow s r] at hknown
  · rw [h.due_computed_iff hj hcol]
    rintro ⟨d, hd, hdue⟩
    exact hdeps d hd hdue

/-- No cell of a still table is due, and all its rows are legible. -/
theorem Still.calm (hstill : Still net Q n) (h : net.Formed)
    (hport : ∀ K j, net.joined? K = some j → ∀ s, Port net Q K j s) :
    (∀ k c, ¬ Due net Q n k c) ∧ ∀ k ∈ (net.shown n).rows, Legible net Q n k := by
  induction hstill with
  | stored ht =>
    refine ⟨fun k c => not_due_of_table? ht, fun k hk => h.legible_stored ht ?_⟩
    rwa [rows_stored ht] at hk
  | @joined n j hj hempty _ ih =>
    refine ⟨h.not_due_of_silent hj (hport n j hj) hempty fun s => (ih s).1, fun k hk => ?_⟩
    rw [h.ordered.rows_joined hj] at hk
    refine h.legible_joined hj hk fun s r hr => ?_
    have hlive := (hport n j hj s).live_of_silent (hempty s)
      ((h.valid n j hj).sound.keyClass?_ne_none hr)
    exact (hport n j hj s).heard_of_silent ((ih s).2 r hlive) (hempty s)

/-- A table is still if the change does not come by it. -/
theorem Wave.still (h : Wave net n₀ Q) (hn : net.content? n ≠ none) (hout : ¬ Reaches net n₀ n) :
    Still net Q n := by
  refine h.formed.ordered.induction (motive := fun n => ¬ Reaches net n₀ n → Still net Q n)
    (fun n t ht _ => .stored ht) (fun n j hj ih hout => ?_) n hn hout
  have hsource (s : Side) : ¬ Reaches net n₀ (j.source s) := fun hreach => hout (.step hreach hj)
  refine .joined hj (fun s => ?_) fun s => ih s (hsource s)
  by_contra hempty
  exact hsource s (h.cone n j s hj hempty)

/-- If nothing waits anywhere, every table is still. -/
theorem still_of_empty (h : net.Ordered) (hn : net.content? n ≠ none) (hQ : ∀ K s, Q K s = []) :
    Still net Q n :=
  h.induction (motive := Still net Q) (fun _ _ ht => .stored ht)
    (fun n _ hj ih => .joined hj (hQ n) ih) n hn

/-! ## Advancing -/

/-- A cell is presumed as before, and still due if it was. -/
def Keeps (net : Network) (Q : Queues) (net' : Network) (Q' : Queues) (n k : Nat) (c : String) : Prop :=
  net'.presumed n k c = net.presumed n k c ∧ (Due net Q n k c → Due net' Q' n k c)

/-- A source cell of a joined row is kept if the same row stands there, linked as before, and the cell of that row
is kept, and what is to be told of it. -/
theorem Keeps.of_source {engine : JoinEngine} (h : net.Formed) (h' : net'.Formed) (hj : net.joined? n = some j)
    (hj' : net'.joined? n = some { j with engine }) (hrows : k ∈ engine.rows ↔ k ∈ j.engine.rows)
    (hc : j.column? c = some (s, kind)) (hrow : engine.sourceRow? s k = j.engine.sourceRow? s k)
    (hkey : ∀ r, j.engine.sourceRow? s k = some r → c = j.key s →
      engine.keyClass? s r = j.engine.keyClass? s r ∧ ∀ t, net.table? (j.source s) = some t →
        j.engine.keyClass? s r ≠ net.actual (j.source s) r c → net'.table? (j.source s) = some t)
    (hother : ∀ r, j.engine.sourceRow? s k = some r → c ≠ j.key s →
      Keeps net Q net' Q' (j.source s) r c ∧ (Tells (Q n s) r c → Tells (Q' n s) r c)) :
    Keeps net Q net' Q' n k c := by
  have hc' : JoinedTable.column? { j with engine } c = some (s, kind) := hc
  rcases hr : j.engine.sourceRow? s k with - | r
  · -- a gap is presumed as it is, and never due
    refine ⟨?_, fun hdue => ?_⟩
    · by_cases hlive : k ∈ j.engine.rows
      · have hgap := h'.presumed_gap hj' hc' (hrows.2 hlive) (hrow.trans hr)
        exact hgap.trans (h.presumed_gap hj hc hlive hr).symm
      · rw [h.presumed_of_not_mem hj hlive]
        exact h'.presumed_of_not_mem hj' (mt hrows.1 hlive)
    · obtain ⟨r, hr', -⟩ := (h.due_source_iff hj hc).1 hdue
      exact absurd (hr'.symm.trans hr) (by simp)
  have hr' := hrow.trans hr
  by_cases hkeyed : c = j.key s
  · obtain ⟨hclass, htable⟩ := hkey r hr hkeyed
    subst hkeyed
    refine ⟨?_, fun hdue => ?_⟩
    · rw [h.presumed_key hj hr, ← hclass]
      exact h'.presumed_key hj' hr'
    · obtain ⟨r₁, hr₁, ⟨hne, -⟩ | ⟨-, ⟨t, ht⟩, hdiffers⟩⟩ := (h.due_source_iff hj hc).1 hdue
      · exact absurd rfl hne
      obtain rfl := Option.some.inj (hr₁.symm.trans hr)
      have ht' := htable t ht hdiffers
      rw [← hclass, actual_stored ht, ← actual_stored ht'] at hdiffers
      exact (h'.due_source_iff hj' hc').2 ⟨r₁, hr', .inr ⟨rfl, ⟨t, ht'⟩, hdiffers⟩⟩
  · obtain ⟨hkeeps, htells⟩ := hother r hr hkeyed
    refine ⟨?_, fun hdue => ?_⟩
    · have hbelow := h'.presumed_source hj' hc' hkeyed hr'
      exact hbelow.trans (hkeeps.1.trans (h.presumed_source hj hc hkeyed hr).symm)
    · obtain ⟨r₁, hr₁, ⟨-, hbelow⟩ | ⟨heq, -⟩⟩ := (h.due_source_iff hj hc).1 hdue
      · obtain rfl := Option.some.inj (hr₁.symm.trans hr)
        exact (h'.due_source_iff hj' hc').2 ⟨r₁, hr', .inl ⟨hkeyed, hbelow.imp htells hkeeps.2⟩⟩
      · exact absurd heq hkeyed

/-- What is no column is presumed to have no cells. -/
theorem Keeps.of_unknown {engine : JoinEngine} (h : net.Formed) (h' : net'.Formed) (hj : net.joined? n = some j)
    (hj' : net'.joined? n = some { j with engine }) (hc : j.column? c = none)
    (hcol : j.computed.column? c = none) : Keeps net Q net' Q' n k c := by
  refine ⟨?_, fun hdue => absurd hdue (h.not_due_of_unknown hj hc hcol)⟩
  rw [presumed, presumed, h.ordered.see_joined hj, h'.ordered.see_joined hj',
    JoinedTable.class?_of_unknown hc hcol (.inr rfl)]
  exact JoinedTable.class?_of_unknown (j := { j with engine }) hc hcol (.inr rfl)

/-- A cell of a computed column is kept if those of the dependencies are. -/
theorem Keeps.of_computed {engine : JoinEngine} {col : ComputedColumn} (h : net.Formed) (h' : net'.Formed)
    (hj : net.joined? n = some j) (hj' : net'.joined? n = some { j with engine })
    (hrows : k ∈ engine.rows ↔ k ∈ j.engine.rows) (hcol : j.computed.column? c = some col)
    (hdeps : ∀ d ∈ col.dependencies, Keeps net Q net' Q' n k d) : Keeps net Q net' Q' n k c := by
  refine ⟨?_, fun hdue => ?_⟩
  · simp only [Keeps, presumed, h.ordered.see_joined hj, h'.ordered.see_joined hj'] at hdeps ⊢
    exact (h.valid n j hj).class?_congr rfl hrows hcol fun d hd => (hdeps d hd).1
  · obtain ⟨d, hd, hdue⟩ := (h.due_computed_iff hj hcol).1 hdue
    exact .computed hj' hcol hd ((hdeps d hd).2 hdue)

/-- Who had heard all of a column has yet to hear what is told of a change. -/
theorem Known.told (hknown : Known net Q n c f [])
    (htells : ∀ k, Tells E k c ∨ (Adds E k ∧ k ∉ (net.shown n).rows) ∨ Keeps net Q net' Q' n k c) :
    Known net' Q' n c f E := by
  intro k
  have hk := hknown k
  simp only [not_adds_nil, not_tells_nil, false_or] at hk
  rcases htells k with htells | ⟨hadds, -⟩ | ⟨hsame, hdue⟩
  · exact .inr (.inr (.inl htells))
  · exact .inr (.inl hadds)
  · rcases hk with hk | hk
    · exact .inl (hk.trans hsame.symm)
    · exact .inr (.inr (.inr (hdue hk)))

/-- A column of a table that a joined table shows. -/
def Captured (net : Network) (n : Nat) (c : String) : Prop :=
  ∃ K j s, net.joined? K = some j ∧ j.source s = n ∧ c ∈ j.sideIds s

/-- A table takes the place of another, and puts what it did into the empty queues of the tables above. All
that the tables above may have read is told, or kept. -/
structure Advance (net : Network) (Q : Queues) (net' : Network) (Q' : Queues) (n : Nat)
    (E : List Notice) : Prop where
  formed : net'.Formed
  other : ∀ id, id ≠ n → net'.content? id = net.content? id
  sort : ∀ t', net'.table? n = some t' → ∃ t, net.table? n = some t
  sources : ∀ s, net'.sourceOf? n s = net.sourceOf? n s
  above : ∀ K j s, net.joined? K = some j → Reaches net n (j.source s) → Q K s = []
  queue : ∀ K, K ≠ n → ∀ s, Q' K s = if net.sourceOf? K s = some n then E else Q K s
  publishes : Publishes (net.shown n).rows (net'.shown n).rows E
  tells : ∀ c, Captured net n c → ∀ k,
    Tells E k c ∨ (Adds E k ∧ k ∉ (net.shown n).rows) ∨ Keeps net Q net' Q' n k c
  plain : ∀ c, Plain net' n c → Plain net n c
  passes : ∀ c, Captured net n c → Passes net' n c → Passes net n c
  legible : ∀ x ∈ E, x.event.action ≠ .delete → Legible net' Q' n x.event.row
  settles : Settles (Plain net' n) E
  own : ∀ j, net'.joined? n = some j → ∀ s, Port net' Q' n j s

namespace Advance

variable (ha : Advance net Q net' Q' n E)

include ha

/-- What is not above the table stays as it is. -/
theorem agree : Agree net net' fun m => ¬ Reaches net n m where
  contents _ hm := ha.other _ fun heq => hm (heq ▸ .refl)
  closed _ _ _ hm hj hsource := hm (.step hsource hj)

theorem queue_of_not_reaches (hm : ¬ Reaches net n m) (s : Side) : Q' m s = Q m s := by
  rw [ha.queue m (fun heq => hm (heq ▸ .refl)), if_neg]
  intro hsource
  obtain ⟨j, hj, rfl⟩ := sourceOf?_eq_some_iff.1 hsource
  exact hm (.step .refl hj)

theorem queue_source (hj : net.joined? K = some j) (hK : K ≠ n) (hs : j.source s = n) : Q' K s = E := by
  rw [ha.queue K hK, if_pos (by rw [sourceOf?_of_joined? hj, hs])]

theorem queue_other (hj : net.joined? K = some j) (hK : K ≠ n) (hs : j.source s ≠ n) : Q' K s = Q K s := by
  rw [ha.queue K hK, if_neg]
  rw [sourceOf?_of_joined? hj]
  exact fun heq => hs (Option.some.inj heq)

theorem joined? (hm : m ≠ n) : net'.joined? m = net.joined? m := joined?_congr (ha.other m hm)

theorem table? (hm : m ≠ n) : net'.table? m = net.table? m := table?_congr (ha.other m hm)

/-- What joined tables have of a source cell stays right, or becomes due. -/
theorem source_keeps_or_due (h : Wave net n₀ Q) (hm : m ≠ n) (hj : net.joined? m = some j)
    (ih : ∀ s, j.source s ≠ n → ∀ k c, Keeps net Q net' Q' (j.source s) k c ∨
      Due net' Q' (j.source s) k c) (hc : j.column? c = some (s, kind)) (k : Nat) :
    Keeps net Q net' Q' m k c ∨ Due net' Q' m k c := by
  have hj' : net'.joined? m = some j := (ha.joined? hm).trans hj
  have hvalid := h.formed.valid m j hj
  have hkeeps (hother : ∀ r, j.engine.sourceRow? s k = some r → c ≠ j.key s →
      Keeps net Q net' Q' (j.source s) r c ∧ (Tells (Q m s) r c → Tells (Q' m s) r c)) :
      Keeps net Q net' Q' m k c := by
    refine .of_source h.formed ha.formed hj hj' Iff.rfl hc rfl (fun r hr hkey => ⟨rfl, fun t ht hdiffers => ?_⟩)
      hother
    subst hkey
    refine (ha.table? ?_).trans ht
    -- a row of the table that takes the step was linked under its key
    rintro rfl
    have hknown := (h.port m j hj s).known (.stored ht) r
    rw [ha.above m j s hj .refl, presumed_stored ht] at hknown
    simp [hdiffers, not_due_of_table? ht] at hknown
  by_cases hbelow : ∃ r, j.engine.sourceRow? s k = some r ∧ c ≠ j.key s
  swap
  · exact .inl (hkeeps fun r hr hkey => absurd ⟨r, hr, hkey⟩ hbelow)
  obtain ⟨r, hr, hkey⟩ := hbelow
  have hkeeps (hs : Keeps net Q net' Q' (j.source s) r c) (htells : Tells (Q m s) r c → Tells (Q' m s) r c) :
      Keeps net Q net' Q' m k c := hkeeps fun r' hr' _ => by
    obtain rfl := Option.some.inj (hr'.symm.trans hr)
    exact ⟨hs, htells⟩
  by_cases hsource : j.source s = n
  · have hempty : Q m s = [] := ha.above m j s hj (hsource ▸ .refl)
    have hcaptured : Captured net n c := ⟨m, j, s, hj, hsource, JoinedTable.mem_sideIds_of_column? hc⟩
    rcases ha.tells c hcaptured r with htells | ⟨-, hdead⟩ | hs
    · exact .inr (.told hj' hc hkey hr (ha.queue_source hj hm hsource ▸ htells))
    · -- a row that was not there is not linked
      obtain ⟨key, hlinked⟩ := hvalid.exists_key? hr
      have hgone := (h.port m j hj s).gone r
        (by simp [JoinEngine.keyClass?_eq_some_iff.2 ⟨key, hlinked, rfl⟩]) (hsource ▸ hdead)
      rw [hempty] at hgone
      exact absurd hgone not_deletes_nil
    · refine .inl (hkeeps (hsource ▸ hs) fun htells => ?_)
      rw [hempty] at htells
      exact absurd htells not_tells_nil
  · refine (ih s hsource r c).imp (fun hs => hkeeps hs fun htells => ?_) fun hdue => ?_
    · rwa [ha.queue_other hj hm hsource]
    · exact .source hj' hc hkey hr hdue

/-- What tables above have read stays right, or becomes due. -/
theorem keeps_or_due (h : Wave net n₀ Q) (hm : m ≠ n) (hexists : net.content? m ≠ none) (k : Nat)
    (c : String) : Keeps net Q net' Q' m k c ∨ Due net' Q' m k c := by
  refine h.formed.ordered.induction (motive := fun m => m ≠ n → ∀ k c,
    Keeps net Q net' Q' m k c ∨ Due net' Q' m k c) (fun m t ht hm k c => ?_)
    (fun m j hj ih hm k c => ?_) m hexists hm k c
  · have ht' : net'.table? m = some t := (ha.table? hm).trans ht
    refine .inl ⟨?_, fun hdue => absurd hdue (not_due_of_table? ht)⟩
    rw [presumed_stored ht, presumed_stored ht', actual_stored ht, actual_stored ht']
  · have hj' : net'.joined? m = some j := (ha.joined? hm).trans hj
    refine (h.formed.valid m j hj).column_induction
      (fun c s kind hc => ha.source_keeps_or_due h hm hj ih hc k)
      (fun c hc hcol => .inl (.of_unknown h.formed ha.formed hj hj' hc hcol)) (fun c col hcol hdeps => ?_) c
    by_cases hdue : ∃ d ∈ col.dependencies, Due net' Q' m k d
    · exact .inr ((ha.formed.due_computed_iff hj' hcol).2 hdue)
    · refine .inl (.of_computed h.formed ha.formed hj hj' Iff.rfl hcol fun d hd => ?_)
      exact (hdeps d hd).resolve_right fun hd' => hdue ⟨d, hd, hd'⟩

theorem plain_of_plain (hplain : Plain net' m c) : Plain net m c := by
  induction hplain with
  | @stored m t c ht hc =>
    by_cases hm : m = n
    · subst hm
      exact ha.plain c (.stored ht hc)
    · exact .stored ((ha.table? hm).symm.trans ht) hc
  | @source m j c s kind hj hc hbelow ih =>
    by_cases hm : m = n
    · subst hm
      exact ha.plain c (.source hj hc hbelow)
    · exact .source ((ha.joined? hm).symm.trans hj) hc ih

theorem passes_of_passes (hpasses : Passes net' m c) (hm : m ≠ n ∨ Captured net n c) : Passes net m c := by
  by_cases heq : m = n
  · subst heq
    exact ha.passes c (hm.resolve_left fun hne => hne rfl) hpasses
  clear hm
  induction hpasses with
  | stored ht => exact .stored ((ha.table? heq).symm.trans ht)
  | plain hplain => exact .plain (ha.plain_of_plain hplain)
  | @first m j t c s kind hj hc ht =>
    have hj₀ : net.joined? m = some j := (ha.joined? heq).symm.trans hj
    by_cases hsource : j.source s = n
    · obtain ⟨t₀, ht₀⟩ := ha.sort t (hsource ▸ ht)
      exact .first hj₀ hc (hsource ▸ ht₀)
    · exact .first hj₀ hc ((ha.table? hsource).symm.trans ht)
  | @through m j c s kind hj hc hother hbelow ih =>
    have hj₀ : net.joined? m = some j := (ha.joined? heq).symm.trans hj
    refine .through hj₀ hc hother ?_
    by_cases hsource : j.source s = n
    · rw [hsource] at hbelow ⊢
      exact ha.passes c ⟨m, j, s, hj₀, hsource, JoinedTable.mem_sideIds_of_column? hc⟩ hbelow
    · exact ih hsource
  | computed hj hcol _ ih =>
    exact .computed ((ha.joined? heq).symm.trans hj) hcol fun d hd => ih d hd heq

/-- What is above a table stays above it. -/
theorem reaches (h : Reaches net n₀ m) : Reaches net' n₀ m := by
  induction h with
  | refl => exact .refl
  | @step m j s _ hj ih =>
    by_cases hm : m = n
    · subst hm
      have hsource := (ha.sources s).trans (sourceOf?_of_joined? hj s)
      obtain ⟨j', hj', hs⟩ := sourceOf?_eq_some_iff.1 hsource
      exact .step (hs ▸ ih) hj'
    · exact .step ih ((ha.joined? hm).trans hj)

/-- Further up nothing is to be heard yet, and what was read stays right or becomes due. -/
theorem known_above (h : Wave net n₀ Q) (hm : m ≠ n) (hexists : net.content? m ≠ none)
    (hknown : Known net Q m c f []) : Known net' Q' m c f [] := by
  intro k
  have hk := hknown k
  simp only [not_adds_nil, not_tells_nil, false_or] at hk
  rcases ha.keeps_or_due h hm hexists k c with ⟨hsame, hdue⟩ | hdue
  · rcases hk with hk | hk
    · exact .inl (hk.trans hsame.symm)
    · exact .inr (.inr (.inr (hdue hk)))
  · exact .inr (.inr (.inr hdue))

/-- The tables right above take over what the table did. -/
theorem port_source (h : Wave net n₀ Q) (hj : net.joined? K = some j) (hK : K ≠ n)
    (hs : j.source s = n) : Port net' Q' K j s := by
  have hp := h.port K j hj s
  have hempty : Q K s = [] := ha.above K j s hj (hs ▸ .refl)
  have hqueue : Q' K s = E := ha.queue_source hj hK hs
  have hcaptured : Captured net n (j.key s) := ⟨K, j, s, hj, hs, (h.formed.valid K j hj).key s⟩
  have hlinked (k : Nat) : j.engine.keyClass? s k ≠ none → k ∈ (net.shown n).rows := by
    intro hkey
    by_contra hdead
    have hgone := hp.gone k hkey (hs ▸ hdead)
    rw [hempty] at hgone
    exact not_deletes_nil hgone
  refine ⟨fun hpasses => ?_, fun k hkey hdead => ?_, fun k hk hfree => ?_, ?_, fun x hx haction => ?_, ?_⟩
  · rw [hqueue, hs]
    rw [hs] at hpasses
    have hknown := hp.known (hs ▸ ha.passes _ hcaptured hpasses)
    rw [hempty, hs] at hknown
    exact hknown.told (ha.tells _ hcaptured)
  · rw [hqueue]
    exact ha.publishes.goes k (hlinked k hkey) (hs ▸ hdead)
  · rw [hqueue]
    refine ha.publishes.comes k (hs ▸ hk) fun hold => ?_
    have hcome := hp.come k (hs ▸ hold) hfree
    rw [hempty] at hcome
    exact not_adds_nil hcome
  · rw [hqueue, hs]
    exact ha.publishes.refills
  · rw [hqueue] at hx
    rw [hs]
    exact ha.legible x hx haction
  · rw [hqueue, hs]
    exact ha.settles

/-- Further up nothing waits, and what was read stays right or becomes due. -/
theorem port_above (h : Wave net n₀ Q) (hj : net.joined? K = some j) (hK : K ≠ n)
    (hs : j.source s ≠ n) (hreach : Reaches net n (j.source s)) : Port net' Q' K j s := by
  have hp := h.port K j hj s
  have hempty : Q K s = [] := ha.above K j s hj hreach
  have hempty' : Q' K s = [] := (ha.queue_other hj hK hs).trans hempty
  obtain ⟨hrows, -⟩ := h.formed.ordered.shown_congr ha.formed.ordered (ha.other _ hs)
  refine ⟨fun hpasses => ?_, fun k hkey hdead => ?_, fun k hk hfree => ?_, ?_, fun x hx => ?_, ?_⟩
  · have hknown := hp.known (ha.passes_of_passes hpasses (.inl hs))
    rw [hempty] at hknown
    rw [hempty']
    exact ha.known_above h hs (h.formed.ordered.source hj s).2 hknown
  · rw [hrows] at hdead
    rw [hempty', ← hempty]
    exact hp.gone k hkey hdead
  · rw [hrows] at hk
    rw [hempty', ← hempty]
    exact hp.come k hk hfree
  · rw [hempty']
    trivial
  · rw [hempty'] at hx
    exact absurd hx List.not_mem_nil
  · rw [hempty']
    exact .nil

end Advance

/-- The step of a wave: a table takes in what it has heard, and its changes wait to be heard above. -/
theorem Wave.advance (h : Wave net n₀ Q) (ha : Advance net Q net' Q' n E)
    (hroot : E ≠ [] → Reaches net n₀ n)
    (hcone : ∀ j s, net'.joined? n = some j → Q' n s ≠ [] → Q n s ≠ []) : Wave net' n₀ Q' where
  formed := ha.formed
  port K j hj s := by
    by_cases hK : K = n
    · subst hK
      exact ha.own j hj s
    have hj₀ : net.joined? K = some j := (ha.joined? hK).symm.trans hj
    by_cases hs : j.source s = n
    · exact ha.port_source h hj₀ hK hs
    by_cases hreach : Reaches net n (j.source s)
    · exact ha.port_above h hj₀ hK hs hreach
    · exact ha.agree.port h.formed.ordered ha.formed.ordered (fun m _ s hm _ => ha.queue_of_not_reaches hm s)
        hreach (ha.queue_other hj₀ hK hs) (h.port K j hj₀ s)
  cone K j s hj hne := by
    by_cases hK : K = n
    · subst hK
      have hsource := (ha.sources s).symm.trans (sourceOf?_of_joined? hj s)
      obtain ⟨j₀, hj₀, hs⟩ := sourceOf?_eq_some_iff.1 hsource
      exact hs ▸ ha.reaches (h.cone K j₀ s hj₀ (hcone j s hj hne))
    have hj₀ : net.joined? K = some j := (ha.joined? hK).symm.trans hj
    by_cases hs : j.source s = n
    · rw [ha.queue_source hj₀ hK hs] at hne
      exact hs ▸ ha.reaches (hroot hne)
    · rw [ha.queue_other hj₀ hK hs] at hne
      exact ha.reaches (h.cone K j s hj₀ hne)

end LiveTables.Network
