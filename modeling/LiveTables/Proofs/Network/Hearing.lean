import LiveTables.Proofs.Network.Telling
import LiveTables.Proofs.Network.Wave

/-!
# A joined table hears

The first notice that waits on a side of a joined table is heard (`Hearing`): its row is linked under the key
that it has, or unlinked, or left where it is linked, and what follows from that, and the other columns that
the notice names, is told to the tables above. This is a step of the wave (`Hearing.wave_after`): what the table had
linked and told before, what it links and tells now and what waits still together account for all rows and cells.
-/

namespace LiveTables

namespace JoinedTable

variable {j : JoinedTable} {side : Side} {y : Notice}

/-- A joined table with another state of its engine. -/
def withEngine (j : JoinedTable) (engine : JoinEngine) : JoinedTable := { j with engine }

/-- Whether a notice of a side leads to its row being linked under its key. -/
def Relinks (j : JoinedTable) (side : Side) (y : Notice) : Prop :=
  y.event.action = .add ∨ y.event.action = .update ∧ j.key side ∈ y.event.columns

theorem Relinks.ne_delete (h : j.Relinks side y) : y.event.action ≠ .delete := by
  rcases h with haction | ⟨haction, -⟩
  · simp [haction]
  · simp [haction]

/-- A row is unlinked, or linked under its key, or left as it is if its key was not touched. -/
theorem relinks_cases (j : JoinedTable) (side : Side) (y : Notice) : y.event.action = .delete ∨
    j.Relinks side y ∨ y.event.action = .update ∧ j.key side ∉ y.event.columns := by
  rw [Relinks]
  cases haction : y.event.action with
  | add => simp
  | delete => simp
  | update =>
    by_cases hkey : j.key side ∈ y.event.columns
    · simp [hkey]
    · simp [hkey]

end JoinedTable

namespace Network

open Notice JoinChange

/-- The queues after a notice was heard: it is gone, and what the table tells waits at the tables above. -/
def hear (net : Network) (Q : Queues) (n : Nat) (side : Side) (rest told : List Notice) : Queues :=
  fun K s =>
    if K = n then if s = side then rest else Q K s
    else if net.sourceOf? K s = some n then told else Q K s

/-- A joined table at the first notice that waits on a side, with what becomes of its engine, and the other
columns that are told of. -/
structure Hearing (net : Network) (n₀ : Nat) (Q : Queues) (n : Nat) (j : JoinedTable) (side : Side)
    (y : Notice) (rest : List Notice) (engine : JoinEngine) (changes : List JoinChange)
    (columns : List String) : Prop where
  wave : Wave net n₀ Q
  joined : net.joined? n = some j
  queue : Q n side = y :: rest
  above : ∀ K j s, net.joined? K = some j → Reaches net n (j.source s) → Q K s = []
  outcome : j.engine.Outcome side y.event.row engine changes
  unlinked : y.event.action = .delete → engine.keyClass? side y.event.row = none
  relinked : j.Relinks side y →
    engine.keyClass? side y.event.row = net.actual (j.source side) y.event.row (j.key side)
  idle : y.event.action = .update → j.key side ∉ y.event.columns → engine = j.engine ∧ changes = []
  named : y.event.action = .update → ∀ c ∈ y.event.columns, c ≠ j.key side → c ∈ j.sideIds side →
    c ∈ columns
  plain : ∀ c ∈ columns, c ∈ j.sideIds side ∧ c ≠ j.key side ∧ c ∈ y.event.columns
  update : columns ≠ [] → y.event.action = .update

/-- No row of a class is read where no row is. -/
theorem Formed.presumed_of_dead {net : Network} {n k : Nat} {c : String} (h : net.Formed)
    (hk : k ∉ (net.shown n).rows) : net.presumed n k c = none := by
  by_cases hn : net.content? n = none
  · rw [presumed, see_of_none hn]
    rfl
  · rcases exists_of_content?_ne_none hn with ⟨t, ht⟩ | ⟨j, hj⟩
    · rw [rows_stored ht] at hk
      rw [presumed_stored ht, actual_stored ht, Table.class?_get_of_dead hk]
    · rw [h.ordered.rows_joined hj] at hk
      exact h.presumed_of_not_mem hj hk

/-- Who hears the first notice, and looks at the cell if it tells of it, has what is presumed afterwards,
unless that is to be heard, or due. -/
theorem Known.hear {net : Network} {Q : Queues} {n : Nat} {c : String} {f f' : Nat → Option Value}
    {x : Notice} {R : List Notice} (h : Known net Q n c f (x :: R)) (hpasses : Passes net n c)
    (hformed : net.Formed)
    (hrefills : x.event.action = .delete → x.event.row ∈ (net.shown n).rows → Adds R x.event.row)
    (hlegible : x.event.action ≠ .delete → Legible net Q n x.event.row)
    (hother : ∀ k, k ≠ x.event.row → f' k = f k)
    (hdeleted : x.event.action = .delete → f' x.event.row = none)
    (hread : x.event.action = .add ∨ x.event.action = .update ∧ c ∈ x.event.columns →
      f' x.event.row = net.actual n x.event.row c)
    (hkept : x.event.action = .update → c ∉ x.event.columns → f' x.event.row = f x.event.row) :
    Known net Q n c f' R := by
  intro k
  by_cases hrow : k = x.event.row
  swap
  · have hk := h k
    rwa [adds_cons_of_ne (Ne.symm hrow), tells_cons_of_ne (Ne.symm hrow), ← hother k hrow] at hk
  subst hrow
  by_cases hdelete : x.event.action = .delete
  · rw [hdeleted hdelete]
    by_cases hlive : x.event.row ∈ (net.shown n).rows
    · exact .inr (.inl (hrefills hdelete hlive))
    · exact .inl (hformed.presumed_of_dead hlive).symm
  by_cases hlooks : x.event.action = .add ∨ x.event.action = .update ∧ c ∈ x.event.columns
  · rw [hread hlooks]
    rcases (hlegible hdelete).sound c hpasses with hsame | hdue
    · exact .inl hsame
    · exact .inr (.inr (.inr hdue))
  · have hupdate : x.event.action = .update := by
      cases haction : x.event.action with
      | add => exact absurd (.inl haction) hlooks
      | update => rfl
      | delete => exact absurd haction hdelete
    have hnot : c ∉ x.event.columns := fun hmem => hlooks (.inr ⟨hupdate, hmem⟩)
    have hk := h x.event.row
    rw [adds_cons_of_action (by simp [hupdate]), tells_cons] at hk
    rw [hkept hupdate hnot]
    simpa [hupdate, hnot] using hk

/-- The key of a row that is heard of can be read, unless the row is deleted. -/
theorem Wave.exists_key {net : Network} {n₀ n : Nat} {Q : Queues} {j : JoinedTable} {s : Side} {x : Notice}
    (h : Wave net n₀ Q) (hj : net.joined? n = some j) (hx : x ∈ Q n s) (haction : x.event.action ≠ .delete) :
    ∃ v, (net.shown (j.source s)).get (j.key s) x.event.row = .ok v := by
  obtain ⟨kind, hkey⟩ := (h.formed.valid n j hj).column?_key s
  have hkind := (h.formed.fits n j hj).kinds s _ kind (JoinedTable.mem_columns_of_column? hkey)
  obtain ⟨v, hv, -⟩ := ((h.port n j hj s).legible x hx haction).readable _ kind hkind
  exact ⟨v, hv⟩

namespace Hearing

variable {net : Network} {n₀ n k r : Nat} {Q : Queues} {j : JoinedTable} {side s : Side} {y x : Notice}
  {rest : List Notice} {engine : JoinEngine} {changes : List JoinChange} {columns : List String}
  {c : String} {kind : Kind}

/-- The joined table afterwards. -/
def table (_ : Hearing net n₀ Q n j side y rest engine changes columns) : JoinedTable := j.withEngine engine

/-- What the table tells. -/
def told (h : Hearing net n₀ Q n j side y rest engine changes columns) : List Notice :=
  h.table.tell side y.event.row changes columns

/-- The network afterwards. -/
def after (h : Hearing net n₀ Q n j side y rest engine changes columns) : Network :=
  net.setContent n (.joined h.table)

/-- The queues afterwards. -/
def queues (h : Hearing net n₀ Q n j side y rest engine changes columns) : Queues :=
  hear net Q n side rest h.told

variable (h : Hearing net n₀ Q n j side y rest engine changes columns)

include h

/-! ## The network afterwards -/

theorem joined_after : h.after.joined? n = some h.table :=
  joined?_eq_some_iff.2 (content?_setContent_self (by simp [content?_of_joined? h.joined]))

theorem valid_table : h.table.Valid := by
  have hvalid := h.wave.formed.valid n j h.joined
  exact ⟨hvalid.nodup, hvalid.key, hvalid.gap, hvalid.registered, h.outcome.sound⟩

theorem formed_after : h.after.Formed :=
  h.wave.formed.setJoined h.joined h.valid_table rfl rfl List.prefix_rfl fun _ _ hkind => hkind

theorem ordered : net.Ordered := h.wave.formed.ordered

theorem content?_after {m : Nat} (hm : m ≠ n) : h.after.content? m = net.content? m :=
  content?_setContent_of_ne hm

/-- What is not above the table stays as it is. -/
theorem agree : Agree net h.after fun m => ¬ Reaches net n m where
  contents _ hm := h.content?_after fun heq => hm (heq ▸ .refl)
  closed _ _ _ hm hj hsource := hm (.step hsource hj)

/-- A source is not above the table. -/
theorem not_reaches_source (s : Side) : ¬ Reaches net n (j.source s) := fun hreach =>
  absurd (hreach.le h.ordered) (Nat.not_le_of_lt (h.ordered.source h.joined s).1)

theorem queues_of_not_reaches {m : Nat} (hm : ¬ Reaches net n m) (s : Side) : h.queues m s = Q m s := by
  have hne : m ≠ n := by
    rintro rfl
    exact hm .refl
  rw [queues, hear, if_neg hne, if_neg]
  intro hsource
  obtain ⟨j, hj, rfl⟩ := sourceOf?_eq_some_iff.1 hsource
  exact hm (.step .refl hj)

theorem queues_self : h.queues n side = rest := by
  rw [queues, hear, if_pos rfl, if_pos rfl]

theorem queues_other : h.queues n side.other = Q n side.other := by
  rw [queues, hear, if_pos rfl, if_neg side.other_ne]

theorem presumed_source (s : Side) : h.after.presumed (j.source s) r c = net.presumed (j.source s) r c :=
  h.agree.presumed h.ordered h.formed_after.ordered (h.not_reaches_source s)

theorem due_source (s : Side) (hdue : Due net Q (j.source s) r c) :
    Due h.after h.queues (j.source s) r c :=
  h.agree.due h.ordered h.formed_after.ordered (fun _ _ s hm _ => h.queues_of_not_reaches hm s)
    (h.not_reaches_source s) hdue

theorem legible_source (s : Side) (hlegible : Legible net Q (j.source s) r) :
    Legible h.after h.queues (j.source s) r :=
  h.agree.legible h.ordered h.formed_after.ordered (fun _ _ s hm _ => h.queues_of_not_reaches hm s)
    (h.not_reaches_source s) hlegible

theorem rows_source (s : Side) : (h.after.shown (j.source s)).rows = (net.shown (j.source s)).rows := by
  rw [shown, h.agree.see h.ordered h.formed_after.ordered (h.not_reaches_source s)]

theorem passes_source (s : Side) (hpasses : Passes h.after (j.source s) c) : Passes net (j.source s) c :=
  h.agree.symm.passes (h.not_reaches_source s) hpasses

theorem plain_source (s : Side) : Plain h.after (j.source s) = Plain net (j.source s) :=
  funext fun _ => propext
    ⟨h.agree.symm.plain (h.not_reaches_source s), h.agree.plain (h.not_reaches_source s)⟩

/-! ## The side that heard -/

theorem port : Port net Q n j side := h.wave.port n j h.joined side

theorem mem_queue : y ∈ Q n side := by
  rw [h.queue]
  exact List.mem_cons_self

/-- The row that is heard of can be read, unless it is to be deleted. -/
theorem legible (haction : y.event.action ≠ .delete) : Legible net Q (j.source side) y.event.row :=
  h.port.legible y h.mem_queue haction

theorem actual_ne_none (haction : y.event.action ≠ .delete) :
    net.actual (j.source side) y.event.row (j.key side) ≠ none := by
  obtain ⟨v, hv⟩ := h.wave.exists_key h.joined h.mem_queue haction
  rw [actual, TableView.class?, hv]
  simp

theorem refills : (y.event.action = .delete → y.event.row ∈ (net.shown (j.source side)).rows →
    Adds rest y.event.row) ∧ Refills (· ∈ (net.shown (j.source side)).rows) rest := by
  have hrefills := h.port.refills
  rw [h.queue] at hrefills
  exact hrefills

theorem settles : Settles (Plain net (j.source side)) (y :: rest) := by
  have hsettles := h.port.settles
  rwa [h.queue] at hsettles

theorem kept (haction : y.event.action = .update) (hkey : j.key side ∉ y.event.columns) :
    engine.keyClass? side y.event.row = j.engine.keyClass? side y.event.row := by
  rw [(h.idle haction hkey).1]

/-- The key of the row is read anew, or the row is forgotten, or nothing more is known of it. -/
theorem known (hpasses : Passes net (j.source side) (j.key side)) :
    Known net Q (j.source side) (j.key side) (engine.keyClass? side) rest := by
  have hknown := h.port.known hpasses
  rw [h.queue] at hknown
  exact hknown.hear hpasses h.wave.formed h.refills.1 h.legible
    (fun k hk => h.outcome.classes side k (.inr hk)) h.unlinked h.relinked h.kept

/-- What holds between the table and its source holds still. -/
theorem port_self : Port h.after h.queues n h.table side where
  known hpasses := by
    rw [h.queues_self]
    exact h.agree.known h.ordered h.formed_after.ordered (fun _ _ s hm _ => h.queues_of_not_reaches hm s)
      (h.not_reaches_source side) (h.known (h.passes_source side hpasses))
  gone k hlinked hdead := by
    -- the row that was heard of is unlinked if it is gone, and of the others nothing was heard
    have hdead : k ∉ (net.shown (j.source side)).rows := fun hlive => hdead ((h.rows_source side).symm ▸ hlive)
    have hlinked : engine.keyClass? side k ≠ none := hlinked
    rw [h.queues_self]
    by_cases hrow : k = y.event.row
    · subst hrow
      by_cases haction : y.event.action = .delete
      · exact absurd (h.unlinked haction) hlinked
      · exact absurd (h.legible haction).live hdead
    · rw [h.outcome.classes side k (.inr hrow)] at hlinked
      have hgone := h.port.gone k hlinked hdead
      rwa [h.queue, deletes_cons_of_ne (Ne.symm hrow)] at hgone
  come k hlive hfree := by
    have hlive : k ∈ (net.shown (j.source side)).rows := (h.rows_source side) ▸ hlive
    have hfree : engine.keyClass? side k = none := hfree
    rw [h.queues_self]
    by_cases hrow : k = y.event.row
    · -- it is unlinked only if it was deleted, or was not linked before and its key was not named
      subst hrow
      rcases j.relinks_cases side y with haction | hrelinked | ⟨haction, hkey⟩
      · exact h.refills.1 haction hlive
      · rw [h.relinked hrelinked] at hfree
        exact absurd hfree (h.actual_ne_none hrelinked.ne_delete)
      · rw [h.kept haction hkey] at hfree
        have hcome := h.port.come _ hlive hfree
        rwa [h.queue, adds_cons_of_action (by simp [haction])] at hcome
    · rw [h.outcome.classes side k (.inr hrow)] at hfree
      have hcome := h.port.come k hlive hfree
      rwa [h.queue, adds_cons_of_ne (Ne.symm hrow)] at hcome
  refills := by
    rw [h.queues_self]
    show Refills (· ∈ (h.after.shown (j.source side)).rows) rest
    rw [h.rows_source]
    exact h.refills.2
  legible x hx haction := by
    rw [h.queues_self] at hx
    refine h.legible_source side (h.port.legible x ?_ haction)
    rw [h.queue]
    exact List.mem_cons_of_mem _ hx
  settles := by
    rw [h.queues_self]
    show Settles (Plain h.after (j.source side)) rest
    rw [h.plain_source]
    exact (List.pairwise_cons.1 h.settles).2

/-! ## The other side -/

theorem reaches_source : Reaches net n₀ (j.source side) := by
  refine h.wave.cone n j side h.joined ?_
  rw [h.queue]
  exact List.cons_ne_nil _ _

/-- Changes come from one side only. -/
theorem not_reaches_other : ¬ Reaches net n₀ (j.source side.other) :=
  h.wave.formed.not_both h.joined h.reaches_source

theorem queue_other : Q n side.other = [] := by
  by_contra hne
  exact h.not_reaches_other (h.wave.cone n j side.other h.joined hne)

/-- The other source is as it was before the change. -/
theorem calm_other : (∀ k c, ¬ Due net Q (j.source side.other) k c) ∧
    ∀ k ∈ (net.shown (j.source side.other)).rows, Legible net Q (j.source side.other) k := by
  have hexists := (h.ordered.source h.joined side.other).2
  exact (h.wave.still hexists h.not_reaches_other).calm h.wave.formed h.wave.port

theorem port_other : Port h.after h.queues n h.table side.other := by
  have hp := h.agree.port h.ordered h.formed_after.ordered (fun _ _ s hm _ => h.queues_of_not_reaches hm s)
    (h.not_reaches_source side.other) h.queues_other (h.wave.port n j h.joined side.other)
  have hclass (k : Nat) : h.table.engine.keyClass? side.other k = j.engine.keyClass? side.other k :=
    h.outcome.classes side.other k (.inl side.other_ne)
  refine ⟨fun hpasses k => ?_, fun k hlinked => ?_, fun k hlive hfree => ?_, hp.refills, hp.legible,
    hp.settles⟩
  · have hknown := hp.known hpasses k
    rwa [← hclass] at hknown
  · rw [hclass] at hlinked
    exact hp.gone k hlinked
  · rw [hclass] at hfree
    exact hp.come k hlive hfree

theorem port_after (s : Side) : Port h.after h.queues n h.table s := by
  rcases Side.eq_or_eq_other s side with rfl | rfl
  · exact h.port_self
  · exact h.port_other

/-! ## The rows that are told of -/

/-- The rows that stand in a joined row are heard of, if on the side that heard it is none other than the
row that was heard of. -/
theorem heard_row (hr : engine.sourceRow? s k = some r)
    (hmine : s = side → r = y.event.row ∧ y.event.action ≠ .delete) :
    Heard h.after h.queues n h.table s r := by
  rcases Side.eq_or_eq_other s side with rfl | rfl
  · -- all that follows upon the notice about the row settles
    obtain ⟨rfl, haction⟩ := hmine rfl
    refine h.port_self.heard (h.legible_source s (h.legible haction)) ?_ fun c hplain => ?_
    · rw [h.queues_self]
      exact h.settles.not_adds rfl haction
    · rw [h.queues_self]
      have hplain : Plain h.after (j.source s) c := hplain
      rw [h.plain_source] at hplain
      exact h.settles.not_tells rfl haction hplain
  · -- nothing waits on the other side
    have hempty : h.queues n side.other = [] := h.queues_other.trans h.queue_other
    have hlive : r ∈ (h.after.shown (j.source side.other)).rows :=
      h.port_other.live_of_silent hempty (h.outcome.sound.keyClass?_ne_none hr)
    rw [h.rows_source] at hlive
    exact h.port_other.heard_of_silent (h.legible_source _ (h.calm_other.2 r hlive)) hempty

/-- A row that was deleted stands nowhere. -/
theorem ne_delete_of_stands (hr : engine.sourceRow? side k = some y.event.row) :
    y.event.action ≠ .delete := fun haction =>
  h.outcome.sound.keyClass?_ne_none hr (h.unlinked haction)

theorem legible_told (hx : x ∈ h.told) (haction : x.event.action ≠ .delete) :
    Legible h.after h.queues n x.event.row := by
  have hlive : x.event.row ∈ engine.rows :=
    (JoinedTable.publishes_tell (j := h.table) h.outcome.script h.outcome.sound).alive x hx haction
  refine h.formed_after.legible_joined h.joined_after hlive fun s r hr => h.heard_row hr ?_
  rintro rfl
  have hr : engine.sourceRow? s x.event.row = some r := hr
  -- on the side that heard, what is told of stands on the row that was heard of, or on none
  have hrow : engine.sourceRow? s x.event.row = none ∨
      engine.sourceRow? s x.event.row = some y.event.row := by
    rcases JoinedTable.of_mem_tell hx haction with (hadded | ⟨s', hupdated⟩) | ⟨-, hrest⟩
    · exact h.outcome.lands _ s (.inl hadded)
    · exact h.outcome.lands _ s' (.inr hupdated)
    · exact .inr ((JoinedTable.mem_joinedRowsOf h.outcome.sound).1 hrest)
  rcases hrow with hrow | hrow
  · exact absurd (hrow.symm.trans hr) (by simp)
  · obtain rfl := Option.some.inj (hr.symm.trans hrow)
    exact ⟨rfl, h.ne_delete_of_stands hr⟩

/-! ## The cells that are told of -/

/-- A source cell of a joined row is kept if the same row stands there, linked as before, and all that was
to be told of it still is. -/
theorem keeps_source (hrows : k ∈ engine.rows ↔ k ∈ j.engine.rows) (hc : j.column? c = some (s, kind))
    (hrow : engine.sourceRow? s k = j.engine.sourceRow? s k)
    (hkey : ∀ r, j.engine.sourceRow? s k = some r → c = j.key s →
      engine.keyClass? s r = j.engine.keyClass? s r)
    (htells : ∀ r, j.engine.sourceRow? s k = some r → c ≠ j.key s → Tells (Q n s) r c →
      Tells (h.queues n s) r c) : Keeps net Q h.after h.queues n k c := by
  refine .of_source h.wave.formed h.formed_after h.joined h.joined_after hrows hc hrow
    (fun r hr heq => ⟨hkey r hr heq, fun t ht _ => ?_⟩) fun r hr hother => ⟨?_, htells r hr hother⟩
  · exact (h.agree.table? (h.not_reaches_source s)).trans ht
  · exact ⟨h.presumed_source s, h.due_source s⟩

/-- Cells of the other side are kept where the same row stands. -/
theorem keeps_other (hrows : k ∈ engine.rows ↔ k ∈ j.engine.rows)
    (hc : j.column? c = some (side.other, kind))
    (hrow : engine.sourceRow? side.other k = j.engine.sourceRow? side.other k) :
    Keeps net Q h.after h.queues n k c := by
  refine h.keeps_source hrows hc hrow (fun r _ _ => ?_) fun r _ _ htells => ?_
  · exact h.outcome.classes side.other r (.inl side.other_ne)
  · rwa [h.queues_other]

/-- If every source column of a joined row is among some columns or kept, then every column is among them,
or depends on them, or is kept. -/
theorem named_or_keeps (named : List String) (hrows : k ∈ engine.rows ↔ k ∈ j.engine.rows)
    (hsource : ∀ c s kind, j.column? c = some (s, kind) →
      c ∈ named ∨ Keeps net Q h.after h.queues n k c) (c : String) :
    (c ∈ named ∨ c ∈ j.computed.dependentsOf named) ∨ Keeps net Q h.after h.queues n k c := by
  have hformed := h.wave.formed
  have hvalid := hformed.valid n j h.joined
  refine hvalid.column_induction (motive := fun c => (c ∈ named ∨ c ∈ j.computed.dependentsOf named) ∨
    Keeps net Q h.after h.queues n k c) (fun c s kind hc => (hsource c s kind hc).imp_left .inl)
    (fun c hc hcol => .inr (.of_unknown hformed h.formed_after h.joined h.joined_after hc hcol))
    (fun c col hcol hdeps => ?_) c
  by_cases hnamed : ∃ d ∈ col.dependencies, d ∈ named ∨ d ∈ j.computed.dependentsOf named
  · exact .inl (.inr ((hvalid.registered.layered.mem_dependentsOf_iff hcol).2 hnamed))
  · refine .inr (.of_computed hformed h.formed_after h.joined h.joined_after hrows hcol fun d hd => ?_)
    exact (hdeps d hd).resolve_left fun hd' => hnamed ⟨d, hd, hd'⟩

/-- A joined row that is not mentioned and does not stand on the row that was heard of: its cells are kept. -/
theorem keeps_elsewhere (hk : k ∉ mentioned changes) (hnot : j.engine.sourceRow? side k ≠ some y.event.row)
    (c : String) : Keeps net Q h.after h.queues n k c := by
  have hrows := h.outcome.script.mem_iff_of_not_mentioned hk
  have hrow (s : Side) : engine.sourceRow? s k = j.engine.sourceRow? s k := h.outcome.script.frame k hk s
  have hsource (c : String) (s : Side) (kind : Kind) (hc : j.column? c = some (s, kind)) :
      c ∈ ([] : List String) ∨ Keeps net Q h.after h.queues n k c := by
    refine .inr ?_
    rcases Side.eq_or_eq_other s side with rfl | rfl
    · have hne {r : Nat} (hr : j.engine.sourceRow? s k = some r) : r ≠ y.event.row := by
        rintro rfl
        exact hnot hr
      refine h.keeps_source hrows hc (hrow s) (fun r hr _ => ?_) fun r hr _ htells => ?_
      · exact h.outcome.classes s r (.inr (hne hr))
      · rw [h.queue, tells_cons_of_ne (hne hr).symm] at htells
        rwa [h.queues_self]
    · exact h.keeps_other hrows hc (hrow side.other)
  rcases h.named_or_keeps [] hrows hsource c with hnamed | hkeeps
  · simp at hnamed
  · exact hkeeps

/-- A joined row that is not mentioned but stands on the row that was heard of: its cells are kept, or told of
because the notice named them. -/
theorem tells_of_standing (hk : k ∉ mentioned changes) (hmine : j.engine.sourceRow? side k = some y.event.row)
    (c : String) : Tells h.told k c ∨ Keeps net Q h.after h.queues n k c := by
  have hrows := h.outcome.script.mem_iff_of_not_mentioned hk
  have hrow (s : Side) : engine.sourceRow? s k = j.engine.sourceRow? s k := h.outcome.script.frame k hk s
  have hstands : engine.sourceRow? side k = some y.event.row := (hrow side).trans hmine
  -- were the row linked under another key, the joined row would be mentioned
  have hclass : engine.keyClass? side y.event.row = j.engine.keyClass? side y.event.row := by
    by_contra hdiffers
    exact hk (h.outcome.stands hdiffers k hmine)
  have hsource (c : String) (s : Side) (kind : Kind) (hc : j.column? c = some (s, kind)) :
      c ∈ columns ∨ Keeps net Q h.after h.queues n k c := by
    rcases Side.eq_or_eq_other s side with rfl | rfl
    · by_cases hmem : c ∈ columns
      · exact .inl hmem
      refine .inr (h.keeps_source hrows hc (hrow s) (fun r hr _ => ?_) fun r hr hother htells => ?_)
      · obtain rfl := Option.some.inj (hr.symm.trans hmine)
        exact hclass
      · obtain rfl := Option.some.inj (hr.symm.trans hmine)
        rw [h.queue, tells_cons] at htells
        rw [h.queues_self]
        rcases htells with ⟨-, hdelete | ⟨hupdate, -, hnamed⟩⟩ | htells
        · exact absurd hdelete (h.ne_delete_of_stands hstands)
        · exact absurd (h.named hupdate c hnamed hother (JoinedTable.mem_sideIds_of_column? hc)) hmem
        · exact htells
    · exact .inr (h.keeps_other hrows hc (hrow side.other))
  rcases h.named_or_keeps columns hrows hsource c with hnamed | hkeeps
  · by_cases hcolumns : columns = []
    · subst hcolumns
      simp at hnamed
    · refine .inl (JoinedTable.tells_of_rest ?_ hk hnamed hcolumns)
      exact (JoinedTable.mem_joinedRowsOf h.outcome.sound).2 hstands
  · exact .inr hkeeps

/-- The cells of a joined row that is not mentioned are told of or kept. -/
theorem tells_of_not_mentioned (hk : k ∉ mentioned changes) (c : String) :
    Tells h.told k c ∨ Keeps net Q h.after h.queues n k c := by
  by_cases hmine : j.engine.sourceRow? side k = some y.event.row
  · exact h.tells_of_standing hk hmine c
  · exact .inr (h.keeps_elsewhere hk hmine c)

/-- Every cell of a joined row is told of or kept, unless the joined row is new. -/
theorem tells_or_keeps (k : Nat) (c : String) : Tells h.told k c ∨
    (Adds h.told k ∧ k ∉ j.engine.rows) ∨ Keeps net Q h.after h.queues n k c := by
  have hscript := h.outcome.script
  by_cases hk : k ∈ mentioned changes
  swap
  · exact (h.tells_of_not_mentioned hk c).imp_right .inr
  by_cases hdeleted : .deleted k ∈ changes
  · exact .inl (.inl (JoinedTable.deletes_tell hdeleted))
  obtain ⟨change, hchange, hrow⟩ := mem_mentioned.1 hk
  cases change with
  | added i =>
    obtain rfl : i = k := hrow
    exact .inr (.inl ⟨JoinedTable.adds_tell hchange, hscript.not_mem_of_added hchange hdeleted⟩)
  | updated i s =>
    obtain rfl : i = k := hrow
    obtain ⟨rfl, hold, hnew, -, hother⟩ := hscript.updated i s hchange
    have hrows : i ∈ engine.rows ↔ i ∈ j.engine.rows := iff_of_true hnew hold
    have hsource (c : String) (s' : Side) (kind : Kind) (hc : j.column? c = some (s', kind)) :
        c ∈ j.sideIds s ∨ Keeps net Q h.after h.queues n i c := by
      rcases Side.eq_or_eq_other s' s with rfl | rfl
      · exact .inl (JoinedTable.mem_sideIds_of_column? hc)
      · exact .inr (h.keeps_other hrows hc hother)
    rcases h.named_or_keeps (j.sideIds s) hrows hsource c with hnamed | hkeeps
    · exact .inl (JoinedTable.tells_of_updated (j := h.table) hchange hnamed)
    · exact .inr (.inr hkeeps)
  | deleted i =>
    obtain rfl : i = k := hrow
    exact absurd hchange hdeleted

/-! ## The step -/

theorem plain_self (hplain : Plain h.after n c) : Plain net n c := by
  obtain ⟨s, kind, hc, hbelow⟩ := hplain.exists_column? h.joined_after
  have hbelow : Plain h.after (j.source s) c := hbelow
  rw [h.plain_source] at hbelow
  exact .source h.joined hc hbelow

/-- A column that passes afterwards passes, if the columns that it is computed from do. -/
theorem passes_of_dependencies (hpasses : Passes h.after n c)
    (hdeps : ∀ col, j.computed.column? c = some col → (∀ d ∈ col.dependencies, Passes h.after n d) →
      ∀ d ∈ col.dependencies, Passes net n d) : Passes net n c := by
  cases hpasses with
  | stored ht => exact absurd ((joined?_eq_none_of_table? ht).symm.trans h.joined_after) (by simp)
  | plain hplain => exact .plain (h.plain_self hplain)
  | @first _ j' t _ s' _ hj' hc' ht =>
    obtain rfl := Option.some.inj (hj'.symm.trans h.joined_after)
    exact .first h.joined hc' ((h.agree.table? (h.not_reaches_source s')).symm.trans ht)
  | @through _ j' _ s' _ hj' hc' hother hbelow =>
    obtain rfl := Option.some.inj (hj'.symm.trans h.joined_after)
    exact .through h.joined hc' hother (h.passes_source s' hbelow)
  | @computed _ j' _ col hj' hcol hbelow =>
    obtain rfl := Option.some.inj (hj'.symm.trans h.joined_after)
    exact .computed h.joined hcol (hdeps col hcol hbelow)

theorem passes_self (hpasses : Passes h.after n c) : Passes net n c := by
  have hvalid := h.wave.formed.valid n j h.joined
  revert hpasses
  refine hvalid.column_induction (motive := fun c => Passes h.after n c → Passes net n c)
    (fun c s kind hc hpasses => ?_) (fun c hc hcol hpasses => ?_) (fun c col hcol ih hpasses => ?_) c
  · refine h.passes_of_dependencies hpasses fun col hcol => ?_
    exact absurd (hcol.symm.trans (hvalid.computed_eq_none hc)) (by simp)
  · refine h.passes_of_dependencies hpasses fun col hcol' => ?_
    exact absurd (hcol'.symm.trans hcol) (by simp)
  · refine h.passes_of_dependencies hpasses fun col' hcol' hbelow d hd => ?_
    obtain rfl := Option.some.inj (hcol'.symm.trans hcol)
    exact ih d hd (hbelow d hd)

theorem advance : Advance net Q h.after h.queues n h.told where
  formed := h.formed_after
  other _ hid := h.content?_after hid
  sort t ht := absurd ((joined?_eq_none_of_table? ht).symm.trans h.joined_after) (by simp)
  sources s := by
    rw [sourceOf?_of_joined? h.joined_after, sourceOf?_of_joined? h.joined]
    rfl
  above := h.above
  queue K hK s := by rw [queues, hear, if_neg hK]
  publishes := by
    rw [h.ordered.rows_joined h.joined, h.formed_after.ordered.rows_joined h.joined_after]
    exact JoinedTable.publishes_tell (j := h.table) h.outcome.script h.outcome.sound
  tells c _ k := by
    rw [h.ordered.rows_joined h.joined]
    exact h.tells_or_keeps k c
  plain _ hplain := h.plain_self hplain
  passes _ _ hpasses := h.passes_self hpasses
  legible _ hx haction := h.legible_told hx haction
  settles := by
    refine JoinedTable.settles_tell (j := h.table) h.outcome.script h.outcome.sound fun c named hc hplain => ?_
    obtain ⟨col, hcol⟩ := h.valid_table.registered.layered.exists_column?_of_mem hc
    obtain ⟨s, kind, hsource, -⟩ := hplain.exists_column? h.joined_after
    exact absurd (hsource.symm.trans (h.valid_table.column?_eq_none hcol)) (by simp)
  own j' hj' s := by
    obtain rfl := Option.some.inj (hj'.symm.trans h.joined_after)
    exact h.port_after s

/-- To hear a notice is a step of the wave. -/
theorem wave_after : Wave h.after n₀ h.queues := by
  refine h.wave.advance h.advance (fun _ => .step h.reaches_source h.joined) fun j' s _ hne => ?_
  rcases Side.eq_or_eq_other s side with rfl | rfl
  · rw [h.queue]
    exact List.cons_ne_nil _ _
  · rwa [h.queues_other] at hne

end Hearing

end Network

end LiveTables
