import LiveTables.Proofs.Network.Maintained
import LiveTables.Proofs.Observer.Attached
import LiveTables.Proofs.Observer.Watch

/-!
# Shadows of joined tables

An observer keeps a shadow of a joined table (`Shadow`): it adds a row and reads some columns, reads anew what
an update names, and drops a row that is deleted. If it registers with a replay, no event that it hears finds its
shadow other than it should, and it can read whatever it has to. After every write the shadow has the rows that
the table shows, and in the columns that pass the same values (`shadow_follows`).
-/

namespace LiveTables

open Network Notice World

/-- A copy that an observer keeps of a table: the rows, the cells that it has read, and whether an event did not
fit the rows, or a cell could not be read. -/
structure Shadow where
  rows : Finset ℕ := ∅
  cell : Nat → String → Option Value := fun _ _ => none
  fault : Bool := false

namespace Shadow

/-- Reads some columns of a row. -/
def read (s : Shadow) (view : TableView) (row : Nat) (columns : List String) : Shadow where
  rows := s.rows
  cell k c := if k = row ∧ c ∈ columns then (view.get c row).toOption else s.cell k c
  fault := s.fault || columns.any fun c => (view.get c row).toOption.isNone

/-- Drops a row. -/
def drop (s : Shadow) (row : Nat) : Shadow where
  rows := s.rows.erase row
  cell k c := if k = row then none else s.cell k c
  fault := s.fault

/-- What an observer does that keeps a shadow of some columns. -/
def hear (columns : List String) (view : TableView) (e : Event) (s : Shadow) : Shadow :=
  match e.action with
  | .add =>
    if e.row ∈ s.rows then { s with fault := true }
    else read { s with rows := insert e.row s.rows } view e.row columns
  | .update => if e.row ∈ s.rows then s.read view e.row e.columns else { s with fault := true }
  | .delete => if e.row ∈ s.rows then s.drop e.row else { s with fault := true }

/-- Whether a shadow has the values that a table shows in a column. -/
def agrees (s : Shadow) (view : TableView) (column : String) : Bool :=
  view.rows.all fun k => match s.cell k column, view.get column k with
    | some a, .ok b => a.same b
    | _, _ => false

theorem agrees_iff {s : Shadow} {view : TableView} {c : String} : s.agrees view c = true ↔
    ∀ k ∈ view.rows, ∃ a b, s.cell k c = some a ∧ view.get c k = .ok b ∧ a.same b = true := by
  rw [agrees, List.all_eq_true]
  refine forall₂_congr fun k _ => ?_
  cases s.cell k c <;> cases view.get c k <;> simp

variable {s : Shadow} {columns : List String} {view : TableView} {e : Event} {rows : Finset ℕ}
  {f : String → Nat → Option Value} {L : Account} {x : TableView × Event}

/-- A shadow without fault, with the classes of cells that somebody has who looks at the columns. -/
structure Shows (s : Shadow) (columns : List String) (rows : Finset ℕ) (f : String → Nat → Option Value) :
    Prop where
  rows : s.rows = rows
  fault : s.fault = false
  cells : ∀ c ∈ columns, ∀ k, (s.cell k c).map Value.canonical = f c k

/-- What can be read is read. -/
theorem fault_read {named : List String} {row : Nat} (hread : ∀ c ∈ named, ∃ v, view.get c row = .ok v) :
    (s.read view row named).fault = s.fault := by
  have hnone : (named.any fun c => (view.get c row).toOption.isNone) = false := by
    rw [List.any_eq_false]
    intro c hc
    obtain ⟨v, hv⟩ := hread c hc
    simp [hv, Except.toOption]
  rw [read, hnone, Bool.or_false]

theorem shows_read {named : List String} {row : Nat} (h : s.Shows columns rows f)
    (hread : ∀ c ∈ named, ∃ v, view.get c row = .ok v) : (s.read view row named).Shows columns rows
      fun c k => if k = row ∧ c ∈ named then view.class? row c else f c k where
  rows := h.rows
  fault := (fault_read hread).trans h.fault
  cells c hc k := by
    rw [read]
    dsimp only
    split_ifs
    · rfl
    · exact h.cells c hc k

/-- An event that fits, and of which all can be read. -/
theorem shows_hear (h : s.Shows columns rows f) {rows' : Finset ℕ} (hfits : x.2.applyTo rows = some rows')
    (hread : ∀ c, x.2.Reads columns c → ∃ v, x.1.get c x.2.row = .ok v) :
    (hear columns x.1 x.2 s).Shows columns rows' fun c => Account.look c (f c) x := by
  obtain ⟨view, e⟩ := x
  have hrows := h.rows
  subst hrows
  cases haction : e.action with
  | add =>
    obtain ⟨hnot, rfl⟩ := (Event.applyTo_add haction).1 hfits
    have hinserted : Shows { s with rows := insert e.row s.rows } columns (insert e.row s.rows) f :=
      ⟨rfl, h.fault, h.cells⟩
    have hshows := shows_read hinserted fun c hc => hread c (.inl ⟨haction, hc⟩)
    rw [hear, haction]
    simp only [if_neg hnot]
    refine ⟨hshows.rows, hshows.fault, fun c hc k => (hshows.cells c hc k).trans ?_⟩
    by_cases hk : k = e.row <;> simp [Account.look, haction, hk, hc]
  | update =>
    obtain ⟨hmem, rfl⟩ := (Event.applyTo_update haction).1 hfits
    have hshows := shows_read h fun c hc => hread c (.inr ⟨haction, hc⟩)
    rw [hear, haction]
    simp only [if_pos hmem]
    refine ⟨hshows.rows, hshows.fault, fun c hc k => (hshows.cells c hc k).trans ?_⟩
    by_cases hk : k = e.row <;> simp [Account.look, haction, hk]
  | delete =>
    obtain ⟨hmem, rfl⟩ := (Event.applyTo_delete haction).1 hfits
    rw [hear, haction]
    simp only [if_pos hmem]
    refine ⟨rfl, h.fault, fun c hc k => ?_⟩
    by_cases hk : k = e.row <;> simp [drop, Account.look, haction, hk, h.cells c hc]

/-- A whole account. -/
theorem shows_after {ω : Type} {v : Spectator ω Shadow} (hhear : v.hear = hear columns)
    (h : s.Shows columns rows f) {rows' : Finset ℕ} (hfits : Event.replay rows L.events = some rows')
    (hread : ∀ x ∈ L, ∀ c, x.2.Reads columns c → ∃ v, x.1.get c x.2.row = .ok v) :
    (v.after L s).Shows columns rows' fun c => L.latest c (f c) := by
  induction L generalizing s rows f with
  | nil =>
    obtain rfl := Option.some.inj hfits
    exact h
  | cons x L ih =>
    obtain ⟨mid, happly, hrest⟩ := Event.replay_cons_eq_some.1 hfits
    have hstep := shows_hear h happly (hread x List.mem_cons_self)
    rw [← hhear] at hstep
    exact ih hstep hrest fun y hy => hread y (List.mem_cons_of_mem _ hy)

end Shadow

/-- An observer that registers with a replay keeps a shadow without fault, which shows the rows of the joined
table, and the same values in the columns that pass. -/
theorem shadow_follows {ω : Type} {o : Outside ω} {v : Spectator ω Shadow} {columns : List String}
    {w₀ w : World ω} {j : JoinedTable} {view₀ view : TableView} {depth : Nat} (ho : o.Quiet) (hv : v.Attends o)
    (hhear : v.hear = Shadow.hear columns) (h : Reachable o w₀) (hj : w₀.network.joined? v.node = some j)
    (hview₀ : w₀.network.view? v.node = some view₀)
    (hcolumns : ∀ c ∈ columns, ∃ kind, view₀.columnKind c = .ok kind) (habsent : v.At none w₀.network)
    (hempty : v.mine w₀.outside = {})
    (hsince : Since o v (w₀.subscribeWithReplay (dispatch o (depth + 1)) v.node v.id).1 w)
    (hview : w.network.view? v.node = some view) :
    (v.mine w.outside).fault = false ∧ (v.mine w.outside).rows = view.rows.toFinset ∧
      ∀ c ∈ columns, w.network.Passes v.node c → (v.mine w.outside).agrees view c = true := by
  have hsettled₀ := h.settled ho
  have hn₀ : w₀.network.content? v.node ≠ none := by simp [content?_of_joined? hj]
  obtain rfl := Option.some.inj (hview₀.symm.trans (hsettled₀.formed.ordered.view?_eq hn₀))
  set a : Outset := ⟨columns, ∅, fun _ _ => none⟩ with ha
  -- the replay waits to be heard, then what is told
  obtain ⟨i, hkept⟩ := Ledger.exists_kept_of_replay (b := a.ledger v.node) depth ho hv hsettled₀ habsent hview₀
    (hsettled₀.watch_replay hj hcolumns)
  have hattached := (quietly_subscribeWithReplay ho (depth + 1) v.node v.id).settled hsettled₀
  obtain ⟨hsettled, hkept⟩ := hkept.since ho hv hattached hsince
  obtain ⟨hn, rfl⟩ := (hsettled.formed.ordered.view?_eq_some_iff).1 hview
  obtain ⟨L, hmine, hwatch⟩ := hkept.account hn
  have hwatch : Watch a w.network silent v.node (L ()) [] := hwatch
  obtain ⟨hrows, hlatest⟩ := hwatch.settled hsettled
  have hshows : (v.after (L ()) ({} : Shadow)).Shows columns _ _ :=
    Shadow.shows_after hhear (f := fun _ _ => none) ⟨rfl, rfl, fun _ _ _ => rfl⟩ hrows hwatch.read
  have hmine : v.mine w.outside = v.after (L ()) {} := by
    rw [← hempty]
    exact hmine ()
  rw [hmine]
  refine ⟨hshows.fault, hshows.rows, fun c hc hpasses => Shadow.agrees_iff.2 fun k hk => ?_⟩
  -- the classes are the same, so the values are
  have hclass := (hshows.cells c hc k).trans (hlatest c hc hpasses k)
  obtain ⟨kind, hkind⟩ := hwatch.columns c hc
  obtain ⟨b, hb, -⟩ := ((hsettled.calm hn).2 k hk).readable c kind hkind
  rw [actual, TableView.class?, hb, Value.class?_ok] at hclass
  obtain ⟨d, hd, hsame⟩ := Option.map_eq_some_iff.1 hclass
  exact ⟨d, b, hd, hb, Value.same_iff.2 hsame⟩

/-! ## Shadows of a chain

In the chain of joins, a shadow of the first one follows. One of the third has an old value of `q` after the
write: that join is told nothing of `q` on its own, because `q` is the key of the second, which finds the row
linked as it was.
-/

namespace Chain

/-- Observers that keep a shadow of the table of their number. -/
def shadows : Outside (Nat → Shadow) := crowd (fun id => id) (Shadow.hear ["a", "p", "q"])

/-- The one that has the shadow of a table. -/
def shadower (n : Nat) : Spectator (Nat → Shadow) Shadow :=
  crowdSpectator (fun id => id) (Shadow.hear ["a", "p", "q"]) n

/-- The world before a shadow of a table is kept, and after the write. -/
def shadowed? (n : Nat) : Option (World (Nat → Shadow) × World (Nat → Shadow)) := do
  let joined ← Call.performAll shadows 9 { network := tables, outside := fun _ => {} } calls
  let w₀ : World (Nat → Shadow) := { network := joined.network.hold 8, outside := fun _ => {} }
  let w ← Call.performAll shadows 9 (w₀.subscribeWithReplay (dispatch shadows (8 + 1)) n n).1
    [.setValue 0 "a" 0 (.int32 0)]
  return (w₀, w)

variable {n : Nat} {w₀ w : World (Nat → Shadow)}

theorem reachable_shadowed (h : shadowed? n = some (w₀, w)) : Reachable shadows w₀ ∧ w₀.outside = (fun _ => {}) ∧
    Since shadows (shadower n) (w₀.subscribeWithReplay (dispatch shadows (8 + 1)) n n).1 w := by
  simp only [shadowed?, Option.bind_eq_bind, Option.bind_eq_some_iff] at h
  obtain ⟨joined, hcalls, w', hwrite, heq⟩ := h
  obtain ⟨rfl, rfl⟩ := Prod.mk.inj (Option.some.inj heq)
  refine ⟨.quietly (reachable_calls hcalls) (.hold .refl), rfl, Since.performAll .refl (fun call hmem => ?_) hwrite⟩
  obtain rfl := List.mem_singleton.1 hmem
  exact trivial

/-- What is to be found: a joined table with the columns, nobody who listens yet, and in the end the row, with the
value of `q` that the shadow has or with another. -/
def found (n : Nat) (agrees : Bool) (w₀ w : World (Nat → Shadow)) : Bool :=
  let known (view : TableView) := ["a", "p", "q"].all fun c => (view.columnKind c).toOption.isSome
  (w₀.network.joined? n).isSome && (shadower n).isAt none w₀.network &&
    (w₀.network.view? n).any known &&
    (w.network.view? n).any fun view => known view && view.rows = [0] && (w.outside n).agrees view "q" = agrees

theorem exists_shadowed :
    (∃ w₀ w, shadowed? 5 = some (w₀, w) ∧ found 5 true w₀ w = true ∧ grounded w.network = true) ∧
      ∃ w₀ w, shadowed? 7 = some (w₀, w) ∧ found 7 false w₀ w = true := by
  have hfirst : (shadowed? 5).any (fun p => found 5 true p.1 p.2 && grounded p.2.network) = true := by
    decide +kernel
  have hlast : (shadowed? 7).any (fun p => found 7 false p.1 p.2) = true := by decide +kernel
  simp only [Option.any_eq_true, Prod.exists, Bool.and_eq_true] at hfirst hlast
  exact ⟨hfirst, hlast⟩

/-- What was found. -/
theorem of_found {agrees : Bool} (h : found n agrees w₀ w = true) : ∃ j view₀ view,
    w₀.network.joined? n = some j ∧ w₀.network.view? n = some view₀ ∧ w.network.view? n = some view ∧
      (∀ c ∈ ["a", "p", "q"], ∃ kind, view₀.columnKind c = .ok kind) ∧ (shadower n).At none w₀.network ∧
      (∀ c ∈ ["a", "p", "q"], ∃ kind, view.columnKind c = .ok kind) ∧ view.rows = [0] ∧
      (w.outside n).agrees view "q" = agrees := by
  simp only [found, Bool.and_eq_true, Option.any_eq_true, Option.isSome_iff_exists, decide_eq_true_eq,
    List.all_eq_true] at h
  obtain ⟨⟨⟨⟨j, hj⟩, habsent⟩, view₀, hview₀, hkinds₀⟩, view, hview, ⟨hkinds, hrows⟩, hagrees⟩ := h
  refine ⟨j, view₀, view, hj, hview₀, hview, fun c hc => ?_, .of_isAt habsent, fun c hc => ?_, hrows,
    hagrees⟩
  · exact (hkinds₀ c hc).imp fun _ => Except.eq_ok_of_toOption
  · exact (hkinds c hc).imp fun _ => Except.eq_ok_of_toOption

end Chain

/-- The shadow of the first join follows. -/
theorem shadow_follows_first : ∃ (w₀ w : World (Nat → Shadow)) (view : TableView),
    Chain.shadowed? 5 = some (w₀, w) ∧ w.network.view? 5 = some view ∧ view.rows = [0] ∧
      (w.outside 5).fault = false ∧ (w.outside 5).rows = view.rows.toFinset ∧
      ∀ c ∈ ["a", "p", "q"], (w.outside 5).agrees view c = true := by
  obtain ⟨⟨w₀, w, hw, hfound, hgrounded⟩, -⟩ := Chain.exists_shadowed
  obtain ⟨j, view₀, view, hj, hview₀, hview, hcolumns, habsent, hknown, hrow, -⟩ := Chain.of_found hfound
  obtain ⟨hreach, hempty, hsince⟩ := Chain.reachable_shadowed hw
  have hformed := ((hsince.reachable (.replay hreach (8 + 1) 5 5)).settled quiet_crowd).formed
  obtain ⟨hfault, hrows, hagrees⟩ := shadow_follows (v := Chain.shadower 5) quiet_crowd (attends_crowd 5) rfl hreach
    hj hview₀ hcolumns habsent (congrFun hempty 5) hsince hview
  refine ⟨w₀, w, view, hw, hview, hrow, hfault, hrows, fun c hc => ?_⟩
  exact hagrees c hc (Chain.passes_of_grounded hformed hgrounded hview (hknown c hc))

/-- That of the third does not. -/
theorem not_shadow_follows_third : ∃ (w₀ w : World (Nat → Shadow)) (view : TableView),
    Reachable Chain.shadows w₀ ∧ (Chain.shadower 7).At none w₀.network ∧ w₀.outside 7 = {} ∧
      Since Chain.shadows (Chain.shadower 7)
        (w₀.subscribeWithReplay (dispatch Chain.shadows (8 + 1)) 7 7).1 w ∧
      w.network.view? 7 = some view ∧ ¬ ∀ c ∈ ["a", "p", "q"], (w.outside 7).agrees view c = true := by
  obtain ⟨-, w₀, w, hw, hfound⟩ := Chain.exists_shadowed
  obtain ⟨-, -, view, -, -, hview, -, habsent, -, -, hagrees⟩ := Chain.of_found hfound
  obtain ⟨hreach, hempty, hsince⟩ := Chain.reachable_shadowed hw
  refine ⟨w₀, w, view, hreach, habsent, congrFun hempty 7, hsince, hview, fun hall => ?_⟩
  rw [hall "q" (by simp)] at hagrees
  exact absurd hagrees (by simp)

end LiveTables
