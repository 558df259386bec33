import LiveTables.Proofs.Network.Dispatch

/-!
# Settled networks

A network is settled if nothing waits and every joined table has linked what its sources hold (`Settled`). Then
a joined table whose key passes has linked each source row under the key that the row has now
(`Settled.keyClass?_eq`). A write to a stored table, with all that is announced of it, leaves a settled network
behind (`settled_commit`).
-/

namespace LiveTables

namespace Network

open Notice

variable {net net' : Network} {n n₀ k K : Nat} {j : JoinedTable} {t t' : Table} {s : Side} {c : String}
  {signals : List Signal}

/-- Nothing waits. -/
def silent : Queues := fun _ _ => []

/-- A network between operations. -/
structure Settled (net : Network) : Prop where
  formed : net.Formed
  port : ∀ K j, net.joined? K = some j → ∀ s, Port net silent K j s

theorem Settled.wave (h : net.Settled) (n₀ : Nat) : Wave net n₀ silent :=
  ⟨h.formed, h.port, fun _ _ _ _ hne => absurd rfl hne⟩

theorem Wave.settled (h : Wave net n₀ silent) : net.Settled := ⟨h.formed, h.port⟩

theorem Quietly.settled (h : Quietly net net') (hsettled : net.Settled) : net'.Settled :=
  (h.wave (hsettled.wave 0)).settled

/-- A network without tables. -/
theorem settled_empty : Settled {} := by
  have hjoined (K : Nat) : joined? {} K = none := rfl
  have htable (K : Nat) : table? {} K = none := rfl
  refine ⟨⟨Orderly.empty.ordered, Orderly.empty.wired, ?_, ?_, ?_⟩, ?_⟩
  · exact fun id t ht => absurd ((htable id).symm.trans ht) (by simp)
  · exact fun id j hj => absurd ((hjoined id).symm.trans hj) (by simp)
  · exact fun id j hj => absurd ((hjoined id).symm.trans hj) (by simp)
  · exact fun K j hj => absurd ((hjoined K).symm.trans hj) (by simp)

/-! ## What a settled network shows -/

/-- No cell is due, and all rows are legible. -/
theorem Settled.calm (h : net.Settled) (hn : net.content? n ≠ none) :
    (∀ k c, ¬ Due net silent n k c) ∧ ∀ k ∈ (net.shown n).rows, Legible net silent n k :=
  (still_of_empty h.formed.ordered hn fun _ _ => rfl).calm h.formed h.port

/-- No row of a class is shown where no row is. -/
theorem Formed.actual_of_dead (h : net.Formed) (hk : k ∉ (net.shown n).rows) : net.actual n k c = none := by
  by_cases hn : net.content? n = none
  · rw [actual, shown, see_of_none hn]
    rfl
  · rcases exists_of_content?_ne_none hn with ⟨t, ht⟩ | ⟨j, hj⟩
    · rw [rows_stored ht] at hk
      rw [actual_stored ht, Table.class?_get_of_dead hk]
    · rw [h.ordered.rows_joined hj] at hk
      rw [actual, shown, h.ordered.see_joined hj, JoinedTable.class?_of_not_mem hk]

/-- A passing column is presumed as it is. -/
theorem Settled.presumed_eq (h : net.Settled) (hn : net.content? n ≠ none) (hpasses : Passes net n c) (k : Nat) :
    net.presumed n k c = net.actual n k c := by
  obtain ⟨hdue, hlegible⟩ := h.calm hn
  by_cases hk : k ∈ (net.shown n).rows
  · exact ((((hlegible k hk).sound c hpasses).resolve_right (hdue k c))).symm
  · rw [h.formed.presumed_of_dead hk, h.formed.actual_of_dead hk]

/-- The rows of a source are linked. -/
theorem Settled.keyClass?_ne_none_iff (h : net.Settled) (hj : net.joined? K = some j) :
    j.engine.keyClass? s k ≠ none ↔ k ∈ (net.shown (j.source s)).rows := by
  have hport := h.port K j hj s
  constructor
  · exact hport.live_of_silent rfl
  · intro hlive hfree
    exact not_adds_nil (hport.come k hlive hfree)

/-- Under a key that passes they are linked as they are. -/
theorem Settled.keyClass?_eq (h : net.Settled) (hj : net.joined? K = some j)
    (hpasses : Passes net (j.source s) (j.key s)) (k : Nat) :
    j.engine.keyClass? s k = net.actual (j.source s) k (j.key s) := by
  have hsource := (h.formed.ordered.source hj s).2
  rcases (h.port K j hj s).known hpasses k with hknown | hknown | hknown | hknown
  · rw [hknown, h.presumed_eq hsource hpasses]
  · exact absurd hknown not_adds_nil
  · exact absurd hknown not_tells_nil
  · exact absurd hknown ((h.calm hsource).1 k _)

/-! ## Writes -/

/-- A stored table with other cells shows the same columns. -/
theorem columnKind_writes (hvalid : t.Valid) (hwrites : t.Writes t' signals) : t'.columnKind c = .ok kind ↔
    t.columnKind c = .ok kind := by
  rw [hwrites.valid.wellFormed.columnKind_eq_ok, hvalid.wellFormed.columnKind_eq_ok, hwrites.kinds, hwrites.computed]

theorem table?_setContent (ht : net.table? n = some t) (t' : Table) :
    (net.setContent n (.stored t')).table? n = some t' :=
  table?_eq_some_iff.2 (content?_setContent_self (by simp [content?_of_table? ht]))

/-- The columns of a stored table are plain. -/
theorem plain_stored_iff (ht : net.table? n = some t) : Plain net n c ↔ t.storedKind? c ≠ none := by
  constructor
  · intro hplain
    cases hplain with
    | stored ht₁ hc =>
      obtain rfl := Option.some.inj (ht₁.symm.trans ht)
      exact hc
    | source hj => exact absurd ((joined?_eq_none_of_table? ht).symm.trans hj) (by simp)
  · exact fun hc => .stored ht hc

/-- A written table stands in a formed network. -/
theorem Settled.formed_write (h : net.Settled) (ht : net.table? n = some t) (hwrites : t.Writes t' signals) :
    (net.setContent n (.stored t')).Formed := by
  refine h.formed.setTable ht hwrites.valid ?_ fun c kind hkind => ?_
  · rw [hwrites.columnIds]
  · exact (columnKind_writes (h.formed.tables n t ht) hwrites).2 hkind

/-- The events of a write wait at all joined tables right above. -/
theorem Settled.advance (h : net.Settled) (ht : net.table? n = some t) (hwrites : t.Writes t' signals) :
    Advance net silent (net.setContent n (.stored t'))
      (speak (net.setContent n (.stored t')) silent n ((Table.eventsOf signals).map fresh)) n
      ((Table.eventsOf signals).map fresh) := by
  have ht' := table?_setContent ht t'
  have hformed := h.formed_write ht hwrites
  exact
    { formed := hformed
      other := fun id hid => content?_setContent_of_ne hid
      sort := fun _ _ => ⟨t, ht⟩
      sources := fun s => by rw [sourceOf?, joined?_eq_none_of_table? ht', sourceOf?, joined?_eq_none_of_table? ht]
      above := fun _ _ _ _ _ => rfl
      queue := fun K hK s => by rw [speak, sourceOf?_congr (content?_setContent_of_ne hK)]
      publishes := by
        rw [rows_stored ht, rows_stored ht']
        exact hwrites.publishes
      tells := fun c _ k => by
        rw [rows_stored ht]
        refine (hwrites.tells k c).imp_right (Or.imp_right fun hsame => ⟨?_, fun hdue => ?_⟩)
        · rw [presumed_stored ht', presumed_stored ht, actual_stored ht', actual_stored ht, hsame]
        · exact absurd hdue (not_due_of_table? ht)
      plain := fun c hc => by
        rw [plain_stored_iff ht', hwrites.kinds] at hc
        exact (plain_stored_iff ht).2 hc
      passes := fun c _ _ => .stored ht
      legible := fun x hx haction => hformed.legible_stored ht' (hwrites.publishes.alive x hx haction)
      settles := by
        have hplain : Plain (net.setContent n (.stored t')) n = fun c => t.storedKind? c ≠ none := by
          funext c
          rw [eq_iff_iff, plain_stored_iff ht', hwrites.kinds]
        rw [hplain]
        exact hwrites.settles
      own := fun j hj => absurd ((joined?_eq_none_of_table? ht').symm.trans hj) (by simp) }

end Network

open Network Notice World

variable {ω : Type} {o : Outside ω} {w : World ω} {net₀ : Network} {A : Mail} {n n₀ depth : Nat} {t t' : Table}
  {signals : List Signal}

/-- The notices of a signal. -/
def Signal.told : Signal → List Notice
  | .event e => [fresh e]
  | .cell _ _ => []

theorem flatMap_told (signals : List Signal) :
    signals.flatMap Signal.told = (Table.eventsOf signals).map fresh := by
  induction signals with
  | nil => rfl
  | cons signal signals ih =>
    rw [List.flatMap_cons, ih]
    cases signal <;> rfl

namespace Monitor

variable {M : Monitor o}

/-- A stored table announces its signals in turn. -/
theorem speaking_signals (ho : o.Quiet) (hready : net₀.Ready silent A n depth)
    (h : M.Speaking net₀ n₀ silent A n w (signals.flatMap Signal.told)) :
    M.Speaking net₀ n₀ silent A n
      (signals.foldl (fun w signal => (dispatch o depth).announce w n signal) w) [] := by
  refine speaking_foldl Signal.told (fun w signal E h => ?_) signals (by rwa [List.append_nil])
  cases signal with
  | cell column row =>
    exact ⟨h.network.quietly (quietly_announce_cell ho depth w n column row),
      M.holds_announce_cell ho depth column row h.network.wave h.holds⟩
  | event e => exact M.announces_dispatch ho depth n net₀ n₀ silent A (fresh e) E w hready h

/-- A write settles and keeps what a monitor keeps track of, if announcements may nest as deep as tables are
joined upon each other. -/
theorem commit (M : Monitor o) (ho : o.Quiet) (h : w.network.Settled) (ht : w.network.table? n = some t)
    (hwrites : t.Writes t' signals) (hpositive : 0 < depth)
    (hdepth : ∀ K, w.network.joined? K ≠ none → K < n + depth) (hholds : M.Holds silent .empty w) :
    (w.commit (dispatch o depth) n t' signals).network.Settled ∧
      M.Holds silent .empty (w.commit (dispatch o depth) n t' signals) := by
  -- the table is held in the meantime
  have hhold : w.network.Quietly (w.network.hold n) := .hold .refl
  have hsettled := hhold.settled h
  have ht₀ : (w.network.hold n).table? n = some t := ht
  have hnone := joined?_eq_none_of_table? (table?_setContent ht₀ t')
  have hadvance := hsettled.advance ht₀ hwrites
  set net₀ := (w.network.hold n).setContent n (.stored t') with hnet₀
  have hwave := (hsettled.wave n).advance hadvance (fun _ => .refl) fun j s hj =>
    absurd (hnone.symm.trans hj) (by simp)
  have hready : net₀.Ready silent .empty n depth := by
    refine ⟨hwave.formed, fun _ _ _ _ _ => rfl, fun _ _ _ => rfl, hpositive, fun K hK => hdepth K fun hold => hK ?_⟩
    by_cases heq : K = n
    · exact heq ▸ hnone
    · exact (joined?_congr (content?_setContent_of_ne heq)).trans hold
  have hwritten := M.write (w := w.modifyNetwork (·.hold n)) (hsettled.wave n) ht₀ hadvance
    (M.hold (h.wave n) hholds) fun _ _ _ => rfl
  have hspeaking : M.Speaking net₀ n silent .empty n ((w.modifyNetwork (·.hold n)).modifyNetwork
      (·.setContent n (.stored t'))) (signals.flatMap Signal.told) := by
    rw [flatMap_told]
    exact ⟨⟨.refl _ _, hwave⟩, hwritten⟩
  have hsaid := speaking_signals ho hready hspeaking
  have hwave' := hsaid.network.wave
  have hholds' := hsaid.holds
  rw [speak_nil hready.sources_silent] at hwave' hholds'
  rw [Mail.speak_nil fun _ => rfl] at hholds'
  exact ⟨Quietly.settled (.release .refl) hwave'.settled, M.release hwave' hholds'⟩

end Monitor

/-- A write settles. -/
theorem settled_commit (ho : o.Quiet) (h : w.network.Settled) (ht : w.network.table? n = some t)
    (hwrites : t.Writes t' signals) (hpositive : 0 < depth)
    (hdepth : ∀ K, w.network.joined? K ≠ none → K < n + depth) :
    (w.commit (dispatch o depth) n t' signals).network.Settled :=
  ((Monitor.idle o).commit ho h ht hwrites hpositive hdepth trivial).1

end LiveTables
