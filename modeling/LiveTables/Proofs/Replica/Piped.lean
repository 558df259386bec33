import LiveTables.Proofs.Replica.Source

/-!
# Replicas behind a pipeline

A pipeline observes a table from the moment it is attached, and sends batches (`Relay`). It sends at once, or
lets changes wait, where a later one may overwrite an earlier one; it may be flushed at any time. What it has
sent, together with what still waits, always makes of an image what all changes that it ever observed make of
it (`Relay.image_observe`, `Relay.image_flush`). So a replica to which all batches were applied in order
follows the table, once nothing waits any more (`follows_piped`).
-/

namespace LiveTables

namespace Pipeline

variable {p : Pipeline}

/-- A batch is sent only if there is something in it. -/
theorem flatten_batch (changes : List Change) :
    (if changes.isEmpty then none else some changes).toList.flatten = changes := by
  cases changes with
  | nil => rfl
  | cons c changes => simp

/-- A pipeline that sends at once. -/
theorem observe_immediate (hmode : p.config.mode = .immediate) (view : TableView) (e : Event) :
    (p.observe view e).1 = p ∧
      (p.observe view e).2.toList.flatten = changesOf view p.config.snapshotAdds e := by
  unfold observe
  simp only [hmode]
  exact ⟨trivial, flatten_batch _⟩

/-- A pipeline that lets changes wait. -/
theorem observe_batched {interval : Nat} (hmode : p.config.mode = .batched interval) (view : TableView)
    (e : Event) :
    p.observe view e = ({ p with
      queue := (changesOf view p.config.snapshotAdds e).foldl ChangeQueue.push p.queue }, none) := by
  unfold observe
  simp only [hmode]

theorem flatten_flush (p : Pipeline) : p.flush.2.toList.flatten = p.queue.changes := flatten_batch _

end Pipeline

/-- A pipeline, and the batches that it has sent, in order. -/
structure Relay where
  pipeline : Pipeline
  sent : List (List Change) := []

namespace Relay

variable {r : Relay}

/-- Takes what an operation of the pipeline answers: a batch is sent, if there is one. -/
def send (r : Relay) (result : Pipeline × Option (List Change)) : Relay :=
  { pipeline := result.1, sent := r.sent ++ result.2.toList }

/-- The pipeline observes an event. -/
def observe (view : TableView) (e : Event) (r : Relay) : Relay := r.send (r.pipeline.observe view e)

/-- The pipeline is flushed. -/
def flush (r : Relay) : Relay := r.send r.pipeline.flush

/-- A new pipeline is attached to a table, and first observes what is there if it is to. -/
def attach (t : Table) (config : PipelineConfig) : Relay :=
  (if config.replayExisting then t.view.replay else []).foldl (fun r e => r.observe t.view e)
    { pipeline := .ofConfig t.name config }

/-- What may happen next: the table is edited, or the pipeline is flushed. -/
inductive Step where
  | edit (e : Table.Edit)
  | flush

/-- The table and the pipeline after a step. -/
def step (s : Table × Relay) : Step → Table × Relay
  | .edit e => Table.feed observe s e
  | .flush => (s.1, s.2.flush)

/-- How a pipeline comes to its end. -/
inductive Ending where
  | flush
  | close

/-- All batches, with the last one. -/
def finish (r : Relay) : Ending → List (List Change)
  | .flush => r.sent ++ r.pipeline.flush.2.toList
  | .close => r.sent ++ r.pipeline.close.toList

/-! ### What is told -/

/-- All that was sent, and then what waits. -/
def told (r : Relay) : List Change := r.sent.flatten ++ r.pipeline.queue.changes

/-- A pipeline that sends at once has nothing that waits, and the positions that the queue remembers are right. -/
structure Regular (r : Relay) : Prop where
  prompt : r.pipeline.config.mode = .immediate → r.pipeline.queue.changes = []
  indexed : r.pipeline.queue.Indexed

theorem regular_ofConfig (table : String) (config : PipelineConfig) :
    Regular { pipeline := .ofConfig table config } :=
  ⟨fun _ => rfl, ChangeQueue.indexed_empty _⟩

theorem regular_flush (r : Relay) : r.flush.Regular := ⟨fun _ => rfl, ChangeQueue.indexed_drain _⟩

theorem flatten_send (r : Relay) (result : Pipeline × Option (List Change)) :
    (r.send result).sent.flatten = r.sent.flatten ++ result.2.toList.flatten := List.flatten_append

/-- To flush changes nothing of what is told. -/
theorem told_flush (r : Relay) : r.flush.told = r.told := by
  unfold told flush
  rw [flatten_send, Pipeline.flatten_flush]
  exact List.append_nil _

/-- In the end everything was sent. -/
theorem flatten_finish (h : r.Regular) (ending : Ending) : (r.finish ending).flatten = r.told := by
  have hflush : (r.finish .flush).flatten = r.told := by
    unfold finish told
    rw [List.flatten_append, Pipeline.flatten_flush]
  cases ending with
  | flush => exact hflush
  | close =>
    rcases hmode : r.pipeline.config.mode with - | interval
    · simp [finish, told, Pipeline.close, hmode, h.prompt hmode]
    · simpa only [finish, Pipeline.close, hmode] using hflush

/-- Changes were observed one after the other. What is told then makes of an image what they make of it. -/
structure Observes (changes : List Change) (r r' : Relay) : Prop where
  config : r'.pipeline.config = r.pipeline.config
  regular : r'.Regular
  image : ∀ (defaults : Cells) (i : Image),
    i.applyAll defaults r'.told = (i.applyAll defaults r.told).applyAll defaults changes
  told : ∀ c ∈ r'.told, c ∈ r.told ∨ c ∈ changes

theorem Observes.refl (h : r.Regular) : r.Observes [] r where
  config := rfl
  regular := h
  image _ _ := rfl
  told _ hc := .inl hc

theorem Observes.trans {r' r'' : Relay} {xs ys : List Change} (h : r.Observes xs r') (h' : r'.Observes ys r'') :
    r.Observes (xs ++ ys) r'' where
  config := h'.config.trans h.config
  regular := h'.regular
  image defaults i := by rw [h'.image, h.image, Image.applyAll_append]
  told c hc := by
    rw [List.mem_append, ← or_assoc]
    exact (h'.told c hc).imp_left (h.told c)

/-- A single event. -/
theorem Regular.observes (h : r.Regular) (view : TableView) (e : Event) :
    r.Observes (Pipeline.changesOf view r.pipeline.config.snapshotAdds e) (r.observe view e) := by
  rcases hmode : r.pipeline.config.mode with - | interval
  · -- what is observed is sent behind all that was told
    obtain ⟨hsame, hbatch⟩ := Pipeline.observe_immediate hmode view e
    have hpipeline : (r.observe view e).pipeline = r.pipeline := hsame
    have htold : (r.observe view e).told = r.told ++ Pipeline.changesOf view r.pipeline.config.snapshotAdds e := by
      rw [told, observe, flatten_send, hbatch, send, hsame, told, h.prompt hmode, List.append_nil, List.append_nil]
    exact
      { config := by rw [hpipeline]
        regular := ⟨fun _ => by rw [hpipeline, h.prompt hmode], by rw [hpipeline]; exact h.indexed⟩
        image := fun defaults i => by rw [htold, Image.applyAll_append]
        told := fun c hc => List.mem_append.1 (htold ▸ hc) }
  · -- what is observed is pushed, and may overwrite what waits
    have hobserve : r.observe view e = r.send ({ r.pipeline with
        queue := (Pipeline.changesOf view r.pipeline.config.snapshotAdds e).foldl ChangeQueue.push
          r.pipeline.queue }, none) := by
      rw [observe, Pipeline.observe_batched hmode]
    rw [hobserve]
    exact
      { config := rfl
        regular := ⟨fun himmediate => absurd (hmode.symm.trans himmediate) (by simp), h.indexed.foldl_push _⟩
        image := fun defaults i => by
          simp only [told, send, Option.toList_none, List.append_nil, Image.applyAll_append,
            ChangeQueue.applyAll_foldl_push defaults _ h.indexed]
        told := fun c hc => by
          simp only [told, send, Option.toList_none, List.append_nil, List.mem_append] at hc ⊢
          rcases hc with hc | hc
          · exact .inl (.inl hc)
          · exact (h.indexed.of_mem_foldl_push hc).imp_left .inr }

/-- Several events. -/
theorem Regular.observesAll (h : r.Regular) (view : TableView) (events : List Event) :
    r.Observes (events.flatMap (Pipeline.changesOf view r.pipeline.config.snapshotAdds))
      (events.foldl (fun r e => r.observe view e) r) := by
  induction events generalizing r with
  | nil => exact .refl h
  | cons e events ih =>
    have hfirst := h.observes view e
    rw [List.flatMap_cons, List.foldl_cons]
    refine hfirst.trans ?_
    have hrest := ih hfirst.regular
    rwa [hfirst.config] at hrest

end Relay

/-! ### Runs -/

section Runs

variable {source target t t' : Table} {config : PipelineConfig} {r r' : Relay} {c : Change} {changes : List Change}

/-- What a pipeline carries from a table to a replica of `target`: what it tells can be written there, and makes
an image that shows the table. -/
structure Relay.Carries (source target t : Table) (r : Relay) : Prop where
  formed : t.WellFormed
  alike : source.Alike t
  snapshot : r.pipeline.config.snapshotAdds = true
  regular : r.Regular
  suits : ∀ c ∈ r.told, c.Suits target.storedKind?
  shows : Image.Shows (fun _ => true) t.view (Image.applyAll target.defaults (fun _ => none) r.told)

section

variable (hsource : source.WellFormed) (htyped : source.WellTyped)
  (hkinds : ∀ c k, (source.columnKind c).toOption = some k → target.storedKind? c = some k)

include hsource htyped hkinds

/-- A pipeline that is attached carries what the table holds. -/
theorem carries_attach (hreplay : config.replayExisting = true) (hsnapshot : config.snapshotAdds = true) :
    Relay.Carries source target source (.attach source config) := by
  have hread := hsource.readable htyped
  have hobserves := (Relay.regular_ofConfig source.name config).observesAll source.view source.view.replay
  have hattach : Relay.attach source config = source.view.replay.foldl (fun r e => r.observe source.view e)
      { pipeline := .ofConfig source.name config } := by rw [Relay.attach, if_pos hreplay]
  rw [← hattach] at hobserves
  refine ⟨hsource, .refl source, ?_, hobserves.regular, fun c hc => ?_, ?_⟩
  · rw [hobserves.config]
    exact hsnapshot
  · rcases hobserves.told c hc with hc | hc
    · cases hc
    · obtain ⟨e, -, hc⟩ := List.mem_flatMap.1 hc
      exact (suits_changesOf hsource hc).mono hkinds
  · -- every row is told twice: when it is added, and when all its columns are updated
    have hreplays : source.view.replay.flatMap (Pipeline.changesOf source.view true) =
        source.view.rows.flatMap fun row => (.add row :: source.view.told row source.view.columnIds) ++
          source.view.told row source.view.columnIds := by
      rw [TableView.replay, List.flatMap_assoc]
      simp only [List.flatMap_cons, List.flatMap_nil, List.append_nil]
      rfl
    have hconfig : (Pipeline.ofConfig source.name config).config.snapshotAdds = true := hsnapshot
    rw [hobserves.image, hconfig, hreplays]
    refine Image.shows_replay source.nodup_rows fun done row i hrow hnot hshows => ?_
    let later : TableView := { source.view with rows := done ++ [row] }
    have hids : later.columnIds.filter (fun _ => true) = source.view.columnIds := List.filter_true _
    have hadd : Image.Shows (fun _ => true) later
        (i.applyAll target.defaults (.add row :: source.view.told row source.view.columnIds)) := by
      rw [← hids]
      exact hshows.add hnot (hread row hrow)
    have hagain : Image.Shows (fun _ => true) later (Image.applyAll target.defaults _
        (later.told row (later.columnIds.filter fun _ => true))) :=
      hadd.tell (hread row hrow) rfl rfl fun _ _ _ => rfl
    rw [hids] at hagain
    rw [Image.applyAll_append]
    exact hagain

/-- It goes on to do so when the table is edited. -/
theorem Relay.Carries.observe {events : List Event} (h : Relay.Carries source target t r)
    (hturns : t.Turns t' events) :
    Relay.Carries source target t' (events.foldl (fun r e => r.observe t'.view e) r) := by
  have hobserves := h.regular.observesAll t'.view events
  have hformed := hturns.wellFormed h.formed
  have halike := h.alike.trans hturns.alike
  refine ⟨hformed, halike, ?_, hobserves.regular, fun c hc => ?_, ?_⟩
  · rw [hobserves.config]
    exact h.snapshot
  · rcases hobserves.told c hc with hc | hc
    · exact h.suits c hc
    · obtain ⟨e, -, hc⟩ := List.mem_flatMap.1 hc
      refine (suits_changesOf hformed hc).mono fun id k hk => hkinds id k ?_
      rwa [halike.columnKind hsource hformed] at hk
  · rw [hobserves.image, h.snapshot, ← filter_isPicked (events.flatMap _)]
    exact h.shows.turns h.formed (h.alike.wellTyped htyped) hturns

theorem Relay.Carries.step (h : Relay.Carries source target t r) (step : Relay.Step) :
    Relay.Carries source target (Relay.step (t, r) step).1 (Relay.step (t, r) step).2 := by
  cases step with
  | edit e => exact h.observe hsource htyped hkinds (Table.turns_perform h.formed e)
  | flush =>
    have htold : r.flush.told = r.told := r.told_flush
    exact
      { formed := h.formed
        alike := h.alike
        snapshot := h.snapshot
        regular := r.regular_flush
        suits := htold ▸ h.suits
        shows := htold ▸ h.shows }

theorem Relay.Carries.steps (h : Relay.Carries source target t r) (steps : List Relay.Step) :
    Relay.Carries source target (steps.foldl Relay.step (t, r)).1 (steps.foldl Relay.step (t, r)).2 := by
  induction steps generalizing t r with
  | nil => exact h
  | cons step steps ih => exact ih (h.step hsource htyped hkinds step)

end

/-- A pipeline is attached to a table, which is then edited, while the pipeline is flushed now and then. After
the end of the pipeline all its batches are applied, without an error, to a new replica on a table that has a
stored column of the same kind for every column of the source; and the replica follows the source. -/
theorem follows_piped (hsource : source.Reachable) (htyped : source.WellTyped) (htarget : target.Reachable)
    (hkinds : ∀ c ∈ source.columnIds, target.storedKind? c = (source.columnKind c).toOption)
    (hreplay : config.replayExisting = true) (hsnapshot : config.snapshotAdds = true)
    (steps : List Relay.Step) (ending : Relay.Ending) (signals : List Signal) :
    let now := steps.foldl Relay.step (source, Relay.attach source config)
    ∃ target' signals' replica, ∃ counts : List Nat,
      Replica.applyBatches .alone (target, signals) {} (now.2.finish ending) =
          ((target', signals'), replica, counts.map .ok) ∧
        replica.Follows now.1 source.columnIds target' := by
  intro now
  have hformed := hsource.wellFormed
  have hkinds' (c : String) (k : Kind) (hk : (source.columnKind c).toOption = some k) :
      target.storedKind? c = some k :=
    (hkinds c (Table.mem_columnIds (Except.eq_ok_of_toOption hk))).trans hk
  have hcarries := (carries_attach hformed htyped hkinds' hreplay hsnapshot).steps hformed htyped hkinds' steps
  have hfinish := Relay.flatten_finish hcarries.regular ending
  obtain ⟨target', signals', replica, counts, happly, hmirrors⟩ :=
    (Replica.mirrors_empty htarget.wellFormed).applyBatches signals (hfinish ▸ hcarries.suits)
  refine ⟨target', signals', replica, counts, happly, ?_⟩
  rw [hfinish] at hmirrors
  refine hmirrors.follows hcarries.shows fun c hc => ?_
  obtain ⟨k, hk⟩ := hformed.exists_columnKind hc
  exact ⟨hcarries.alike.columnIds ▸ hc, rfl, by simp [hkinds c hc, hk, Except.toOption]⟩

end Runs

/-! A table with a column that is computed from another, and a table where both are stored. -/

namespace Doubled

/-- A column that shows whether `a` is one. -/
def flag : ComputedColumn where
  id := "p"
  kind := .int32
  dependencies := ["a"]
  compute vs := if vs = [.int32 1] then .int32 1 else .int32 0

def sourceSchema : Schema where
  name := "s"
  columns := [{ id := "a", kind := .int32 }]
  nodup := by simp
  kind_default := by decide

def targetSchema : Schema where
  name := "t"
  columns := [{ id := "p", kind := .int32 }, { id := "a", kind := .int32 }]
  nodup := by simp
  kind_default := by decide

/-- One row of the source. -/
def source : Table := (Table.perform { Table.ofSchema sourceSchema with computed := ⟨[flag]⟩ } .addRow).1

/-- One row of the target, which no row of the source stands behind. -/
def target : Table := ((Table.ofSchema targetSchema).perform .addRow).1

theorem reachable_source : source.Reachable := by
  have hadd : (Table.ofSchema sourceSchema).addComputed flag =
      ({ Table.ofSchema sourceSchema with computed := ⟨[flag]⟩ }, .ok ()) := rfl
  exact .perform (.addComputed (.ofSchema sourceSchema) hadd) .addRow

theorem reachable_target : target.Reachable := .perform (.ofSchema targetSchema) .addRow

theorem wellTyped_source : source.WellTyped := by
  intro id col hcol vs _
  have hmem : col ∈ [flag] := List.mem_of_find?_eq_some hcol
  obtain rfl := List.mem_singleton.1 hmem
  show (if vs = [.int32 1] then Value.int32 1 else Value.int32 0).kind = .int32
  split_ifs <;> rfl

/-- The cell is written twice before the pipeline is flushed, then the row is deleted and another added. -/
def steps : List Relay.Step :=
  [.edit (.setValue "a" 0 (.int32 1)), .edit (.setValue "a" 0 (.int32 3)), .flush, .edit (.deleteRow 0),
    .edit .addRow]

theorem follows_piped_batched :
    let config : PipelineConfig := { mode := .batched 5, lastValueColumns := ["a"], snapshotAdds := true }
    let now := steps.foldl Relay.step (source, Relay.attach source config)
    (∀ c ∈ source.columnIds, target.storedKind? c = (source.columnKind c).toOption) ∧
      ∃ target' signals' replica, ∃ counts : List Nat,
        Replica.applyBatches .alone (target, []) {} (now.2.finish .close) =
            ((target', signals'), replica, counts.map .ok) ∧
          replica.Follows now.1 source.columnIds target' := by
  have hkinds : ∀ c ∈ source.columnIds, target.storedKind? c = (source.columnKind c).toOption := by decide
  intro config now
  exact ⟨hkinds, follows_piped reachable_source wellTyped_source reachable_target hkinds rfl rfl steps .close []⟩

end Doubled

end LiveTables
