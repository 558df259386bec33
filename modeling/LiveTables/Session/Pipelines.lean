import LiveTables.Session.Publishers
import LiveTables.Session.Replicas

/-!
# Commands on pipelines

A pipeline is an observer of its table, which it holds. Its batches go to an inbox or to a publisher.
There are two sorts of inboxes, those of pipelines that keep their batches and those behind channels, and
both outlive their pipelines. Batches are taken by the name of a pipeline.
-/

namespace LiveTables.Session

/-- Sends a batch of a pipeline. -/
def sendBatch (w : Desk) (outlet : Outlet) (batch? : Option (List Change)) : Desk :=
  match batch?, outlet with
  | none, _ => w
  | some batch, .publisher n => publish w n batch
  | some batch, .inbox n =>
    match w.outside.inboxes[n]? with
    | none => w
    | some inbox =>
      if inbox.isOpen then
        let inbox := { inbox with batches := inbox.batches ++ [batch] }
        modify w fun s => { s with inboxes := s.inboxes.setIfInBounds n inbox }
      else w

/-- A pipeline observes an event of its table. -/
def observePipeline (w : Desk) (n : Nat) (e : Event) : Desk :=
  match w.outside.pipelines.items[n]? with
  | none => w
  | some slot =>
    match w.network.view? slot.node with
    | none => w
    | some view =>
      let (pipeline, batch?) := slot.pipeline.observe view e
      sendBatch (modify w fun s => { s with pipelines := s.pipelines.set n { slot with pipeline } })
        slot.outlet batch?

/-- Flushes a pipeline; answers the number of changes that waited. -/
def flush (w : Desk) (n : Nat) (slot : PipelineSlot) : Desk × Nat :=
  let (pipeline, batch?) := slot.pipeline.flush
  (sendBatch (modify w fun s => { s with pipelines := s.pipelines.set n { slot with pipeline } })
    slot.outlet batch?, slot.pipeline.queue.size)

/-- Gives up a pipeline: it stops to observe, sends what waits, and lets its table go. -/
def closePipeline (w : Desk) (n : Nat) : Desk :=
  match w.outside.pipelines.items[n]? with
  | none => w
  | some slot =>
    let w := sendBatch (unsubscribeAny w slot.registration?) slot.outlet slot.pipeline.close
    release w slot.node

/-- Attaches a pipeline to a table. It observes the rows that exist first, if it is to. -/
def attachPipeline (d : Means) (w : Desk) (node : Nat) (view : TableView) (config : PipelineConfig)
    (outlet : Outlet) : Desk × Nat :=
  let n := w.outside.pipelines.items.size
  let observer := w.outside.watchers.size
  let slot : PipelineSlot := { pipeline := .ofConfig view.name config, node, outlet }
  let w := modify (hold w node) fun s =>
    { s with pipelines := s.pipelines.push slot, watchers := s.watchers.push (.pipeline n) }
  let (w, r) := if config.replayExisting then w.subscribeWithReplay d node observer
    else w.subscribe node observer
  match w.outside.pipelines.items[n]? with
  | none => (w, n)
  | some slot =>
    (modify w fun s => { s with pipelines := s.pipelines.set n { slot with registration? := some r } }, n)

/-- The outlet for a target of the pipeline of a name: the publisher, or a new inbox. The inbox gets the
name among those of its sort only; one of the other sort that had the name keeps it. -/
def outletOf (w : Desk) (name : String) : Target → Option (Desk × Outlet)
  | .publisher publisher =>
    (w.outside.publishers.find? publisher).map fun (n, _) => (w, .publisher n)
  | .inline =>
    let n := w.outside.inboxes.size
    some (modify w fun s =>
      { s with inboxes := s.inboxes.push {}, collectors := s.collectors.put name n }, .inbox n)
  | .channel =>
    let n := w.outside.inboxes.size
    some (modify w fun s =>
      { s with inboxes := s.inboxes.push {}, channels := s.channels.put name n }, .inbox n)

/-- Takes the batches that wait under the name of a pipeline: those that it keeps itself if it ever
kept any, otherwise those in its channel. -/
def takeBatches (w : Desk) (name : String) : Desk × List (List Change) :=
  let found := do
    let n ← w.outside.collectors.lookup name <|> w.outside.channels.lookup name
    return (n, ← w.outside.inboxes[n]?)
  match found with
  | none => (w, [])
  | some (n, inbox) =>
    (modify w fun s => { s with inboxes := s.inboxes.setIfInBounds n { inbox with batches := [] } },
      inbox.batches)

/-- Runs a command on pipelines. -/
def runPipeline (d : Means) (w : Desk) : PipelineCommand → Outcome
  | .create t name config target =>
    match node? w t, view? w t, outletOf w name target with
    | some node, some view, some (w, outlet) =>
      let (w, n) := attachPipeline d w node view config outlet
      let old := w.outside.pipelines.names.lookup name
      let w := modify w fun s => { s with pipelines := s.pipelines.bind name n }
      let w := match old with
        | some old => closePipeline w old
        | none => w
      match w.outside.pipelines.items[n]? with
      | none => (w, .unknown name)
      | some slot => (w, .record [("mode", .text (Pipeline.inspectMode config.mode)),
          ("source", .text view.name), ("debug", .text slot.pipeline.inspect)])
    | _, _, _ => (w, .unknown t)
  | .flush name =>
    match w.outside.pipelines.find? name with
    | none => (w, .unknown name)
    | some (n, slot) =>
      let (w, count) := flush w n slot
      (w, .count count)
  | .pending name =>
    match w.outside.pipelines.find? name with
    | none => (w, .unknown name)
    | some (_, slot) => (w, .count slot.pipeline.queue.size)
  | .drop name =>
    match w.outside.pipelines.find? name with
    | none => (w, .nothing)
    | some (n, _) =>
      (closePipeline (modify w fun s => { s with pipelines := s.pipelines.unbind name }) n, .nothing)
  | .receive name replica? =>
    let (w, batches) := takeBatches w name
    match replica? with
    | none => (w, .list (batches.map fun batch => .list (batch.map .change)))
    | some replica =>
      let (w, reports) := batches.foldl (fun (w, reports) batch =>
        let (w, report) := runReplica d 0 w (.batch replica batch)
        (w, reports ++ [report])) (w, ([] : List Report))
      (w, .list reports)
  | .hangUp name =>
    match w.outside.channels.lookup name with
    | none => (w, .nothing)
    | some n =>
      (modify w fun s =>
        { s with inboxes := s.inboxes.setIfInBounds n { batches := [], isOpen := false } }, .nothing)

end LiveTables.Session
