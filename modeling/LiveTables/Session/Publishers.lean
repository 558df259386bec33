import LiveTables.Session.State

/-!
# Commands on publishers and sinks

A publisher knows its sinks by their numbers; the messages of a sink wait here until somebody takes
them. A sink whose receiver hung up takes no more.
-/

namespace LiveTables.Session

/-- Whether the receiver of a sink is still there. -/
def isOpen (w : Desk) (sink : Nat) : Bool := w.outside.sinks.items[sink]?.any (·.isOpen)

/-- Sends a message to a sink. -/
def send (bytes : List UInt8) (w : Desk) (sink : Nat) : Desk :=
  match w.outside.sinks.items[sink]? with
  | none => w
  | some s =>
    if bytes.isEmpty || !s.isOpen then w
    else
      let sent := { s with messages := s.messages ++ [bytes] }
      modify w fun session => { session with sinks := session.sinks.set sink sent }

/-- Publishes a batch to the sinks of a publisher. -/
def publish (w : Desk) (n : Nat) (changes : List Change) : Desk :=
  match w.outside.publishers.items[n]? with
  | none => w
  | some p =>
    let (p, bytes) := p.publish (isOpen w) changes
    let w := modify w fun s => { s with publishers := s.publishers.set n p }
    p.sinks.foldl (send bytes) w

/-- Brings a new sink up to date and adds it to a publisher; answers whether it was taken in. -/
def attachSink (w : Desk) (n : Nat) (sink : Sink) : Desk × Bool :=
  let number := w.outside.sinks.items.size
  let w := modify w fun s => { s with sinks := s.sinks.push sink }
  match w.outside.publishers.items[n]? with
  | none => (w, false)
  | some p =>
    let (p, bytes?) := p.attach sink.isOpen number
    let w := modify w fun s => { s with publishers := s.publishers.set n p }
    match bytes? with
    | none => (w, false)
    | some bytes => (send bytes w number, true)

/-- The receiver of a sink hangs up. -/
def closeSink (w : Desk) (name : String) : Desk :=
  match w.outside.sinks.find? name with
  | none => w
  | some (n, _) =>
    modify w fun s => { s with sinks := (s.sinks.set n { messages := [], isOpen := false }).unbind name }

/-- Takes the messages of a sink. -/
def takeMessages (w : Desk) (name : String) : Option (Desk × List (List UInt8)) := do
  let (n, sink) ← w.outside.sinks.find? name
  return (modify w fun s => { s with sinks := s.sinks.set n { sink with messages := [] } }, sink.messages)

/-- Runs a command on publishers. -/
def runPublisher (w : Desk) : PublisherCommand → Outcome
  | .create name map =>
    match w.outside.fieldMaps.lookup map with
    | none => (w, .unknown map)
    | some fields => (modify w fun s => { s with publishers := s.publishers.put name (.ofFields fields) }, .nothing)
  | .publish name changes =>
    match w.outside.publishers.find? name with
    | none => (w, .unknown name)
    | some (n, _) =>
      let w := publish w n changes
      match w.outside.publishers.items[n]? with
      | none => (w, .unknown name)
      | some p => (w, .counts [p.rows.length, p.sinks.length])
  | .info name =>
    match w.outside.publishers.find? name with
    | none => (w, .unknown name)
    | some (_, p) => (w, .record [("rows", .count p.rows.length), ("sinks", .count p.sinks.length),
        ("debug", .text p.inspect)])
  | .sink name sink =>
    match w.outside.publishers.find? name with
    | none => (w, .unknown name)
    | some (n, _) =>
      let number := w.outside.sinks.items.size
      let w := closeSink (attachSink w n {}).1 sink
      (modify w fun s => { s with sinks := s.sinks.bind sink number }, .nothing)
  | .deadSink name =>
    match w.outside.publishers.find? name with
    | none => (w, .unknown name)
    | some (n, _) =>
      let (w, taken) := attachSink w n { isOpen := false }
      (w, .flag taken)
  | .receive sink =>
    match takeMessages w sink with
    | none => (w, .unknown sink)
    | some (w, messages) => (w, .list (messages.map .bytes))
  | .dropSink sink => (closeSink w sink, .nothing)

end LiveTables.Session
