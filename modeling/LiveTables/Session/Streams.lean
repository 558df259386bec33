import LiveTables.Session.Publishers

/-!
# Commands on the two ends of a stream

An encoder gathers bytes. An applier takes bytes from anywhere: written out, from an encoder, or from
the messages of a sink; and it takes them as a whole stream or through a decoder.
-/

namespace LiveTables.Session

/-- Does something with the encoder of a name, and adds to the report the number of bytes that wait
afterwards. -/
def withEncoder (w : Desk) (name : String) (act : Encoder → Encoder × Report) : Outcome :=
  match w.outside.encoders.find? name with
  | none => (w, .unknown name)
  | some (n, e) =>
    let (e, report) := act e
    (modify w fun s => { s with encoders := s.encoders.set n e },
      .record [("r", report), ("len", .count e.pending.length)])

/-- Takes the bytes of an encoder. -/
def takeEncoded (w : Desk) (name : String) : Option (Desk × List UInt8) := do
  let (n, e) ← w.outside.encoders.find? name
  let (e, bytes) := e.take
  return (modify w fun s => { s with encoders := s.encoders.set n e }, bytes)

/-- Takes the bytes of a source. -/
def takeBytes (w : Desk) : ByteSource → Option (Desk × List UInt8)
  | .bytes bytes => some (w, bytes)
  | .encoder name => takeEncoded w name
  | .sink name => (takeMessages w name).map fun (w, messages) => (w, messages.flatten)

/-- What became of a record. -/
def reportApplied (a : Applied) : Report :=
  .list [.count? a.localRow?, .count a.applied, .count a.skipped]

/-- Applies records to the table of an applier. -/
def applyRecords (d : Means) (w : Desk) (name : String) (records : List Record) :
    Desk × List Report :=
  match w.outside.appliers.find? name with
  | none => (w, [])
  | some (n, node, a) =>
    let (w, a, results) := a.applyAll (host d node) w records
    (modify w fun s => { s with appliers := s.appliers.set n (node, a) },
      results.map (.ofExcept reportApplied))

/-- Applies bytes that are a whole stream. -/
def applyWhole (d : Means) (w : Desk) (name : String) (bytes : List UInt8) : Outcome :=
  match Record.ofBytes bytes with
  | .error e => (w, .wireError e)
  | .ok records =>
    let (w, results) := applyRecords d w name records
    (w, .list results)

/-- Applies what a decoder makes of bytes that arrived. If the stream breaks, nothing is applied. -/
def applyThrough (d : Means) (w : Desk) (name decoderName : String) (bytes : List UInt8) : Outcome :=
  match w.outside.decoders.lookup decoderName with
  | none => (w, .unknown decoderName)
  | some decoder =>
    let (decoder, records, error?) := (decoder.feed bytes).drain
    let w := modify w fun s => { s with decoders := s.decoders.put decoderName decoder }
    match error? with
    | some e => (w, .wireError e)
    | none =>
      let (w, results) := applyRecords d w name records
      (w, .list (.record [("buffered", .count decoder.buffer.length),
        ("dropped", .count decoder.dropped)] :: results))

/-- Reports of an encoding that reads a table. -/
def encoded (r : Encoder × Except TableError Unit) : Encoder × Report :=
  (r.1, .ofExcept (fun _ => .done) r.2)

/-- Runs a command on the ends of a stream. -/
def runCodec (d : Means) (here : Nat) (w : Desk) : CodecCommand → Outcome
  | .fields name source =>
    match FieldMap.ofSource source with
    | .ok map => (modify w fun s => { s with fieldMaps := s.fieldMaps.put name map }, .done)
    | .error e => (w, .fieldMapError e)
  | .encoder name map =>
    match w.outside.fieldMaps.lookup map with
    | none => (w, .unknown map)
    | some fields => (modify w fun s => { s with encoders := s.encoders.put name { fields } }, .nothing)
  | .add name row => withEncoder w name fun e => (e.add (row.resolve here), .nothing)
  | .delete name row => withEncoder w name fun e => (e.delete (row.resolve here), .nothing)
  | .update name row values => withEncoder w name fun e =>
    let (e, n) := e.update (row.resolve here) values
    (e, .count n)
  | .event name t action row columns =>
    match view? w t with
    | none => (w, .unknown t)
    | some view => withEncoder w name fun e => encoded (e.event view ⟨action, row.resolve here, columns⟩)
  | .replay name t =>
    match view? w t with
    | none => (w, .unknown t)
    | some view => withEncoder w name fun e => encoded (e.replay view)
  | .batch name changes => withEncoder w name fun e => (e.batch changes, .nothing)
  | .info name => withEncoder w name fun e =>
    (e, .record [("fields", .list (e.fields.entries.map fun (f, c) => .list [.count f, .text c])),
      ("empty", .flag e.pending.isEmpty), ("debug", .text e.inspect)])
  | .take name =>
    match takeEncoded w name with
    | none => (w, .unknown name)
    | some (w, bytes) => (w, .bytes bytes)
  | .decoder name => (modify w fun s => { s with decoders := s.decoders.put name {} }, .nothing)
  | .applier name t map =>
    match stored? w t, w.outside.fieldMaps.lookup map with
    | some (node, _), some fields =>
      let old := (w.outside.appliers.find? name).map (·.2.1)
      let w := modify (hold w node) fun s => { s with appliers := s.appliers.put name (node, { fields }) }
      (releaseAny w old, .nothing)
    | _, _ => (w, .unknown t)
  | .apply name source decoder? =>
    match takeBytes w source with
    | none => (w, .unknown name)
    | some (w, bytes) =>
      match decoder? with
      | none => applyWhole d w name bytes
      | some decoder => applyThrough d w name decoder bytes
  | .applierInfo name rows =>
    match w.outside.appliers.find? name with
    | none => (w, .unknown name)
    | some (_, node, a) =>
      let table := (host d node).table w
      (w, .record [("local", .list (rows.map fun row => .count? (a.replica.localRow? row))),
        ("rows", .counts table.rows), ("debug", .text (a.inspect table))])

end LiveTables.Session
