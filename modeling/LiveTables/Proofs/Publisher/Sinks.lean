import LiveTables.Proofs.Publisher.LastValues
import LiveTables.Session.Publishers

/-!
# What sinks receive

A publisher of a session sends the bytes of each batch to its sinks (`Session.Serves.publish`), and a new sink
the bytes that bring it up to date (`Session.Serves.attachSink`). A sink whose receiver stays there has received
all of them, in order (`Session.Received`).
-/

namespace LiveTables

namespace Publisher

variable {p : Publisher}

/-- The sinks of a publisher do not matter to the values that it keeps. -/
theorem foldl_record_sinks (p : Publisher) (sinks : List Nat) (changes : List Change) :
    changes.foldl record { p with sinks } = { changes.foldl record p with sinks } := by
  induction changes generalizing p with
  | nil => rfl
  | cons c changes ih =>
    have hrecord : record { p with sinks } c = { p.record c with sinks } := by
      cases c with
      | add | delete => rfl
      | update row column value =>
        simp only [record]
        split <;> rfl
    rw [List.foldl_cons, List.foldl_cons, hrecord, ih]

/-- The bytes of a batch. -/
def bytesOf (m : FieldMap) (changes : List Change) : List UInt8 := (Encoder.batch { fields := m } changes).pending

/-- The bytes of batches are those of all their calls. -/
theorem flatMap_bytesOf (m : FieldMap) (batches : List (List Change)) : batches.flatMap (bytesOf m) =
    ((batches.flatMap RowChange.ofChanges).foldl Encoder.rowChange { fields := m }).pending := by
  induction batches with
  | nil => rfl
  | cons changes batches ih =>
    rw [List.flatMap_cons, List.flatMap_cons, Encoder.pending_append, ih]
    rfl

/-- To publish is to keep the last values and to send the bytes to the sinks that are open. Nothing is left in the
encoder. -/
theorem publish_eq {m : FieldMap} (h : p.encoder = { fields := m }) (isOpen : Nat → Bool) (changes : List Change) :
    ∃ sinks, p.publish isOpen changes = ({ changes.foldl record p with sinks }, bytesOf m changes) ∧
      sinks.Sublist p.sinks ∧ ∀ k ∈ p.sinks, isOpen k = true → k ∈ sinks := by
  have hsame : changes.foldl record p = { changes.foldl record p with sinks := p.sinks } :=
    foldl_record_sinks p p.sinks changes
  have hsinks : (changes.foldl record p).sinks = p.sinks := by rw [hsame]
  have hencoder : (changes.foldl record p).encoder = { fields := m } := by rw [encoder_foldl_record, h]
  have htake : (Encoder.batch { fields := m } changes).take = ({ fields := m }, bytesOf m changes) :=
    Encoder.take_foldl_rowChange m _
  simp only [publish, hencoder, htake]
  rw [← hencoder]
  split
  · exact ⟨p.sinks, by rw [← hsinks], .refl _, fun k hk _ => hk⟩
  · refine ⟨p.sinks.filter isOpen, by rw [← hsinks], List.filter_sublist, fun k hk hopen => ?_⟩
    exact List.mem_filter.2 ⟨hk, hopen⟩

end Publisher

namespace Session

variable {w : Desk} {n k sink : Nat} {m : FieldMap} {p : Publisher} {sent bytes : List UInt8} {changes : List Change}
  {batches : List (List Change)}

/-- A sink whose receiver is there has received some bytes. -/
def Received (w : Desk) (k : Nat) (sent : List UInt8) : Prop :=
  ∃ s, w.outside.sinks.items[k]? = some s ∧ s.isOpen = true ∧ s.messages.flatten = sent

/-- A sink has received its messages, and nothing else. -/
theorem Received.eq (h : Received w k sent)
    (hs : (w.outside.sinks.items[k]?).map (·.messages.flatten) = some bytes) : sent = bytes := by
  obtain ⟨s, hk, -, rfl⟩ := h
  rw [hk] at hs
  exact Option.some.inj hs

theorem Received.isOpen (h : Received w k sent) : isOpen w k = true := by
  obtain ⟨s, hs, hopen, -⟩ := h
  simp [Session.isOpen, hs, hopen]

/-! ### Sending -/

theorem publishers_send (bytes : List UInt8) (w : Desk) (sink : Nat) :
    (send bytes w sink).outside.publishers = w.outside.publishers := by
  rw [send]
  split
  · rfl
  · split <;> rfl

theorem size_send (bytes : List UInt8) (w : Desk) (sink : Nat) :
    (send bytes w sink).outside.sinks.items.size = w.outside.sinks.items.size := by
  rw [send]
  split
  · rfl
  · split_ifs
    · rfl
    · exact Array.size_setIfInBounds

/-- Bytes are sent to a sink whose receiver is there. -/
theorem send_eq {s : Sink} (hs : w.outside.sinks.items[sink]? = some s) (hopen : s.isOpen = true)
    (hbytes : bytes ≠ []) : send bytes w sink = modify w fun session =>
      { session with sinks := session.sinks.set sink { s with messages := s.messages ++ [bytes] } } := by
  simp only [send, hs]
  rw [if_neg (by simp [hbytes, hopen])]

theorem Received.send (h : Received w k sent) (bytes : List UInt8) (sink : Nat) :
    Received (send bytes w sink) k (if sink = k then sent ++ bytes else sent) := by
  obtain ⟨s, hs, hopen, rfl⟩ := h
  by_cases hk : sink = k
  · subst hk
    rw [if_pos rfl]
    by_cases hempty : bytes = []
    · -- there is nothing to send
      subst hempty
      exact ⟨s, by simp [Session.send, hs], hopen, by simp⟩
    · have hlt : sink < w.outside.sinks.items.size := (Array.getElem?_eq_some_iff.1 hs).1
      refine ⟨{ s with messages := s.messages ++ [bytes] }, ?_, hopen, by simp⟩
      rw [send_eq hs hopen hempty]
      simp [modify, Shelf.set, hlt]
  · rw [if_neg hk]
    refine ⟨s, ?_, hopen, rfl⟩
    rw [← hs, Session.send]
    split
    · rfl
    · split_ifs
      · rfl
      · simp [modify, Shelf.set, hk]

theorem publishers_foldl_send (bytes : List UInt8) (w : Desk) (sinks : List Nat) :
    (sinks.foldl (send bytes) w).outside.publishers = w.outside.publishers := by
  induction sinks generalizing w with
  | nil => rfl
  | cons sink sinks ih => rw [List.foldl_cons, ih, publishers_send]

theorem size_foldl_send (bytes : List UInt8) (w : Desk) (sinks : List Nat) :
    (sinks.foldl (send bytes) w).outside.sinks.items.size = w.outside.sinks.items.size := by
  induction sinks generalizing w with
  | nil => rfl
  | cons sink sinks ih => rw [List.foldl_cons, ih, size_send]

/-- Something is sent to different sinks. -/
theorem Received.foldl_send {sinks : List Nat} (h : Received w k sent) (bytes : List UInt8)
    (hnodup : sinks.Nodup) :
    Received (sinks.foldl (Session.send bytes) w) k (if k ∈ sinks then sent ++ bytes else sent) := by
  induction sinks generalizing w sent with
  | nil => exact h
  | cons sink sinks ih =>
    obtain ⟨hnot, hnodup⟩ := List.nodup_cons.1 hnodup
    have hrest := ih (h.send bytes sink) hnodup
    by_cases hk : sink = k
    · subst hk
      rw [if_pos rfl, if_neg hnot] at hrest
      rwa [if_pos List.mem_cons_self]
    · rw [if_neg hk] at hrest
      simpa [Ne.symm hk] using hrest

/-! ### Serving -/

/-- A publisher with a field map has a number. Nothing waits in its encoder, and its sinks are there, and different. -/
structure Serves (w : Desk) (n : Nat) (m : FieldMap) (p : Publisher) : Prop where
  publisher : w.outside.publishers.items[n]? = some p
  encoder : p.encoder = { fields := m }
  nodup : p.sinks.Nodup
  present : ∀ k ∈ p.sinks, k < w.outside.sinks.items.size

/-- A batch is published. -/
theorem Serves.publish (h : Serves w n m p) (changes : List Change) :
    ∃ sinks, Serves (publish w n changes) n m { changes.foldl Publisher.record p with sinks } ∧
      ∀ k ∈ p.sinks, ∀ sent, Received w k sent → k ∈ sinks ∧
        Received (publish w n changes) k (sent ++ Publisher.bytesOf m changes) := by
  obtain ⟨sinks, hpublish, hsub, hmem⟩ := Publisher.publish_eq h.encoder (isOpen w) changes
  set now := changes.foldl Publisher.record p
  have hlt : n < w.outside.publishers.items.size := (Array.getElem?_eq_some_iff.1 h.publisher).1
  have hencoder : now.encoder = { fields := m } := (p.encoder_foldl_record changes).trans h.encoder
  have hdesk : Session.publish w n changes = sinks.foldl (send (Publisher.bytesOf m changes))
      (modify w fun s => { s with publishers := s.publishers.set n { now with sinks } }) := by
    simp only [Session.publish, h.publisher, hpublish]
  refine ⟨sinks, ⟨?_, hencoder, h.nodup.sublist hsub, fun k hk => ?_⟩, fun k hk sent hreceived => ?_⟩
  · rw [hdesk, publishers_foldl_send]
    simp [modify, Shelf.set, hlt]
  · rw [hdesk, size_foldl_send]
    exact h.present k (hsub.subset hk)
  · have hk' := hmem k hk hreceived.isOpen
    have hsent := Received.foldl_send (w := modify w fun s =>
      { s with publishers := s.publishers.set n { now with sinks } }) hreceived (Publisher.bytesOf m changes)
      (h.nodup.sublist hsub)
    rw [if_pos hk', ← hdesk] at hsent
    exact ⟨hk', hsent⟩

/-- Batches are published one after the other. -/
theorem Serves.publishAll (h : Serves w n m p) (batches : List (List Change)) :
    ∃ sinks, Serves (batches.foldl (Session.publish · n ·) w) n m
        { batches.flatten.foldl Publisher.record p with sinks } ∧
      ∀ k ∈ p.sinks, ∀ sent, Received w k sent → k ∈ sinks ∧
        Received (batches.foldl (Session.publish · n ·) w) k (sent ++ batches.flatMap (Publisher.bytesOf m)) := by
  induction batches generalizing w p with
  | nil => exact ⟨p.sinks, h, fun k hk sent hreceived => ⟨hk, by simpa using hreceived⟩⟩
  | cons changes batches ih =>
    obtain ⟨sinks, hfirst, hmine⟩ := h.publish changes
    obtain ⟨sinks', hserves, hrest⟩ := ih hfirst
    refine ⟨sinks', ?_, fun k hk sent hreceived => ?_⟩
    · rw [Publisher.foldl_record_sinks] at hserves
      rwa [List.flatten_cons, List.foldl_append]
    · obtain ⟨hk, hreceived⟩ := hmine k hk sent hreceived
      obtain ⟨hk, hreceived⟩ := hrest k hk _ hreceived
      rw [List.append_assoc] at hreceived
      exact ⟨hk, hreceived⟩

/-- A new sink is attached. -/
theorem Serves.attachSink (h : Serves w n m p) :
    let w' := (Session.attachSink w n {}).1
    Serves w' n m { p with sinks := p.sinks ++ [w.outside.sinks.items.size] } ∧
      Received w' w.outside.sinks.items.size (p.calls.foldl Encoder.rowChange { fields := m }).pending ∧
      ∀ k sent, Received w k sent → Received w' k sent := by
  intro w'
  set number := w.outside.sinks.items.size with hnumber
  set bytes := (p.calls.foldl Encoder.rowChange { fields := m }).pending
  set pushed : Desk := modify (modify w fun s => { s with sinks := s.sinks.push {} })
    fun s => { s with publishers := s.publishers.set n { p with sinks := p.sinks ++ [number] } } with hpushed
  have hdesk : w' = send bytes pushed number := by
    simp [w', Session.attachSink, modify, h.publisher, Publisher.attach, Publisher.replay_eq h.encoder, hpushed,
      hnumber, bytes]
  have hlt : n < w.outside.publishers.items.size := (Array.getElem?_eq_some_iff.1 h.publisher).1
  have hnew : Received pushed number [] := ⟨{}, by simp [hpushed, modify, Shelf.push, hnumber], rfl, rfl⟩
  have hold (k : Nat) (sent : List UInt8) (hk : Received w k sent) : k ≠ number ∧ Received pushed k sent := by
    obtain ⟨s, hs, hopen, hsent⟩ := hk
    have hlt : k < number := (Array.getElem?_eq_some_iff.1 hs).1
    refine ⟨Nat.ne_of_lt hlt, s, ?_, hopen, hsent⟩
    rw [← hs]
    simp [hpushed, modify, Shelf.push, Array.getElem?_push, Nat.ne_of_lt hlt, ← hnumber]
  rw [hdesk]
  refine ⟨⟨?_, h.encoder, ?_, fun k hk => ?_⟩, ?_, fun k sent hk => ?_⟩
  · rw [publishers_send]
    simp [hpushed, modify, Shelf.set, hlt]
  · have hnot : number ∉ p.sinks := fun hmem => Nat.lt_irrefl _ (h.present number hmem)
    exact List.nodup_append'.2 ⟨h.nodup, List.nodup_singleton _, List.disjoint_singleton.2 hnot⟩
  · rw [size_send]
    have hsize : pushed.outside.sinks.items.size = number + 1 := by simp [hpushed, modify, Shelf.push, hnumber]
    rw [hsize]
    rcases List.mem_append.1 hk with hk | hk
    · exact Nat.lt_succ_of_lt (h.present k hk)
    · rw [List.mem_singleton.1 hk]
      exact Nat.lt_succ_self _
  · simpa using hnew.send bytes number
  · obtain ⟨hne, hkept⟩ := hold k sent hk
    simpa [Ne.symm hne] using hkept.send bytes number

/-- What two sinks have received, one that was attached before all batches, and one that was attached after some of
them. -/
theorem received_of_attachSink (hw : w.outside.publishers.items[n]? = some (.ofFields m))
    (before after : List (List Change)) :
    let p := before.flatten.foldl Publisher.record (.ofFields m)
    let w₁ := before.foldl (Session.publish · n ·) (attachSink w n {}).1
    let w₂ := after.foldl (Session.publish · n ·) (attachSink w₁ n {}).1
    Received w₂ w.outside.sinks.items.size
        (((before ++ after).flatMap RowChange.ofChanges).foldl Encoder.rowChange { fields := m }).pending ∧
      Received w₂ w₁.outside.sinks.items.size
        ((p.calls ++ after.flatMap RowChange.ofChanges).foldl Encoder.rowChange { fields := m }).pending := by
  intro p w₁ w₂
  have hserves : Serves w n m (.ofFields m) := ⟨hw, rfl, List.nodup_nil, by simp [Publisher.ofFields]⟩
  -- the early sink is attached, and the first batches are published
  obtain ⟨hserves, hearly, -⟩ := hserves.attachSink
  obtain ⟨sinks, hserves, hmine⟩ := hserves.publishAll before
  obtain ⟨hmem, hearly⟩ := hmine _ (List.mem_append_right _ List.mem_cons_self) _ hearly
  rw [Publisher.foldl_record_sinks] at hserves
  -- the late sink is attached, and the other batches are published
  obtain ⟨hserves, hlate, hkeep⟩ := hserves.attachSink
  obtain ⟨sinks', -, hmine'⟩ := hserves.publishAll after
  obtain ⟨-, hearly⟩ := hmine' _ (List.mem_append_left _ hmem) _ (hkeep _ _ hearly)
  obtain ⟨-, hlate⟩ := hmine' _ (List.mem_append_right _ List.mem_cons_self) _ hlate
  rw [Publisher.flatMap_bytesOf] at hearly hlate
  constructor
  · have hnothing : ((Publisher.ofFields m).calls.foldl Encoder.rowChange { fields := m }).pending = [] := rfl
    rw [Publisher.flatMap_bytesOf, hnothing, List.nil_append] at hearly
    rw [List.flatMap_append, Encoder.pending_append]
    exact hearly
  · rw [Encoder.pending_append]
    exact hlate

end Session

end LiveTables
