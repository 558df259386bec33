/-!
# Subjects

A subject keeps the registrations of those who listen to one stream, in the order in which they
subscribed. Each registration has an identifier, counted up from one and never given again.

A delivery reaches the registrations that exist when it starts, one after the other. A listener may
subscribe, unsubscribe and start deliveries of its own; who is gone when the turn comes is left out,
and who came later is not part of the delivery (`Subject.deliver`).
-/

namespace LiveTables

/-- The registrations of one stream, oldest first, each with its listener. -/
structure Subject (ι : Type) where
  nextId : Nat := 1
  entries : List (Nat × ι) := []

namespace Subject

variable {ι σ : Type}

instance : EmptyCollection (Subject ι) := ⟨{ nextId := 1, entries := [] }⟩

instance : Inhabited (Subject ι) := ⟨∅⟩

/-- Registers a listener; answers the identifier of the registration. -/
def subscribe (s : Subject ι) (listener : ι) : Subject ι × Nat :=
  ({ nextId := s.nextId + 1, entries := s.entries ++ [(s.nextId, listener)] }, s.nextId)

/-- Whether a registration still exists. -/
def contains (s : Subject ι) (id : Nat) : Bool := s.entries.any (·.1 = id)

/-- Removes a registration. -/
def unsubscribe (s : Subject ι) (id : Nat) : Subject ι :=
  { s with entries := s.entries.filter (·.1 ≠ id) }

/-- Removes every registration of a listener. -/
def forget (s : Subject ι) (is_listener : ι → Bool) : Subject ι :=
  { s with entries := s.entries.filter (!is_listener ·.2) }

/-- Removes all registrations. -/
def clear (s : Subject ι) : Subject ι := { s with entries := [] }

/-- The identifiers of the registrations, in order. -/
def ids (s : Subject ι) : List Nat := s.entries.map (·.1)

/-- The number of registrations. -/
def size (s : Subject ι) : Nat := s.entries.length

/-- Whether nobody listens. -/
def isEmpty (s : Subject ι) : Bool := s.entries.isEmpty

/-- One delivery in a world that holds the subject: calls every registration that exists at the
start and still exists when its turn comes. -/
def deliver (subject : σ → Subject ι) (call : σ → Nat × ι → σ) (world : σ) : σ :=
  (subject world).entries.foldl
    (fun w entry => if (subject w).contains entry.1 then call w entry else w) world

@[simp] theorem ids_subscribe (s : Subject ι) (listener : ι) :
    (s.subscribe listener).1.ids = s.ids ++ [s.nextId] := by simp [subscribe, ids]

@[simp] theorem contains_iff (s : Subject ι) (id : Nat) : s.contains id = true ↔ id ∈ s.ids := by
  simp [contains, ids]

@[simp] theorem mem_ids_unsubscribe (s : Subject ι) (gone id : Nat) :
    id ∈ (s.unsubscribe gone).ids ↔ id ∈ s.ids ∧ id ≠ gone := by
  simp [unsubscribe, ids]

end Subject

end LiveTables
