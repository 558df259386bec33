import LiveTables.Network.World
import LiveTables.Proofs.Network.Hearing
import LiveTables.Proofs.Network.Quiet

/-!
# Monitors

While a change is on its way, what happens is a sequence of small steps: a table is written, a joined table
hears a notice and has something to say, an observer responds, a table is held or let go. A monitor is something
to be kept track of meanwhile, besides the wave: a property of the world that every such step keeps
(`Monitor`). What is kept by each step is then kept by a whole write, with all the announcements nested in
it.

A monitor may depend on what observers have yet to be told, which is their mail: like a joined table in the
queues, an observer has the notices of a table before it, in the order in which they are announced.
-/

namespace LiveTables

open Network Notice World

/-- What waits to be told to those outside, by the table and the number of the registration. -/
abbrev Mail := Nat → Nat → List Notice

namespace Mail

variable {A : Mail} {n m i : Nat} {E E' : List Notice}

/-- Nothing waits. -/
def empty : Mail := fun _ _ => []

/-- A table has something to say to everyone. -/
def speak (A : Mail) (n : Nat) (E : List Notice) : Mail := fun m i => if m = n then E else A m i

/-- What waits at one registration. -/
def set (A : Mail) (n i : Nat) (E : List Notice) : Mail := fun m k => if m = n ∧ k = i then E else A m k

@[simp] theorem speak_self : A.speak n E n i = E := if_pos rfl

theorem speak_of_ne (h : m ≠ n) : A.speak n E m i = A m i := if_neg h

/-- A table that has nothing to say. -/
theorem speak_nil (h : ∀ i, A n i = []) : A.speak n [] = A := by
  funext m i
  by_cases hm : m = n
  · subst hm
    rw [speak_self, h i]
  · exact speak_of_ne hm

@[simp] theorem set_self : A.set n i E n i = E := if_pos ⟨rfl, rfl⟩

theorem set_of_ne (h : ¬ (m = n ∧ k = i)) : A.set n i E m k = A m k := if_neg h

end Mail

variable {ω : Type}

/-- A property of the world, of what waits in the queues and of the mail of observers, that all steps of a
change keep. `Hears` says who may be met at a registration, even when it has ended. -/
structure Monitor (o : Outside ω) where
  Holds : Queues → Mail → World ω → Prop
  Hears : (node registration : Nat) → Listener → Prop
  /-- The queues of joined tables that exist matter, and no others. -/
  requeue : ∀ {n₀ : Nat} {Q Q' : Queues} {A : Mail} {w : World ω}, Wave w.network n₀ Q → Holds Q A w →
    (∀ K j s, w.network.joined? K = some j → Q' K s = Q K s) → Holds Q' A w
  /-- The mail of registrations that exist matters, and no other. -/
  readdress : ∀ {n₀ : Nat} {Q : Queues} {A A' : Mail} {w : World ω}, Wave w.network n₀ Q → Holds Q A w →
    (∀ m i, (w.network.subject m .events).contains i = true → A' m i = A m i) → Holds Q A' w
  hears : ∀ {n₀ m i : Nat} {l : Listener} {Q : Queues} {A : Mail} {w : World ω}, Wave w.network n₀ Q →
    Holds Q A w → (i, l) ∈ w.network.entries m → Hears m i l
  /-- Joined tables have no mail. -/
  pass : ∀ {n₀ m i K : Nat} {s : Side} {E : List Notice} {Q : Queues} {A : Mail} {w : World ω},
    Wave w.network n₀ Q → Holds Q A w → Hears m i (.join K s) → Holds Q (A.set m i E) w
  hold : ∀ {n₀ K : Nat} {Q : Queues} {A : Mail} {w : World ω}, Wave w.network n₀ Q → Holds Q A w →
    Holds Q A (w.modifyNetwork (·.hold K))
  release : ∀ {n₀ K : Nat} {Q : Queues} {A : Mail} {w : World ω}, Wave w.network n₀ Q → Holds Q A w →
    Holds Q A (w.modifyNetwork (·.release K))
  /-- An observer responds to what waits first before it. -/
  answer : ∀ {n₀ m i depth : Nat} {l : Listener} {x : Notice} {E : List Notice} {Q : Queues} {A : Mail}
    {w : World ω}, Wave w.network n₀ Q → Holds Q A w → Hears m i l → (∀ K s, l ≠ .join K s) →
    (w.network.subject m .events).contains i = true → A m i = x :: E →
    Holds Q (A.set m i E) (respond o (dispatch o depth) (.event x.event) w l)
  cell : ∀ {n₀ id row depth : Nat} {Q : Queues} {A : Mail} {w : World ω}, Wave w.network n₀ Q →
    Holds Q A w → Holds Q A (o.onCell (dispatch o depth) w id row)
  /-- A joined table hears a notice. -/
  hear : ∀ {n₀ m : Nat} {j : JoinedTable} {side : Side} {y : Notice} {rest : List Notice}
    {engine : JoinEngine} {changes : List JoinChange} {columns : List String} {Q : Queues} {A : Mail}
    {w : World ω} (h : Hearing w.network n₀ Q m j side y rest engine changes columns), Holds Q A w →
    (∀ m', w.network.Reaches m m' → ∀ i, A m' i = []) →
    Holds h.queues (A.speak m h.told) (w.modifyNetwork fun _ => h.after)
  /-- A stored table is written. -/
  write : ∀ {n : Nat} {t t' : Table} {E : List Notice} {Q Q' : Queues} {A : Mail} {w : World ω},
    Wave w.network n Q → w.network.table? n = some t →
    Advance w.network Q (w.network.setContent n (.stored t')) Q' n E → Holds Q A w →
    (∀ m', w.network.Reaches n m' → ∀ i, A m' i = []) →
    Holds Q' (A.speak n E) (w.modifyNetwork (·.setContent n (.stored t')))

/-- Nothing to keep track of. -/
def Monitor.idle (o : Outside ω) : Monitor o where
  Holds _ _ _ := True
  Hears _ _ _ := True
  requeue _ _ _ := trivial
  readdress _ _ _ := trivial
  hears _ _ _ := trivial
  pass _ _ _ := trivial
  hold _ _ := trivial
  release _ _ := trivial
  answer _ _ _ _ _ _ := trivial
  cell _ _ := trivial
  hear _ _ _ := trivial
  write _ _ _ _ _ := trivial

end LiveTables
