import LiveTables.Proofs.Network.Monitor

/-!
# A table speaks

What a table has to say waits at the tables right above it, and is announced one notice after the other
(`Speaking`). While that goes on, the table itself stays as it is or goes, so that a joined table that reads
itself anew before each announcement says what it would have said at once (`Monitor.speaking_publish`,
`Monitor.speaking_forward`).

That announcements do what they should, and keep what a monitor keeps track of, is assumed here
(`Monitor.Announces`) of the means to announce that a joined table is given; it holds by induction on how deep
announcements may nest.
-/

namespace LiveTables

namespace Network

open Notice JoinedTable

variable {net net₀ net' : Network} {Q : Queues} {n n₀ K : Nat} {s : Side} {E E' : List Notice}
  {j : JoinedTable}

/-- The queues while a table speaks. -/
def speak (net : Network) (Q : Queues) (n : Nat) (E : List Notice) : Queues :=
  fun K s => if net.sourceOf? K s = some n then E else Q K s

/-- A table may speak: nothing waits above it, and announcements may nest as deep as there are tables above. -/
structure Ready (net : Network) (Q : Queues) (A : Mail) (n depth : Nat) : Prop where
  formed : net.Formed
  above : ∀ K j s, net.joined? K = some j → net.Reaches n (j.source s) → Q K s = []
  mail : ∀ m, net.Reaches n m → ∀ i, A m i = []
  positive : 0 < depth
  depth : ∀ K, net.joined? K ≠ none → K < n + depth

/-- A network in which a table speaks, and has something left to say. -/
structure Speaking (net₀ : Network) (n₀ : Nat) (Q : Queues) (n : Nat) (net : Network)
    (E : List Notice) : Prop where
  follows : Follows (n + 1) net₀ net
  wave : Wave net n₀ (speak net₀ Q n E)

namespace Speaking

/-- If the table goes, so do those who listen. -/
theorem speak_of_gone (h : Speaking net₀ n₀ Q n net E) (hn : net.content? n = none) (K : Nat)
    (j : JoinedTable) (s : Side) (hj : net.joined? K = some j) : speak net₀ Q n E' K s = speak net₀ Q n E K s := by
  have hsource := h.follows.sources K s _ (sourceOf?_of_joined? hj s)
  have hexists := (h.wave.formed.ordered.source hj s).2
  have hne : j.source s ≠ n := fun heq => hexists (heq ▸ hn)
  rw [speak, speak, hsource, if_neg fun heq => hne (Option.some.inj heq),
    if_neg fun heq => hne (Option.some.inj heq)]

theorem of_gone (h : Speaking net₀ n₀ Q n net E) (hn : net.content? n = none) :
    Speaking net₀ n₀ Q n net E' :=
  ⟨h.follows, h.wave.congr (h.speak_of_gone hn)⟩

theorem quietly (h : Speaking net₀ n₀ Q n net E) (hquiet : Quietly net net') :
    Speaking net₀ n₀ Q n net' E :=
  ⟨h.follows.trans (hquiet.follows h.wave.formed (n + 1)), hquiet.wave h.wave⟩

/-- The joined table that speaks is the one that began, unless it is gone. -/
theorem joined? (h : Speaking net₀ n₀ Q n net E) (ho : net₀.Ordered) (hj : net₀.joined? n = some j) :
    net.joined? n = some j ∨ net.content? n = none :=
  h.follows.joined? (Nat.lt_succ_self n) hj ho

end Speaking

end Network

open Network Notice JoinedTable World

variable {ω : Type} {o : Outside ω} {d : Dispatch ω} {w : World ω} {net₀ : Network} {Q : Queues} {A : Mail}
  {n n₀ depth : Nat} {E E' : List Notice} {j : JoinedTable} {side : Side} {row : Nat}

namespace World

/-- A joined table says what follows from changed links and columns. -/
def sayAll (d : Dispatch ω) (w : World ω) (n : Nat) (side : Side) (row : Nat) (changes : List JoinChange)
    (columns : List String) : World ω :=
  let w := publish d w n changes
  if columns.isEmpty then w else forward d w n side row columns (spokenOf side changes)

end World

namespace Monitor

/-- A world in which a table speaks, and has something left to say, while a monitor watches. -/
structure Speaking (M : Monitor o) (net₀ : Network) (n₀ : Nat) (Q : Queues) (A : Mail) (n : Nat) (w : World ω)
    (E : List Notice) : Prop where
  network : net₀.Speaking n₀ Q n w.network E
  holds : M.Holds (speak net₀ Q n E) (A.speak n E) w

/-- The means to announce of which every announcement is heard, by all that are above the table. -/
def Announces (M : Monitor o) (d : Dispatch ω) (n depth : Nat) : Prop :=
  ∀ (net₀ : Network) n₀ Q A x E (w : World ω), net₀.Ready Q A n depth →
    M.Speaking net₀ n₀ Q A n w (x :: E) → M.Speaking net₀ n₀ Q A n (d.announce w n (.event x.event)) E

variable {M : Monitor o}

/-- A table that is gone has nothing left to say. -/
theorem Speaking.of_gone (h : M.Speaking net₀ n₀ Q A n w E) (hn : w.network.content? n = none) :
    M.Speaking net₀ n₀ Q A n w E' where
  network := h.network.of_gone hn
  holds := by
    have hwave : Wave w.network n₀ (speak net₀ Q n E') := h.network.wave.congr (h.network.speak_of_gone hn)
    refine M.readdress hwave (M.requeue h.network.wave h.holds (h.network.speak_of_gone hn))
      fun m i hcontains => ?_
    have hne : m ≠ n := by
      rintro rfl
      rw [subject_of_content?_eq_none hn] at hcontains
      exact absurd hcontains Bool.false_ne_true
    rw [Mail.speak_of_ne hne, Mail.speak_of_ne hne]

/-- What is said in steps is said in all. -/
theorem speaking_foldl {α : Type} {S : World ω → List Notice → Prop} {f : World ω → α → World ω}
    (tells : α → List Notice) (hstep : ∀ w a E, S w (tells a ++ E) → S (f w a) E) (as : List α)
    (h : S w (as.flatMap tells ++ E)) : S (as.foldl f w) E := by
  induction as generalizing w with
  | nil => exact h
  | cons a as ih =>
    rw [List.flatMap_cons, List.append_assoc] at h
    exact ih (hstep w a _ h)

section

variable (hd : M.Announces d n depth) (hready : net₀.Ready Q A n depth)

include hd hready

theorem speaking_announceAll (q : List Notice) (h : M.Speaking net₀ n₀ Q A n w (q ++ E)) :
    M.Speaking net₀ n₀ Q A n (announceAll d w n (q.map (·.event))) E := by
  rw [announceAll, List.foldl_map]
  refine speaking_foldl (fun x => [x]) (fun w x E h => ?_) q ?_
  · exact hd net₀ n₀ Q A x E w hready h
  · rwa [List.flatMap_singleton']

variable (hj : net₀.joined? n = some j)

include hj

theorem speaking_announceUpdate {columns : List String}
    (h : M.Speaking net₀ n₀ Q A n w (j.tellUpdate row columns ++ E)) :
    M.Speaking net₀ n₀ Q A n (announceUpdate d w n row columns) E := by
  rcases h.network.joined? hready.formed.ordered hj with hn | hn
  · have hall := speaking_announceAll hd hready _ h
    rw [map_event_tellUpdate] at hall
    rwa [announceUpdate, hn]
  · rw [announceUpdate, Network.joined?, hn]
    exact h.of_gone hn

theorem speaking_announceChange {change : JoinChange}
    (h : M.Speaking net₀ n₀ Q A n w (j.tellChange change ++ E)) :
    M.Speaking net₀ n₀ Q A n (announceChange d n j.columnIds j.sideIds w change) E := by
  cases change with
  | added k => exact speaking_announceAll hd hready [fresh (.added k), repeated (.updated k j.columnIds)] h
  | updated k s => exact speaking_announceUpdate hd hready hj h
  | deleted k => exact speaking_announceAll hd hready [fresh (.deleted k)] h

theorem speaking_publish {changes : List JoinChange}
    (h : M.Speaking net₀ n₀ Q A n w (changes.flatMap j.tellChange ++ E)) :
    M.Speaking net₀ n₀ Q A n (publish d w n changes) E := by
  rcases h.network.joined? hready.formed.ordered hj with hn | hn
  · rw [publish, hn]
    exact speaking_foldl j.tellChange (fun w change E h => speaking_announceChange hd hready hj h) changes h
  · rw [publish, Network.joined?, hn]
    exact h.of_gone hn

theorem speaking_forward {columns : List String} {spoken : List Nat} (hcolumns : columns.isEmpty = false)
    (h : M.Speaking net₀ n₀ Q A n w (j.tellRest side row columns spoken ++ E)) :
    M.Speaking net₀ n₀ Q A n (forward d w n side row columns spoken) E := by
  rcases h.network.joined? hready.formed.ordered hj with hn | hn
  · rw [forward, hn]
    rw [tellRest, hcolumns, if_neg Bool.false_ne_true] at h
    exact speaking_foldl (fun k => j.tellUpdate k columns)
      (fun w k E h => speaking_announceUpdate hd hready hj h) _ h
  · rw [forward, Network.joined?, hn]
    exact h.of_gone hn

/-- A joined table tells all that it has to tell. -/
theorem speaking_sayAll {changes : List JoinChange} {columns : List String}
    (h : M.Speaking net₀ n₀ Q A n w (j.tell side row changes columns ++ E)) :
    M.Speaking net₀ n₀ Q A n (sayAll d w n side row changes columns) E := by
  rw [JoinedTable.tell, List.append_assoc] at h
  have hpublished := speaking_publish hd hready hj h
  rw [sayAll]
  by_cases hcolumns : columns.isEmpty
  · simpa [tellRest, hcolumns] using hpublished
  · simp only [hcolumns]
    exact speaking_forward hd hready hj (by simpa using hcolumns) hpublished

end

end Monitor

end LiveTables
