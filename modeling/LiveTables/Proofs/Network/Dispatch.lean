import LiveTables.Proofs.Network.Answering

/-!
# Announcements reach their listeners

An announcement goes to each listener in turn (`Delivering`). A joined table whose turn comes hears the notice
and says what follows, by announcements one level deeper; observers are quiet. So by induction on the depth an
announcement takes one notice from the queues of all joined tables right above, and leaves nothing new
(`Monitor.announces_dispatch`), provided announcements may nest as deep as tables are joined upon each other.
-/

namespace LiveTables

namespace Mail

/-- The mail during a delivery: a registration whose turn is still to come has the notice before it. -/
def deliver (A : Mail) (n : Nat) (x : Notice) (E : List Notice) (todo : List (Nat × Listener)) : Mail :=
  fun m i => if m = n then if i ∈ todo.map (·.1) then x :: E else E else A m i

variable {A : Mail} {n i : Nat} {x : Notice} {E : List Notice} {l : Listener} {todo : List (Nat × Listener)}

theorem deliver_of_ne {m : Nat} (h : m ≠ n) : A.deliver n x E todo m i = A m i := if_neg h

theorem deliver_self (h : i ∈ todo.map (·.1)) : A.deliver n x E todo n i = x :: E := by
  rw [deliver, if_pos rfl, if_pos h]

theorem deliver_nil : A.deliver n x E [] = A.speak n E := by
  funext m k
  simp [deliver, speak]

/-- A registration whose turn is over. -/
theorem set_deliver (h : i ∉ todo.map (·.1)) :
    (A.deliver n x E ((i, l) :: todo)).set n i E = A.deliver n x E todo := by
  funext m k
  by_cases hself : m = n ∧ k = i
  · obtain ⟨rfl, rfl⟩ := hself
    rw [set_self, deliver, if_pos rfl, if_neg h]
  · rw [set_of_ne hself]
    by_cases hm : m = n
    · have hk : k ≠ i := fun heq => hself ⟨hm, heq⟩
      simp only [deliver, List.map_cons, List.mem_cons, or_iff_right hk]
    · rw [deliver_of_ne hm, deliver_of_ne hm]

end Mail

namespace Network

open Notice

variable {net net₀ net' : Network} {Q : Queues} {n n₀ depth i K : Nat} {x : Notice} {E : List Notice}
  {todo : List (Nat × Listener)} {l : Listener} {s : Side}

/-- The queues during a delivery: a listener whose turn is still to come has the notice before it. -/
def delivering (net : Network) (Q : Queues) (n : Nat) (x : Notice) (E : List Notice)
    (todo : List (Nat × Listener)) : Queues :=
  fun K s =>
    if net.sourceOf? K s = some n then if .join K s ∈ todo.map (·.2) then x :: E else E else Q K s

/-- A network in which an event of a table is delivered, to some listeners still. -/
structure Delivering (net₀ : Network) (n₀ : Nat) (Q : Queues) (n : Nat) (x : Notice) (E : List Notice)
    (net : Network) (todo : List (Nat × Listener)) : Prop where
  follows : Follows (n + 1) net₀ net
  wave : Wave net n₀ (delivering net₀ Q n x E todo)

/-- Another listener does not matter. -/
theorem delivering_cons_of_ne (hne : .join K s ≠ l) :
    delivering net Q n x E ((i, l) :: todo) K s = delivering net Q n x E todo K s := by
  simp only [delivering, List.map_cons, List.mem_cons, or_iff_right hne]

namespace Delivering

theorem quietly (h : Delivering net₀ n₀ Q n x E net todo) (hquiet : Quietly net net') :
    Delivering net₀ n₀ Q n x E net' todo :=
  ⟨h.follows.trans (hquiet.follows h.wave.formed (n + 1)), hquiet.wave h.wave⟩

/-- A listener may be left out if it is no joined table right above. -/
theorem skip_queues (h : Delivering net₀ n₀ Q n x E net ((i, l) :: todo))
    (hl : ∀ K s, l = .join K s → net.sourceOf? K s ≠ some n) (K : Nat) (j : JoinedTable) (s : Side)
    (hj : net.joined? K = some j) :
    delivering net₀ Q n x E todo K s = delivering net₀ Q n x E ((i, l) :: todo) K s := by
  have hsource := sourceOf?_of_joined? hj s
  by_cases heq : net.sourceOf? K s = some n
  · exact (delivering_cons_of_ne fun hl' => hl K s hl'.symm heq).symm
  · have hne : net₀.sourceOf? K s ≠ some n := by
      rwa [h.follows.sources K s _ hsource, ← hsource]
    rw [delivering, delivering, if_neg hne, if_neg hne]

theorem skip (h : Delivering net₀ n₀ Q n x E net ((i, l) :: todo))
    (hl : ∀ K s, l = .join K s → net.sourceOf? K s ≠ some n) : Delivering net₀ n₀ Q n x E net todo :=
  ⟨h.follows, h.wave.congr (h.skip_queues hl)⟩

/-- A joined table right above deals with the notice. -/
theorem heard_queues (hsource : net₀.sourceOf? K s = some n) (honce : .join K s ∉ todo.map (·.2)) :
    Network.heard (delivering net₀ Q n x E ((i, .join K s) :: todo)) K s E =
      delivering net₀ Q n x E todo := by
  funext K' s'
  by_cases hself : K' = K ∧ s' = s
  · obtain ⟨rfl, rfl⟩ := hself
    rw [delivering, if_pos hsource, if_neg honce, Network.heard, if_pos ⟨rfl, rfl⟩]
  · have hne : Listener.join K' s' ≠ .join K s := fun heq =>
      hself ⟨(Listener.join.inj heq).1, (Listener.join.inj heq).2⟩
    rw [Network.heard, if_neg hself, delivering_cons_of_ne hne]

/-! ### Above a listener

A joined table `K` right above `n` is the root of what it will say: no notice and no mail waits up there, and
announcements may nest as deep as is left. -/

section

variable {A : Mail}

theorem reaches (h : Delivering net₀ n₀ Q n x E net todo) (hsource : net₀.sourceOf? K s = some n) {m : Nat}
    (hreach : net.Reaches K m) : net₀.Reaches n m := by
  obtain ⟨j, hj, rfl⟩ := sourceOf?_eq_some_iff.1 hsource
  exact Reaches.trans (.step .refl hj) (h.follows.reaches hreach)

theorem queues_above (h : Delivering net₀ n₀ Q n x E net todo) (hready : net₀.Ready Q A n (depth + 1))
    (hsource : net₀.sourceOf? K s = some n) (hn : n < K) (K' : Nat) (j : JoinedTable) (s' : Side)
    (hj : net.joined? K' = some j) (hreach : net.Reaches K (j.source s')) :
    delivering net₀ Q n x E todo K' s' = [] := by
  have hsource' := h.follows.sources K' s' _ (sourceOf?_of_joined? hj s')
  -- what reaches the source of `K'` is above `K`, so `K'` is not right above `n`
  have hne : j.source s' ≠ n := by
    have hle := hreach.le h.wave.formed.ordered
    omega
  rw [delivering, hsource', if_neg fun heq => hne (Option.some.inj heq)]
  obtain ⟨j₀, hj₀, hs₀⟩ := sourceOf?_eq_some_iff.1 hsource'
  exact hready.above K' j₀ s' hj₀ (hs₀ ▸ h.reaches hsource hreach)

theorem mail_above (h : Delivering net₀ n₀ Q n x E net todo) (hready : net₀.Ready Q A n (depth + 1))
    (hsource : net₀.sourceOf? K s = some n) (hn : n < K) {todo' : List (Nat × Listener)} (m : Nat)
    (hreach : net.Reaches K m) (k : Nat) : A.deliver n x E todo' m k = [] := by
  have hle := hreach.le h.wave.formed.ordered
  rw [Mail.deliver_of_ne (by omega)]
  exact hready.mail m (h.reaches hsource hreach) k

theorem depth_above (h : Delivering net₀ n₀ Q n x E net todo) (hready : net₀.Ready Q A n (depth + 1))
    (hn : n < K) (K' : Nat) (hK' : net.joined? K' ≠ none) : K' < K + depth := by
  obtain ⟨j, hj⟩ := Option.ne_none_iff_exists'.1 hK'
  obtain ⟨j₀, hj₀, -⟩ := sourceOf?_eq_some_iff.1 (h.follows.sources K' .left _ (sourceOf?_of_joined? hj .left))
  have hlt := hready.depth K' (by simp [hj₀])
  omega

end

end Delivering

/-- A delivery begins with all that listen. -/
theorem Speaking.delivering_queues (h : Speaking net₀ n₀ Q n net (x :: E)) (K : Nat) (j : JoinedTable) (s : Side)
    (hj : net.joined? K = some j) :
    Network.delivering net₀ Q n x E (net.entries n) K s = speak net₀ Q n (x :: E) K s := by
  have hsource := sourceOf?_of_joined? hj s
  rw [Network.delivering, speak, h.follows.sources K s _ hsource]
  split_ifs with heq hlistens
  · rfl
  · obtain ⟨i, hi⟩ := (h.wave.formed.wired.joins n K s).2 (hsource.trans heq)
    exact absurd (List.mem_map_of_mem hi) hlistens
  · rfl

theorem delivering_nil : Network.delivering net₀ Q n x E [] = speak net₀ Q n E := by
  funext K s
  rw [Network.delivering, speak]
  simp

end Network

namespace World

open Network Notice

variable {ω : Type} {o : Outside ω} {w : World ω} {net₀ : Network} {Q : Queues} {n n₀ depth i : Nat}
  {x : Notice} {E : List Notice} {todo : List (Nat × Listener)} {l : Listener}

/-! ## Responses -/

/-- A joined table that is gone does not respond. -/
theorem respond_join_of_none {d : Dispatch ω} {e : Event} {K : Nat} {s : Side}
    (hj : w.network.joined? K = none) : respond o d (.event e) w (.join K s) = w := by
  simp only [respond, hj]

theorem respond_join {d : Dispatch ω} {e : Event} {K : Nat} {s : Side} {j : JoinedTable}
    (hj : w.network.joined? K = some j) : respond o d (.event e) w (.join K s) =
      w.holding K fun w => onSourceEvent d w K j s e := by
  simp only [respond, hj]

/-- A listener does nothing, or it is a joined table that is there and hears an event, or an observer that is told of
an event, or one that is told of a cell. -/
theorem respond_cases {motive : World ω → Prop} {d : Dispatch ω} {signal : Signal} (idle : motive w)
    (join : ∀ K s e j, l = .join K s → signal = .event e → w.network.joined? K = some j →
      motive (w.holding K fun w => onSourceEvent d w K j s e))
    (event : ∀ id e, l = .observer id → signal = .event e → motive (o.onEvent d w id e))
    (cell : ∀ id column row, l = .cells id column → motive (o.onCell d w id row)) :
    motive (respond o d signal w l) := by
  cases l with
  | join K s =>
    cases signal with
    | cell column row => exact idle
    | event e =>
      rcases hj : w.network.joined? K with - | j
      · simpa only [respond, hj] using idle
      · simpa only [respond, hj] using join K s e j rfl rfl hj
  | observer id =>
    cases signal with
    | cell column row => exact idle
    | event e => exact event id e rfl rfl
  | cells id column =>
    cases signal with
    | cell column' row => exact cell id column row rfl
    | event e =>
      simp only [respond]
      split_ifs
      · exact cell id column e.row rfl
      · exact idle

/-- All others are quiet, and so is everyone about a cell. -/
theorem quietly_respond {signal : Signal} (ho : o.Quiet) (hl : ∀ K s e, signal = .event e → l ≠ .join K s) :
    w.network.Quietly (respond o (dispatch o depth) signal w l).network :=
  respond_cases (motive := fun w' => w.network.Quietly w'.network) .refl
    (fun K s e _ hjoin hevent _ => absurd hjoin (hl K s e hevent)) (fun id e _ _ => ho.onEvent depth w id e)
    fun id _ row _ => ho.onCell depth w id row

theorem quietly_announce_cell (ho : o.Quiet) (depth : Nat) (w : World ω) (n : Nat) (column : String)
    (row : Nat) :
    w.network.Quietly ((dispatch o depth).announce w n (.cell column row)).network := by
  cases depth with
  | zero => exact .refl
  | succ depth =>
    show w.network.Quietly (Subject.deliver _ _ w).network
    rw [Subject.deliver]
    generalize Subject.entries _ = todo
    induction todo generalizing w with
    | nil => exact .refl
    | cons entry todo ih =>
      refine Quietly.trans ?_ (ih _)
      dsimp only
      split_ifs
      · exact quietly_respond ho (by simp)
      · exact .refl

end World

namespace Monitor

open Network Notice World

variable {ω : Type} {o : Outside ω} {M : Monitor o} {w : World ω} {net₀ : Network} {Q : Queues} {A : Mail}
  {n n₀ depth i : Nat} {x : Notice} {E : List Notice} {todo : List (Nat × Listener)} {l : Listener}

/-- A world in which an event is delivered, to some listeners still, while a monitor watches. -/
structure Delivering (M : Monitor o) (net₀ : Network) (n₀ : Nat) (Q : Queues) (A : Mail) (n : Nat) (x : Notice)
    (E : List Notice) (w : World ω) (todo : List (Nat × Listener)) : Prop where
  network : net₀.Delivering n₀ Q n x E w.network todo
  holds : M.Holds (delivering net₀ Q n x E todo) (A.deliver n x E todo) w
  hears : ∀ i l, (i, l) ∈ todo → M.Hears n i l

/-- A delivery begins with all that listen. -/
theorem Speaking.delivering (h : M.Speaking net₀ n₀ Q A n w (x :: E)) :
    M.Delivering net₀ n₀ Q A n x E w (w.network.entries n) where
  network := ⟨h.network.follows, h.network.wave.congr h.network.delivering_queues⟩
  holds := by
    refine M.readdress (h.network.wave.congr h.network.delivering_queues)
      (M.requeue h.network.wave h.holds h.network.delivering_queues) fun m i hcontains => ?_
    by_cases hm : m = n
    · subst hm
      have hmem : i ∈ (w.network.entries m).map (·.1) := (Subject.contains_iff _ i).1 hcontains
      rw [Mail.speak_self, Mail.deliver_self hmem]
    · rw [Mail.speak_of_ne hm, Mail.deliver_of_ne hm]
  hears _ _ hi := M.hears h.network.wave h.holds hi

/-- It ends with the notice gone. -/
theorem Delivering.speaking (h : M.Delivering net₀ n₀ Q A n x E w []) : M.Speaking net₀ n₀ Q A n w E := by
  obtain ⟨⟨hfollows, hwave⟩, hholds, -⟩ := h
  rw [delivering_nil] at hwave hholds
  rw [Mail.deliver_nil] at hholds
  exact ⟨⟨hfollows, hwave⟩, hholds⟩

/-- The turn of a listener is over that is no joined table right above. -/
theorem delivering_next (hnetwork : net₀.Delivering n₀ Q n x E w.network ((i, l) :: todo))
    (hholds : M.Holds (Network.delivering net₀ Q n x E ((i, l) :: todo))
      ((A.deliver n x E ((i, l) :: todo)).set n i E) w)
    (hears : ∀ i' l', (i', l') ∈ (i, l) :: todo → M.Hears n i' l') (hi : i ∉ todo.map (·.1))
    (hl : ∀ K s, l = .join K s → w.network.sourceOf? K s ≠ some n) :
    M.Delivering net₀ n₀ Q A n x E w todo where
  network := hnetwork.skip hl
  holds := by
    rw [Mail.set_deliver hi] at hholds
    exact M.requeue hnetwork.wave hholds (hnetwork.skip_queues hl)
  hears i' l' hmem := hears i' l' (List.mem_cons_of_mem _ hmem)

section

variable (hd : ∀ K, M.Announces (dispatch o depth) K depth) (hready : net₀.Ready Q A n (depth + 1))

include hd hready

/-- A joined table responds to an event of its source. -/
theorem delivering_join {K : Nat} {s : Side} {j : JoinedTable}
    (h : M.Delivering net₀ n₀ Q A n x E w ((i, .join K s) :: todo))
    (hj : w.network.joined? K = some j) (hsource : j.source s = n) (hi : i ∉ todo.map (·.1))
    (honce : .join K s ∉ todo.map (·.2)) :
    M.Delivering net₀ n₀ Q A n x E (respond o (dispatch o depth) (.event x.event) w (.join K s)) todo := by
  have hn : n < K := by
    rw [← hsource]
    exact (h.network.wave.formed.ordered.source hj s).1
  have hsource₀ : net₀.sourceOf? K s = some n := by
    rw [h.network.follows.sources K s _ (sourceOf?_of_joined? hj s), hsource]
  -- the table is held in the meantime
  have hhold : w.network.Quietly (w.modifyNetwork (·.hold K)).network := .hold .refl
  have hheld := h.network.quietly hhold
  have hholds : M.Holds (Network.delivering net₀ Q n x E ((i, .join K s) :: todo)) (A.deliver n x E todo)
      (w.modifyNetwork (·.hold K)) := by
    rw [← Mail.set_deliver hi]
    exact M.hold h.network.wave (M.pass h.network.wave h.holds (h.hears i _ List.mem_cons_self))
  -- it hears the first notice of its queue, and tells those above
  have hqueue : Network.delivering net₀ Q n x E ((i, .join K s) :: todo) K s = x :: E := by
    rw [Network.delivering, if_pos hsource₀, if_pos (List.mem_map_of_mem List.mem_cons_self)]
  obtain ⟨hfollows, hheard, hkept⟩ := onSourceEvent_spec hheld.wave hj hqueue
    (hheld.queues_above hready hsource₀ hn) (hd K) (hheld.depth_above hready hn)
    (hheld.mail_above hready hsource₀ hn) hholds
  rw [Network.Delivering.heard_queues hsource₀ honce] at hheard hkept
  have hrelease : (onSourceEvent (dispatch o depth) (w.modifyNetwork (·.hold K)) K j s x.event).network.Quietly
      (respond o (dispatch o depth) (.event x.event) w (.join K s)).network := by
    rw [respond_join hj]
    exact .release .refl
  refine ⟨⟨?_, hrelease.wave hheard⟩, ?_, fun i l hmem => h.hears i l (List.mem_cons_of_mem _ hmem)⟩
  · refine h.network.follows.trans (Follows.mono ?_ hn)
    exact (hhold.follows h.network.wave.formed K).trans (hfollows.trans (hrelease.follows hheard.formed K))
  · rw [respond_join hj]
    exact M.release hheard hkept

/-- A listener whose turn comes. -/
theorem delivering_step (ho : o.Quiet) (h : M.Delivering net₀ n₀ Q A n x E w ((i, l) :: todo))
    (hi : i ∉ todo.map (·.1)) (hmine : ∀ K s, l = .join K s → (i, .join K s) ∈ net₀.entries n)
    (honce : ∀ K s, l = .join K s → .join K s ∉ todo.map (·.2)) :
    M.Delivering net₀ n₀ Q A n x E (if (w.network.subject n .events).contains i then
      respond o (dispatch o depth) (.event x.event) w l else w) todo := by
  split_ifs with hcontains
  · by_cases hjoin : ∃ K s, l = .join K s
    · obtain ⟨K, s, rfl⟩ := hjoin
      rcases hj : w.network.joined? K with - | j
      · rw [respond_join_of_none hj]
        have hpassed := M.pass (E := E) h.network.wave h.holds (h.hears i _ List.mem_cons_self)
        refine delivering_next h.network hpassed h.hears hi fun K' s' heq => ?_
        obtain ⟨rfl, rfl⟩ := Listener.join.inj heq
        simp [sourceOf?, hj]
      · have hsource := (hready.formed.wired.joins n K s).1 ⟨i, hmine K s rfl⟩
        rw [h.network.follows.sources K s _ (sourceOf?_of_joined? hj s)] at hsource
        exact delivering_join hd hready h hj (Option.some.inj hsource) hi (honce K s rfl)
    · have hother (K : Nat) (s : Side) : l ≠ .join K s := fun heq => hjoin ⟨K, s, heq⟩
      have hanswer : M.Holds (net₀.delivering Q n x E ((i, l) :: todo))
          ((A.deliver n x E ((i, l) :: todo)).set n i E)
          (respond o (dispatch o depth) (.event x.event) w l) :=
        M.answer h.network.wave h.holds (h.hears i l List.mem_cons_self) hother hcontains
          (Mail.deliver_self List.mem_cons_self)
      have hquiet : w.network.Quietly (respond o (dispatch o depth) (.event x.event) w l).network :=
        quietly_respond ho fun K s _ _ => hother K s
      exact delivering_next (h.network.quietly hquiet) hanswer h.hears hi fun K s heq => absurd heq (hother K s)
  · have hgone : M.Holds (net₀.delivering Q n x E ((i, l) :: todo))
        ((A.deliver n x E ((i, l) :: todo)).set n i E) w := by
      refine M.readdress h.network.wave h.holds fun m k hk => Mail.set_of_ne ?_
      rintro ⟨rfl, rfl⟩
      exact hcontains hk
    refine delivering_next h.network hgone h.hears hi fun K s heq hsource => hcontains ?_
    -- its registration is the only one of the side
    obtain ⟨i', hi'⟩ := (h.network.wave.formed.wired.joins n K s).2 hsource
    have hsame := hready.formed.wired.once n K s i' i (h.network.follows.entries n K s i' hi') (hmine K s heq)
    rw [Subject.contains_iff]
    exact List.mem_map.2 ⟨_, hi', hsame⟩

/-- All listeners, one after the other. -/
theorem delivering_foldl (ho : o.Quiet) (hnodup : (todo.map (·.1)).Nodup)
    (hmine : ∀ i K s, (i, .join K s) ∈ todo → (i, .join K s) ∈ net₀.entries n)
    (h : M.Delivering net₀ n₀ Q A n x E w todo) :
    M.Delivering net₀ n₀ Q A n x E
      (todo.foldl (fun w entry => if (w.network.subject n .events).contains entry.1 then
        respond o (dispatch o depth) (.event x.event) w entry.2 else w) w) [] := by
  induction todo generalizing w with
  | nil => exact h
  | cons entry todo ih =>
    obtain ⟨i, l⟩ := entry
    obtain ⟨hnot, hnodup⟩ := List.nodup_cons.1 hnodup
    refine ih hnodup (fun i K s hi => hmine i K s (List.mem_cons_of_mem _ hi)) ?_
    refine delivering_step hd hready ho h hnot (fun K s heq => ?_) fun K s heq hlater => hnot ?_
    · exact hmine i K s (heq ▸ List.mem_cons_self)
    · obtain ⟨⟨i', l'⟩, hi', rfl⟩ := List.mem_map.1 hlater
      have hfirst := hmine i K s (heq ▸ List.mem_cons_self)
      have hsame := hready.formed.wired.once n K s i' i (hmine i' K s (List.mem_cons_of_mem _ hi')) hfirst
      exact List.mem_map.2 ⟨_, hi', hsame⟩

end

/-- Every announcement is heard by all that are above the table. -/
theorem announces_dispatch (M : Monitor o) (ho : o.Quiet) (depth n : Nat) :
    M.Announces (dispatch o depth) n depth := by
  induction depth generalizing n with
  | zero => exact fun net₀ n₀ Q A x E w hready _ => absurd hready.positive (Nat.lt_irrefl 0)
  | succ depth ih =>
    intro net₀ n₀ Q A x E w hready h
    refine (delivering_foldl ih hready ho ?_ (fun i K s hi => ?_) h.delivering).speaking
    · exact (h.network.wave.formed.wired.tidy n).nodup
    · exact h.network.follows.entries n K s i hi

/-- A written cell is announced. -/
theorem holds_announce_cell (M : Monitor o) (ho : o.Quiet) (depth : Nat) (column : String) (row : Nat)
    (hwave : Wave w.network n₀ Q) (h : M.Holds Q A w) :
    M.Holds Q A ((dispatch o depth).announce w n (.cell column row)) := by
  cases depth with
  | zero => exact h
  | succ depth =>
    show M.Holds Q A (Subject.deliver _ _ w)
    rw [Subject.deliver]
    generalize Subject.entries _ = todo
    induction todo generalizing w with
    | nil => exact h
    | cons entry todo ih =>
      rw [List.foldl_cons]
      split_ifs
      · refine ih ((quietly_respond ho (by simp)).wave hwave) ?_
        rcases entry.2 with ⟨K, s⟩ | id | ⟨id, column⟩
        · exact h
        · exact h
        · exact M.cell hwave h
      · exact ih hwave h

end Monitor

end LiveTables
