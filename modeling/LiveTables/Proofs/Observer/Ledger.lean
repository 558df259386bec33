import LiveTables.Proofs.Network.Monitor
import LiveTables.Proofs.Observer.Spectator

/-!
# Ledgers

While a change comes up, some spectators hear the events of their tables. A ledger is a property of the network,
of what waits in the queues, of the accounts of the spectators, and of what they have yet to hear, that every
step of a change keeps (`Ledger`). It is kept track of by a monitor (`Ledger.monitor`), whatever other observers
do meanwhile, so that a whole write keeps it.
-/

namespace LiveTables

open Network Notice World

/-- What holds between the tables of a network and those who watch some of them: `L` is what each has heard,
and `R` what it has yet to hear. While the table of the first of them is there, those of the others are. -/
structure Ledger {ι : Type} [DecidableEq ι] (node : ι → Nat) where
  Holds : Network → Queues → (ι → Account) → (ι → List Notice) → Prop
  first : ι
  present : ∀ {net : Network} {n₀ : Nat} {Q : Queues} {L : ι → Account} {R : ι → List Notice},
    Wave net n₀ Q → Holds net Q L R → ∀ p, net.content? (node p) ≠ none
  /-- The queues of joined tables that exist matter, and no others. -/
  requeue : ∀ {net : Network} {n₀ : Nat} {Q Q' : Queues} {L : ι → Account} {R : ι → List Notice},
    Wave net n₀ Q → Holds net Q L R → (∀ K j s, net.joined? K = some j → Q' K s = Q K s) → Holds net Q' L R
  outlasts : ∀ {net net' : Network} {n₀ : Nat} {Q : Queues} {L : ι → Account} {R : ι → List Notice},
    Wave net n₀ Q → Holds net Q L R → Outlasts net net' → net'.content? (node first) ≠ none → Holds net' Q L R
  /-- A spectator hears what waits first before it. -/
  listen : ∀ {net : Network} {n₀ : Nat} {Q : Queues} {L : ι → Account} {R : ι → List Notice} {p : ι} {x : Notice}
    {E : List Notice}, Wave net n₀ Q → Holds net Q L R → R p = x :: E →
    Holds net Q (Function.update L p (L p ++ [(net.shown (node p), x.event)])) (Function.update R p E)
  /-- A joined table hears a notice. -/
  hear : ∀ {net : Network} {n₀ m : Nat} {Q : Queues} {j : JoinedTable} {side : Side} {y : Notice}
    {rest : List Notice} {engine : JoinEngine} {changes : List JoinChange} {columns : List String}
    {L : ι → Account} {R : ι → List Notice} (h : Hearing net n₀ Q m j side y rest engine changes columns),
    Holds net Q L R → (∀ p, net.Reaches m (node p) → R p = []) →
    Holds h.after h.queues L fun p => if node p = m then h.told else R p
  /-- A stored table is written. -/
  write : ∀ {net : Network} {n : Nat} {Q Q' : Queues} {t t' : Table} {E : List Notice} {L : ι → Account}
    {R : ι → List Notice}, Wave net n Q → net.table? n = some t →
    Advance net Q (net.setContent n (.stored t')) Q' n E → Holds net Q L R →
    (∀ p, net.Reaches n (node p) → R p = []) →
    Holds (net.setContent n (.stored t')) Q' L fun p => if node p = n then E else R p

namespace Ledger

variable {ι ω σ : Type} [DecidableEq ι] {o : Outside ω} {v : ι → Spectator ω σ} {b : Ledger fun p => (v p).node}
  {i : ι → Nat} {s₀ : ι → σ} {Q Q' : Queues} {A A' : Mail} {w w' : World ω} {n₀ n m k depth : Nat} {p : ι}
  {x : Notice} {E : List Notice}

/-- The spectators are registered, and, while the tables are there, keep what follows from accounts for which the
ledger holds. -/
structure Kept (b : Ledger fun p => (v p).node) (i : ι → Nat) (s₀ : ι → σ) (Q : Queues) (A : Mail)
    (w : World ω) : Prop where
  registered : ∀ p, (v p).At (some (i p)) w.network
  account : w.network.content? (v b.first).node ≠ none → ∃ L : ι → Account,
    (∀ p, (v p).mine w.outside = (v p).after (L p) (s₀ p)) ∧
      b.Holds w.network Q L fun p => A (v p).node (i p)

namespace Kept

/-- The mail of the spectators matters, and no other. -/
theorem congr (h : b.Kept i s₀ Q A w)
    (hwave : Wave w.network n₀ Q)
    (hA : ∀ p, w.network.content? (v p).node ≠ none → A' (v p).node (i p) = A (v p).node (i p)) :
    b.Kept i s₀ Q A' w where
  registered := h.registered
  account hn := by
    obtain ⟨L, hmine, hholds⟩ := h.account hn
    exact ⟨L, hmine, funext (fun p => hA p (b.present hwave hholds p)) ▸ hholds⟩

/-- The spectators are left undisturbed. -/
theorem quietly (h : b.Kept i s₀ Q A w) (hwave : Wave w.network n₀ Q)
    (hquiet : w.network.Quietly w'.network) (hundisturbed : ∀ p, (v p).Undisturbed w w') :
    b.Kept i s₀ Q A w' where
  registered p := (hundisturbed p).stays _ (h.registered p)
  account hn := by
    have houtlasts := hquiet.outlasts hwave.formed
    obtain ⟨L, hmine, hholds⟩ := h.account (houtlasts.content?_ne_none (h.registered _).issued hn)
    exact ⟨L, fun p => (hundisturbed p).mine.trans (hmine p), b.outlasts hwave hholds houtlasts hn⟩

/-- One of the spectators hears what waits first before it. -/
theorem listen (h : b.Kept i s₀ Q A w) (hwave : Wave w.network n₀ Q)
    (hquiet : w.network.Quietly w'.network) (hid : ∀ q, (v q).node = (v p).node → i q = i p → q = p)
    (hstays : (v p).At (some (i p)) w'.network)
    (hhears : w.network.content? (v p).node ≠ none →
      (v p).mine w'.outside = (v p).hear (w.network.shown (v p).node) x.event ((v p).mine w.outside))
    (hundisturbed : ∀ q, q ≠ p → (v q).Undisturbed w w') (hA : A (v p).node (i p) = x :: E) :
    b.Kept i s₀ Q (A.set (v p).node (i p) E) w' where
  registered q := by
    by_cases hq : q = p
    · exact hq ▸ hstays
    · exact (hundisturbed q hq).stays _ (h.registered q)
  account hn := by
    have houtlasts := hquiet.outlasts hwave.formed
    obtain ⟨L, hmine, hholds⟩ := h.account (houtlasts.content?_ne_none (h.registered _).issued hn)
    refine ⟨Function.update L p (L p ++ [(w.network.shown (v p).node, x.event)]), fun q => ?_, ?_⟩
    · by_cases hq : q = p
      · subst hq
        rw [Function.update_self, Spectator.after_concat, hhears (b.present hwave hholds q), hmine q]
      · rw [Function.update_of_ne hq, (hundisturbed q hq).mine, hmine q]
    · -- its mail is shorter by what was heard, that of the others is as it was
      have hmail : (fun q => A.set (v p).node (i p) E (v q).node (i q)) =
          Function.update (fun q => A (v q).node (i q)) p E := by
        funext q
        by_cases hq : q = p
        · subst hq
          rw [Function.update_self, Mail.set_self]
        · rw [Function.update_of_ne hq, Mail.set_of_ne fun heq => hq (hid q heq.1 heq.2)]
      rw [hmail]
      exact b.outlasts hwave (b.listen hwave hholds hA) houtlasts hn

end Kept

/-! ## The monitor -/

section Monitor

variable (b i s₀) (ho : o.Quiet) (hv : ∀ p, (v p).Attends o) (hid : Function.Injective fun p => (v p).id)

include ho hv in
/-- Cells of a column that are written leave the spectators undisturbed. -/
theorem kept_onCell {id row : Nat} (hwave : Wave w.network n₀ Q) (h : b.Kept i s₀ Q A w) :
    b.Kept i s₀ Q A (o.onCell (dispatch o depth) w id row) :=
  h.quietly hwave (ho.onCell depth w id row) fun p => ((hv p).others _ ((hv p).spares depth)).2 w id row

include ho hv hid in
/-- An observer responds: if it is one of the spectators, it hears what waits first before it. -/
theorem kept_respond {l : Listener} (hwave : Wave w.network n₀ Q) (h : b.Kept i s₀ Q A w)
    (hears : ∀ p, l = .observer (v p).id ↔ m = (v p).node ∧ k = i p) (hjoin : ∀ K s, l ≠ .join K s)
    (hA : A m k = x :: E) :
    b.Kept i s₀ Q (A.set m k E) (respond o (dispatch o depth) (.event x.event) w l) := by
  have hspares (p : ι) := (hv p).others _ ((hv p).spares depth)
  have hother (hl : ∀ p, l ≠ .observer (v p).id) : b.Kept i s₀ Q (A.set m k E) w :=
    h.congr hwave fun p _ => Mail.set_of_ne fun heq => hl p ((hears p).2 ⟨heq.1.symm, heq.2.symm⟩)
  cases l with
  | join K s => exact absurd rfl (hjoin K s)
  | cells id column =>
    have hkept := hother fun p heq => Listener.noConfusion heq
    simp only [respond]
    split_ifs
    · exact kept_onCell b i s₀ ho hv hwave hkept
    · exact hkept
  | observer id =>
    have hquiet := ho.onEvent depth w id x.event
    show b.Kept i s₀ Q (A.set m k E) (o.onEvent (dispatch o depth) w id x.event)
    by_cases hmine : ∃ p, id = (v p).id
    · -- one of the spectators: the mail at its registration is its own
      obtain ⟨p, rfl⟩ := hmine
      obtain ⟨rfl, rfl⟩ := (hears p).1 rfl
      obtain ⟨hhears, hstays⟩ := (hv p).own _ ((hv p).spares depth) w x.event
      refine h.listen hwave hquiet (fun q hnode hi => ?_) (hstays _ (h.registered p)) (fun hn => ?_)
        (fun q hq => ?_) hA
      · exact hid (Listener.observer.inj ((hears q).2 ⟨hnode.symm, hi.symm⟩)).symm
      · exact hhears _ (hwave.formed.ordered.view?_eq hn)
      · exact (hspares q).1 w _ x.event fun heq => hq (hid heq.symm)
    · -- somebody else
      have hkept := hother fun p heq => hmine ⟨p, Listener.observer.inj heq⟩
      exact hkept.quietly hwave hquiet fun p => (hspares p).1 w id x.event fun heq => hmine ⟨p, heq⟩

/-- A ledger is kept track of. -/
def monitor : Monitor o where
  Holds := b.Kept i s₀
  Hears m k l := ∀ p, l = .observer (v p).id ↔ m = (v p).node ∧ k = i p
  requeue hwave h hQ :=
    ⟨h.registered, fun hn => (h.account hn).imp fun _ hL => ⟨hL.1, b.requeue hwave hL.2 hQ⟩⟩
  readdress hwave h hA := h.congr hwave fun p hn => hA _ _ <| (Subject.contains_iff _ _).2 <|
    List.mem_map.2 ⟨_, (h.registered p).present _ rfl hn, rfl⟩
  hears hwave h hl p := (h.registered p).mem_entries_iff (hwave.formed.wired.tidy _) hl
  pass hwave h hl := h.congr hwave fun p _ => Mail.set_of_ne fun heq =>
    Listener.noConfusion ((hl p).2 ⟨heq.1.symm, heq.2.symm⟩)
  hold hwave h := h.quietly hwave (.hold .refl) fun _ => ⟨rfl, fun _ hi => hi.hold⟩
  release hwave h :=
    h.quietly hwave (.release .refl) fun _ => ⟨rfl, fun _ hi => hi.release hwave.formed.ordered⟩
  answer hwave h hears hjoin _ hA := kept_respond b i s₀ ho hv hid hwave h hears hjoin hA
  cell hwave h := kept_onCell b i s₀ ho hv hwave h
  hear {_ m _ _ _ _ _ _ _ _ A w} h hkept hmail := by
    refine ⟨fun p => (hkept.registered p).setContent, fun hn => ?_⟩
    -- what is there afterwards was there before
    have hn₀ : w.network.content? (v b.first).node ≠ none := by
      by_cases hm : (v b.first).node = m
      · rw [hm, content?_of_joined? h.joined]
        simp
      · rwa [← h.content?_after hm]
    obtain ⟨L, hmine, hholds⟩ := hkept.account hn₀
    exact ⟨L, hmine, b.hear h hholds fun p hreach => hmail _ hreach _⟩
  write {n t t' _ _ _ A w} hwave ht hadvance hkept hmail := by
    refine ⟨fun p => (hkept.registered p).setContent, fun hn => ?_⟩
    have hn₀ : w.network.content? (v b.first).node ≠ none := by
      by_cases hm : (v b.first).node = n
      · rw [hm, content?_of_table? ht]
        simp
      · rwa [← hadvance.other _ hm]
    obtain ⟨L, hmine, hholds⟩ := hkept.account hn₀
    exact ⟨L, hmine, b.write hwave ht hadvance hholds fun p hreach => hmail _ hreach _⟩

end Monitor

end Ledger

end LiveTables
