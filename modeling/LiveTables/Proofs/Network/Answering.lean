import LiveTables.Proofs.Join.Run
import LiveTables.Proofs.Network.Speaking

/-!
# A joined table answers

What a joined table does with an event of a source is to hear the notice that waits first on that side, and to
say what follows (`onSourceEvent_eq`). Afterwards the notice is gone from the queue, nothing new waits anywhere,
and the tables before the joined one are untouched (`onSourceEvent_spec`).
-/

namespace LiveTables

namespace Network

open Notice JoinedTable JoinEngine

variable {net : Network} {n₀ n depth : Nat} {Q : Queues} {A : Mail} {j : JoinedTable} {side : Side} {x : Notice}
  {rest : List Notice} {engine : JoinEngine} {changes : List JoinChange} {columns : List String}

/-- The same table in the place of itself. -/
theorem Ordered.setContent_self {c : Content} (h : net.Ordered) (hc : net.content? n = some c) :
    net.setContent n c = net := by
  have hnodes : (net.nodes.map fun x => if x.id = n then { x with content := c } else x) = net.nodes := by
    refine (List.map_congr_left fun x hx => ?_).trans (List.map_id _)
    split_ifs with hid
    · have hx' := h.content?_of_mem hx
      rw [hid, hc] at hx'
      obtain rfl := Option.some.inj hx'
      rfl
    · rfl
  rw [setContent, Network.modify, hnodes]

/-! ## Hearing -/

/-- The queues after the first notice of a side was dealt with. -/
def heard (Q : Queues) (n : Nat) (side : Side) (rest : List Notice) : Queues :=
  fun K s => if K = n ∧ s = side then rest else Q K s

section

variable (hw : Wave net n₀ Q) (hj : net.joined? n = some j) (hqueue : Q n side = x :: rest)
  (habove : ∀ K j s, net.joined? K = some j → net.Reaches n (j.source s) → Q K s = [])

include hw hj hqueue habove

/-- The row is unlinked. -/
theorem hearing_unlink (haction : x.event.action = .delete) :
    Hearing net n₀ Q n j side x rest (j.engine.unlink side x.event.row).1
      (j.engine.unlink side x.event.row).2 [] := by
  have hsound := (hw.formed.valid n j hj).sound
  refine ⟨hw, hj, hqueue, habove, hsound.outcome (.unlink side x.event.row), fun _ => ?_, fun hrelinked => ?_, fun hupdate => ?_,
    fun hupdate => ?_, fun c hc => absurd hc List.not_mem_nil, fun hne => absurd rfl hne⟩
  · have hclass := congrFun (congrFun (hsound.classes_perform (.unlink side x.event.row)) side) x.event.row
    exact hclass.trans (Match.relabel_self _)
  · exact absurd haction hrelinked.ne_delete
  · exact absurd (haction.symm.trans hupdate) (by simp)
  · exact absurd (haction.symm.trans hupdate) (by simp)

/-- The row is linked under its key. -/
theorem hearing_link {key : Value} (hrelinks : j.Relinks side x)
    (hkey : (net.shown (j.source side)).get (j.key side) x.event.row = .ok key)
    (hnamed : x.event.action = .update → ∀ c ∈ x.event.columns, c ≠ j.key side → c ∈ j.sideIds side →
      c ∈ columns)
    (hplain : ∀ c ∈ columns, c ∈ j.sideIds side ∧ c ≠ j.key side ∧ c ∈ x.event.columns)
    (hupdate : columns ≠ [] → x.event.action = .update) :
    Hearing net n₀ Q n j side x rest (j.engine.link side x.event.row key).1
      (j.engine.link side x.event.row key).2 columns := by
  have hsound := (hw.formed.valid n j hj).sound
  refine ⟨hw, hj, hqueue, habove, hsound.outcome (.link side x.event.row key), fun haction => ?_, fun _ => ?_,
    fun haction hnot => ?_, hnamed, hplain, hupdate⟩
  · exact absurd haction hrelinks.ne_delete
  · have hclass := congrFun (congrFun (hsound.classes_perform (.link side x.event.row key)) side) x.event.row
    rw [actual, TableView.class?, hkey]
    exact hclass.trans (Match.relabel_self _)
  · rcases hrelinks with hadd | ⟨-, hmem⟩
    · exact absurd (hadd.symm.trans haction) (by simp)
    · exact absurd hmem hnot

/-- The row is left as it is linked. -/
theorem hearing_idle (haction : x.event.action = .update) (hkey : j.key side ∉ x.event.columns)
    (hnamed : ∀ c ∈ x.event.columns, c ≠ j.key side → c ∈ j.sideIds side → c ∈ columns)
    (hplain : ∀ c ∈ columns, c ∈ j.sideIds side ∧ c ≠ j.key side ∧ c ∈ x.event.columns) :
    Hearing net n₀ Q n j side x rest j.engine [] columns := by
  have hsound := (hw.formed.valid n j hj).sound
  refine ⟨hw, hj, hqueue, habove, Outcome.refl hsound side x.event.row, fun hdelete => ?_,
    fun hrelinks => ?_, fun _ _ => ⟨rfl, rfl⟩, fun _ => hnamed, hplain, fun _ => haction⟩
  · exact absurd (haction.symm.trans hdelete) (by simp)
  · rcases hrelinks with hadd | ⟨-, hmem⟩
    · exact absurd (hadd.symm.trans haction) (by simp)
    · exact absurd hmem hkey

end

namespace Hearing

variable (h : Hearing net n₀ Q n j side x rest engine changes columns)

include h

theorem follows : Follows n net h.after := follows_setJoined h.joined rfl

theorem ready (hdepth : ∀ K, net.joined? K ≠ none → K < n + depth)
    (hmail : ∀ m, net.Reaches n m → ∀ i, A m i = []) : h.after.Ready (heard Q n side rest) A n depth where
  formed := h.formed_after
  above K j' s hj' hreach := by
    have hlt : n < K :=
      Nat.lt_of_le_of_lt (hreach.le h.formed_after.ordered) (h.formed_after.ordered.source hj' s).1
    rw [heard, if_neg fun heq => Nat.ne_of_gt hlt heq.1]
    have hj₀ : net.joined? K = some j' :=
      (joined?_congr (h.content?_after (Nat.ne_of_gt hlt))).symm.trans hj'
    exact h.above K j' s hj₀ (h.follows.reaches hreach)
  mail m hreach := hmail m (h.follows.reaches hreach)
  positive := by
    have hself := hdepth n (by simp [h.joined])
    omega
  depth K hK := by
    obtain ⟨j', hj'⟩ := Option.ne_none_iff_exists'.1 hK
    refine hdepth K ?_
    obtain ⟨j₀, hj₀, -⟩ := sourceOf?_eq_some_iff.1
      (h.follows.sources K .left _ (sourceOf?_of_joined? hj' .left))
    simp [hj₀]

/-- What the joined table has to say waits at the tables above. -/
theorem speak_heard (K : Nat) (j' : JoinedTable) (s : Side) (hj' : h.after.joined? K = some j') :
    speak h.after (heard Q n side rest) n h.told K s = h.queues K s := by
  have hsources : h.after.sourceOf? K s = net.sourceOf? K s := by
    have hsource := sourceOf?_of_joined? hj' s
    rw [hsource, h.follows.sources K s _ hsource]
  rw [queues, hear, speak, hsources]
  by_cases hK : K = n
  · -- no table is its own source
    subst hK
    have hne : net.sourceOf? K s ≠ some K := by
      rw [sourceOf?_of_joined? h.joined]
      intro heq
      exact Nat.ne_of_lt (h.ordered.source h.joined s).1 (Option.some.inj heq)
    rw [if_neg hne, if_pos rfl, heard]
    simp
  · have hheard : heard Q n side rest K s = Q K s := if_neg fun heq => hK heq.1
    rw [if_neg hK, hheard]

/-- The joined table begins to speak. -/
theorem speaking : h.after.Speaking n₀ (heard Q n side rest) n h.after h.told :=
  ⟨.refl _ _, h.wave_after.congr h.speak_heard⟩

end Hearing

/-- When a table has said all, what waits is what waited before. -/
theorem speak_nil {net₀ : Network} (hQ : ∀ K s, net₀.sourceOf? K s = some n → Q K s = []) :
    speak net₀ Q n [] = Q := by
  funext K s
  rw [speak]
  split_ifs with hsource
  · exact (hQ K s hsource).symm
  · rfl

theorem Ready.sources_silent {net₀ : Network} (h : net₀.Ready Q A n depth) (K : Nat) (s : Side)
    (hsource : net₀.sourceOf? K s = some n) : Q K s = [] := by
  obtain ⟨j, hj, hs⟩ := sourceOf?_eq_some_iff.1 hsource
  refine h.above K j s hj ?_
  rw [hs]
  exact .refl

end Network

namespace World

open Network Notice JoinedTable

variable {ω : Type} {d : Dispatch ω} {w : World ω} {n n₀ depth : Nat} {Q : Queues} {A : Mail} {j : JoinedTable}
  {side : Side} {x : Notice} {rest : List Notice}

section

variable (hw : Wave w.network n₀ Q) (hj : w.network.joined? n = some j) (hqueue : Q n side = x :: rest)
  (habove : ∀ K j s, w.network.joined? K = some j → w.network.Reaches n (j.source s) → Q K s = [])

include hw hj

theorem keyOf_eq {key : Value} {row : Nat}
    (hkey : (w.network.shown (j.source side)).get (j.key side) row = .ok key) :
    w.keyOf j side row = some key := by
  have hview := hw.formed.ordered.view?_eq (hw.formed.ordered.source hj side).2
  rw [keyOf, hview, Option.bind_some, hkey]
  rfl

include hqueue habove

/-- An event of a source is heard, and then the joined table says what follows. -/
theorem onSourceEvent_eq : ∃ engine changes columns,
    ∃ h : Hearing w.network n₀ Q n j side x rest engine changes columns,
      onSourceEvent d w n j side x.event =
        sayAll d (w.modifyNetwork fun _ => h.after) n side x.event.row changes columns := by
  have hmem : x ∈ Q n side := by
    rw [hqueue]
    exact List.mem_cons_self
  have hnamed (c : String) (hc : c ∈ x.event.columns) (hother : c ≠ j.key side) (hside : c ∈ j.sideIds side) :
      c ∈ j.plainColumns side x.event.columns := mem_plainColumns.2 ⟨hside, hother, hc⟩
  rcases haction : x.event.action with - | - | -
  · -- a row was added
    obtain ⟨key, hkey⟩ := hw.exists_key hj hmem (by simp [haction])
    have hlink : Hearing w.network n₀ Q n j side x rest _ _ [] :=
      hearing_link hw hj hqueue habove (.inl haction) hkey (by simp [haction]) (by simp) (by simp)
    refine ⟨_, _, [], hlink, ?_⟩
    rw [onSourceEvent, haction]
    simp only [relink, keyOf_eq hw hj hkey]
    rfl
  · -- a row was updated
    by_cases htouched : j.key side ∈ x.event.columns
    · obtain ⟨key, hkey⟩ := hw.exists_key hj hmem (by simp [haction])
      have hlink := hearing_link hw hj hqueue habove (.inr ⟨haction, htouched⟩) hkey (fun _ => hnamed)
        (fun c => mem_plainColumns.1) fun _ => haction
      refine ⟨_, _, _, hlink, ?_⟩
      rw [onSourceEvent, haction]
      simp only [relink, keyOf_eq hw hj hkey, Event.touches, htouched, decide_true, if_true]
      rfl
    · have hidle := hearing_idle hw hj hqueue habove haction htouched hnamed fun c => mem_plainColumns.1
      refine ⟨_, _, _, hidle, ?_⟩
      have hafter : hidle.after = w.network :=
        hw.formed.ordered.setContent_self (content?_of_joined? hj)
      have hworld : (w.modifyNetwork fun _ => hidle.after) = w := by rw [hafter]; rfl
      have hpublish : publish d w n [] = w := by
        rw [publish, hj]
        rfl
      rw [hworld, sayAll, hpublish, onSourceEvent, haction]
      simp only [Event.touches, htouched, decide_false, Bool.false_eq_true, if_false]
      rfl
  · -- a row was deleted
    have hunlink := hearing_unlink hw hj hqueue habove haction
    refine ⟨_, _, [], hunlink, ?_⟩
    rw [onSourceEvent, haction]
    rfl

/-- What a joined table does with an event takes one notice from the queue. -/
theorem onSourceEvent_spec {o : Outside ω} {M : Monitor o} (hd : M.Announces d n depth)
    (hdepth : ∀ K, w.network.joined? K ≠ none → K < n + depth)
    (hmail : ∀ m, w.network.Reaches n m → ∀ i, A m i = []) (hholds : M.Holds Q A w) :
    Follows n w.network (onSourceEvent d w n j side x.event).network ∧
      Wave (onSourceEvent d w n j side x.event).network n₀ (heard Q n side rest) ∧
      M.Holds (heard Q n side rest) A (onSourceEvent d w n j side x.event) := by
  obtain ⟨engine, changes, columns, h, heq⟩ := onSourceEvent_eq hw hj hqueue habove
  have hready := h.ready hdepth hmail
  have hspeaking : M.Speaking h.after n₀ (heard Q n side rest) A n (w.modifyNetwork fun _ => h.after)
      (h.told ++ []) := by
    rw [List.append_nil]
    exact ⟨h.speaking, M.requeue h.wave_after (M.hear h hholds hmail) h.speak_heard⟩
  have hsaid := Monitor.speaking_sayAll hd hready h.joined_after hspeaking
  rw [← heq] at hsaid
  obtain ⟨⟨hfollows, hwave⟩, hholds'⟩ := hsaid
  rw [speak_nil hready.sources_silent] at hwave hholds'
  rw [Mail.speak_nil (hready.mail n .refl)] at hholds'
  exact ⟨h.follows.trans (hfollows.mono (Nat.le_succ n)), hwave, hholds'⟩

end

end World

end LiveTables
