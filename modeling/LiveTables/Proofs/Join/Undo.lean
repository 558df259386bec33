import LiveTables.Proofs.Join.Alike

/-!
# A link and the unlink after it

A row that is linked and then unlinked leaves no trace. Linking it makes pairings, or gives it the open sides of
pairings that wait for it; unlinking goes through the pairings again, and each of them is taken away or gets its open
side back. With each pairing goes its change (`JoinChange.undo`), whatever identifiers are free by then (`Reverts`,
`revise_vacate_createAll`). So the matching has the links and the pairings that it had before, and differs at most in how
it keeps the free identifiers, of which nothing can be seen (`Sound.alike_undone`).
-/

namespace LiveTables

open Match

/-- The change that takes a change back: what was added is deleted, and what was updated is updated again. -/
def JoinChange.undo : JoinChange → JoinChange
  | added id => deleted id
  | updated id side => updated id side
  | deleted id => added id

namespace Match

variable {p : Match} {side : Side} {r row : Option Nat}

theorem set_withRow : ({ p with row } : Match).set side r = { p.set side r with row } := by
  cases side <;> rfl

/-- A side that was open is open again. -/
theorem set_set_of_open (h : p.on side = none) : (p.set side r).set side none = p := by
  cases side <;> cases p <;> simp_all [set, on]

end Match

namespace Matching

open JoinChange

section Pairings

variable {kind : JoinKind} {side : Side} {key : Value} {source : Nat} {p : Match} {ps : List Match} {last : Bool}

/-! ## One pairing -/

theorem vacate_of_ne {t : Progress} (h : p.on side ≠ some source) : vacate kind side source last t p = (t, some p) :=
  if_neg h

/-- A row leaves a pairing that does not outlast it. -/
theorem vacate_of_goes {t : Progress} (hon : p.on side = some source)
    (hgoes : ((p.on side.other).isSome && last) = false) : vacate kind side source last t p = (discard t p, none) := by
  rw [vacate, if_pos hon, hgoes]
  rfl

/-- The last row of its side leaves a pair. -/
theorem vacate_of_stays {t : Progress} (hon : p.on side = some source) (hocc : p.on side.other ≠ none) :
    vacate kind side source true t p =
      ((settle kind side t (p.set side none)).1, some (settle kind side t (p.set side none)).2) := by
  rw [vacate, if_pos hon, if_pos (by simpa [Option.isSome_iff_ne_none] using hocc)]

/-- One operation leaves something of a pairing, and another one makes of that the pairing as it was; what the first one
tells, the second one takes back. -/
def Reverts (f g : Progress → Match → Progress × Option Match) (p : Match) : Prop :=
  ∀ s t, ∃ p' cs, (f s p).2 = some p' ∧ (f s p).1.changes = s.changes ++ cs ∧
    (g t p').2 = some p ∧ (g t p').1.changes = t.changes ++ cs.map undo

/-- A pairing that a row joins is as before when the row leaves. -/
theorem reverts_fill (hshown : Shown kind p) (hnew : p.on side ≠ some source)
    (hocc : p.on side = none → p.on side.other ≠ none) :
    Reverts (fill kind side key source) (vacate kind side source true) p := by
  intro s t
  rw [fill]
  split_ifs with hwaits
  · have hopen := hwaits.2
    have hother : (p.set side (some source)).on side.other ≠ none := by simpa using hocc hopen
    have hpair : kind.shows (p.set side (some source)) = true := by
      have hon : (p.set side (some source)).on side ≠ none := by simp
      exact JoinKind.shows_of_both hon hother
    rcases hrow : p.row with - | id
    · -- it was no joined row: it becomes one, and is none again
      have hhidden : kind.shows p = false := by rw [← hshown, hrow, Option.isSome_none]
      rw [settle_comes (by simpa using hrow) hpair]
      refine ⟨_, _, rfl, rfl, ?_⟩
      have hback : ({ p.set side (some source) with row := some s.ids.allocate.2 } : Match).set side none =
          { p with row := some s.ids.allocate.2 } := by
        rw [set_withRow, set_set_of_open hopen]
      have hgone : kind.shows { p with row := some s.ids.allocate.2 } = false := hhidden
      rw [vacate_of_stays ((on_withRow _ _).trans on_set_self) (by rwa [on_withRow]), hback, settle_goes rfl hgone]
      refine ⟨?_, rfl⟩
      rw [← hrow]
    · -- it was a joined row, and stays one
      have hvisible : kind.shows p = true := by rw [← hshown, hrow, Option.isSome_some]
      rw [settle_stays (by simpa using hrow) hpair]
      refine ⟨_, _, rfl, rfl, ?_⟩
      rw [vacate_of_stays on_set_self hother, set_set_of_open hopen, settle_stays hrow hvisible]
      exact ⟨rfl, rfl⟩
  · refine ⟨p, [], rfl, (List.append_nil _).symm, ?_⟩
    rw [vacate_of_ne hnew]
    exact ⟨rfl, (List.append_nil _).symm⟩

/-- A pairing that was made of a row goes with it. -/
theorem vacate_made (kind : JoinKind) (side : Side) (key : Value) (source : Nat) {other : Option Nat}
    (hgoes : (other.isSome && last) = false) (s t : Progress) :
    ∃ cs, (settle kind side s (ofSides key side (some source) other)).1.changes = s.changes ++ cs ∧
      (vacate kind side source last t (settle kind side s (ofSides key side (some source) other)).2).2 = none ∧
      (vacate kind side source last t (settle kind side s (ofSides key side (some source) other)).2).1.changes =
        t.changes ++ cs.map undo := by
  have hsides : (settle kind side s (ofSides key side (some source) other)).2.sides = _ := settle_sides
  rw [sides_eq_iff side, on_ofSides_self, on_ofSides_other] at hsides
  rw [vacate_of_goes hsides.1 (by rwa [hsides.2]), discard]
  rcases hshows : kind.shows (ofSides key side (some source) other) with - | -
  · rw [settle_hidden row_ofSides hshows, row_ofSides]
    exact ⟨[], (List.append_nil _).symm, rfl, (List.append_nil _).symm⟩
  · rw [settle_comes row_ofSides hshows]
    exact ⟨_, rfl, rfl, rfl⟩

/-! ## All pairings -/

/-- What is done to each pairing and then taken back is taken back from all of them. -/
theorem revise_revise {f g : Progress → Match → Progress × Option Match} (h : ∀ p ∈ ps, Reverts f g p)
    (s t : Progress) : ∃ cs, (revise f s ps).1.changes = s.changes ++ cs ∧
      (revise g t (revise f s ps).2).2 = ps ∧ (revise g t (revise f s ps).2).1.changes = t.changes ++ cs.map undo := by
  induction ps generalizing s t with
  | nil => exact ⟨[], by simp [revise], rfl, by simp [revise]⟩
  | cons p ps ih =>
    obtain ⟨p', cs, hleft, hcs, hback, hundo⟩ := h p List.mem_cons_self s t
    obtain ⟨cs', hcs', hbacks, hundos⟩ := ih (fun q hq => h q (List.mem_cons_of_mem _ hq)) (f s p).1 (g t p').1
    refine ⟨cs ++ cs', ?_, ?_, ?_⟩
    · simp only [revise, hcs', hcs, List.append_assoc]
    · simp only [revise, hleft, Option.toList_some, List.singleton_append, hback, hbacks]
    · simp only [revise, hleft, Option.toList_some, List.singleton_append, hundos, hundo, List.map_append,
        List.append_assoc]

theorem revise_append {f : Progress → Match → Progress × Option Match} (s : Progress) (ps qs : List Match) :
    revise f s (ps ++ qs) =
      ((revise f (revise f s ps).1 qs).1, (revise f s ps).2 ++ (revise f (revise f s ps).1 qs).2) := by
  induction ps generalizing s with
  | nil => rfl
  | cons p ps ih => simp only [List.cons_append, revise, ih, List.append_assoc]

/-- A row leaves no pairing in which it does not stand. -/
theorem revise_vacate_of_ne (h : ∀ p ∈ ps, p.on side ≠ some source) (t : Progress) :
    revise (vacate kind side source last) t ps = (t, ps) := by
  induction ps with
  | nil => rfl
  | cons p ps ih =>
    have hrest := ih fun q hq => h q (List.mem_cons_of_mem _ hq)
    simp only [revise, vacate_of_ne (h p List.mem_cons_self), hrest, Option.toList_some, List.singleton_append]

/-- The pairings that were made of a row go with it. -/
theorem revise_vacate_createAll (kind : JoinKind) (side : Side) (key : Value) (source : Nat)
    {others : List (Option Nat)} (hgo : ∀ o ∈ others, (o.isSome && last) = false) (s t : Progress) :
    ∃ cs, (createAll kind side key source s others).1.changes = s.changes ++ cs ∧
      (revise (vacate kind side source last) t (createAll kind side key source s others).2).2 = [] ∧
      (revise (vacate kind side source last) t (createAll kind side key source s others).2).1.changes =
        t.changes ++ cs.map undo := by
  induction others generalizing s t with
  | nil => exact ⟨[], by simp [createAll], rfl, by simp [createAll, revise]⟩
  | cons other others ih =>
    obtain ⟨cs, hcs, hnone, hundo⟩ := vacate_made kind side key source (hgo other List.mem_cons_self) s t
    obtain ⟨cs', hcs', hnones, hundos⟩ := ih (fun o ho => hgo o (List.mem_cons_of_mem _ ho))
      (settle kind side s (ofSides key side (some source) other)).1
      (vacate kind side source last t (settle kind side s (ofSides key side (some source) other)).2).1
    refine ⟨cs ++ cs', ?_, ?_, ?_⟩
    · simp only [createAll, hcs', hcs, List.append_assoc]
    · simp only [createAll, revise, hnone, hnones, Option.toList_none, List.nil_append]
    · simp only [createAll, revise, hundos, hundo, List.map_append, List.append_assoc]

end Pairings

/-! ## Matchings -/

variable {m : Matching} {side : Side} {source : Nat} {key : Value}

theorem links_attach (m : Matching) (side : Side) (source : Nat) (key : Value) :
    (m.attach side source key).1.links side = m.links side ++ [(source, key)] := by
  cases side <;> rfl

theorem kind_attach (m : Matching) (side : Side) (source : Nat) (key : Value) :
    (m.attach side source key).1.kind = m.kind := by
  cases side <;> rfl

/-- A row that is linked anew is under the key at once. -/
theorem key?_attach (hfree : m.keyClass? side source = none) :
    (m.attach side source key).1.key? side source = some key := by
  rw [keyClass?_eq_none_iff, key?] at hfree
  rw [key?, links_attach, List.lookup_append, hfree, Option.none_or, lookup_cons, if_pos rfl]

/-- The links without a new row are those from before. -/
theorem filter_links_attach (hfree : m.keyClass? side source = none) :
    ((m.attach side source key).1.links side).filter (·.1 ≠ source) = m.links side := by
  have hnew := Keyed.classOf_eq_none_iff.1 hfree
  have hold : (m.links side).filter (·.1 ≠ source) = m.links side := by
    rw [List.filter_eq_self]
    intro r hr
    have hne : r.1 ≠ source := fun heq => hnew (heq ▸ List.mem_map_of_mem hr)
    simpa using hne
  rw [links_attach, List.filter_append, hold]
  simp

/-- Unlinking a row that was just linked goes through the pairings that there are now. -/
theorem unlink_attach_eq (hfree : m.keyClass? side source = none) :
    let linked := (m.attach side source key).1
    let undone := revise (vacate m.kind side source (m.rowsUnder side key).isEmpty) { ids := linked.ids }
      linked.pairings
    linked.unlink side source = ({ m with pairings := undone.2, ids := undone.1.ids }, undone.1.changes) := by
  simp only [unlink, key?_attach hfree, filter_links_attach hfree, ← Keyed.isEmpty_under, kind_attach]
  cases side <;> rfl

/-- The pairings are again what they were, and the changes are taken back. -/
theorem Sound.revise_attach (h : m.Sound) (hfree : m.keyClass? side source = none) (t : Progress) :
    let linked := m.attach side source key
    let undone := revise (vacate m.kind side source (m.rowsUnder side key).isEmpty) t linked.1.pairings
    undone.2 = m.pairings ∧ undone.1.changes = t.changes ++ linked.2.map undo := by
  have hnew (p : Match) (hp : p ∈ m.pairings) : p.on side ≠ some source := (h.exact.stands p hp).on_ne hfree
  -- pairings that were made stand behind the old ones, in none of which the row stands
  have hmade {last : Bool} {others : List (Option Nat)} (hgo : ∀ o ∈ others, (o.isSome && last) = false) :
      (revise (vacate m.kind side source last) t
          (m.pairings ++ (createAll m.kind side key source { ids := m.ids } others).2)).2 = m.pairings ∧
        (revise (vacate m.kind side source last) t
          (m.pairings ++ (createAll m.kind side key source { ids := m.ids } others).2)).1.changes =
            t.changes ++ (createAll m.kind side key source { ids := m.ids } others).1.changes.map undo := by
    obtain ⟨cs, hcs, hnone, hundo⟩ := revise_vacate_createAll m.kind side key source hgo { ids := m.ids } t
    rw [hcs, List.nil_append, revise_append, revise_vacate_of_ne hnew]
    exact ⟨by rw [hnone, List.append_nil], hundo⟩
  simp only [Matching.attach]
  split_ifs with hothers hown
  · exact hmade (by simp)
  · have hreverts (p : Match) (hp : p ∈ m.pairings) :
        Reverts (fill m.kind side key source) (vacate m.kind side source true) p :=
      reverts_fill (h.shown p hp) (hnew p hp) ((stands_iff side).1 (h.exact.stands p hp)).2.2
    obtain ⟨cs, hcs, hback, hundo⟩ := revise_revise hreverts { ids := m.ids } t
    rw [hown, hcs, List.nil_append]
    exact ⟨hback, hundo⟩
  · rw [Bool.not_eq_true] at hown
    rw [hown]
    exact hmade (by simp)

/-- A row that is linked and unlinked again leaves the matching as it was, and the changes are taken back. -/
theorem Sound.alike_undone (h : m.Sound) (hfree : m.keyClass? side source = none) (key : Value) :
    let linked := m.attach side source key
    let undone := linked.1.unlink side source
    m.Alike undone.1 ∧ undone.2 = linked.2.map undo := by
  intro linked undone
  have hlinked : Moves _ _ _ _ _ _ linked.1 linked.2 := h.attach hfree
  have hclass : linked.1.keyClass? side source = some key.canonical := by rw [hlinked.classes, relabel_self]
  have hsound : undone.1.Sound := (hlinked.sound.unlink hclass).sound
  obtain ⟨hpairings, hchanges⟩ : _ = m.pairings ∧ _ = [] ++ linked.2.map undo :=
    h.revise_attach hfree { ids := linked.1.ids }
  have hundone : undone = _ := unlink_attach_eq hfree
  have hback : undone.1.pairings = m.pairings := by rw [hundone, hpairings]
  refine ⟨⟨?_, h.ids, ?_⟩, ?_⟩
  · rw [hundone, hpairings]
  · rw [← hback]
    exact hsound.ids
  · rw [hundone, hchanges, List.nil_append]

end Matching

open JoinChange

/-- In every state that a join engine can reach, to link a row that is not linked and to unlink it again leaves nothing
behind: the joined rows and what stands in them, their number and that of the groups, the keys of all rows and the
joined rows in which they stand, in order, are what they were, and so are the changes that all later calls report. The
unlink reports what the link reported, with a deletion for every addition. -/
theorem run_link_unlink (kind : JoinKind) (calls : List JoinCall) (side : Side) (row : Nat) (key : Value)
    (hfree : (JoinEngine.run kind calls).key? side row = none) :
    let e := JoinEngine.run kind calls
    let linked := e.link side row key
    let undone := linked.1.unlink side row
    undone.1.rows = e.rows ∧ (∀ s id, undone.1.sourceRow? s id = e.sourceRow? s id) ∧
    undone.1.rowCount = e.rowCount ∧ undone.1.groupCount = e.groupCount ∧
    (∀ s x, undone.1.key? s x = e.key? s x) ∧ (∀ s x, undone.1.joinedRowsOf s x = e.joinedRowsOf s x) ∧
    (∀ later, undone.1.log later = e.log later) ∧
    (∀ id, .deleted id ∉ linked.2) ∧ undone.2 = linked.2.map undo := by
  intro e linked undone
  have hsound := Matching.sound_run kind calls
  have hrepresents : e.Represents _ := JoinEngine.represents_run kind calls
  have hclass : (Matching.run kind calls).keyClass? side row = none :=
    Matching.keyClass?_eq_none_iff.2 (hrepresents.key? side row ▸ hfree)
  have hattach : (Matching.run kind calls).link side row key = _ := Matching.link_eq_attach hclass
  have hmoves : Matching.Moves _ _ _ _ _ _ ((Matching.run kind calls).attach side row key).1 _ := hsound.attach hclass
  -- both steps are those of the matching, which are undone
  obtain ⟨hlinked, hchanges⟩ : linked.1.Represents _ ∧ linked.2 = _ := hrepresents.link hsound side row key
  rw [hattach] at hlinked hchanges
  obtain ⟨hundone, hundoneChanges⟩ : undone.1.Represents _ ∧ undone.2 = _ := hlinked.unlink hmoves.sound side row
  obtain ⟨halike, hundo⟩ := hsound.alike_undone hclass key
  have hsound' := halike.sound hsound
  have hrows : undone.1.rows = e.rows := by rw [hundone.rows, halike.rows, hrepresents.rows]
  refine ⟨hrows, fun s id => ?_, ?_, ?_, fun s x => ?_, fun s x => ?_, fun later => ?_, fun id hid => ?_, ?_⟩
  · rw [hundone.sourceRow? hsound', halike.sourceRow?, hrepresents.sourceRow? hsound]
  · rw [hundone.rowCount, hrepresents.rowCount, hrows]
  · rw [hundone.groupCount hsound', halike.pairings, hrepresents.groupCount hsound]
  · rw [hundone.key?, halike.key?, hrepresents.key?]
  · rw [hundone.joinedRowsOf hsound', halike.joinedRowsOf, hrepresents.joinedRowsOf hsound]
  · rw [hundone.log hsound', halike.log, hrepresents.log hsound]
  · rw [hchanges] at hid
    have hlands := (hmoves.transits.of_mem_deleted hid).1
    simp at hlands
  · rw [hundoneChanges, hundo, hchanges]

/-- A row joins two others of its key while an identifier is free, and leaves again. -/
theorem run_link_unlink_pair :
    let calls : List JoinCall := [.link .left 0 (.int32 7), .link .right 0 (.int32 7), .link .left 1 (.int32 8),
      .link .right 1 (.int32 7), .unlink .left 1]
    let e := JoinEngine.run .fullOuter calls
    let linked := e.link .left 9 (.int32 7)
    let undone := linked.1.unlink .left 9
    e.key? .left 9 = none ∧ linked.2 = [.added 1, .added 3] ∧ undone.2 = [.deleted 1, .deleted 3] ∧
      ∀ later, undone.1.log later = e.log later := by
  have hfree : (JoinEngine.run .fullOuter [.link .left 0 (.int32 7), .link .right 0 (.int32 7),
      .link .left 1 (.int32 8), .link .right 1 (.int32 7), .unlink .left 1]).key? .left 9 = none := by decide +kernel
  obtain ⟨-, -, -, -, -, -, hlog, -, hchanges⟩ := run_link_unlink _ _ .left 9 (.int32 7) hfree
  have hlinked : ((JoinEngine.run .fullOuter [.link .left 0 (.int32 7), .link .right 0 (.int32 7),
      .link .left 1 (.int32 8), .link .right 1 (.int32 7), .unlink .left 1]).link .left 9 (.int32 7)).2 =
        [.added 1, .added 3] := by decide +kernel
  exact ⟨hfree, hlinked, by rw [hchanges, hlinked]; rfl, hlog⟩

-- the identifier that was given back stays free; a new engine never gave it out
example : (((JoinEngine.run .fullOuter []).link .left 0 (.int32 7)).1.unlink .left 0).1.ids = ⟨[0], 1⟩ := by
  decide +kernel

end LiveTables
