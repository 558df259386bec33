import LiveTables.Proofs.Join.Contents

/-!
# The mirrored join

To exchange the two sides of a join is to exchange them in its kind, in its links and in its pairings
(`Matching.mirror`). Nothing that a matching does tells the sides apart otherwise: each of its operations, done
on the mirrored matching for the opposite side, ends in the mirrored result, with the same identifiers given out in
the same order (`mirror_attach`, `mirror_unlink`, `mirror_link`). So two matchings that are run side by side, one
with all calls mirrored, stay mirrored (`run_mirror`), and show the same (`mirrored_run`).
-/

namespace LiveTables

/-! ## Kinds, pairings and changes -/

/-- The kind with its sides exchanged. -/
def JoinKind.mirror : JoinKind → JoinKind
  | inner => inner
  | leftOuter => rightOuter
  | rightOuter => leftOuter
  | fullOuter => fullOuter

theorem JoinKind.isVisible_mirror (kind : JoinKind) (left right : Bool) :
    kind.mirror.isVisible right left = kind.isVisible left right := by
  cases kind <;> cases left <;> cases right <;> rfl

namespace Match

/-- The pairing with its sides exchanged. -/
def mirror (p : Match) : Match := { p with left := p.right, right := p.left }

variable (p : Match) (side : Side)

@[simp] theorem key_mirror : p.mirror.key = p.key := rfl

@[simp] theorem row_mirror : p.mirror.row = p.row := rfl

@[simp] theorem on_mirror : p.mirror.on side.other = p.on side := by cases side <;> rfl

@[simp] theorem set_mirror (source : Option Nat) :
    p.mirror.set side.other source = (p.set side source).mirror := by cases side <;> rfl

@[simp] theorem ofSides_mirror (key : Value) (source other : Option Nat) :
    ofSides key side.other source other = (ofSides key side source other).mirror := by cases side <;> rfl

end Match

/-- The change with its sides exchanged. -/
def JoinChange.mirror : JoinChange → JoinChange
  | added row => added row
  | updated row side => updated row side.other
  | deleted row => deleted row

/-- The call for the opposite side. -/
def JoinCall.mirror : JoinCall → JoinCall
  | link side row key => link side.other row key
  | unlink side row => unlink side.other row

namespace Matching

/-! ## Steps over pairings -/

/-- The progress with the sides of all changes exchanged. -/
def Progress.mirror (s : Progress) : Progress := { s with changes := s.changes.map JoinChange.mirror }

variable (kind : JoinKind) (side : Side) (key : Value) (source : Nat) (s : Progress)

theorem mirror_settle (p : Match) : settle kind.mirror side.other s.mirror p.mirror =
    ((settle kind side s p).1.mirror, (settle kind side s p).2.mirror) := by
  have hvisible : kind.mirror.isVisible p.mirror.left.isSome p.mirror.right.isSome =
      kind.isVisible p.left.isSome p.right.isSome := kind.isVisible_mirror _ _
  simp only [settle, hvisible, Match.row_mirror]
  rcases p.row with - | id <;> rcases kind.isVisible p.left.isSome p.right.isSome with - | -
  · rfl
  all_goals simp [Progress.mirror, JoinChange.mirror, Match.mirror]

theorem mirror_discard (p : Match) : discard s.mirror p.mirror = (discard s p).mirror := by
  simp only [discard, Match.row_mirror]
  rcases p.row with - | id
  · rfl
  · simp [Progress.mirror, JoinChange.mirror]

theorem mirror_createAll (others : List (Option Nat)) :
    createAll kind.mirror side.other key source s.mirror others =
      ((createAll kind side key source s others).1.mirror,
        (createAll kind side key source s others).2.map Match.mirror) := by
  induction others generalizing s with
  | nil => rfl
  | cons other others ih =>
    simp only [createAll, Match.ofSides_mirror, mirror_settle, ih, List.map_cons]

theorem mirror_fill (p : Match) : fill kind.mirror side.other key source s.mirror p.mirror =
    ((fill kind side key source s p).1.mirror, (fill kind side key source s p).2.map Match.mirror) := by
  simp only [fill, Match.key_mirror, Match.on_mirror, Match.set_mirror, mirror_settle]
  split_ifs <;> rfl

theorem mirror_vacate (last : Bool) (p : Match) :
    vacate kind.mirror side.other source last s.mirror p.mirror =
      ((vacate kind side source last s p).1.mirror,
        (vacate kind side source last s p).2.map Match.mirror) := by
  simp only [vacate, Match.on_mirror, Match.set_mirror, mirror_settle, mirror_discard]
  split_ifs <;> rfl

/-! ## Operations -/

/-- The matching with its sides exchanged. -/
def mirror (m : Matching) : Matching where
  kind := m.kind.mirror
  left := m.right
  right := m.left
  pairings := m.pairings.map Match.mirror
  ids := m.ids

variable (m : Matching)

@[simp] theorem kind_mirror : m.mirror.kind = m.kind.mirror := rfl

@[simp] theorem pairings_mirror : m.mirror.pairings = m.pairings.map Match.mirror := rfl

@[simp] theorem ids_mirror : m.mirror.ids = m.ids := rfl

@[simp] theorem links_mirror : m.mirror.links side.other = m.links side := by cases side <;> rfl

@[simp] theorem key?_mirror : m.mirror.key? side.other source = m.key? side source := by
  rw [key?, links_mirror, key?]

@[simp] theorem rowsUnder_mirror : m.mirror.rowsUnder side.other key = m.rowsUnder side key := by
  rw [rowsUnder, links_mirror, rowsUnder]

/-- What an operation leaves behind and answers ends mirrored if its links, pairings and progress do. -/
theorem mirror_conclude (links : List (Nat × Value)) (pairings : List Match) :
    (({ m.mirror.setLinks side.other links with pairings := pairings.map Match.mirror, ids := s.mirror.ids },
      s.mirror.changes) : Matching × List JoinChange) =
    (mirror { m.setLinks side links with pairings, ids := s.ids }, s.changes.map JoinChange.mirror) := by
  cases side <;> rfl

theorem mirror_attach : m.mirror.attach side.other source key =
    ((m.attach side source key).1.mirror, (m.attach side source key).2.map JoinChange.mirror) := by
  have hcreated := mirror_createAll m.kind side key source { ids := m.ids }
  have hfilled := revise_map Progress.mirror Match.mirror (mirror_fill m.kind side key source) { ids := m.ids } m.pairings
  have hstart : Progress.mirror { ids := m.ids } = { ids := m.ids } := rfl
  rw [hstart] at hcreated hfilled
  simp only [attach, rowsUnder_mirror, links_mirror, kind_mirror, ids_mirror, pairings_mirror]
  -- the row stands alone, takes the open sides of its group, or is paired with each row of the opposite side
  split_ifs
  · rw [hcreated]
    dsimp only
    rw [← List.map_append]
    exact mirror_conclude side _ m _ _
  · rw [hfilled]
    exact mirror_conclude side _ m _ _
  · rw [hcreated]
    dsimp only
    rw [← List.map_append]
    exact mirror_conclude side _ m _ _

theorem mirror_unlink : m.mirror.unlink side.other source =
    ((m.unlink side source).1.mirror, (m.unlink side source).2.map JoinChange.mirror) := by
  rcases hkey : m.key? side source with - | key
  · simp only [unlink, key?_mirror, hkey, List.map_nil]
  · have hrevised (last : Bool) :=
      revise_map Progress.mirror Match.mirror (fun s p => mirror_vacate m.kind side source s last p) { ids := m.ids } m.pairings
    have hstart : Progress.mirror { ids := m.ids } = { ids := m.ids } := rfl
    rw [hstart] at hrevised
    simp only [unlink, key?_mirror, hkey, links_mirror, kind_mirror, ids_mirror, pairings_mirror, hrevised]
    exact mirror_conclude side _ m _ _

theorem mirror_link : m.mirror.link side.other source key =
    ((m.link side source key).1.mirror, (m.link side source key).2.map JoinChange.mirror) := by
  simp only [link, key?_mirror]
  rcases m.key? side source with - | current
  · exact mirror_attach side key source m
  · dsimp only
    split_ifs
    · rfl
    · simp only [mirror_unlink, mirror_attach, List.map_append]

theorem mirror_perform (c : JoinCall) : m.mirror.perform c.mirror =
    ((m.perform c).1.mirror, (m.perform c).2.map JoinChange.mirror) := by
  cases c with
  | link side row key => exact mirror_link side key row m
  | unlink side row => exact mirror_unlink side row m

/-- A matching that is run with mirrored calls stays mirrored. -/
theorem run_mirror (calls : List JoinCall) :
    run kind.mirror (calls.map JoinCall.mirror) = (run kind calls).mirror := by
  induction calls using List.reverseRecOn with
  | nil => rfl
  | append_singleton calls c ih =>
    rw [List.map_append, List.map_singleton, run_append_singleton, run_append_singleton, ih, mirror_perform]

/-! ## Reading -/

theorem filterMap_row_mirror : m.mirror.pairings.filterMap (·.row) = m.pairings.filterMap (·.row) :=
  List.filterMap_map

@[simp] theorem rows_mirror : m.mirror.rows = m.rows := by
  rw [rows, filterMap_row_mirror, rows]

@[simp] theorem sourceRow?_mirror (id : Nat) : m.mirror.sourceRow? side.other id = m.sourceRow? side id := by
  have hpairing : m.mirror.pairing? id = (m.pairing? id).map Match.mirror := List.find?_map
  rw [sourceRow?, hpairing, Option.bind_map, sourceRow?]
  exact congrArg _ (funext fun p => p.on_mirror side)

end Matching

/-- After any calls, the engine of the mirrored kind that was given the mirrored calls has the same joined rows and
as many groups, with the rows of each joined row on the opposite sides. To every further call it answers the same
changes, but for the sides that they name. -/
theorem mirrored_run (kind : JoinKind) (calls : List JoinCall) :
    let e := JoinEngine.run kind calls
    let mirrored := JoinEngine.run kind.mirror (calls.map JoinCall.mirror)
    mirrored.rows = e.rows ∧ mirrored.rowCount = e.rowCount ∧ mirrored.groupCount = e.groupCount ∧
      (∀ side id, mirrored.sourceRow? side.other id = e.sourceRow? side id) ∧
      ∀ c : JoinCall, (mirrored.perform c.mirror).2 = (e.perform c).2.map JoinChange.mirror := by
  intro e mirrored
  have hsound := Matching.sound_run kind calls
  have hsound' : (Matching.run kind calls).mirror.Sound := Matching.run_mirror kind calls ▸ Matching.sound_run _ _
  have hrepresents : e.Represents _ := JoinEngine.represents_run kind calls
  have hrepresents' : mirrored.Represents (Matching.run kind calls).mirror :=
    Matching.run_mirror kind calls ▸ JoinEngine.represents_run _ _
  have hrows : mirrored.rows = e.rows := by rw [hrepresents.rows, hrepresents'.rows, Matching.rows_mirror]
  refine ⟨hrows, ?_, ?_, fun side id => ?_, fun c => ?_⟩
  · rw [hrepresents.rowCount, hrepresents'.rowCount, hrows]
  · rw [hrepresents.groupCount hsound, hrepresents'.groupCount hsound', Matching.pairings_mirror, List.map_map]
    rfl
  · rw [hrepresents.sourceRow? hsound, hrepresents'.sourceRow? hsound', Matching.sourceRow?_mirror]
  · rw [(hrepresents.perform hsound c).2, (hrepresents'.perform hsound' c.mirror).2, Matching.mirror_perform]

end LiveTables
