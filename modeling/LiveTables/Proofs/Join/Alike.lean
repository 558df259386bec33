import LiveTables.Proofs.Join.Numbering

/-!
# Matchings that are alike

A fresh identifier is the smallest one that is not held, so which identifiers a matching will give out depends on those
that it holds, and neither on the order in which it took others back nor on how many it once needed
(`RowIds.Holds.allocate_eq`). Two matchings that differ there at most are alike (`Matching.Alike`). They show the same
joined rows, report the same changes for a call, and are alike again after it (`Alike.perform`).
-/

open scoped List

namespace LiveTables

open Match

theorem Match.rows_cons (p : Match) (ps : List Match) : rows (p :: ps) = rows [p] ++ rows ps := by
  rw [← rows_append, List.singleton_append]

theorem Match.rows_singleton_of_none {p : Match} (h : p.row = none) : rows [p] = [] := by
  rw [rows, List.filterMap_cons_none h, List.filterMap_nil]

theorem Match.rows_singleton_set (p : Match) (side : Side) (r : Option Nat) : rows [p.set side r] = rows [p] := by
  rw [rows, rows, List.filterMap_cons, List.filterMap_cons, row_set]

/-- The fresh identifier is told by those that are held. -/
theorem RowIds.Holds.allocate_eq {ids ids' : RowIds} {held : List Nat} (h : ids.Holds held) (h' : ids'.Holds held) :
    ids'.allocate.2 = ids.allocate.2 :=
  (isLeast_allocate h').unique (isLeast_allocate h)

namespace Matching

variable {s s' : Progress} {p : Match} {ps : List Match} {held rest : List Nat}

/-- The same changes were made and the same identifiers are held. -/
structure Progress.Alike (held : List Nat) (s s' : Progress) : Prop where
  changes : s'.changes = s.changes
  ids : s.ids.Holds held
  ids' : s'.ids.Holds held

theorem Progress.Alike.perm {held' : List Nat} (h : Progress.Alike held s s') (hp : held ~ held') :
    Progress.Alike held' s s' :=
  ⟨h.changes, h.ids.perm hp, h.ids'.perm hp⟩

section Pairings

variable {kind : JoinKind} {side : Side} {key : Value} {source : Nat}

/-! ## One pairing -/

theorem settle_stays {id : Nat} (hrow : p.row = some id) (hshows : kind.shows p = true) :
    settle kind side s p = ({ s with changes := s.changes ++ [.updated id side] }, p) := by
  rw [JoinKind.shows] at hshows
  simp only [settle, hrow, hshows]

theorem settle_goes {id : Nat} (hrow : p.row = some id) (hshows : kind.shows p = false) :
    settle kind side s p =
      ({ ids := s.ids.release id, changes := s.changes ++ [.deleted id] }, { p with row := none }) := by
  rw [JoinKind.shows] at hshows
  simp only [settle, hrow, hshows]

theorem settle_comes (hrow : p.row = none) (hshows : kind.shows p = true) :
    settle kind side s p =
      ({ ids := s.ids.allocate.1, changes := s.changes ++ [.added s.ids.allocate.2] },
        { p with row := some s.ids.allocate.2 }) := by
  rw [JoinKind.shows] at hshows
  simp only [settle, hrow, hshows]

theorem settle_hidden (hrow : p.row = none) (hshows : kind.shows p = false) : settle kind side s p = (s, p) := by
  rw [JoinKind.shows] at hshows
  simp only [settle, hrow, hshows]

theorem settle_alike (kind : JoinKind) (side : Side) (h : Progress.Alike (Match.rows [p] ++ rest) s s') :
    (settle kind side s' p).2 = (settle kind side s p).2 ∧
      Progress.Alike (Match.rows [(settle kind side s p).2] ++ rest) (settle kind side s p).1
        (settle kind side s' p).1 := by
  rcases hrow : p.row with - | id <;> rcases hshows : kind.shows p with - | -
  · rw [settle_hidden hrow hshows, settle_hidden hrow hshows]
    exact ⟨rfl, h⟩
  · -- the pairing is shown: both take the smallest identifier that is not held
    rw [rows_singleton_of_none hrow, List.nil_append] at h
    have hfresh := h.ids.allocate_eq h.ids'
    rw [settle_comes hrow hshows, settle_comes hrow hshows, hfresh, h.changes]
    exact ⟨rfl, rfl, h.ids.allocate, hfresh ▸ h.ids'.allocate⟩
  · rw [rows_singleton_of_eq hrow, List.singleton_append] at h
    rw [settle_goes hrow hshows, settle_goes hrow hshows, h.changes]
    exact ⟨rfl, rfl, h.ids.release, h.ids'.release⟩
  · rw [settle_stays hrow hshows, settle_stays hrow hshows, h.changes]
    exact ⟨rfl, rfl, h.ids, h.ids'⟩

theorem discard_alike (h : Progress.Alike (Match.rows [p] ++ rest) s s') :
    Progress.Alike rest (discard s p) (discard s' p) := by
  rcases hrow : p.row with - | id
  · rw [rows_singleton_of_none hrow, List.nil_append] at h
    simpa only [discard, hrow] using h
  · rw [rows_singleton_of_eq hrow, List.singleton_append] at h
    simp only [discard, hrow, h.changes]
    exact ⟨rfl, h.ids.release, h.ids'.release⟩

/-- What is done to a pairing does not depend on how the free identifiers are kept. -/
def Steady (f : Progress → Match → Progress × Option Match) : Prop :=
  ∀ {s s' : Progress} {p : Match} {rest : List Nat}, Progress.Alike (Match.rows [p] ++ rest) s s' →
    (f s' p).2 = (f s p).2 ∧ Progress.Alike (Match.rows (f s p).2.toList ++ rest) (f s p).1 (f s' p).1

theorem steady_fill : Steady (fill kind side key source) := by
  intro s s' p rest h
  rw [fill, fill]
  split_ifs
  · rw [← rows_singleton_set p side (some source)] at h
    obtain ⟨hpairing, halike⟩ := settle_alike kind side h
    exact ⟨congrArg some hpairing, halike⟩
  · exact ⟨rfl, h⟩

theorem steady_vacate {last : Bool} : Steady (vacate kind side source last) := by
  intro s s' p rest h
  rw [vacate, vacate]
  split_ifs
  · rw [← rows_singleton_set p side none] at h
    obtain ⟨hpairing, halike⟩ := settle_alike kind side h
    exact ⟨congrArg some hpairing, halike⟩
  · exact ⟨rfl, discard_alike h⟩
  · exact ⟨rfl, h⟩

/-! ## All pairings -/

theorem Steady.revise {f : Progress → Match → Progress × Option Match} (hf : Steady f)
    (h : Progress.Alike (Match.rows ps ++ rest) s s') :
    (revise f s' ps).2 = (revise f s ps).2 ∧
      Progress.Alike (Match.rows (revise f s ps).2 ++ rest) (revise f s ps).1 (revise f s' ps).1 := by
  induction ps generalizing s s' rest with
  | nil => exact ⟨rfl, h⟩
  | cons p ps ih =>
    have hswap (a b : List Nat) : a ++ (b ++ rest) ~ b ++ (a ++ rest) := List.perm_append_comm_assoc a b rest
    rw [rows_cons, List.append_assoc] at h
    obtain ⟨hpairing, hhead⟩ := hf h
    obtain ⟨hpairings, htail⟩ := ih (hhead.perm (hswap _ _))
    refine ⟨?_, ?_⟩
    · simp only [Matching.revise, hpairing, hpairings]
    · simp only [Matching.revise, rows_append, List.append_assoc]
      exact htail.perm (hswap _ _)

/-- The same if there are no other identifiers. -/
theorem Steady.reviseAll {f : Progress → Match → Progress × Option Match} (hf : Steady f)
    (h : Progress.Alike (Match.rows ps) s s') :
    (Matching.revise f s' ps).2 = (Matching.revise f s ps).2 ∧
      Progress.Alike (Match.rows (Matching.revise f s ps).2) (Matching.revise f s ps).1
        (Matching.revise f s' ps).1 := by
  have hnone : Progress.Alike (Match.rows ps ++ []) s s' := by rwa [List.append_nil]
  simpa using hf.revise hnone

theorem createAll_alike (kind : JoinKind) (side : Side) (key : Value) (source : Nat) (others : List (Option Nat))
    (h : Progress.Alike held s s') :
    (createAll kind side key source s' others).2 = (createAll kind side key source s others).2 ∧
      Progress.Alike (Match.rows (createAll kind side key source s others).2 ++ held)
        (createAll kind side key source s others).1 (createAll kind side key source s' others).1 := by
  induction others generalizing s s' held with
  | nil => exact ⟨rfl, h⟩
  | cons other others ih =>
    have hfresh : Match.rows [ofSides key side (some source) other] = [] := rows_singleton_of_none row_ofSides
    rw [← List.nil_append held, ← hfresh] at h
    obtain ⟨hpairing, hhead⟩ := settle_alike kind side h
    obtain ⟨hpairings, htail⟩ := ih hhead
    refine ⟨?_, ?_⟩
    · simp only [createAll, hpairing, hpairings]
    · simp only [createAll]
      refine htail.perm ?_
      rw [rows_cons _ (createAll kind side key source _ others).2, List.append_assoc]
      exact List.perm_append_comm_assoc _ _ _

end Pairings

/-! ## Matchings -/

variable {m m' : Matching}

/-- Two matchings differ at most in how they keep the identifiers that are free. -/
structure Alike (m m' : Matching) : Prop where
  eq : m' = { m with ids := m'.ids }
  ids : m.ids.Holds (Match.rows m.pairings)
  ids' : m'.ids.Holds (Match.rows m.pairings)

namespace Alike

variable (h : m.Alike m')

include h

theorem links (side : Side) : m'.links side = m.links side := by
  rw [h.eq]
  cases side <;> rfl

theorem key? (side : Side) (source : Nat) : m'.key? side source = m.key? side source := by
  rw [Matching.key?, Matching.key?, h.links]

theorem rowsUnder (side : Side) (key : Value) : m'.rowsUnder side key = m.rowsUnder side key := by
  rw [Matching.rowsUnder, Matching.rowsUnder, h.links]

theorem kind : m'.kind = m.kind := by rw [h.eq]

theorem pairings : m'.pairings = m.pairings := by rw [h.eq]

theorem progress : Progress.Alike (Match.rows m.pairings) { ids := m.ids } { ids := m'.ids } :=
  ⟨rfl, h.ids, h.ids'⟩

theorem keyClass? : m'.keyClass? = m.keyClass? := by
  funext side
  rw [Matching.keyClass?, h.links, Matching.keyClass?]

theorem sound (he : m.Sound) : m'.Sound where
  distinct side := h.links side ▸ he.distinct side
  exact := by
    rw [h.keyClass?, h.pairings]
    exact he.exact
  shown := by
    rw [h.kind, h.pairings]
    exact he.shown
  ids := by
    rw [h.pairings]
    exact h.ids'

/-- Engines that are alike stay so if their links and pairings become the same. -/
theorem setLinks {links : List (Nat × Value)} (hs : Progress.Alike (Match.rows ps) s s') :
    Alike { m.setLinks side links with pairings := ps, ids := s.ids }
      { m'.setLinks side links with pairings := ps, ids := s'.ids } where
  eq := by
    rw [h.eq]
    cases side <;> rfl
  ids := hs.ids
  ids' := hs.ids'

theorem attach (side : Side) (source : Nat) (key : Value) :
    (m'.attach side source key).2 = (m.attach side source key).2 ∧
      (m.attach side source key).1.Alike (m'.attach side source key).1 := by
  simp only [Matching.attach, h.rowsUnder, h.links, h.kind, h.pairings]
  split_ifs
  · obtain ⟨hcreated, halike⟩ := createAll_alike m.kind side key source [none] h.progress
    rw [hcreated]
    refine ⟨halike.changes, h.setLinks (halike.perm ?_)⟩
    rw [rows_append]
    exact List.perm_append_comm
  · obtain ⟨hfilled, halike⟩ := steady_fill.reviseAll h.progress
    rw [hfilled]
    exact ⟨halike.changes, h.setLinks halike⟩
  · obtain ⟨hcreated, halike⟩ :=
      createAll_alike m.kind side key source ((m.rowsUnder side.other key).map some) h.progress
    rw [hcreated]
    refine ⟨halike.changes, h.setLinks (halike.perm ?_)⟩
    rw [rows_append]
    exact List.perm_append_comm

theorem unlink (side : Side) (source : Nat) :
    (m'.unlink side source).2 = (m.unlink side source).2 ∧
      (m.unlink side source).1.Alike (m'.unlink side source).1 := by
  rcases hkey : m.key? side source with - | key
  · simp only [Matching.unlink, h.key?, hkey]
    exact ⟨trivial, h⟩
  · simp only [Matching.unlink, h.key?, hkey, h.links, h.kind, h.pairings]
    obtain ⟨hvacated, halike⟩ := steady_vacate.reviseAll h.progress
    rw [hvacated]
    exact ⟨halike.changes, h.setLinks halike⟩

theorem link (side : Side) (source : Nat) (key : Value) :
    (m'.link side source key).2 = (m.link side source key).2 ∧
      (m.link side source key).1.Alike (m'.link side source key).1 := by
  rcases hkey : m.key? side source with - | current
  · simp only [Matching.link, h.key?, hkey]
    exact h.attach side source key
  · simp only [Matching.link, h.key?, hkey]
    split_ifs
    · exact ⟨rfl, h⟩
    · obtain ⟨hgone, hleft⟩ := h.unlink side source
      obtain ⟨hcome, hmoved⟩ := hleft.attach side source key
      exact ⟨by rw [hgone, hcome], hmoved⟩

/-- A call has the same answer, and leaves matchings that are alike. -/
theorem perform (c : JoinCall) : (m'.perform c).2 = (m.perform c).2 ∧ (m.perform c).1.Alike (m'.perform c).1 := by
  cases c with
  | link side row key => exact h.link side row key
  | unlink side row => exact h.unlink side row

/-- All calls from now on have the same answers. -/
theorem log (calls : List JoinCall) : m'.log calls = m.log calls := by
  induction calls generalizing m m' with
  | nil => rfl
  | cons c calls ih =>
    obtain ⟨hanswer, halike⟩ := h.perform c
    rw [Matching.log, Matching.log, hanswer, ih halike]

/-! What is read does not depend on the identifiers that are free. -/

theorem rows : m'.rows = m.rows := by rw [Matching.rows, Matching.rows, h.pairings]

theorem sourceRow? (side : Side) (id : Nat) : m'.sourceRow? side id = m.sourceRow? side id := by
  rw [Matching.sourceRow?, Matching.sourceRow?, pairing?, pairing?, h.pairings]

theorem joinedRowsOf (side : Side) (source : Nat) : m'.joinedRowsOf side source = m.joinedRowsOf side source := by
  rw [Matching.joinedRowsOf, Matching.joinedRowsOf, h.pairings]

end Alike

end Matching

end LiveTables
