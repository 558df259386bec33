import LiveTables.Proofs.Join.Keyed
import LiveTables.Proofs.Join.Transit

/-!
# What linking and unlinking keep

A matching is sound (`Matching.Sound`) if its pairings are exactly those that stand, those that are
visible hold the identifiers in use, and no row is linked twice. `attach` and `unlink` each change the
key class of one row and keep a matching sound (`Sound.attach`, `Sound.unlink`); what else they do is told
by the transits of the pairings.
-/

namespace LiveTables

open Match

/-- Whether a pairing is to be a joined row. -/
def JoinKind.shows (kind : JoinKind) (p : Match) : Bool := kind.isVisible p.left.isSome p.right.isSome

/-- A pair is a joined row whatever the kind. -/
theorem JoinKind.shows_of_both {kind : JoinKind} {p : Match} {side : Side} (h : p.on side ≠ none)
    (h' : p.on side.other ≠ none) : kind.shows p = true := by
  rw [← Option.isSome_iff_ne_none] at h h'
  cases side <;> simp_all [shows, isVisible, on, Side.other]

theorem JoinKind.shows_eq_of_sides {kind : JoinKind} {p q : Match} (h : p.sides = q.sides) :
    kind.shows p = kind.shows q := by
  obtain ⟨hleft, hright⟩ := Prod.mk.inj h
  rw [shows, shows, hleft, hright]

namespace Matching

variable {kind : JoinKind} {side : Side} {key : Value} {source : Nat} {s : Progress} {p : Match}
  {ps : List Match} {lands : Option Nat} {touched : Match → Prop}

/-! ## One pairing -/

/-- A pairing is a joined row exactly if it is to be one. -/
def Shown (kind : JoinKind) (p : Match) : Prop := p.row.isSome = kind.shows p

/-- Identifiers and changes go on by a transit of a pairing. -/
def Advances (lands : Option Nat) (side : Side) (touched : Match → Prop) (s : Progress) (p? : Option Match)
    (s' : Progress) (p'? : Option Match) : Prop :=
  ∃ cs, s'.changes = s.changes ++ cs ∧ Transit lands side touched s.ids p? cs s'.ids p'?

theorem settle_shape : (settle kind side s p).2.shape = p.shape := by
  rw [settle]
  split <;> rfl

theorem settle_key : (settle kind side s p).2.key = p.key := by
  rw [← shape_key, settle_shape, shape_key]

theorem settle_sides : (settle kind side s p).2.sides = p.sides := by
  rw [← shape_sides, settle_shape, shape_sides]

theorem settle_shown : Shown kind (settle kind side s p).2 := by
  rw [Shown, JoinKind.shows_eq_of_sides settle_sides, settle, JoinKind.shows]
  split <;> simp_all

/-- A pairing that is made is shown or stays hidden. -/
theorem settle_made (h : p.row = none) (hlands : lands ≠ none) (hon : p.on side = lands) :
    Advances lands side touched s none (settle kind side s p).1 (some (settle kind side s p).2) := by
  rcases hvis : kind.isVisible p.left.isSome p.right.isSome with - | -
  · refine ⟨[], by simp [settle, h, hvis], ?_⟩
    simp only [settle, h, hvis]
    exact .silent s.ids none (some p) (by simp) (by simp [h])
  · refine ⟨[.added s.ids.allocate.2], by simp [settle, h, hvis], ?_⟩
    simp only [settle, h, hvis]
    exact .add s.ids none _ hlands (by simp) rfl ((on_withRow side _).trans hon)

/-- A pairing that a row joins is shown or updated. -/
theorem settle_joined (hmine : touched p) (hopen : p.on side = none) (hocc : p.on side.other ≠ none) :
    Advances (some source) side touched s (some p) (settle kind side s (p.set side (some source))).1
      (some (settle kind side s (p.set side (some source))).2) := by
  have hvis : kind.isVisible (p.set side (some source)).left.isSome
      (p.set side (some source)).right.isSome = true := by
    have hboth : (p.set side (some source)).on side ≠ none := by simp
    exact JoinKind.shows_of_both hboth (by simpa using hocc)
  rcases hrow : p.row with - | id
  · refine ⟨[.added s.ids.allocate.2], by simp [settle, hrow, hvis], ?_⟩
    simp only [settle, row_set, hrow, hvis]
    exact .add s.ids (some p) _ (by simp) (by simp [hrow]) rfl (by cases side <;> rfl)
  · refine ⟨[.updated id side], by simp [settle, hrow, hvis], ?_⟩
    simp only [settle, row_set, hrow, hvis]
    exact .update s.ids p _ id hmine hrow (by simp [hrow]) (by simp) (by simp) (by simp) (by simp [hopen])

/-- A pair that a row leaves is updated or hidden. -/
theorem settle_left (hmine : touched p) (hshown : Shown kind p) (hon : p.on side = some source)
    (hocc : p.on side.other ≠ none) :
    Advances none side touched s (some p) (settle kind side s (p.set side none)).1
      (some (settle kind side s (p.set side none)).2) := by
  obtain ⟨id, hrow⟩ : ∃ id, p.row = some id := by
    rw [← Option.isSome_iff_exists, hshown]
    have hboth : p.on side ≠ none := by simp [hon]
    exact JoinKind.shows_of_both hboth hocc
  rcases hvis : kind.isVisible (p.set side none).left.isSome (p.set side none).right.isSome with - | -
  · refine ⟨[.deleted id], by simp [settle, hrow, hvis], ?_⟩
    simp only [settle, row_set, hrow, hvis]
    exact .delete s.ids p _ id rfl hmine hrow (by simp)
  · refine ⟨[.updated id side], by simp [settle, hrow, hvis], ?_⟩
    simp only [settle, row_set, hrow, hvis]
    exact .update s.ids p _ id hmine hrow (by simp [hrow]) (by simp) (by simp) (by simp) (by simp [hon])

theorem discard_advances (hmine : touched p) :
    Advances none side touched s (some p) (discard s p) none := by
  rcases hrow : p.row with - | id
  · refine ⟨[], by simp [discard, hrow], ?_⟩
    simp only [discard, hrow]
    exact .silent s.ids (some p) none (by simp [hrow]) (by simp)
  · refine ⟨[.deleted id], by simp [discard, hrow], ?_⟩
    simp only [discard, hrow]
    exact .delete s.ids p none id rfl hmine hrow (by simp)

/-! ## All pairings -/

theorem fill_shape : (fill kind side key source s p).2.map shape =
    (some (taken side key source p)).map shape := by
  rw [fill, taken]
  split_ifs
  · simp [settle_shape]
  · rfl

theorem key_fill (s : Progress) (p : Match) : (fill kind side key source s p).2.map (·.key) = some p.key := by
  rw [fill]
  split_ifs
  · simp [settle_key]
  · rfl

theorem fill_shown (h : Shown kind p) : ∀ p' ∈ (fill kind side key source s p).2, Shown kind p' := by
  rw [fill]
  split_ifs
  · rintro p' ⟨⟩
    exact settle_shown
  · rintro p' ⟨⟩
    exact h

theorem fill_advances (h : p.on side = none → p.on side.other ≠ none) :
    Advances (some source) side (·.key.same key) s (some p) (fill kind side key source s p).1
      (fill kind side key source s p).2 := by
  rw [fill]
  split_ifs with hwait
  · exact settle_joined hwait.1 hwait.2 (h hwait.2)
  · exact ⟨[], by simp, .keep s.ids p⟩

theorem vacate_shape {last : Bool} : (vacate kind side source last s p).2.map shape =
    (vacated side source last p).map shape := by
  rw [vacate, vacated]
  split_ifs
  · simp [settle_shape]
  · rfl
  · rfl

/-- A pairing that stays keeps its key. -/
theorem key_vacate (last : Bool) (s : Progress) (p : Match) : (vacate kind side source last s p).2.map (·.key) =
    if ¬ (p.on side = some source ∧ ((p.on side.other).isSome && last) = false) then some p.key else none := by
  rw [vacate]
  split_ifs with hon hstays hgoes hgoes <;> simp_all [settle_key]

theorem vacate_shown {last : Bool} (h : Shown kind p) :
    ∀ p' ∈ (vacate kind side source last s p).2, Shown kind p' := by
  rw [vacate]
  split_ifs
  · rintro p' ⟨⟩
    exact settle_shown
  · rintro p' ⟨⟩
  · rintro p' ⟨⟩
    exact h

theorem vacate_advances {last : Bool} (h : Shown kind p) :
    Advances none side (·.on side = some source) s (some p) (vacate kind side source last s p).1
      (vacate kind side source last s p).2 := by
  rw [vacate]
  split_ifs with hon hstay
  · rw [Bool.and_eq_true, Option.isSome_iff_ne_none] at hstay
    exact settle_left hon h hon hstay.1
  · exact discard_advances hon
  · exact ⟨[], by simp, .keep s.ids p⟩

theorem revise_advances {f : Progress → Match → Progress × Option Match}
    (h : ∀ s, ∀ p ∈ ps, Advances lands side touched s (some p) (f s p).1 (f s p).2) (s : Progress) :
    ∃ cs, (revise f s ps).1.changes = s.changes ++ cs ∧
      Transits lands side touched s.ids ps cs (revise f s ps).1.ids (revise f s ps).2 := by
  induction ps generalizing s with
  | nil => exact ⟨[], by simp [revise], .nil s.ids⟩
  | cons p ps ih =>
    obtain ⟨cs, hcs, hhead⟩ := h s p (by simp)
    obtain ⟨cs', hcs', htail⟩ := ih (fun s q hq => h s q (List.mem_cons_of_mem _ hq)) (f s p).1
    refine ⟨cs ++ cs', ?_, .cons hhead htail⟩
    rw [revise]
    simp [hcs', hcs]

theorem revise_shape {f : Progress → Match → Progress × Option Match}
    {g : Match → Option Match}
    (h : ∀ s, ∀ p ∈ ps, (f s p).2.map shape = (g p).map shape) (s : Progress) :
    (revise f s ps).2.map shape = (ps.filterMap g).map shape := by
  induction ps generalizing s with
  | nil => rfl
  | cons p ps ih =>
    have hhead := h s p (by simp)
    have htail := ih (fun s q hq => h s q (List.mem_cons_of_mem _ hq)) (f s p).1
    rw [List.map_filterMap, List.filterMap_cons, ← hhead, ← List.map_filterMap]
    simp only [revise, List.map_append, htail]
    cases (f s p).2 <;> simp

theorem revise_forall {f : Progress → Match → Progress × Option Match} {P : Match → Prop}
    (h : ∀ s, ∀ p ∈ ps, ∀ p' ∈ (f s p).2, P p') (s : Progress) : ∀ p' ∈ (revise f s ps).2, P p' := by
  induction ps generalizing s with
  | nil => simp [revise]
  | cons p ps ih =>
    intro p' hp'
    simp only [revise, List.mem_append, Option.mem_toList] at hp'
    rcases hp' with hp' | hp'
    · exact h s p (by simp) p' hp'
    · exact ih (fun s q hq => h s q (List.mem_cons_of_mem _ hq)) _ p' hp'

theorem createAll_advances (others : List (Option Nat)) (s : Progress) :
    ∃ cs, (createAll kind side key source s others).1.changes = s.changes ++ cs ∧
      Transits (some source) side touched s.ids [] cs (createAll kind side key source s others).1.ids
        (createAll kind side key source s others).2 := by
  induction others generalizing s with
  | nil => exact ⟨[], by simp [createAll], .nil s.ids⟩
  | cons o others ih =>
    have hfresh : (ofSides key side (some source) o).row = none := row_ofSides
    have hon : (ofSides key side (some source) o).on side = some source := by simp
    obtain ⟨cs, hcs, hhead⟩ : Advances (some source) side touched s none _ _ :=
      settle_made hfresh (by simp) hon
    obtain ⟨cs', hcs', htail⟩ :=
      ih (settle kind side s (ofSides key side (some source) o)).1
    refine ⟨cs ++ cs', ?_, .cons hhead htail⟩
    rw [createAll]
    simp [hcs', hcs]

theorem createAll_shape (others : List (Option Nat)) (s : Progress) :
    (createAll kind side key source s others).2.map shape =
      (others.map (ofSides key side (some source))).map shape := by
  induction others generalizing s with
  | nil => rfl
  | cons o others ih => simp [createAll, settle_shape, ih]

theorem createAll_shown (others : List (Option Nat)) (s : Progress) :
    ∀ p ∈ (createAll kind side key source s others).2, Shown kind p := by
  induction others generalizing s with
  | nil => simp [createAll]
  | cons o others ih =>
    intro p hp
    simp only [createAll, List.mem_cons] at hp
    rcases hp with rfl | hp
    · exact settle_shown
    · exact ih _ p hp

/-! ## Matchings -/

variable {m : Matching}

/-- The canonical key under which a row is linked. -/
def keyClass? (m : Matching) (side : Side) : Nat → Option Value := Keyed.classOf (m.links side)

/-- What holds of a matching between operations. -/
structure Sound (m : Matching) : Prop where
  distinct : ∀ side, Keyed.Distinct (m.links side)
  exact : Exact m.keyClass? m.pairings
  shown : ∀ p ∈ m.pairings, Shown m.kind p
  ids : m.ids.Holds (Match.rows m.pairings)

/-- What an operation on a row of a side does: it gives the row another key class, or takes its class
away, keeps the matching sound, and goes through the pairings once. -/
structure Moves (m : Matching) (lands : Option Nat) (side : Side) (touched : Match → Prop) (source : Nat)
    (g : Option Value) (m' : Matching) (changes : List JoinChange) : Prop where
  kind : m'.kind = m.kind
  classes : m'.keyClass? = relabel m.keyClass? side source g
  sound : m'.Sound
  transits : Transits lands side touched m.ids m.pairings changes m'.ids m'.pairings

theorem sound_empty (kind : JoinKind) : Matching.Sound { kind } where
  distinct side := by cases side <;> exact Keyed.distinct_nil
  exact := {
    stands := by simp
    complete := fun q hq => by
      obtain ⟨side, hocc⟩ := hq.occupied
      obtain ⟨row, hrow⟩ := Option.ne_none_iff_exists'.1 hocc
      have hsits := (sits_of_some hrow).1 (hq.sits side)
      cases side <;> simp [keyClass?, links, Keyed.classOf] at hsits
    nodup := List.nodup_nil }
  shown := by simp
  ids := RowIds.holds_nil

@[simp] theorem links_setLinks_self {links : List (Nat × Value)} :
    (m.setLinks side links).links side = links := by
  cases side <;> rfl

@[simp] theorem links_setLinks_other {links : List (Nat × Value)} :
    (m.setLinks side links).links side.other = m.links side.other := by
  cases side <;> rfl

@[simp] theorem kind_setLinks {links : List (Nat × Value)} : (m.setLinks side links).kind = m.kind := by
  cases side <;> rfl

/-- The links do not depend on the pairings. -/
@[simp] theorem links_mk {pairings : List Match} {ids : RowIds} (s : Side) :
    links ⟨kind, m.left, m.right, pairings, ids⟩ s = m.links s := by
  cases s <;> rfl

theorem mem_rowsUnder (h : m.Sound) {row : Nat} :
    row ∈ m.rowsUnder side key ↔ m.keyClass? side row = some key.canonical :=
  (h.distinct side).mem_under

theorem rowsUnder_eq_nil_iff (h : m.Sound) :
    m.rowsUnder side key = [] ↔ ∀ row, m.keyClass? side row ≠ some key.canonical :=
  (h.distinct side).under_eq_nil_iff

/-- If links and pairings of a matching are as they have to be, so is the matching. -/
theorem Moves.of_transits {m' : Matching} {g : Option Value} {changes : List JoinChange}
    (h : m.Sound) (hkind : m'.kind = m.kind) (hdistinct : Keyed.Distinct (m'.links side))
    (hclass : ∀ row, Keyed.classOf (m'.links side) row =
      if row = source then g else Keyed.classOf (m.links side) row)
    (hother : m'.links side.other = m.links side.other)
    (hexact : Exact (relabel m.keyClass? side source g) m'.pairings)
    (hshown : ∀ p ∈ m'.pairings, Shown m.kind p)
    (htransits : Transits lands side touched m.ids m.pairings changes m'.ids m'.pairings) :
    m.Moves lands side touched source g m' changes := by
  have hclasses : m'.keyClass? = relabel m.keyClass? side source g := by
    funext s row
    rcases Side.eq_or_eq_other s side with rfl | rfl
    · rw [keyClass?, hclass, relabel, keyClass?]
      simp
    · rw [relabel_other, keyClass?, hother, keyClass?]
  refine ⟨hkind, hclasses, ⟨fun s => ?_, hclasses ▸ hexact, hkind ▸ hshown, ?_⟩, htransits⟩
  · rcases Side.eq_or_eq_other s side with rfl | rfl
    · exact hdistinct
    · exact hother ▸ h.distinct side.other
  · exact (htransits.scripted_rows h.ids).holds

/-- The matching after a row was linked, whatever became of the pairings. -/
theorem Sound.moves_attach {s' : Progress} {ps' : List Match} (h : m.Sound)
    (hfree : m.keyClass? side source = none)
    (hexact : Exact (relabel m.keyClass? side source (some key.canonical)) ps')
    (hshown : ∀ p ∈ ps', Shown m.kind p)
    (hadvances : ∃ cs, s'.changes = [] ++ cs ∧
      Transits (some source) side touched m.ids m.pairings cs s'.ids ps') :
    m.Moves (some source) side touched source (some key.canonical)
      { m.setLinks side (m.links side ++ [(source, key)]) with pairings := ps', ids := s'.ids }
      s'.changes := by
  obtain ⟨cs, hcs, htransits⟩ := hadvances
  rw [hcs, List.nil_append]
  refine .of_transits h (by simp) ?_ (fun row => ?_) ?_ hexact hshown htransits
  · simpa using (h.distinct side).append_singleton hfree
  · simpa using (h.distinct side).classOf_append_singleton hfree
  · simp

/-- Pairings of a new row with others are made behind those that are there. -/
theorem createAll_transits (others : List (Option Nat)) :
    ∃ cs, (createAll m.kind side key source { ids := m.ids } others).1.changes = [] ++ cs ∧
      Transits (some source) side touched m.ids m.pairings cs
        (createAll m.kind side key source { ids := m.ids } others).1.ids
        (m.pairings ++ (createAll m.kind side key source { ids := m.ids } others).2) := by
  obtain ⟨cs, hcs, hmade⟩ : ∃ cs, (createAll m.kind side key source { ids := m.ids } others).1.changes =
      [] ++ cs ∧ Transits (some source) side touched m.ids [] cs _ _ := createAll_advances others _
  exact ⟨cs, hcs, by simpa using (Transits.keepAll m.ids m.pairings).append hmade⟩

/-- Linking a row that makes pairings. -/
theorem Sound.moves_create {others : List (Option Nat)} (h : m.Sound)
    (hfree : m.keyClass? side source = none) (hnodup : others.Nodup)
    (hothers : ∀ o, o ∈ others ↔ (ofSides key side (some source) o).Sits m.keyClass? side.other)
    (hclosed : ∀ q : Match, q.Stands m.keyClass? → q.on side = none →
      q.key.canonical ≠ key.canonical) :
    m.Moves (some source) side touched source (some key.canonical)
      { m.setLinks side (m.links side ++ [(source, key)]) with
        pairings := m.pairings ++ (createAll m.kind side key source { ids := m.ids } others).2
        ids := (createAll m.kind side key source { ids := m.ids } others).1.ids }
      (createAll m.kind side key source { ids := m.ids } others).1.changes := by
  refine h.moves_attach hfree ?_ ?_ (createAll_transits others)
  · refine (h.exact.create hfree hnodup hothers hclosed).of_shapes ?_
    rw [List.map_append, List.map_append, createAll_shape]
  · intro p hp
    rcases List.mem_append.1 hp with hp | hp
    · exact h.shown p hp
    · exact createAll_shown others _ p hp

/-- Linking a row that is not linked. -/
theorem Sound.attach (h : m.Sound) (hfree : m.keyClass? side source = none) :
    m.Moves (some source) side (·.key.same key) source (some key.canonical) (m.attach side source key).1
      (m.attach side source key).2 := by
  simp only [Matching.attach]
  split_ifs with hothers hown
  · -- nothing to pair with: the row stands alone
    have halone := (rowsUnder_eq_nil_iff h).1 (List.isEmpty_iff.1 hothers)
    refine h.moves_create hfree (List.nodup_singleton _) (fun o => ?_) fun q hq hopen hkey => ?_
    · cases o with
      | none => simpa [Sits] using halone
      | some o => simpa [Sits] using halone o
    · obtain ⟨o, ho⟩ := Option.ne_none_iff_exists'.1 (((stands_iff side).1 hq).2.2 hopen)
      exact halone o (hkey ▸ (sits_of_some ho).1 (hq.sits side.other))
  · -- the first of its side: it takes the open sides
    have hmine := (rowsUnder_eq_nil_iff h).1 (List.isEmpty_iff.1 hown)
    have hwait : ∃ row, m.keyClass? side.other row = some key.canonical := by
      by_contra hnone
      rw [List.isEmpty_iff, rowsUnder_eq_nil_iff h] at hothers
      exact hothers fun row hrow => hnone ⟨row, hrow⟩
    refine h.moves_attach hfree ?_ ?_ (revise_advances ?_ _)
    · refine (h.exact.fill hfree hmine hwait).of_shapes (revise_shape ?_ _)
      exact fun s p _ => fill_shape
    · exact revise_forall (fun s p hp => fill_shown (h.shown p hp)) _
    · exact fun s p hp => fill_advances ((stands_iff side).1 (h.exact.stands p hp)).2.2
  · -- one more of its side: it is paired with every row of the other
    have hmine : ∃ row, m.keyClass? side row = some key.canonical := by
      by_contra hnone
      rw [List.isEmpty_iff, rowsUnder_eq_nil_iff h] at hown
      exact hown fun row hrow => hnone ⟨row, hrow⟩
    have hnodup : (m.rowsUnder side.other key).Nodup := (h.distinct side.other).nodup_under
    refine h.moves_create hfree (hnodup.map (Option.some_injective _)) (fun o => ?_)
      fun q hq hopen hkey => ?_
    · cases o with
      | none =>
        rw [List.isEmpty_iff, rowsUnder_eq_nil_iff h] at hothers
        simpa [Sits] using hothers
      | some o => simp [Sits, mem_rowsUnder h]
    · obtain ⟨row, hrow⟩ := hmine
      exact (sits_of_none hopen).1 (hq.sits side) row (hkey ▸ hrow)

theorem keyClass?_eq_none_iff : m.keyClass? side source = none ↔ m.key? side source = none := by
  simp [keyClass?, Keyed.classOf, key?]

theorem keyClass?_eq_some_iff {g : Value} : m.keyClass? side source = some g ↔
    ∃ k, m.key? side source = some k ∧ k.canonical = g := by
  simp [keyClass?, Keyed.classOf, key?]

/-- Unlinking a row that is linked. -/
theorem Sound.unlink {g : Value} (h : m.Sound) (hlinked : m.keyClass? side source = some g) :
    m.Moves none side (·.on side = some source) source none (m.unlink side source).1
      (m.unlink side source).2 := by
  obtain ⟨key, hkey, rfl⟩ := keyClass?_eq_some_iff.1 hlinked
  simp only [Matching.unlink, hkey]
  have hclass (row : Nat) : Keyed.classOf ((m.links side).filter (·.1 ≠ source)) row =
      if row = source then none else Keyed.classOf (m.links side) row :=
    (h.distinct side).classOf_filter_ne
  have hdistinct : Keyed.Distinct ((m.links side).filter (·.1 ≠ source)) := (h.distinct side).filter_ne
  have hlast : (!((m.links side).filter (·.1 ≠ source)).any (·.2.same key)) = true ↔
      ∀ row, row ≠ source → m.keyClass? side row ≠ some key.canonical := by
    have hnone : Keyed.under _ key = [] ↔ _ := hdistinct.under_eq_nil_iff
    rw [Keyed.under, List.map_eq_nil_iff, List.filter_eq_nil_iff] at hnone
    rw [Bool.not_eq_true', List.any_eq_false, hnone]
    refine forall_congr' fun row => ?_
    rw [hclass]
    split_ifs with heq
    · simp [heq]
    · simp [heq, keyClass?]
  -- the pairings are revised one by one, and the row is in no class afterwards
  obtain ⟨cs, hcs, htransits⟩ := revise_advances (s := { ids := m.ids })
    (f := vacate m.kind side source (!((m.links side).filter (·.1 ≠ source)).any (·.2.same key)))
    fun s p hp => vacate_advances (h.shown p hp)
  rw [hcs]
  refine .of_transits h (by simp) (by simpa using hdistinct) (by simpa using hclass) (by simp) ?_ ?_
    htransits
  · refine (h.exact.vacate hlinked hlast).of_shapes (revise_shape ?_ _)
    exact fun s p _ => vacate_shape
  · exact revise_forall (fun s p hp => vacate_shown (h.shown p hp)) _

end Matching

end LiveTables
