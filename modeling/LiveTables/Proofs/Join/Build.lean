import LiveTables.Proofs.Join.Cells
import LiveTables.Proofs.Join.Contents

/-!
# Building a joined table

A joined table is built from the views of its sources. If that succeeds, the table shows the columns of both,
and has linked every row of a source under the key that the row has (`JoinedTable.Built`). Hence it is valid
(`Built.valid`), given that the columns of a source have different names and the gaps the right kinds.
-/

namespace LiveTables.JoinedTable

variable {spec : JoinSpec} {left right source : TableView} {l r n : Nat} {j : JoinedTable} {side s : Side}
  {key : String} {e e' : JoinEngine} {columns : List (String × Kind)}

theorem kindsOf_eq_ok (h : kindsOf source = .ok columns) : columns.map (·.1) = source.columnIds ∧
    ∀ c kind, (c, kind) ∈ columns → source.columnKind c = .ok kind := by
  have hall := mapM_eq_ok_iff.1 h
  clear h
  generalize source.columnIds = ids at hall
  induction hall with
  | nil => exact ⟨rfl, fun c kind hmem => absurd hmem List.not_mem_nil⟩
  | @cons id column ids columns hid _ ih =>
    obtain ⟨kind, hkind, heq⟩ := bind_eq_ok_iff.1 hid
    obtain rfl := Except.ok.inj heq
    refine ⟨by rw [List.map_cons, ih.1], fun c k hmem => ?_⟩
    rcases List.mem_cons.1 hmem with heq | hmem
    · obtain ⟨rfl, rfl⟩ := Prod.mk.inj heq
      exact hkind
    · exact ih.2 c k hmem

/-- Linking the rows of a source leaves the other side alone. -/
theorem linkRows_eq_ok (he : e.Sound) (h : linkRows side key source e = .ok e') :
    e'.Sound ∧ e'.kind = e.kind ∧ (∀ n ∈ source.rows, source.class? n key ≠ none) ∧
      ∀ s n, e'.keyClass? s n =
        if s = side ∧ n ∈ source.rows then source.class? n key else e.keyClass? s n := by
  rw [linkRows] at h
  generalize source.rows = rows at h
  induction rows generalizing e with
  | nil =>
    obtain rfl := Except.ok.inj h
    exact ⟨he, rfl, fun n hn => absurd hn List.not_mem_nil, fun s n => by simp⟩
  | cons row rows ih =>
    rw [List.foldlM_cons] at h
    obtain ⟨e₁, he₁, hrest⟩ := bind_eq_ok_iff.1 h
    obtain ⟨v, hv, heq⟩ := bind_eq_ok_iff.1 he₁
    obtain rfl := Except.ok.inj heq
    have hclass : source.class? row key = some v.canonical := by rw [TableView.class?, hv, Value.class?_ok]
    obtain ⟨hsound, hkind, hreads, hclasses⟩ := ih (he.perform (.link side row v)) hrest
    refine ⟨hsound, hkind.trans (he.kind_perform (.link side row v)), fun n hn => ?_, fun s n => ?_⟩
    · rcases List.mem_cons.1 hn with rfl | hn
      · simp [hclass]
      · exact hreads n hn
    · have hlinked : (e.link side row v).1.keyClass? s n =
          if s = side ∧ n = row then some v.canonical else e.keyClass? s n :=
        congrFun (congrFun (he.classes_perform (.link side row v)) s) n
      -- a row that comes again later is linked by the same key, so the order does not matter
      rw [hclasses]
      show (if s = side ∧ n ∈ rows then _ else (e.link side row v).1.keyClass? s n) = _
      rw [hlinked]
      by_cases hlater : s = side ∧ n ∈ rows
      · rw [if_pos hlater, if_pos ⟨hlater.1, List.mem_cons_of_mem _ hlater.2⟩]
      · rw [if_neg hlater]
        by_cases hfirst : s = side ∧ n = row
        · rw [if_pos hfirst, if_pos ⟨hfirst.1, List.mem_cons.2 (.inl hfirst.2)⟩, hfirst.2, hclass]
        · rw [if_neg hfirst, if_neg]
          rintro ⟨hs, hn⟩
          rcases List.mem_cons.1 hn with rfl | hn
          · exact hfirst ⟨hs, rfl⟩
          · exact hlater ⟨hs, hn⟩

/-- What a joined table takes from the views of its sources. -/
structure Built (j : JoinedTable) (source : Side → TableView) : Prop where
  ids : ∀ s, j.sideIds s = (source s).columnIds
  kinds : ∀ s c kind, (c, kind) ∈ j.columns s → (source s).columnKind c = .ok kind
  keys : ∀ s, ∃ kind, (source s).columnKind (j.key s) = .ok kind
  disjoint : ∀ c ∈ (source .right).columnIds, c ∉ (source .left).columnIds
  computed : j.computed = {}
  sound : j.engine.Sound
  readable : ∀ s, ∀ n ∈ (source s).rows, (source s).class? n (j.key s) ≠ none
  classes : ∀ s n, j.engine.keyClass? s n =
    if n ∈ (source s).rows then (source s).class? n (j.key s) else none

/-- The view of the source of a side. -/
def sourceView (left right : TableView) : Side → TableView
  | .left => left
  | .right => right

theorem not_throw_bind {α β : Type} {err : TableError} {f : α → Except TableError β} {b : β} :
    (throw err >>= f : Except TableError β) ≠ .ok b := by
  intro h
  obtain ⟨a, ha, -⟩ := bind_eq_ok_iff.1 h
  exact absurd ha (by simp [throw, throwThe, MonadExceptOf.throw])

/-- Joining succeeds only if the sources have the key columns and share no column, and if every key can be
read. -/
theorem built_of_sources (h : ofSources spec l r left right = .ok j) :
    j.Built (sourceView left right) ∧ j.left = l ∧ j.right = r ∧ j.gap = spec.gap ∧
      j.engine.kind = spec.kind := by
  rw [ofSources] at h
  -- the checks one after the other, then the rows of the left source, then those of the right
  obtain ⟨leftKind, hleftKind, h⟩ := bind_eq_ok_iff.1 h
  obtain ⟨rightKind, hrightKind, h⟩ := bind_eq_ok_iff.1 h
  dsimp only at h
  split_ifs at h
  · exact absurd h not_throw_bind
  · exact absurd h not_throw_bind
  · exact absurd h not_throw_bind
  obtain ⟨leftColumns, hleft, h⟩ := bind_eq_ok_iff.1 h
  obtain ⟨rightColumns, hright, h⟩ := bind_eq_ok_iff.1 h
  rcases hshared : right.columnIds.find? (· ∈ left.columnIds) with - | id
  swap
  · rw [hshared] at h
    exact absurd h (by simp [throw, throwThe, MonadExceptOf.throw])
  rw [hshared] at h
  obtain ⟨e₁, hlinkLeft, h⟩ := bind_eq_ok_iff.1 h
  obtain ⟨e₂, hlinkRight, h⟩ := bind_eq_ok_iff.1 h
  obtain rfl := Except.ok.inj h
  obtain ⟨hsound₁, hkind₁, hreads₁, hclasses₁⟩ := linkRows_eq_ok (JoinEngine.sound_empty spec.kind) hlinkLeft
  obtain ⟨hsound₂, hkind₂, hreads₂, hclasses₂⟩ := linkRows_eq_ok hsound₁ hlinkRight
  have hnone (s : Side) (n : Nat) : JoinEngine.keyClass? { kind := spec.kind } s n = none := by
    cases s <;> rfl
  refine ⟨⟨fun s => ?_, fun s c kind hmem => ?_, fun s => ?_, fun c hc => ?_, rfl, hsound₂, fun s n hn => ?_,
    fun s n => ?_⟩, rfl, rfl, rfl, hkind₂.trans hkind₁⟩
  · cases s with
    | left => exact (kindsOf_eq_ok hleft).1
    | right => exact (kindsOf_eq_ok hright).1
  · cases s with
    | left => exact (kindsOf_eq_ok hleft).2 c kind hmem
    | right => exact (kindsOf_eq_ok hright).2 c kind hmem
  · cases s with
    | left => exact ⟨leftKind, hleftKind⟩
    | right => exact ⟨rightKind, hrightKind⟩
  · have hfree := List.find?_eq_none.1 hshared c hc
    show c ∉ left.columnIds
    simpa using hfree
  · cases s with
    | left => exact hreads₁ n hn
    | right => exact hreads₂ n hn
  · show e₂.keyClass? s n = _
    rw [hclasses₂, hclasses₁, hnone]
    cases s with
    | left =>
      rw [if_neg (by simp)]
      exact if_congr (and_iff_right rfl) rfl rfl
    | right =>
      have hright : ¬ (Side.right = .left ∧ n ∈ left.rows) := by simp
      rw [if_neg hright]
      exact if_congr (and_iff_right rfl) rfl rfl

section Built

variable {source : Side → TableView}

/-- A joined table that was built is valid, if it is built from proper tables and has proper gaps. -/
theorem Built.valid (h : j.Built source) (hnodup : ∀ s, (source s).columnIds.Nodup)
    (hknown : ∀ s c kind, (source s).columnKind c = .ok kind → c ∈ (source s).columnIds)
    (hgap : ∀ c kind, (j.gap c kind).kind = kind) : j.Valid where
  nodup := by
    rw [h.ids, h.ids, List.nodup_append']
    exact ⟨hnodup .left, hnodup .right, fun c hleft hright => h.disjoint c hright hleft⟩
  key s := by
    obtain ⟨kind, hkind⟩ := h.keys s
    rw [h.ids]
    exact hknown s _ kind hkind
  gap := hgap
  registered := by
    rw [h.computed]
    exact .nil
  sound := h.sound

end Built

end LiveTables.JoinedTable
