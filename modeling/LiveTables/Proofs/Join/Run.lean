import LiveTables.Proofs.Join.Represents

/-!
# Runs

A run links and unlinks rows, in any order: known and unknown rows, once or again, under equal or other
keys. After every run that starts with nothing a matching is sound (`Matching.sound_run`), and its links are
what the calls say (`JoinCall.keyClass?_run`).
-/

open scoped List

namespace LiveTables

/-- A call to a join. -/
inductive JoinCall where
  | link (side : Side) (row : Nat) (key : Value)
  | unlink (side : Side) (row : Nat)

namespace JoinCall

/-- The side of the row that is linked or unlinked. -/
def side : JoinCall → Side
  | link side _ _ => side
  | unlink side _ => side

/-- The row that is linked or unlinked. -/
def row : JoinCall → Nat
  | link _ row _ => row
  | unlink _ row => row

/-- The canonical key under which the row is linked afterwards. -/
def class? : JoinCall → Option Value
  | link _ _ key => some key.canonical
  | unlink _ _ => none

/-- The rows of a side with their keys after a call, whatever a join does: a link puts the row under
its key, an unlink takes it away. -/
def record (s : Side) (rows : Keyed) : JoinCall → Keyed
  | link side row key => if side = s then rows.filter (·.1 ≠ row) ++ [(row, key)] else rows
  | unlink side row => if side = s then rows.filter (·.1 ≠ row) else rows

/-- The rows of a side that are linked after some calls, with their keys. -/
def linked (calls : List JoinCall) (s : Side) : Keyed := calls.foldl (record s) []

end JoinCall

namespace Matching

/-- Answers a call. -/
def perform (m : Matching) : JoinCall → Matching × List JoinChange
  | .link side row key => m.link side row key
  | .unlink side row => m.unlink side row

/-- A new matching after some calls. -/
def run (kind : JoinKind) (calls : List JoinCall) : Matching :=
  calls.foldl (fun m c => (m.perform c).1) { kind }

/-- The changes that calls report, one call after the other. -/
def log (m : Matching) : List JoinCall → List JoinChange
  | [] => []
  | c :: calls => (m.perform c).2 ++ log (m.perform c).1 calls

theorem run_append_singleton (kind : JoinKind) (calls : List JoinCall) (c : JoinCall) :
    run kind (calls ++ [c]) = ((run kind calls).perform c).1 := by
  simp [run]

variable {m : Matching} {side : Side} {source : Nat} {key : Value}

/-! ## One call -/

theorem unlink_eq_self (hfree : m.keyClass? side source = none) : m.unlink side source = (m, []) := by
  rw [keyClass?_eq_none_iff] at hfree
  rw [unlink, hfree]

theorem link_eq_attach (hfree : m.keyClass? side source = none) :
    m.link side source key = m.attach side source key := by
  rw [keyClass?_eq_none_iff] at hfree
  rw [link, hfree]

theorem link_eq_self (hlinked : m.keyClass? side source = some key.canonical) :
    m.link side source key = (m, []) := by
  obtain ⟨k, hk, hsame⟩ := keyClass?_eq_some_iff.1 hlinked
  simp only [link, hk]
  rw [if_pos (Value.same_iff.2 hsame)]

theorem link_eq_move {g : Value} (hlinked : m.keyClass? side source = some g)
    (hne : g ≠ key.canonical) : m.link side source key =
      (((m.unlink side source).1.attach side source key).1,
        (m.unlink side source).2 ++ ((m.unlink side source).1.attach side source key).2) := by
  obtain ⟨k, hk, rfl⟩ := keyClass?_eq_some_iff.1 hlinked
  simp only [link, hk]
  rw [if_neg fun hsame => hne (Value.same_iff.1 hsame)]

/-- What a call does: nothing, or it links a row, or it unlinks one, or it unlinks a row and links it
anew. -/
inductive Performs (m : Matching) : JoinCall → Matching → List JoinChange → Prop
  | idle (c : JoinCall) (same : m.keyClass? c.side c.row = c.class?) : Performs m c m []
  | attach {side : Side} {row : Nat} {key : Value} {m' : Matching} {changes : List JoinChange}
      (free : m.keyClass? side row = none)
      (moves : m.Moves (some row) side (·.key.same key) row (some key.canonical) m' changes) :
      Performs m (.link side row key) m' changes
  | detach {side : Side} {row : Nat} {g : Value} {m' : Matching} {changes : List JoinChange}
      (linked : m.keyClass? side row = some g)
      (moves : m.Moves none side (·.on side = some row) row none m' changes) :
      Performs m (.unlink side row) m' changes
  | move {side : Side} {row : Nat} {key g : Value} {m₁ m' : Matching} {gone come : List JoinChange}
      (linked : m.keyClass? side row = some g) (differs : g ≠ key.canonical)
      (leaves : m.Moves none side (·.on side = some row) row none m₁ gone)
      (arrives : m₁.Moves (some row) side (·.key.same key) row (some key.canonical) m' come) :
      Performs m (.link side row key) m' (gone ++ come)

theorem Sound.performs (h : m.Sound) (c : JoinCall) :
    m.Performs c (m.perform c).1 (m.perform c).2 := by
  rcases c with ⟨side, row, key⟩ | ⟨side, row⟩
  · rcases hclass : m.keyClass? side row with - | g
    · rw [perform, link_eq_attach hclass]
      exact .attach hclass (h.attach hclass)
    · by_cases heq : g = key.canonical
      · subst heq
        rw [perform, link_eq_self hclass]
        exact .idle _ hclass
      · rw [perform, link_eq_move hclass heq]
        have hleaves := h.unlink hclass
        refine .move hclass heq hleaves (hleaves.sound.attach ?_)
        rw [hleaves.classes, Match.relabel_self]
  · rcases hclass : m.keyClass? side row with - | g
    · rw [perform, unlink_eq_self hclass]
      exact .idle _ hclass
    · exact .detach hclass (h.unlink hclass)

section Performs

variable {c : JoinCall} {m' : Matching} {changes : List JoinChange}

theorem Performs.sound (hp : m.Performs c m' changes) (h : m.Sound) : m'.Sound := by
  cases hp with
  | idle => exact h
  | attach _ moves => exact moves.sound
  | detach _ moves => exact moves.sound
  | move _ _ _ arrives => exact arrives.sound

theorem Performs.kind (hp : m.Performs c m' changes) : m'.kind = m.kind := by
  cases hp with
  | idle => rfl
  | attach _ moves => exact moves.kind
  | detach _ moves => exact moves.kind
  | move _ _ leaves arrives => exact arrives.kind.trans leaves.kind

/-- A call gives its row another key class, and no other row. -/
theorem Performs.classes (hp : m.Performs c m' changes) :
    m'.keyClass? = Match.relabel m.keyClass? c.side c.row c.class? := by
  cases hp with
  | idle _ same =>
    funext s row
    rw [Match.relabel]
    split_ifs with heq
    · rw [heq.1, heq.2, same]
    · rfl
  | attach _ moves => exact moves.classes
  | detach _ moves => exact moves.classes
  | @move side row key _ _ _ _ _ _ _ leaves arrives =>
    funext s x
    rw [arrives.classes, leaves.classes]
    show (if s = side ∧ x = row then some key.canonical
      else if s = side ∧ x = row then none else m.keyClass? s x) =
        if s = side ∧ x = row then some key.canonical else m.keyClass? s x
    split_ifs <;> rfl

end Performs

/-! ## All calls -/

theorem sound_run (kind : JoinKind) (calls : List JoinCall) : (run kind calls).Sound := by
  induction calls using List.reverseRecOn with
  | nil => exact sound_empty kind
  | append_singleton calls c ih =>
    rw [run_append_singleton]
    exact (ih.performs c).sound ih

theorem kind_run (kind : JoinKind) (calls : List JoinCall) : (run kind calls).kind = kind := by
  induction calls using List.reverseRecOn with
  | nil => rfl
  | append_singleton calls c ih =>
    rw [run_append_singleton, ((sound_run kind calls).performs c).kind, ih]

end Matching

namespace JoinCall

open Match

theorem linked_append_singleton (calls : List JoinCall) (c : JoinCall) (s : Side) :
    linked (calls ++ [c]) s = c.record s (linked calls s) := by
  simp [linked]

/-- A call is recorded as a change of the class of its row. -/
theorem record_spec {rows : Side → Keyed} (h : ∀ s, (rows s).Distinct) (c : JoinCall) :
    (∀ s, (c.record s (rows s)).Distinct) ∧
      (fun s => (c.record s (rows s)).classOf) =
        relabel (fun s => (rows s).classOf) c.side c.row c.class? := by
  have hfresh (s : Side) (row : Nat) : Keyed.classOf ((rows s).filter (·.1 ≠ row)) row = none := by
    rw [(h s).classOf_filter_ne, if_pos rfl]
  constructor
  · intro s
    cases c with
    | link side row key =>
      rw [record]
      split_ifs
      · exact (h s).filter_ne.append_singleton (hfresh s row)
      · exact h s
    | unlink side row =>
      rw [record]
      split_ifs
      · exact (h s).filter_ne
      · exact h s
  · funext s x
    cases c with
    | link side row key =>
      show Keyed.classOf (if side = s then (rows s).filter (·.1 ≠ row) ++ [(row, key)] else rows s) x =
        if s = side ∧ x = row then some key.canonical else (rows s).classOf x
      by_cases hs : s = side
      · subst hs
        rw [if_pos rfl, (h s).filter_ne.classOf_append_singleton (hfresh s row),
          (h s).classOf_filter_ne]
        split_ifs <;> simp_all
      · rw [if_neg (Ne.symm hs), if_neg fun heq => hs heq.1]
    | unlink side row =>
      show Keyed.classOf (if side = s then (rows s).filter (·.1 ≠ row) else rows s) x =
        if s = side ∧ x = row then none else (rows s).classOf x
      by_cases hs : s = side
      · subst hs
        rw [if_pos rfl, (h s).classOf_filter_ne]
        simp
      · rw [if_neg (Ne.symm hs), if_neg fun heq => hs heq.1]

theorem distinct_linked (calls : List JoinCall) (s : Side) : (linked calls s).Distinct := by
  induction calls using List.reverseRecOn generalizing s with
  | nil => exact Keyed.distinct_nil
  | append_singleton calls c ih =>
    rw [linked_append_singleton]
    exact (record_spec ih c).1 s

/-- After a run the rows are linked as the calls say. -/
theorem keyClass?_run (kind : JoinKind) (calls : List JoinCall) :
    (Matching.run kind calls).keyClass? = fun s => (linked calls s).classOf := by
  induction calls using List.reverseRecOn with
  | nil =>
    funext s
    cases s <;> rfl
  | append_singleton calls c ih =>
    rw [Matching.run_append_singleton, ((Matching.sound_run kind calls).performs c).classes, ih]
    simp only [linked_append_singleton]
    exact (record_spec (distinct_linked calls) c).2.symm

end JoinCall

/-! ## Engines -/

namespace JoinEngine

/-- Answers a call. -/
def perform (e : JoinEngine) : JoinCall → JoinEngine × List JoinChange
  | .link side row key => e.link side row key
  | .unlink side row => e.unlink side row

/-- A new engine after some calls. -/
def run (kind : JoinKind) (calls : List JoinCall) : JoinEngine :=
  calls.foldl (fun e c => (e.perform c).1) { kind }

/-- The changes that calls report, one call after the other. -/
def log (e : JoinEngine) : List JoinCall → List JoinChange
  | [] => []
  | c :: calls => (e.perform c).2 ++ log (e.perform c).1 calls

theorem run_append_singleton (kind : JoinKind) (calls : List JoinCall) (c : JoinCall) :
    run kind (calls ++ [c]) = ((run kind calls).perform c).1 := by
  simp [run]

theorem represents_empty (kind : JoinKind) : Represents { kind } { kind } where
  kind := rfl
  keys side := by cases side <;> rfl
  ids := rfl
  stored := by
    have hkeeps : JoinEngine.Keeps { kind } [] :=
      ⟨rfl, List.nodup_nil, fun n hn => absurd hn List.not_mem_nil, RowIds.holds_nil,
        fun id n => by simp [pairingAt?], rfl⟩
    exact ⟨[], ⟨hkeeps, ⟨List.nodup_nil, fun key => rfl, fun key side => by cases side <;> rfl⟩,
      fun key hkey => absurd rfl hkey⟩, rfl⟩

variable {e : JoinEngine} {m : Matching}

theorem Represents.perform (h : e.Represents m) (hm : m.Sound) (c : JoinCall) :
    (e.perform c).1.Represents (m.perform c).1 ∧ (e.perform c).2 = (m.perform c).2 := by
  cases c with
  | link side row key => exact h.link hm side row key
  | unlink side row => exact h.unlink hm side row

/-- After every run an engine represents the matching that was given the same calls. -/
theorem represents_run (kind : JoinKind) (calls : List JoinCall) :
    (run kind calls).Represents (Matching.run kind calls) := by
  induction calls using List.reverseRecOn with
  | nil => exact represents_empty kind
  | append_singleton calls c ih =>
    rw [run_append_singleton, Matching.run_append_singleton]
    exact (ih.perform (Matching.sound_run kind calls) c).1

/-- All later calls report the same. -/
theorem Represents.log (h : e.Represents m) (hm : m.Sound) (calls : List JoinCall) : e.log calls = m.log calls := by
  induction calls generalizing e m with
  | nil => rfl
  | cons c calls ih =>
    obtain ⟨hrepresents, hchanges⟩ := h.perform hm c
    rw [JoinEngine.log, Matching.log, hchanges, ih hrepresents ((hm.performs c).sound hm)]

end JoinEngine

end LiveTables
