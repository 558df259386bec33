import LiveTables.Proofs.Join.EditScript
import Mathlib.Data.Finset.Card

/-!
# Identifiers over a run

The changes of a whole run, one call after the other, lead from no joined rows to those of the engine
(`Matching.scripted_run`). Every row that they add takes the smallest identifier absent at its turn, so
an identifier is never above the number of joined rows that there are at once (`JoinChange.lt_peak`), and
identifiers stay below the largest number of joined rows that a run reaches (`ids_frugal`).
-/

namespace LiveTables

namespace JoinChange

variable {visible v : Finset ℕ} {c : JoinChange} {cs : List JoinChange} {bound id : Nat}

/-- The largest number of joined rows that there are at once while changes are made, one by one. -/
def peak (visible : Finset ℕ) : List JoinChange → Nat
  | [] => visible.card
  | c :: cs => max visible.card (((c.applyTo visible).map (peak · cs)).getD 0)

theorem peak_cons_of_applyTo (h : c.applyTo visible = some v) :
    peak visible (c :: cs) = max visible.card (peak v cs) := by
  rw [peak, h, Option.map_some, Option.getD_some]

theorem card_le_peak (visible : Finset ℕ) (cs : List JoinChange) : visible.card ≤ peak visible cs := by
  cases cs with
  | nil => exact le_refl _
  | cons c cs => exact le_max_left _ _

theorem Frugal.tail (h : Frugal visible (c :: cs)) (hc : c.applyTo visible = some v) :
    Frugal v cs := by
  intro earlier id later heq
  obtain ⟨w, hw, hleast⟩ := h (c :: earlier) id later (by rw [heq, List.cons_append])
  obtain ⟨v', hv', hrest⟩ := replay_cons_eq_some.1 hw
  obtain rfl : v = v' := Option.some.inj (hc.symm.trans hv')
  exact ⟨w, hrest, hleast⟩

theorem Frugal.head (h : Frugal visible (added id :: cs)) : IsLeast {n | n ∉ visible} id := by
  obtain ⟨v, hv, hleast⟩ := h [] id cs rfl
  obtain rfl : visible = v := Option.some.inj hv
  exact hleast

/-- The smallest absent number is at most the number of those present. -/
theorem le_card_of_isLeast (h : IsLeast {n | n ∉ visible} id) : id ≤ visible.card := by
  have hbelow : Finset.range id ⊆ visible := by
    intro n hn
    by_contra habsent
    have hle : id ≤ n := h.2 habsent
    have hlt := Finset.mem_range.1 hn
    omega
  simpa using Finset.card_le_card hbelow

/-- A change keeps the rows below what bounded them before or below their number. -/
theorem lt_of_applyTo (hfrugal : Frugal visible (c :: cs)) (hc : c.applyTo visible = some v)
    (hbound : ∀ n ∈ visible, n < bound) : ∀ n ∈ v, n < max bound v.card := by
  intro n hn
  by_cases hold : n ∈ visible
  · have hlt := hbound n hold
    omega
  cases c with
  | added m =>
    simp only [applyTo, Option.ite_none_left_eq_some, Option.some.injEq] at hc
    obtain ⟨hm, rfl⟩ := hc
    obtain rfl : n = m := (Finset.mem_insert.1 hn).resolve_right hold
    have hle := le_card_of_isLeast hfrugal.head
    rw [Finset.card_insert_of_notMem hm]
    omega
  | updated m s =>
    simp only [applyTo, Option.ite_none_right_eq_some, Option.some.injEq] at hc
    exact absurd (hc.2 ▸ hn) hold
  | deleted m =>
    simp only [applyTo, Option.ite_none_right_eq_some, Option.some.injEq] at hc
    exact absurd (Finset.mem_of_mem_erase (hc.2 ▸ hn)) hold

/-- Rows that are added frugally stay below the largest number of rows that there are at once. -/
theorem lt_peak (hfrugal : Frugal visible cs) (h : replay visible cs = some v)
    (hbound : ∀ n ∈ visible, n < bound) : ∀ n ∈ v, n < max bound (peak visible cs) := by
  induction cs generalizing visible bound with
  | nil =>
    obtain rfl := Option.some.inj h
    intro n hn
    have hlt := hbound n hn
    omega
  | cons c cs ih =>
    obtain ⟨w, hw, hrest⟩ := replay_cons_eq_some.1 h
    intro n hn
    have hlt := ih (hfrugal.tail hw) hrest (lt_of_applyTo hfrugal hw hbound) n hn
    have hcard := card_le_peak w cs
    rw [peak_cons_of_applyTo hw]
    omega

end JoinChange

open JoinChange

namespace Matching

variable {m m' : Matching} {changes : List JoinChange}

theorem Performs.scripted {c : JoinCall} (hp : m.Performs c m' changes) (h : m.Sound) :
    Scripted (Match.rows m.pairings) changes m'.ids (Match.rows m'.pairings) := by
  cases hp with
  | idle => exact .nil h.ids
  | attach _ moves => exact moves.scripted h
  | detach _ moves => exact moves.scripted h
  | move _ _ leaves arrives => exact (leaves.scripted h).append (arrives.scripted leaves.sound)

/-- The changes of some calls lead from the joined rows before the first to those after the last. -/
theorem Sound.scripted_log (h : m.Sound) (calls : List JoinCall) :
    let m' := calls.foldl (fun m c => (m.perform c).1) m
    Scripted (Match.rows m.pairings) (m.log calls) m'.ids (Match.rows m'.pairings) := by
  induction calls generalizing m with
  | nil => exact .nil h.ids
  | cons c calls ih =>
    have hperforms := h.performs c
    exact (hperforms.scripted h).append (ih (hperforms.sound h))

theorem scripted_run (kind : JoinKind) (calls : List JoinCall) :
    Scripted [] (log { kind } calls) (run kind calls).ids (Match.rows (run kind calls).pairings) :=
  (sound_empty kind).scripted_log calls

end Matching

/-- In every state that a join engine can reach, no two pairings share an identifier. The changes
that led there can be replayed from no rows at all, each row that they add takes the smallest identifier
that is absent at its turn, and every identifier is below the largest number of joined rows that there
were at once. -/
theorem ids_frugal (kind : JoinKind) (calls : List JoinCall) :
    let e := JoinEngine.run kind calls
    let log := JoinEngine.log { kind } calls
    (e.pairings.filterMap (·.2.row)).Nodup ∧
    replay ∅ log = some e.rows.toFinset ∧
    (∀ earlier id later, log = earlier ++ added id :: later →
      ∃ v, replay ∅ earlier = some v ∧ IsLeast {n | n ∉ v} id) ∧
    ∀ id ∈ e.rows, id < peak ∅ log := by
  have hrepresents := JoinEngine.represents_run kind calls
  have hlog := (JoinEngine.represents_empty kind).log (Matching.sound_empty kind) calls
  have hscript := Matching.scripted_run kind calls
  simp only [hlog, hrepresents.filterMap_row, hrepresents.rows]
  refine ⟨hscript.holds.nodup, ?_, hscript.frugal, fun id hid => ?_⟩
  · rw [Matching.toFinset_rows]
    exact hscript.replay
  · have hnone : ∀ n ∈ (∅ : Finset ℕ), n < 0 := by simp
    have hlt := lt_peak hscript.frugal hscript.replay hnone id
    rw [← Matching.toFinset_rows, List.mem_toFinset] at hlt
    simpa using hlt hid

end LiveTables
