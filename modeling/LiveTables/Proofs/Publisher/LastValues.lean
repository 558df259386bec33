import LiveTables.Proofs.Change.Image
import LiveTables.Proofs.Delta.FieldMap
import LiveTables.Proofs.Delta.RoundTrip
import LiveTables.Publisher

/-!
# The last values of a publisher

A publisher keeps the last value of every mapped column of every row. As long as rows are only added while they
are not there (`AddsNew`), this is the image that the mapped changes make of nothing, and each value that is kept
was published (`Publisher.Tracks`). What a new sink is told first makes the same image of nothing
(`Publisher.Tracks.image_calls`).
-/

namespace LiveTables

/-- Rows are added only while they are not there; those in `live` are there at first. -/
def AddsNew : (live : List Nat) → List Change → Prop
  | _, [] => True
  | live, .add row :: rest => row ∉ live ∧ AddsNew (row :: live) rest
  | live, .update _ _ _ :: rest => AddsNew live rest
  | live, .delete row :: rest => AddsNew (live.filter (· ≠ row)) rest

instance decidableAddsNew : (live : List Nat) → (changes : List Change) → Decidable (AddsNew live changes)
  | _, [] => isTrue trivial
  | live, .add row :: rest =>
    have := decidableAddsNew (row :: live) rest
    inferInstanceAs (Decidable (row ∉ live ∧ AddsNew (row :: live) rest))
  | live, .update _ _ _ :: rest => decidableAddsNew live rest
  | live, .delete row :: rest => decidableAddsNew (live.filter (· ≠ row)) rest

theorem AddsNew.of_append {live : List Nat} {xs ys : List Change} (h : AddsNew live (xs ++ ys)) :
    AddsNew live xs := by
  induction xs generalizing live with
  | nil => trivial
  | cons c xs ih =>
    cases c with
    | add row => exact ⟨h.1, ih h.2⟩
    | update | delete => exact ih h

namespace Publisher

open Ordered

/-! ### What is kept -/

variable {p : Publisher} {changes more : List Change} {c : Change} {i : Image} {row : Nat}

/-- The last values of each row. -/
def image (p : Publisher) : Image := fun row =>
  (p.rows.lookup row).map fun values column => values.lookup column

theorem encoder_record (p : Publisher) (c : Change) : (p.record c).encoder = p.encoder := by
  cases c with
  | add | delete => rfl
  | update row column value =>
    rw [record]
    split <;> rfl

theorem encoder_foldl_record (p : Publisher) (changes : List Change) :
    (changes.foldl record p).encoder = p.encoder := by
  induction changes generalizing p with
  | nil => rfl
  | cons c changes ih => rw [List.foldl_cons, ih, encoder_record]

/-- A mapped change is taken in, another one is not. -/
theorem image_record (hnew : ∀ row, c = .add row → p.image row = none) :
    (p.record c).image = if c.isPicked p.encoder.fields.maps then p.image.apply (fun _ => none) c else p.image := by
  cases c with
  | add row =>
    rw [if_pos (by rfl)]
    funext row'
    have hlookup : (p.record (.add row)).image row' =
        if row' = row then some (fun _ => none) else p.image row' := by
      rw [image, record, lookup_put]
      split_ifs
      · rfl
      · rfl
    rw [hlookup, Image.apply, Change.row, hnew row rfl, Change.effect, Function.update_apply]
  | delete row =>
    rw [if_pos (by rfl)]
    funext row'
    rw [image, record, lookup_filter_ne, Image.apply, Change.row, Change.effect, Function.update_apply]
    split_ifs
    · rfl
    · rfl
  | update row column value =>
    rcases hfield : p.encoder.fields.field? column with - | field
    · simp [record, hfield, Change.isPicked, FieldMap.maps]
    rw [if_pos (by simp [Change.isPicked, FieldMap.maps, hfield])]
    rcases hrow : p.rows.lookup row with - | values
    · -- the row is not known
      have hnone : p.image row = none := by rw [image, hrow, Option.map_none]
      have hsame : p.record (.update row column value) = p := by simp only [record, hfield, hrow]
      rw [hsame, Image.apply, Change.row, hnone, Change.effect, Option.map_none, ← hnone, Function.update_eq_self]
    · have hvalues : p.image row = some fun column => values.lookup column := by
        rw [image, hrow, Option.map_some]
      have hrecord : p.record (.update row column value) =
          { p with rows := put row (put column value values) p.rows } := by simp only [record, hfield, hrow]
      funext row'
      rw [hrecord, image, lookup_put, Image.apply, Change.row, hvalues, Change.effect, Option.map_some,
        Function.update_apply]
      split_ifs
      · rw [Option.map_some]
        congr 1
        funext column'
        rw [lookup_put, Function.update_apply]
      · rfl

/-- What a publisher keeps of changes: the last values of the mapped columns, each of which was published. -/
structure Tracks (p : Publisher) (changes : List Change) : Prop where
  rows : Ascending p.rows
  columns : ∀ e ∈ p.rows, Ascending e.2
  added : ∀ e ∈ p.rows, .add e.1 ∈ changes
  updated : ∀ e ∈ p.rows, ∀ x ∈ e.2, p.encoder.fields.maps x.1 = true ∧ .update e.1 x.1 x.2 ∈ changes
  image : p.image =
    Image.applyAll (fun _ => none) (fun _ => none) (changes.filter (Change.isPicked p.encoder.fields.maps))

theorem tracks_empty (h : p.rows = []) : p.Tracks [] := by
  constructor
  case image =>
    funext row
    rw [Publisher.image, h]
    rfl
  case rows =>
    rw [h]
    exact List.Pairwise.nil
  all_goals simp [h]

namespace Tracks

/-- A change more. -/
theorem record (h : p.Tracks changes) (hnew : ∀ row, c = .add row → p.image row = none) :
    (p.record c).Tracks (changes ++ [c]) := by
  have himage : (p.record c).image = Image.applyAll (fun _ => none) (fun _ => none)
      ((changes ++ [c]).filter (Change.isPicked (p.record c).encoder.fields.maps)) := by
    rw [image_record hnew, encoder_record, List.filter_append, Image.applyAll_append, ← h.image]
    by_cases hpicked : c.isPicked p.encoder.fields.maps = true
    · rw [if_pos hpicked, List.filter_cons_of_pos hpicked]
      rfl
    · rw [if_neg hpicked, List.filter_cons_of_neg hpicked]
      rfl
  have hkept : ∀ e ∈ p.rows, Ascending e.2 ∧ .add e.1 ∈ changes ++ [c] ∧
      ∀ x ∈ e.2, p.encoder.fields.maps x.1 = true ∧ .update e.1 x.1 x.2 ∈ changes ++ [c] := by
    intro e he
    exact ⟨h.columns e he, List.mem_append_left _ (h.added e he), fun x hx =>
      (h.updated e he x hx).imp_right (List.mem_append_left _)⟩
  have hall : Ascending (p.record c).rows ∧ ∀ e ∈ (p.record c).rows, Ascending e.2 ∧ .add e.1 ∈ changes ++ [c] ∧
      ∀ x ∈ e.2, p.encoder.fields.maps x.1 = true ∧ .update e.1 x.1 x.2 ∈ changes ++ [c] := by
    cases c with
    | add row =>
      refine ⟨h.rows.put, fun e he => ?_⟩
      rcases mem_of_mem_put he with rfl | he
      · exact ⟨List.Pairwise.nil, by simp, by simp⟩
      · exact hkept e he
    | delete row => exact ⟨h.rows.filter _, fun e he => hkept e (List.mem_filter.1 he).1⟩
    | update row column value =>
      rw [Publisher.record]
      split
      · next field values hfield hrow =>
        refine ⟨h.rows.put, fun e he => ?_⟩
        rcases mem_of_mem_put he with rfl | he
        · obtain ⟨hascending, hadded, hupdated⟩ := hkept _ (mem_of_lookup_eq_some hrow)
          refine ⟨hascending.put, hadded, fun x hx => ?_⟩
          rcases mem_of_mem_put hx with rfl | hx
          · exact ⟨by simp [FieldMap.maps, hfield], by simp⟩
          · exact hupdated x hx
        · exact hkept e he
      · exact ⟨h.rows, hkept⟩
  exact
    { rows := hall.1
      columns := fun e he => (hall.2 e he).1
      added := fun e he => (hall.2 e he).2.1
      updated := fun e he x hx => by
        rw [encoder_record]
        exact (hall.2 e he).2.2 x hx
      image := himage }

/-- Changes more, which add rows only while they are not there. -/
theorem foldl_record (h : p.Tracks changes) {live : List Nat} (hlive : ∀ row, p.image row ≠ none ↔ row ∈ live)
    (hnew : AddsNew live more) : (more.foldl Publisher.record p).Tracks (changes ++ more) := by
  induction more generalizing p changes live with
  | nil => rwa [List.append_nil]
  | cons c more ih =>
    rw [List.foldl_cons, List.append_cons]
    cases c with
    | add row =>
      obtain ⟨hrow, hnew⟩ := hnew
      have hnone : ∀ row', Change.add row = .add row' → p.image row' = none := by
        rintro _ ⟨⟩
        exact not_not.1 (mt (hlive row).1 hrow)
      refine ih (h.record hnone) (fun row' => ?_) hnew
      rw [image_record hnone, if_pos (by rfl), Image.apply, Function.update_apply, List.mem_cons, ← hlive]
      split_ifs with heq
      · simp [show row' = row from heq, hnone row rfl, Change.row, Change.effect]
      · simp [show row' ≠ row from heq]
    | delete row =>
      have hnone : ∀ row', Change.delete row = .add row' → p.image row' = none := by simp
      refine ih (h.record hnone) (fun row' => ?_) hnew
      rw [image_record hnone, if_pos (by rfl), Image.apply, Function.update_apply, List.mem_filter, ← hlive]
      split_ifs with heq
      · simp [show row' = row from heq, Change.effect]
      · simp [show row' ≠ row from heq]
    | update row column value =>
      have hnone : ∀ row', Change.update row column value = .add row' → p.image row' = none := by simp
      refine ih (h.record hnone) (fun row' => ?_) hnew
      rw [image_record hnone, ← hlive]
      split_ifs
      · rw [Image.apply, Function.update_apply]
        split_ifs with heq
        · simp [show row' = row from heq, Change.row, Change.effect]
        · rfl
      · rfl

end Tracks

/-! ### What a new sink is told -/

/-- The calls that bring a new sink up to date. -/
def calls (p : Publisher) : List RowChange := p.rows.flatMap fun e => [.add e.1, .update e.1 e.2]

/-- A new sink is told these calls, and the encoder is left as it was. -/
theorem replay_eq {m : FieldMap} (h : p.encoder = { fields := m }) :
    p.replay = (p, (p.calls.foldl Encoder.rowChange { fields := m }).pending) := by
  have htold : p.replay = ({ p with encoder := (p.calls.foldl Encoder.rowChange p.encoder).take.1 },
      (p.calls.foldl Encoder.rowChange p.encoder).take.2) := by
    rw [calls, List.foldl_flatMap]
    rfl
  simp only [htold, h, Encoder.take_foldl_rowChange]
  rw [← h]

/-- The values of a row, told one after the other. -/
theorem applyAll_values {values : List (String × Value)} {cells : Cells} (h : (values.map (·.1)).Nodup)
    (hrow : i row = some cells) :
    i.applyAll (fun _ => none) (values.map fun x => .update row x.1 x.2) =
      Function.update i row (some fun column => (values.lookup column).or (cells column)) := by
  induction values generalizing i cells with
  | nil =>
    have hsame : (some fun column => (([] : List (String × Value)).lookup column).or (cells column)) = i row := by
      rw [hrow]
      rfl
    rw [hsame, Function.update_eq_self]
    rfl
  | cons x values ih =>
    obtain ⟨hnot, hrest⟩ := List.nodup_cons.1 h
    have happly : i.apply (fun _ => none) (.update row x.1 x.2) =
        Function.update i row (some (Function.update cells x.1 (some x.2))) := by
      rw [Image.apply, Change.row, hrow, Change.effect, Option.map_some]
    rw [List.map_cons, Image.applyAll_cons, happly, ih hrest (Function.update_self _ _ _), Function.update_idem]
    congr 2
    funext column
    rw [lookup_cons, Function.update_apply]
    split_ifs with hcolumn
    · rw [hcolumn, lookup_eq_none_iff_not_mem.2 hnot]
      rfl
    · rfl

/-- Rows with their values, told one after the other. -/
theorem applyAll_rows {rows : List (Nat × List (String × Value))} (h : (rows.map (·.1)).Nodup)
    (hvalues : ∀ e ∈ rows, (e.2.map (·.1)).Nodup) (hfresh : ∀ e ∈ rows, i e.1 = none) :
    i.applyAll (fun _ => none) (rows.flatMap fun e => .add e.1 :: e.2.map fun x => .update e.1 x.1 x.2) =
      fun row => ((rows.lookup row).map fun values column => values.lookup column).or (i row) := by
  induction rows generalizing i with
  | nil => rfl
  | cons e rows ih =>
    obtain ⟨hnot, hrest⟩ := List.nodup_cons.1 h
    obtain ⟨hfirst, hvalues⟩ := List.forall_mem_cons.1 hvalues
    obtain ⟨hnone, hfresh⟩ := List.forall_mem_cons.1 hfresh
    have hadd : i.apply (fun _ => none) (.add e.1) = Function.update i e.1 (some fun _ => none) := by
      rw [Image.apply, Change.row, hnone, Change.effect]
    have hother : ∀ e' ∈ rows, e'.1 ≠ e.1 := fun e' he' heq =>
      hnot (List.mem_map.2 ⟨e', he', heq⟩)
    rw [List.flatMap_cons, List.cons_append, Image.applyAll_cons, Image.applyAll_append, hadd,
      applyAll_values hfirst (Function.update_self _ _ _), Function.update_idem, ih hrest hvalues]
    · funext row
      rw [lookup_cons, Function.update_apply]
      split_ifs with hrow
      · rw [hrow, lookup_eq_none_iff_not_mem.2 hnot]
        simp
      · rfl
    · intro e' he'
      rw [Function.update_of_ne (hother e' he')]
      exact hfresh e' he'

namespace Tracks

variable (h : p.Tracks changes)

include h

/-- A new sink is told what the publisher keeps. -/
theorem image_calls : Image.applyAll (fun _ => none) (fun _ => none) (p.calls.flatMap RowChange.changes) =
    p.image := by
  have hchanges : p.calls.flatMap RowChange.changes =
      p.rows.flatMap fun e => .add e.1 :: e.2.map fun x => .update e.1 x.1 x.2 := by
    rw [calls, List.flatMap_assoc]
    simp [RowChange.changes]
  rw [hchanges, applyAll_rows h.rows.nodup (fun e he => (h.columns e he).nodup) (by simp)]
  simp only [Option.or_none]
  rfl

/-- A new sink is told nothing that was not published before. -/
theorem mem_calls (hc : c ∈ p.calls.flatMap RowChange.changes) :
    c ∈ changes ∧ c.isPicked p.encoder.fields.maps = true := by
  obtain ⟨call, hcall, hc⟩ := List.mem_flatMap.1 hc
  obtain ⟨e, he, hcall⟩ := List.mem_flatMap.1 hcall
  rcases List.mem_cons.1 hcall with rfl | hcall
  · obtain rfl := List.mem_singleton.1 hc
    exact ⟨h.added e he, rfl⟩
  · obtain rfl := List.mem_singleton.1 hcall
    obtain ⟨x, hx, rfl⟩ := List.mem_map.1 hc
    exact (h.updated e he x hx).symm

/-- The calls for a new sink fit if everything that was published does. -/
theorem fits_calls (hfits : ∀ c ∈ changes, c.Fits) : ∀ call ∈ p.calls, call.Fits := by
  intro call hcall
  obtain ⟨e, he, hcall⟩ := List.mem_flatMap.1 hcall
  have hrow : e.1 < 2 ^ 64 := hfits _ (h.added e he)
  rcases List.mem_cons.1 hcall with rfl | hcall
  · exact hrow
  · obtain rfl := List.mem_singleton.1 hcall
    exact ⟨hrow, fun x hx => (hfits _ (h.updated e he x hx).2).2⟩

end Tracks

end Publisher

end LiveTables
