import LiveTables.Computed.Basic
import LiveTables.Proofs.Value.Same
import Mathlib.Data.List.Forall2
import Mathlib.Data.List.Nodup

/-!
# Registered columns

Columns that were registered one after the other (`Layered`) depend on what was there before them.
So they are read like columns of a table: the value of one is computed from the values of its
dependencies, whatever was registered later (`Layered.read_eq_evaluate`), and what holds of the stored
columns and passes from dependencies to columns holds of all of them (`Layered.induction`).

A column is lawful if it gives values of its kind and does not tell values apart that are the same. Then
its class depends only on the classes of its dependencies (`Value.class?_evaluate_congr`). `Registered`
columns are layered, and each of them is lawful.
-/

namespace LiveTables

/-- The canonical value of what was read; none if it could not be read. -/
def Value.class? (v : Except TableError Value) : Option Value := v.toOption.map Value.canonical

@[simp] theorem Value.class?_ok (v : Value) : Value.class? (.ok v) = some v.canonical := rfl

@[simp] theorem Value.class?_error (e : TableError) : Value.class? (.error e) = none := rfl

theorem Value.class?_eq_some_iff {r : Except TableError Value} {g : Value} :
    Value.class? r = some g ↔ ∃ v, r = .ok v ∧ v.canonical = g := by
  cases r <;> simp

theorem Except.eq_ok_of_toOption {ε α : Type} {x : Except ε α} {a : α} (h : x.toOption = some a) :
    x = .ok a := by
  cases x with
  | error e => exact absurd h (by simp [Except.toOption])
  | ok b => exact congrArg Except.ok (Option.some.inj h)

/-- What succeeds in two steps succeeds in each. -/
theorem bind_eq_ok_iff {α β : Type} {x : Except TableError α} {f : α → Except TableError β} {b : β} :
    x >>= f = .ok b ↔ ∃ a, x = .ok a ∧ f a = .ok b := by
  cases x with
  | error e => simp [bind, Except.bind]
  | ok a => simp [bind, Except.bind]

/-- What fails in two steps fails in the first, or in the second after it. -/
theorem bind_eq_error_iff {α β : Type} {x : Except TableError α} {f : α → Except TableError β} {error : TableError} :
    x >>= f = .error error ↔ x = .error error ∨ ∃ a, x = .ok a ∧ f a = .error error := by
  cases x with
  | error e => simp [bind, Except.bind]
  | ok a => simp [bind, Except.bind]

/-- Reading a list succeeds if every read does. -/
theorem mapM_eq_ok_iff {α β : Type} {xs : List α} {f : α → Except TableError β} {ys : List β} :
    xs.mapM f = .ok ys ↔ List.Forall₂ (fun x y => f x = .ok y) xs ys := by
  induction xs generalizing ys with
  | nil => simp [pure, Except.pure, eq_comm]
  | cons x xs ih =>
    rw [List.mapM_cons, bind_eq_ok_iff, List.forall₂_cons_left_iff]
    constructor
    · rintro ⟨y, hy, hys⟩
      obtain ⟨ys', hys', heq⟩ := bind_eq_ok_iff.1 hys
      exact ⟨y, ys', hy, ih.1 hys', (Except.ok.inj heq).symm⟩
    · rintro ⟨y, ys', hy, hys', rfl⟩
      exact ⟨y, hy, bind_eq_ok_iff.2 ⟨ys', ih.2 hys', rfl⟩⟩

theorem exists_ok_of_mapM {α β : Type} {xs : List α} {f : α → Except TableError β} {ys : List β}
    (h : xs.mapM f = .ok ys) : ∀ x ∈ xs, ∃ y, f x = .ok y := by
  rw [mapM_eq_ok_iff] at h
  induction h with
  | nil => simp
  | cons hx _ ih => exact List.forall_mem_cons.2 ⟨⟨_, hx⟩, ih⟩

/-- What fails where something else does succeeds where that does. -/
theorem exists_ok_iff {α β : Type} {x : Except TableError α} {y : Except TableError β}
    (h : ∀ error, x = .error error ↔ y = .error error) : (∃ a, x = .ok a) ↔ ∃ b, y = .ok b := by
  rcases x with e | a
  · simp [(h e).1 rfl]
  · rcases y with e | b
    · exact absurd ((h e).2 rfl) (by simp)
    · simp

theorem mapM_cons_eq_error_iff {α β : Type} {x : α} {xs : List α} {f : α → Except TableError β} {error : TableError} :
    (x :: xs).mapM f = .error error ↔ f x = .error error ∨ (∃ b, f x = .ok b) ∧ xs.mapM f = .error error := by
  rw [List.mapM_cons]
  rcases f x with e | b
  · simp [bind, Except.bind]
  · simp [bind_eq_error_iff, pure, Except.pure]

theorem mapM_append_eq_error_iff {α β : Type} {xs ys : List α} {f : α → Except TableError β} {error : TableError} :
    (xs ++ ys).mapM f = .error error ↔
      xs.mapM f = .error error ∨ (∃ bs, xs.mapM f = .ok bs) ∧ ys.mapM f = .error error := by
  rw [List.mapM_append]
  rcases xs.mapM f with e | bs
  · simp [bind, Except.bind]
  · simp [bind_eq_error_iff, pure, Except.pure]

/-- Reading a list fails with the error of the first read that does. -/
theorem mapM_eq_error_iff {α β : Type} {xs : List α} {f : α → Except TableError β} {error : TableError} :
    xs.mapM f = .error error ↔
      ∃ before x after, xs = before ++ x :: after ∧ (∀ y ∈ before, ∃ b, f y = .ok b) ∧ f x = .error error := by
  induction xs with
  | nil => simp [pure, Except.pure]
  | cons x xs ih =>
    rw [mapM_cons_eq_error_iff, ih]
    constructor
    · rintro (hx | ⟨⟨b, hx⟩, before, y, after, rfl, hbefore, hy⟩)
      · exact ⟨[], x, xs, rfl, by simp, hx⟩
      · exact ⟨x :: before, y, after, rfl, List.forall_mem_cons.2 ⟨⟨b, hx⟩, hbefore⟩, hy⟩
    · rintro ⟨before, y, after, heq, hbefore, hy⟩
      rcases List.cons_eq_append_iff.1 heq with ⟨rfl, hcons⟩ | ⟨before, rfl, rfl⟩
      · obtain ⟨rfl, -⟩ := List.cons.inj hcons
        exact .inl hy
      · obtain ⟨hx, hbefore⟩ := List.forall_mem_cons.1 hbefore
        exact .inr ⟨hx, before, y, after, rfl, hbefore, hy⟩

theorem mapM_congr {α β : Type} {xs : List α} {f g : α → Except TableError β} (h : ∀ x ∈ xs, f x = g x) :
    xs.mapM f = xs.mapM g := by
  induction xs with
  | nil => rfl
  | cons x xs ih =>
    obtain ⟨hx, hxs⟩ := List.forall_mem_cons.1 h
    rw [List.mapM_cons, List.mapM_cons, hx, ih hxs]

namespace ComputedColumn

/-- The column gives values of its kind, as long as its dependencies hold values of theirs. -/
def WellTyped (c : ComputedColumn) (kindOf : String → Option Kind) : Prop :=
  ∀ vs, List.Forall₂ (fun d v => kindOf d = some v.kind) c.dependencies vs → (c.compute vs).kind = c.kind

/-- The column gives values that are the same for values that are the same. -/
def Congruent (c : ComputedColumn) : Prop :=
  ∀ vs ws, List.Forall₂ (fun v w => v.same w = true) vs ws → (c.compute vs).same (c.compute ws) = true

/-- A column that respects the kinds and the sameness of values. -/
structure Lawful (c : ComputedColumn) (kindOf : String → Option Kind) : Prop where
  wellTyped : c.WellTyped kindOf
  congruent : c.Congruent

variable {c : ComputedColumn} {read read' : String → Except TableError Value}

/-- Being well-typed is about the kinds of the dependencies only. -/
theorem WellTyped.congr {kindOf kindOf' : String → Option Kind} (h : c.WellTyped kindOf)
    (hkind : ∀ d ∈ c.dependencies, kindOf' d = kindOf d) : c.WellTyped kindOf' := by
  intro vs hvs
  refine h vs ?_
  generalize c.dependencies = deps at hkind hvs
  induction hvs with
  | nil => exact .nil
  | @cons d v ds vs hd _ ih =>
    refine .cons ?_ (ih fun d hd => hkind d (List.mem_cons_of_mem _ hd))
    rw [← hkind d (by simp)]
    exact hd

theorem evaluate_eq_ok_iff {v : Value} : c.evaluate read = .ok v ↔
    ∃ vs, List.Forall₂ (fun d v => read d = .ok v) c.dependencies vs ∧ (c.compute vs).kind = c.kind ∧
      v = c.compute vs := by
  rw [evaluate]
  rcases hread : c.dependencies.mapM read with e | vs
  · have hnone (us : List Value) : ¬ List.Forall₂ (fun d v => read d = .ok v) c.dependencies us := by
      rw [← mapM_eq_ok_iff, hread]
      simp
    simp [bind, Except.bind, hnone]
  · have hall (us : List Value) :
        List.Forall₂ (fun d v => read d = .ok v) c.dependencies us ↔ vs = us := by
      rw [← mapM_eq_ok_iff, hread, Except.ok.injEq]
    simp only [bind, Except.bind, hall, exists_eq_left']
    exact Value.readAs_eq_ok

/-- Evaluation reads the dependencies and nothing else. -/
theorem evaluate_congr (h : ∀ d ∈ c.dependencies, read d = read' d) :
    c.evaluate read = c.evaluate read' := by
  rw [evaluate, evaluate, mapM_congr h]

end ComputedColumn

/-- Dependencies of equal classes give values of equal classes, if the first can be evaluated. -/
theorem Value.class?_evaluate_of_some {c : ComputedColumn} {read read' : String → Except TableError Value}
    (hc : c.Congruent) (h : ∀ d ∈ c.dependencies, class? (read d) = class? (read' d)) {g : Value}
    (hg : class? (c.evaluate read) = some g) : class? (c.evaluate read') = some g := by
  obtain ⟨v, hv, rfl⟩ := class?_eq_some_iff.1 hg
  obtain ⟨vs, hvs, hkind, rfl⟩ := ComputedColumn.evaluate_eq_ok_iff.1 hv
  obtain ⟨ws, hws, hsame⟩ : ∃ ws, List.Forall₂ (fun d v => read' d = .ok v) c.dependencies ws ∧
      List.Forall₂ (fun v w => v.same w = true) vs ws := by
    clear hg hv hkind
    generalize c.dependencies = deps at h hvs
    induction hvs with
    | nil => exact ⟨[], .nil, .nil⟩
    | @cons d v ds vs hd _ ih =>
      obtain ⟨w, hw, hcanonical⟩ := class?_eq_some_iff.1 ((h d (by simp)).symm.trans (by rw [hd]; rfl))
      obtain ⟨ws, hws, hsame⟩ := ih fun d hd => h d (List.mem_cons_of_mem _ hd)
      exact ⟨w :: ws, .cons hw hws, .cons (same_iff.2 hcanonical.symm) hsame⟩
  have hresult := hc vs ws hsame
  refine class?_eq_some_iff.2 ⟨c.compute ws, ?_, (same_iff.1 hresult).symm⟩
  exact ComputedColumn.evaluate_eq_ok_iff.2 ⟨ws, hws, (kind_eq_of_same hresult).symm.trans hkind, rfl⟩

/-- The class of a computed value depends on the classes of the dependencies only. -/
theorem Value.class?_evaluate_congr {c : ComputedColumn} {read read' : String → Except TableError Value}
    (hc : c.Congruent) (h : ∀ d ∈ c.dependencies, class? (read d) = class? (read' d)) :
    class? (c.evaluate read) = class? (c.evaluate read') := by
  refine Option.ext fun g => ⟨class?_evaluate_of_some hc h, ?_⟩
  exact class?_evaluate_of_some hc fun d hd => (h d hd).symm

/-! ## Registration -/

/-- The kind of a column, where computed columns, the newest first, come on top of stored ones. -/
def kindAmong (kindOf : String → Option Kind) : List ComputedColumn → String → Option Kind
  | [], id => kindOf id
  | c :: older, id => if c.id = id then some c.kind else kindAmong kindOf older id

/-- Computed columns, the newest first, each of which was new when it was registered, with known
dependencies. -/
inductive Layered (kindOf : String → Option Kind) : List ComputedColumn → Prop
  | nil : Layered kindOf []
  | cons {c : ComputedColumn} {older : List ComputedColumn} (fresh : kindAmong kindOf older c.id = none)
      (known : ∀ d ∈ c.dependencies, kindAmong kindOf older d ≠ none) (tail : Layered kindOf older) :
      Layered kindOf (c :: older)

/-- Computed columns, the newest first, each of which was new when it was registered, with known
dependencies, and lawful. -/
inductive Registered (kindOf : String → Option Kind) : List ComputedColumn → Prop
  | nil : Registered kindOf []
  | cons {c : ComputedColumn} {older : List ComputedColumn} (fresh : kindAmong kindOf older c.id = none)
      (known : ∀ d ∈ c.dependencies, kindAmong kindOf older d ≠ none)
      (lawful : c.Lawful (kindAmong kindOf older)) (tail : Registered kindOf older) :
      Registered kindOf (c :: older)

namespace Computed

variable {kindOf : String → Option Kind} {c c' : Computed} {older : List ComputedColumn}
  {col : ComputedColumn} {id : String} {stored : String → Except TableError Value}

/-- The kind of a column, stored or computed. -/
def kind? (c : Computed) (kindOf : String → Option Kind) : String → Option Kind :=
  kindAmong kindOf c.newestFirst

theorem column?_cons : column? ⟨col :: older⟩ id = if col.id = id then some col else column? ⟨older⟩ id := by
  rw [column?, List.find?_cons]
  split_ifs with h
  · simp [h]
  · simp [h, column?]

theorem id_of_column? (h : c.column? id = some col) : col.id = id := by
  simpa using List.find?_some h

theorem mem_ids_of_column? (h : c.column? id = some col) : id ∈ c.ids := by
  rw [ids, toList, List.map_reverse, List.mem_reverse]
  exact List.mem_map.2 ⟨col, List.mem_of_find?_eq_some h, id_of_column? h⟩

theorem exists_column?_of_mem_ids (h : id ∈ c.ids) : ∃ col, c.column? id = some col := by
  rw [ids, toList, List.map_reverse, List.mem_reverse] at h
  obtain ⟨col, hcol, rfl⟩ := List.mem_map.1 h
  refine Option.ne_none_iff_exists'.1 fun hnone => ?_
  exact absurd (List.find?_eq_none.1 hnone col hcol) (by simp)

theorem mem_ids_iff : id ∈ c.ids ↔ (c.column? id).isSome = true := by
  rw [Option.isSome_iff_exists]
  exact ⟨exists_column?_of_mem_ids, fun ⟨_, h⟩ => mem_ids_of_column? h⟩

theorem kind?_eq : c.kind? kindOf id =
    match c.column? id with
    | some col => some col.kind
    | none => kindOf id := by
  rcases c with ⟨cs⟩
  induction cs with
  | nil => rfl
  | cons d cs ih =>
    rw [column?_cons]
    show (if d.id = id then some d.kind else kindAmong kindOf cs id) = _
    split_ifs
    · rfl
    · exact ih

theorem kind?_of_column? (h : c.column? id = some col) : c.kind? kindOf id = some col.kind := by
  rw [kind?_eq, h]

theorem kind?_of_stored (h : c.column? id = none) : c.kind? kindOf id = kindOf id := by
  rw [kind?_eq, h]

/-- What is not known is not registered. -/
theorem column?_of_unknown (h : c.kind? kindOf id = none) : c.column? id = none := by
  rcases hcol : c.column? id with - | col
  · rfl
  · rw [kind?_of_column? hcol] at h
    cases h

/-- What is not registered is read where it is stored. -/
theorem read_eq_stored (h : c.column? id = none) : c.read stored id = stored id := by
  rcases c with ⟨cs⟩
  induction cs with
  | nil => rfl
  | cons d cs ih =>
    rw [column?_cons] at h
    split_ifs at h with heq
    show (if d.id = id then _ else Computed.readFrom stored cs id) = _
    rw [if_neg heq]
    exact ih h

/-! A newer column does not matter to the others. -/

theorem column?_of_cons (hc : c'.newestFirst = col :: c.newestFirst) (hne : id ≠ col.id) :
    c'.column? id = c.column? id := by
  rw [column?, hc, List.find?_cons]
  simp [Ne.symm hne, column?]

theorem kind?_of_cons (hc : c'.newestFirst = col :: c.newestFirst) (hne : id ≠ col.id) :
    c'.kind? kindOf id = c.kind? kindOf id := by
  rw [kind?, hc]
  exact if_neg hne.symm

theorem read_of_cons (hc : c'.newestFirst = col :: c.newestFirst) (hne : id ≠ col.id) :
    c'.read stored id = c.read stored id := by
  rw [read, hc]
  exact if_neg hne.symm

theorem ids_of_cons (hc : c'.newestFirst = col :: c.newestFirst) : c'.ids = c.ids ++ [col.id] := by
  rw [ids, toList, hc]
  simp [ids, toList]

/-- A column that is refused leaves the others as they are. -/
theorem register_of_error {table : String} {isStored : String → Bool} {error : TableError}
    (hadd : c.register table isStored col = (c', .error error)) : c' = c := by
  simp only [register] at hadd
  split_ifs at hadd
  · exact (Prod.mk.inj hadd).1.symm
  · split at hadd
    · exact (Prod.mk.inj hadd).1.symm
    · cases hadd

end Computed

namespace Layered

open Computed

variable {kindOf : String → Option Kind} {c c' : Computed} {older : List ComputedColumn}
  {col : ComputedColumn} {id : String} {stored : String → Except TableError Value}
  {touched touched' : List String}

/-- The newest column was new. -/
theorem kind?_eq_none (h : Layered kindOf c'.newestFirst) (hc : c'.newestFirst = col :: c.newestFirst) :
    c.kind? kindOf col.id = none := by
  rw [hc] at h
  cases h with
  | cons fresh => exact fresh

/-- A known column is not the newest. -/
theorem ne_of_known (h : Layered kindOf c'.newestFirst) (hc : c'.newestFirst = col :: c.newestFirst)
    (hid : c.kind? kindOf id ≠ none) : id ≠ col.id := by
  rintro rfl
  exact hid (h.kind?_eq_none hc)

/-- A newer column leaves the kinds of the others alone. -/
theorem kind?_of_cons {k : Kind} (h : Layered kindOf c'.newestFirst) (hk : c.kind? kindOf id = some k)
    (hc : c'.newestFirst = col :: c.newestFirst) : c'.kind? kindOf id = some k := by
  rw [Computed.kind?_of_cons hc (h.ne_of_known hc (by simp [hk])), hk]

/-- A registered column hides no stored one. -/
theorem kindOf_eq_none (h : Layered kindOf c.newestFirst) (hcol : c.column? id = some col) :
    kindOf id = none := by
  rcases c with ⟨cs⟩
  change Layered kindOf cs at h
  induction h with
  | nil => simp [column?] at hcol
  | @cons d older fresh _ _ ih =>
    rw [column?_cons] at hcol
    split_ifs at hcol with heq
    · subst heq
      have hnone : (Computed.mk older).column? d.id = none := column?_of_unknown fresh
      exact (kind?_of_stored hnone).symm.trans fresh
    · exact ih hcol

/-- The identifiers of registered columns differ, and hide no stored column. -/
theorem nodup_ids (h : Layered kindOf c.newestFirst) : c.ids.Nodup ∧ ∀ id ∈ c.ids, kindOf id = none := by
  refine ⟨?_, fun id hid => ?_⟩
  · rw [ids, toList, List.map_reverse, List.nodup_reverse]
    generalize c.newestFirst = cs at h
    induction h with
    | nil => exact List.nodup_nil
    | @cons d older fresh _ _ ih =>
      refine List.nodup_cons.2 ⟨fun hmem => ?_, ih⟩
      have hnone : (Computed.mk older).column? d.id = none := column?_of_unknown fresh
      have hid : d.id ∈ (Computed.mk older).ids := by simpa [ids, toList] using hmem
      obtain ⟨e, he⟩ := exists_column?_of_mem_ids hid
      exact absurd (he.symm.trans hnone) (by simp)
  · obtain ⟨col, hcol⟩ := exists_column?_of_mem_ids hid
    exact h.kindOf_eq_none hcol

/-- Dependencies are known. -/
theorem known_of_mem (h : Layered kindOf c.newestFirst) (hcol : c.column? id = some col) {d : String}
    (hd : d ∈ col.dependencies) : c.kind? kindOf d ≠ none := by
  rcases c with ⟨cs⟩
  change Layered kindOf cs at h
  induction h with
  | nil => simp [column?] at hcol
  | @cons e older fresh known _ ih =>
    have holder : kindAmong kindOf older d ≠ none := by
      rw [column?_cons] at hcol
      split_ifs at hcol with heq
      · obtain rfl := Option.some.inj hcol
        exact known d hd
      · exact ih hcol
    show (if e.id = d then some e.kind else kindAmong kindOf older d) ≠ none
    split_ifs
    · simp
    · exact holder

/-- What holds of the newest column, and of a column still when a newer one is registered, holds of all that are
registered. The newest one is not among the dependencies. -/
theorem column_induction {motive : Computed → String → ComputedColumn → Prop}
    (newest : ∀ {e older}, Layered kindOf (e :: older) → (∀ d ∈ e.dependencies, d ≠ e.id) → motive ⟨e :: older⟩ e.id e)
    (older : ∀ {e older id col}, id ≠ e.id → (∀ d ∈ col.dependencies, d ≠ e.id) → motive ⟨older⟩ id col →
      motive ⟨e :: older⟩ id col)
    (h : Layered kindOf c.newestFirst) (hcol : c.column? id = some col) : motive c id col := by
  rcases c with ⟨cs⟩
  change Layered kindOf cs at h
  induction h with
  | nil => simp [column?] at hcol
  | @cons e cs fresh known tail ih =>
    have hnew {d : String} (hd : kindAmong kindOf cs d ≠ none) : d ≠ e.id := by
      rintro rfl
      exact hd fresh
    rw [column?_cons] at hcol
    split_ifs at hcol with heq
    · obtain rfl := Option.some.inj hcol
      subst heq
      exact newest (.cons fresh known tail) fun d hd => hnew (known d hd)
    · have hid : kindAmong kindOf cs id ≠ none := fun hnone =>
        absurd (hcol.symm.trans (column?_of_unknown hnone)) (by simp)
      exact older (hnew hid) (fun d hd => hnew (tail.known_of_mem hcol hd)) (ih hcol)

/-- A registered column is computed from its dependencies as they are read now. -/
theorem read_eq_evaluate (h : Layered kindOf c.newestFirst) (hcol : c.column? id = some col) :
    c.read stored id = col.evaluate (c.read stored) := by
  have hskip {e : ComputedColumn} {older : List ComputedColumn} {d : String} (hd : d ≠ e.id) :
      Computed.read ⟨e :: older⟩ stored d = Computed.read ⟨older⟩ stored d := read_of_cons rfl hd
  refine h.column_induction (motive := fun c id col => c.read stored id = col.evaluate (c.read stored))
    (fun {e older} _ hdeps => ?_) (fun hid hdeps ih => ?_) hcol
  · show (if e.id = e.id then e.evaluate (Computed.readFrom stored older) else _) = _
    rw [if_pos rfl]
    exact ComputedColumn.evaluate_congr fun d hd => (hskip (hdeps d hd)).symm
  · rw [hskip hid, ih]
    exact ComputedColumn.evaluate_congr fun d hd => (hskip (hdeps d hd)).symm

/-- What holds of stored columns, and of columns whose dependencies it holds of, holds of all. -/
theorem induction {motive : String → Prop} (h : Layered kindOf c.newestFirst)
    (base : ∀ id, c.column? id = none → kindOf id ≠ none → motive id)
    (step : ∀ id col, c.column? id = some col → (∀ d ∈ col.dependencies, motive d) → motive id) :
    ∀ id, c.kind? kindOf id ≠ none → motive id := by
  rcases c with ⟨cs⟩
  change Layered kindOf cs at h
  induction h with
  | nil => exact fun id hid => base id rfl hid
  | @cons e older fresh known tail ih =>
    have hcol : column? ⟨e :: older⟩ e.id = some e := by rw [column?_cons, if_pos rfl]
    have hnew {id : String} (hid : kindAmong kindOf older id ≠ none) : e.id ≠ id := by
      rintro rfl
      exact hid fresh
    have holder : ∀ id, kindAmong kindOf older id ≠ none → motive id := by
      refine ih (fun id hnone hid => base id ?_ hid) fun id col hcol' => step id col ?_
      · rw [column?_cons, if_neg, hnone]
        have hkind : Computed.kind? ⟨older⟩ kindOf id = kindOf id := kind?_of_stored hnone
        exact hnew fun hunknown => hid (hkind.symm.trans hunknown)
      · rw [column?_cons, if_neg, hcol']
        have hkind : Computed.kind? ⟨older⟩ kindOf id = some col.kind := kind?_of_column? hcol'
        exact hnew fun hnone => absurd (hkind.symm.trans hnone) (by simp)
    intro id hid
    by_cases heq : e.id = id
    · subst heq
      exact step _ e hcol fun d hd => holder d (known d hd)
    · refine holder id ?_
      change (if e.id = id then some e.kind else kindAmong kindOf older id) ≠ none at hid
      rwa [if_neg heq] at hid

/-- What is read of a known column depends on the cells of stored columns alone. -/
theorem read_congr {stored' : String → Except TableError Value} (h : Layered kindOf c.newestFirst)
    (hstored : ∀ id, kindOf id ≠ none → stored id = stored' id) :
    ∀ id, c.kind? kindOf id ≠ none → c.read stored id = c.read stored' id := by
  refine h.induction (fun id hnone hid => ?_) fun id col hcol ih => ?_
  · rw [read_eq_stored hnone, read_eq_stored hnone, hstored id hid]
  · rw [h.read_eq_evaluate hcol, h.read_eq_evaluate hcol]
    exact ComputedColumn.evaluate_congr ih

/-- If the stored cells can be read and are of their kinds, and all columns are well-typed, all columns can
be read and are of theirs. -/
theorem read_ok (h : Layered kindOf c.newestFirst)
    (htyped : ∀ id col, c.column? id = some col → col.WellTyped (c.kind? kindOf))
    (hstored : ∀ id k, kindOf id = some k → ∃ v, stored id = .ok v ∧ v.kind = k) :
    ∀ id k, c.kind? kindOf id = some k → ∃ v, c.read stored id = .ok v ∧ v.kind = k := by
  suffices hall : ∀ id, c.kind? kindOf id ≠ none →
      ∃ v, c.read stored id = .ok v ∧ c.kind? kindOf id = some v.kind by
    intro id k hk
    obtain ⟨v, hv, hkind⟩ := hall id (by simp [hk])
    exact ⟨v, hv, Option.some.inj (hkind.symm.trans hk)⟩
  refine h.induction (fun id hnone hid => ?_) fun id col hcol hdeps => ?_
  · obtain ⟨k, hk⟩ := Option.ne_none_iff_exists'.1 hid
    obtain ⟨v, hv, rfl⟩ := hstored id k hk
    exact ⟨v, by rw [read_eq_stored hnone, hv], by rw [kind?_of_stored hnone, hk]⟩
  · obtain ⟨vs, hvs, hkinds⟩ : ∃ vs, List.Forall₂ (fun d v => c.read stored d = .ok v) col.dependencies vs ∧
        List.Forall₂ (fun d v => c.kind? kindOf d = some v.kind) col.dependencies vs := by
      generalize col.dependencies = deps at hdeps
      induction deps with
      | nil => exact ⟨[], .nil, .nil⟩
      | cons d ds ih =>
        obtain ⟨v, hv, hk⟩ := hdeps d (by simp)
        obtain ⟨vs, hvs, hks⟩ := ih fun d hd => hdeps d (List.mem_cons_of_mem _ hd)
        exact ⟨v :: vs, .cons hv hvs, .cons hk hks⟩
    have hkind := htyped id col hcol vs hkinds
    refine ⟨col.compute vs, ?_, by rw [kind?_of_column? hcol, hkind]⟩
    rw [h.read_eq_evaluate hcol]
    exact ComputedColumn.evaluate_eq_ok_iff.2 ⟨vs, hvs, hkind, rfl⟩

/-- Registering one more column. -/
theorem register {table : String} {isStored : String → Bool} (h : Layered kindOf c.newestFirst)
    (hstored : ∀ id, isStored id = (kindOf id).isSome)
    (hadd : c.register table isStored col = (c', .ok ())) :
    c'.newestFirst = col :: c.newestFirst ∧ Layered kindOf c'.newestFirst := by
  have hknown (id : String) :
      (isStored id || (c.column? id).isSome) = (c.kind? kindOf id).isSome := by
    rw [hstored, Computed.kind?_eq]
    rcases hcol : c.column? id with - | d
    · simp
    · simp
  simp only [Computed.register, hknown] at hadd
  split_ifs at hadd with hfresh
  · cases hadd
  rcases hdeps : col.dependencies.find? fun d => !(c.kind? kindOf d).isSome with - | d
  · rw [hdeps] at hadd
    obtain rfl := (Prod.mk.inj hadd).1
    have hnone : c.kind? kindOf col.id = none := by simpa using hfresh
    refine ⟨rfl, .cons hnone (fun d hd => ?_) h⟩
    have hall := List.find?_eq_none.1 hdeps d hd
    rw [Bool.not_eq_true, Bool.not_eq_false', Option.isSome_iff_ne_none] at hall
    exact hall
  · rw [hdeps] at hadd
    simp at hadd

end Layered

namespace Registered

open Computed

variable {kindOf : String → Option Kind} {c c' : Computed} {col : ComputedColumn} {id : String}
  {stored : String → Except TableError Value}

/-- Being lawful apart, registered columns are layered. -/
theorem layered {cs : List ComputedColumn} (h : Registered kindOf cs) : Layered kindOf cs := by
  induction h with
  | nil => exact .nil
  | cons fresh known _ _ ih => exact .cons fresh known ih

/-- Every registered column is lawful, given the kinds of all columns. -/
theorem lawful (h : Registered kindOf c.newestFirst) (hcol : c.column? id = some col) :
    col.Lawful (c.kind? kindOf) := by
  rcases c with ⟨cs⟩
  change Registered kindOf cs at h
  induction h with
  | nil => simp [column?] at hcol
  | @cons e older fresh known law tail ih =>
    have hskip {d : String} (hd : kindAmong kindOf older d ≠ none) :
        Computed.kind? ⟨e :: older⟩ kindOf d = kindAmong kindOf older d := by
      show (if e.id = d then _ else kindAmong kindOf older d) = _
      rw [if_neg]
      rintro rfl
      exact hd fresh
    have hlift {col : ComputedColumn} (hold : ∀ d ∈ col.dependencies, kindAmong kindOf older d ≠ none)
        (hlaw : col.Lawful (kindAmong kindOf older)) : col.Lawful (Computed.kind? ⟨e :: older⟩ kindOf) := by
      exact ⟨hlaw.wellTyped.congr fun d hd => hskip (hold d hd), hlaw.congruent⟩
    rw [column?_cons] at hcol
    split_ifs at hcol with heq
    · obtain rfl := Option.some.inj hcol
      exact hlift known law
    · exact hlift (fun d hd => tail.layered.known_of_mem hcol hd) (ih hcol)

/-- If the stored cells can be read and are of their kinds, so can all columns, and they are of theirs. -/
theorem read_ok (h : Registered kindOf c.newestFirst)
    (hstored : ∀ id k, kindOf id = some k → ∃ v, stored id = .ok v ∧ v.kind = k) :
    ∀ id k, c.kind? kindOf id = some k → ∃ v, c.read stored id = .ok v ∧ v.kind = k :=
  h.layered.read_ok (fun _ _ hcol => (h.lawful hcol).wellTyped) hstored

/-- Columns whose dependencies read in equal classes read in equal classes. -/
theorem class?_read_congr (h : Registered kindOf c.newestFirst)
    {stored' : String → Except TableError Value} (hcol : c.column? id = some col)
    (hdeps : ∀ d ∈ col.dependencies,
      Value.class? (c.read stored d) = Value.class? (c.read stored' d)) :
    Value.class? (c.read stored id) = Value.class? (c.read stored' id) := by
  rw [h.layered.read_eq_evaluate hcol, h.layered.read_eq_evaluate hcol]
  exact Value.class?_evaluate_congr (h.lawful hcol).congruent hdeps

/-- One more column is registered if it is lawful. -/
theorem cons_of_layered (h : Registered kindOf c.newestFirst) (hlaw : col.Lawful (c.kind? kindOf))
    (hlayered : Layered kindOf (col :: c.newestFirst)) : Registered kindOf (col :: c.newestFirst) := by
  cases hlayered with
  | cons fresh known _ => exact .cons fresh known hlaw h

end Registered

/-! ## Dependents -/

namespace Computed

variable {touched touched' : List String} {id : String}

theorem dependentsAmong_append (xs ys : List ComputedColumn) :
    dependentsAmong touched (xs ++ ys) = dependentsAmong touched xs ++
      dependentsAmong ((dependentsAmong touched xs).reverse ++ touched) ys := by
  induction xs generalizing touched with
  | nil => simp [dependentsAmong]
  | cons x xs ih =>
    simp only [List.cons_append, dependentsAmong]
    split_ifs
    · rw [ih]
      simp
    · exact ih

/-- Dependents come in the order of registration. -/
theorem dependentsAmong_sublist (touched : List String) (cs : List ComputedColumn) :
    (dependentsAmong touched cs).Sublist (cs.map (·.id)) := by
  induction cs generalizing touched with
  | nil => exact .slnil
  | cons c cs ih =>
    rw [dependentsAmong, List.map_cons]
    split_ifs
    · exact (ih _).cons_cons _
    · exact (ih _).cons _

/-- Nothing depends on nothing. -/
@[simp] theorem dependentsOf_nil (c : Computed) : c.dependentsOf [] = [] := by
  rw [dependentsOf]
  induction c.toList with
  | nil => rfl
  | cons x xs ih => simpa [dependentsAmong] using ih

/-- The newest column is the last of the dependents, if it is one. -/
theorem mem_dependentsOf_cons {e : ComputedColumn} {older : List ComputedColumn} :
    id ∈ dependentsOf ⟨e :: older⟩ touched ↔ id ∈ dependentsOf ⟨older⟩ touched ∨
      id = e.id ∧ ∃ d ∈ e.dependencies, d ∈ touched ∨ d ∈ dependentsOf ⟨older⟩ touched := by
  have htoList : toList ⟨e :: older⟩ = toList ⟨older⟩ ++ [e] := by simp [toList]
  rw [dependentsOf, htoList, dependentsAmong_append, List.mem_append]
  refine or_congr Iff.rfl ?_
  simp only [dependentsAmong]
  split_ifs with hany
  · simp only [List.any_eq_true, decide_eq_true_eq, List.mem_append, List.mem_reverse] at hany
    obtain ⟨d, hd, hmem⟩ := hany
    simp only [List.mem_singleton]
    exact ⟨fun h => ⟨h, d, hd, hmem.symm⟩, fun h => h.1⟩
  · simp only [List.any_eq_true, decide_eq_true_eq, List.mem_append, List.mem_reverse] at hany
    simp only [List.not_mem_nil, false_iff, not_and]
    rintro - ⟨d, hd, hmem⟩
    exact hany ⟨d, hd, hmem.symm⟩

/-- The more is touched, the more depends on it. -/
theorem dependentsOf_subset (c : Computed) (h : touched ⊆ touched') :
    c.dependentsOf touched ⊆ c.dependentsOf touched' := by
  rcases c with ⟨cs⟩
  induction cs with
  | nil => simp [dependentsOf, toList, dependentsAmong]
  | cons e older ih =>
    intro id hid
    rw [mem_dependentsOf_cons] at hid ⊢
    refine hid.imp (ih ·) (And.imp_right ?_)
    rintro ⟨d, hd, hmem⟩
    exact ⟨d, hd, hmem.imp (h ·) (ih ·)⟩

end Computed

namespace Layered

open Computed

variable {kindOf : String → Option Kind} {c : Computed} {touched touched' : List String} {id : String}

/-- Every dependent is a registered column. -/
theorem exists_column?_of_mem (h : Layered kindOf c.newestFirst) (hid : id ∈ c.dependentsOf touched) :
    ∃ col, c.column? id = some col := by
  rcases c with ⟨cs⟩
  change Layered kindOf cs at h
  induction h with
  | nil => simp [dependentsOf, toList, dependentsAmong] at hid
  | @cons e older fresh known tail ih =>
    rw [column?_cons]
    rcases mem_dependentsOf_cons.1 hid with hid | ⟨rfl, -⟩
    · split_ifs
      · exact ⟨e, rfl⟩
      · exact ih hid
    · exact ⟨e, if_pos rfl⟩

/-- No dependent is named twice. -/
theorem nodup_dependentsOf (h : Layered kindOf c.newestFirst) : (c.dependentsOf touched).Nodup :=
  h.nodup_ids.1.sublist (dependentsAmong_sublist touched c.toList)

/-- A column is a dependent exactly if one of its dependencies is touched or a dependent. -/
theorem mem_dependentsOf_iff (h : Layered kindOf c.newestFirst) {col : ComputedColumn}
    (hcol : c.column? id = some col) : id ∈ c.dependentsOf touched ↔
      ∃ d ∈ col.dependencies, d ∈ touched ∨ d ∈ c.dependentsOf touched := by
  have hskip {e : ComputedColumn} {older : List ComputedColumn} {d : String} (hd : d ≠ e.id) :
      d ∈ dependentsOf ⟨e :: older⟩ touched ↔ d ∈ dependentsOf ⟨older⟩ touched := by
    rw [mem_dependentsOf_cons]
    simp [hd]
  refine h.column_induction (motive := fun c id col => id ∈ c.dependentsOf touched ↔
    ∃ d ∈ col.dependencies, d ∈ touched ∨ d ∈ c.dependentsOf touched) (fun {e older} hlayered hdeps => ?_)
    (fun hid hdeps ih => ?_) hcol
  · -- the newest column was not a dependent before
    have hself : e.id ∉ dependentsOf ⟨older⟩ touched := by
      intro hmem
      cases hlayered with
      | cons fresh _ tail =>
        obtain ⟨d, hd⟩ := tail.exists_column?_of_mem hmem
        exact absurd (hd.symm.trans (column?_of_unknown fresh)) (by simp)
    rw [mem_dependentsOf_cons]
    simp only [hself, false_or, true_and]
    exact exists_congr fun d => and_congr_right fun hd => by rw [hskip (hdeps d hd)]
  · rw [hskip hid, ih]
    exact exists_congr fun d => and_congr_right fun hd => by rw [hskip (hdeps d hd)]

end Layered

end LiveTables
