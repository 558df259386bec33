import LiveTables.Proofs.Join.Matching
import LiveTables.Proofs.Join.Script

/-!
# What an operation does to the pairings

An operation on a side of a join goes through the pairings once, and does to each of them one of few
things (`Transit`): it leaves it alone, gives it another row on the side, makes it, removes it, shows or
hides it. Linking only shows, unlinking only hides. Everything that is true of the changes as a whole
follows by induction along the pairings (`Transits`): they are a script (`Transits.scripted`), they
mention no row twice (`Transits.nodup_rows`), and a pairing whose row they do not mention stays
(`Transits.mem_of_not_mentioned`).
-/

open scoped List

namespace LiveTables

open JoinChange

/-- The identifiers of those of some pairings that are joined rows. -/
def Match.rows (ps : List Match) : List Nat := ps.filterMap (·.row)

namespace Match

@[simp] theorem rows_nil : rows [] = [] := rfl

@[simp] theorem rows_append (ps qs : List Match) : rows (ps ++ qs) = rows ps ++ rows qs :=
  List.filterMap_append

theorem mem_rows {ps : List Match} {id : Nat} : id ∈ rows ps ↔ ∃ p ∈ ps, p.row = some id :=
  List.mem_filterMap

theorem rows_singleton_of_eq {p : Match} {id : Nat} (h : p.row = some id) : rows [p] = [id] := by
  simp [rows, h]

/-- A pairing that is no joined row adds no identifier. -/
theorem rows_toList_eq_nil {p? : Option Match} (h : ∀ p ∈ p?, p.row = none) :
    rows p?.toList = [] := by
  cases p? with
  | none => rfl
  | some p => simp [rows, h p rfl]

end Match

open Match

/-- What an operation on a side may do to one pairing: `touched` tells which pairings it may change, and
`lands` what stands on the side of a pairing that it changes. That is a row if the operation links it, and
pairings are only shown; it is none if the operation unlinks a row, and pairings are only hidden. -/
inductive Transit (lands : Option Nat) (side : Side) (touched : Match → Prop) :
    RowIds → Option Match → List JoinChange → RowIds → Option Match → Prop
  | keep (ids : RowIds) (p : Match) : Transit lands side touched ids (some p) [] ids (some p)
  | silent (ids : RowIds) (p? p'? : Option Match) (old : ∀ p ∈ p?, p.row = none)
      (new : ∀ p ∈ p'?, p.row = none) : Transit lands side touched ids p? [] ids p'?
  | update (ids : RowIds) (p p' : Match) (id : Nat) (mine : touched p) (old : p.row = some id)
      (new : p'.row = some id) (key : p'.key = p.key) (there : p'.on side.other = p.on side.other)
      (here : p'.on side = lands) (moved : p.on side ≠ lands) :
      Transit lands side touched ids (some p) [.updated id side] ids (some p')
  | delete (ids : RowIds) (p : Match) (p'? : Option Match) (id : Nat) (shrink : lands = none)
      (mine : touched p) (old : p.row = some id) (new : ∀ p ∈ p'?, p.row = none) :
      Transit lands side touched ids (some p) [.deleted id] (ids.release id) p'?
  | add (ids : RowIds) (p? : Option Match) (p' : Match) (grows : lands ≠ none)
      (old : ∀ p ∈ p?, p.row = none) (new : p'.row = some ids.allocate.2) (here : p'.on side = lands) :
      Transit lands side touched ids p? [.added ids.allocate.2] ids.allocate.1 (some p')

/-- What an operation on a side may do to the pairings, one after the other. -/
inductive Transits (lands : Option Nat) (side : Side) (touched : Match → Prop) :
    RowIds → List Match → List JoinChange → RowIds → List Match → Prop
  | nil (ids : RowIds) : Transits lands side touched ids [] [] ids []
  | cons {ids ids₁ ids₂ : RowIds} {p? p'? : Option Match} {ps ps' : List Match}
      {cs cs' : List JoinChange} (head : Transit lands side touched ids p? cs ids₁ p'?)
      (tail : Transits lands side touched ids₁ ps cs' ids₂ ps') :
      Transits lands side touched ids (p?.toList ++ ps) (cs ++ cs') ids₂ (p'?.toList ++ ps')

variable {lands : Option Nat} {side : Side} {touched : Match → Prop} {ids ids' : RowIds}
  {p? p'? : Option Match} {ps ps' : List Match} {cs : List JoinChange} {rest : List Nat}

/-- Pairings that are left alone. -/
theorem Transits.keepAll (ids : RowIds) (ps : List Match) :
    Transits lands side touched ids ps [] ids ps := by
  induction ps with
  | nil => exact .nil ids
  | cons p ps ih => exact .cons (.keep ids p) ih

/-- What is done to some pairings and then to others is done to all of them. -/
theorem Transits.append {ids₁ ids₂ : RowIds} {qs qs' : List Match} {cs' : List JoinChange}
    (h : Transits lands side touched ids ps cs ids₁ ps')
    (h' : Transits lands side touched ids₁ qs cs' ids₂ qs') :
    Transits lands side touched ids (ps ++ qs) (cs ++ cs') ids₂ (ps' ++ qs') := by
  induction h with
  | nil => exact h'
  | cons head _ ih =>
    rw [List.append_assoc, List.append_assoc, List.append_assoc]
    exact .cons head (ih h')

/-! ## The changes as a script -/

theorem Transit.scripted (h : Transit lands side touched ids p? cs ids' p'?)
    (hids : ids.Holds (rows p?.toList ++ rest)) :
    Scripted (rows p?.toList ++ rest) cs ids' (rows p'?.toList ++ rest) := by
  cases h with
  | keep p => exact .nil hids
  | silent _ _ old new =>
    rw [rows_toList_eq_nil old] at hids ⊢
    rw [rows_toList_eq_nil new]
    exact .nil hids
  | update p p' id mine old new key there here =>
    have hp : rows (some p).toList = [id] := rows_singleton_of_eq old
    have hp' : rows (some p').toList = [id] := rows_singleton_of_eq new
    rw [hp] at hids ⊢
    rw [hp']
    exact ⟨hids, by simp [replay, applyTo], frugal_singleton (by simp)⟩
  | delete p _ id shrink mine old new =>
    have hp : rows (some p).toList = [id] := rows_singleton_of_eq old
    rw [hp] at hids ⊢
    rw [rows_toList_eq_nil new]
    have hid : id ∉ rest := (List.nodup_cons.1 hids.nodup).1
    refine ⟨hids.release, ?_, frugal_singleton (by simp)⟩
    have herase : (insert id rest.toFinset).erase id = rest.toFinset :=
      Finset.erase_insert (by simpa using hid)
    simpa [replay, applyTo] using herase
  | add _ p' grows old new =>
    have hp' : rows (some p').toList = [ids.allocate.2] := rows_singleton_of_eq new
    rw [rows_toList_eq_nil old] at hids ⊢
    rw [hp']
    have hleast : IsLeast {n | n ∉ rest} ids.allocate.2 := RowIds.isLeast_allocate hids
    refine ⟨hids.allocate, ?_, frugal_singleton ?_⟩
    · have hfresh : ids.allocate.2 ∉ rest := hleast.1
      simp [replay, applyTo, hfresh]
    · intro id hid
      obtain rfl := JoinChange.added.inj hid
      simpa using hleast

/-- The changes are a script from the rows before to the rows after, whatever other rows there are. -/
theorem Transits.scripted (h : Transits lands side touched ids ps cs ids' ps')
    (hids : ids.Holds (rows ps ++ rest)) : Scripted (rows ps ++ rest) cs ids' (rows ps' ++ rest) := by
  induction h generalizing rest with
  | nil => exact .nil hids
  | @cons ids ids₁ ids₂ p? p'? ps ps' cs cs' head _ ih =>
    rw [rows_append, List.append_assoc] at hids ⊢
    rw [rows_append, List.append_assoc]
    have hhead := head.scripted hids
    have hswap (a b : List Nat) : a ++ (b ++ rest) ~ b ++ (a ++ rest) :=
      List.perm_append_comm_assoc a b rest
    have htail := ih (hhead.holds.perm (hswap _ _))
    exact hhead.append ((htail.perm_left (hswap _ _)).perm_right (hswap _ _))

/-- The same if there are no other rows. -/
theorem Transits.scripted_rows (h : Transits lands side touched ids ps cs ids' ps')
    (hids : ids.Holds (rows ps)) : Scripted (rows ps) cs ids' (rows ps') := by
  have hids' : ids.Holds (rows ps ++ []) := by rwa [List.append_nil]
  simpa using h.scripted hids'

/-! ## What the changes mention -/

/-- Each of the changes is one of those that are made of a single pairing. -/
theorem Transits.exists_transit_of_mem {c : JoinChange} (h : Transits lands side touched ids ps cs ids' ps')
    (hc : c ∈ cs) : ∃ ids₀ p? cs₀ ids₁ p'?, Transit lands side touched ids₀ p? cs₀ ids₁ p'? ∧ c ∈ cs₀ ∧
      p?.toList ⊆ ps ∧ p'?.toList ⊆ ps' := by
  induction h with
  | nil => cases hc
  | cons head _ ih =>
    rcases List.mem_append.1 hc with hc | hc
    · exact ⟨_, _, _, _, _, head, hc, List.subset_append_left _ _, List.subset_append_left _ _⟩
    · obtain ⟨ids₀, p?, cs₀, ids₁, p'?, htransit, hc, hold, hnew⟩ := ih hc
      exact ⟨ids₀, p?, cs₀, ids₁, p'?, htransit, hc, List.subset_append_of_subset_right _ hold,
        List.subset_append_of_subset_right _ hnew⟩

theorem Transits.of_mem_updated {id : Nat} {s : Side} (h : Transits lands side touched ids ps cs ids' ps')
    (hc : .updated id s ∈ cs) :
    s = side ∧ ∃ p ∈ ps, ∃ p' ∈ ps', touched p ∧ p.row = some id ∧ p'.row = some id ∧
      p'.key = p.key ∧ p'.on side.other = p.on side.other ∧ p'.on side = lands ∧ p.on side ≠ lands := by
  obtain ⟨_, _, _, _, _, htransit, hc, hps, hps'⟩ := h.exists_transit_of_mem hc
  cases htransit with
  | update p p' id mine old new key there here moved =>
    obtain ⟨rfl, rfl⟩ : _ = id ∧ s = side := by simpa using hc
    exact ⟨rfl, p, hps (by simp), p', hps' (by simp), mine, old, new, key, there, here, moved⟩
  | _ => simp at hc

theorem Transits.of_mem_deleted {id : Nat} (h : Transits lands side touched ids ps cs ids' ps')
    (hc : .deleted id ∈ cs) : lands = none ∧ ∃ p ∈ ps, touched p ∧ p.row = some id := by
  obtain ⟨_, _, _, _, _, htransit, hc, hps, -⟩ := h.exists_transit_of_mem hc
  cases htransit with
  | delete p _ id shrink mine old new =>
    obtain rfl : _ = id := by simpa using hc
    exact ⟨shrink, p, hps (by simp), mine, old⟩
  | _ => simp at hc

theorem Transits.of_mem_added {id : Nat} (h : Transits lands side touched ids ps cs ids' ps')
    (hc : .added id ∈ cs) : lands ≠ none ∧ ∃ p' ∈ ps', p'.row = some id ∧ p'.on side = lands := by
  obtain ⟨_, _, _, _, _, htransit, hc, -, hps'⟩ := h.exists_transit_of_mem hc
  cases htransit with
  | add _ p' grows old new here =>
    obtain rfl : _ = id := by simpa [eq_comm] using hc
    exact ⟨grows, p', hps' (by simp), new, here⟩
  | _ => simp at hc

/-- An operation that hides mentions joined rows only. -/
theorem Transits.mem_rows_of_mentioned {id : Nat}
    (h : Transits none side touched ids ps cs ids' ps') (hc : id ∈ mentioned cs) :
    ∃ p ∈ ps, touched p ∧ p.row = some id := by
  obtain ⟨c, hmem, rfl⟩ := mem_mentioned.1 hc
  cases c with
  | added id => exact absurd rfl (h.of_mem_added hmem).1
  | updated id s =>
    obtain ⟨-, p, hp, -, -, mine, old, -⟩ := h.of_mem_updated hmem
    exact ⟨p, hp, mine, old⟩
  | deleted id => exact (h.of_mem_deleted hmem).2

/-- The side of a joined row that is added or updated holds what the operation puts there. -/
theorem Transits.lands_of_mentioned {id : Nat} {s : Side}
    (h : Transits lands side touched ids ps cs ids' ps')
    (hc : .added id ∈ cs ∨ .updated id s ∈ cs) : ∃ p' ∈ ps', p'.row = some id ∧ p'.on side = lands := by
  rcases hc with hc | hc
  · exact (h.of_mem_added hc).2
  · obtain ⟨-, -, -, p', hp', -, -, hrow', -, -, here, -⟩ := h.of_mem_updated hc
    exact ⟨p', hp', hrow', here⟩

/-- A row that is added is none of those that are there before. -/
theorem Transits.not_mem_of_added {id : Nat} (h : Transits lands side touched ids ps cs ids' ps')
    (hids : ids.Holds (rows ps ++ rest)) (hc : .added id ∈ cs) : id ∉ rows ps ++ rest := by
  have hgrow : lands ≠ none := (h.of_mem_added hc).1
  induction h generalizing rest with
  | nil => simp at hc
  | @cons ids ids₁ ids₂ p? p'? ps ps' cs cs' head tail ih =>
    rw [rows_append, List.append_assoc] at hids
    rcases List.mem_append.1 hc with hc | hc
    · cases head with
      | add _ p' grows old new =>
        obtain rfl : id = ids.allocate.2 := by simpa using hc
        rw [rows_append, List.append_assoc]
        exact (RowIds.isLeast_allocate hids).1
      | _ => simp at hc
    · -- no row is lost on the way, so what the rest adds was absent from the start
      have hswap : rows p'?.toList ++ (rows ps ++ rest) ~ rows ps ++ (rows p'?.toList ++ rest) :=
        List.perm_append_comm_assoc _ _ rest
      have htail := ih ((head.scripted hids).holds.perm hswap) hc
      have hhead : rows p?.toList ⊆ rows p'?.toList := by
        cases head with
        | keep p => exact List.Subset.refl _
        | silent _ _ old new => simp [rows_toList_eq_nil old]
        | update p p' id mine old new => simp [rows, old, new]
        | delete p _ id shrink => exact absurd shrink hgrow
        | add _ p' grows old new => simp [rows_toList_eq_nil old]
      simp only [rows_append, List.mem_append, not_or] at htail ⊢
      exact ⟨⟨fun hid => htail.2.1 (hhead hid), htail.1⟩, htail.2.2⟩

/-- No row is mentioned twice, and rows of other pairings are not mentioned. -/
theorem Transits.nodup_rows (h : Transits lands side touched ids ps cs ids' ps')
    (hids : ids.Holds (rows ps ++ rest)) : (mentioned cs).Nodup ∧ ∀ id ∈ rest, id ∉ mentioned cs := by
  induction h generalizing rest with
  | nil => simp
  | @cons ids ids₁ ids₂ p? p'? ps ps' cs cs' head tail ih =>
    rw [rows_append, List.append_assoc] at hids
    have hswap : rows p'?.toList ++ (rows ps ++ rest) ~ rows ps ++ (rows p'?.toList ++ rest) :=
      List.perm_append_comm_assoc _ _ rest
    obtain ⟨hnodup, hrest⟩ := ih ((head.scripted hids).holds.perm hswap)
    have hother : ∀ id ∈ rest, id ∉ mentioned cs' := fun id hid =>
      hrest id (List.mem_append_right _ hid)
    -- at most one row is mentioned for the first pairing
    have hsingle {id : Nat} (hid : id ∉ mentioned cs') (hfresh : id ∉ rest) :
        (id :: mentioned cs').Nodup ∧ ∀ n ∈ rest, n ∉ id :: mentioned cs' := by
      refine ⟨List.nodup_cons.2 ⟨hid, hnodup⟩, fun n hn => ?_⟩
      rw [List.mem_cons, not_or]
      exact ⟨fun heq => hfresh (heq ▸ hn), hother n hn⟩
    cases head with
    | keep p => exact ⟨hnodup, hother⟩
    | silent => exact ⟨hnodup, hother⟩
    | update p p' id mine old new key there here =>
      have hp : rows (some p).toList = [id] := rows_singleton_of_eq old
      rw [hp] at hids
      have hid : id ∉ rows ps ++ rest := (List.nodup_cons.1 hids.nodup).1
      refine hsingle (hrest id ?_) fun hr => hid (List.mem_append_right _ hr)
      exact List.mem_append_left _ (mem_rows.2 ⟨p', by simp, new⟩)
    | delete p _ id shrink mine old new =>
      have hp : rows (some p).toList = [id] := rows_singleton_of_eq old
      rw [hp] at hids
      have hid : id ∉ rows ps ++ rest := (List.nodup_cons.1 hids.nodup).1
      -- nothing is added once rows are hidden, so the identifier that is released is not mentioned again
      refine hsingle (fun hm => ?_) fun hr => hid (List.mem_append_right _ hr)
      subst shrink
      obtain ⟨q, hq, -, hqid⟩ := tail.mem_rows_of_mentioned hm
      exact hid (List.mem_append_left _ (mem_rows.2 ⟨q, hq, hqid⟩))
    | add _ p' grows old new =>
      rw [rows_toList_eq_nil old] at hids
      refine hsingle (hrest _ (List.mem_append_left _ (mem_rows.2 ⟨p', by simp, new⟩))) fun hr => ?_
      exact (RowIds.isLeast_allocate hids).1 (List.mem_append_right (rows ps) hr)

/-- A pairing whose row is not mentioned stays as it is. -/
theorem Transits.mem_of_not_mentioned {p : Match} {id : Nat}
    (h : Transits lands side touched ids ps cs ids' ps') (hp : p ∈ ps) (hid : p.row = some id)
    (hc : id ∉ mentioned cs) : p ∈ ps' := by
  induction h with
  | nil => simp at hp
  | @cons ids ids₁ ids₂ p? p'? ps ps' cs cs' head _ ih =>
    rw [mentioned_append, List.mem_append, not_or] at hc
    rcases List.mem_append.1 hp with hp | hp
    · obtain rfl : p? = some p := by simpa using hp
      cases head with
      | keep => simp
      | silent _ _ old new => exact absurd hid (by simp [old p rfl])
      | update _ p' id' mine old => exact absurd (old.symm.trans hid) (by simpa [eq_comm] using hc.1)
      | delete _ _ id' shrink mine old =>
        exact absurd (old.symm.trans hid) (by simpa [eq_comm] using hc.1)
      | add _ p' grows old => exact absurd hid (by simp [old p rfl])
    · exact List.mem_append_right _ (ih hp hc.2)

end LiveTables
