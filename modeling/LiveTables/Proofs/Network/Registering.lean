import LiveTables.Proofs.Network.InStep

/-!
# Registering earlier or later

Rows and cells may be written before a computed column is registered, or afterwards. Writing leaves the columns alone, so
that the column is accepted before if it is accepted afterwards (`Network.Accepts`), and a world in which it was
registered before stays in step with one in which it was not. So it makes no difference when it is registered, to any
table (`network_tryAll`).
-/

namespace LiveTables

open Network World

variable {ω : Type} {o : Outside ω} {d : Dispatch ω} {w w' : World ω} {net base : Network} {n m depth : Nat}
  {more : List ComputedColumn} {col : ComputedColumn} {content : Content} {call : Call} {calls : List Call}

/-! ## Calls -/

/-- The world after calls, one after the other. A call that fails changes nothing. -/
def Call.tryAll (o : Outside ω) (depth : Nat) (w : World ω) (calls : List Call) : World ω :=
  calls.foldl (fun w call => (call.perform (dispatch o depth) w).getD w) w

/-- Calls that register a computed column. -/
def Call.registers : Call → Bool
  | addComputed .. => true
  | _ => false

theorem Call.exists_of_registers (h : call.registers = true) : ∃ n col, call = .addComputed n col := by
  cases call with
  | addComputed n col => exact ⟨n, col, rfl⟩
  | addRow | setValue | deleteRow | join => cases h

theorem Call.tryAll_append (o : Outside ω) (depth : Nat) (w : World ω) (calls calls' : List Call) :
    tryAll o depth w (calls ++ calls') = tryAll o depth (tryAll o depth w calls) calls' := List.foldl_append

/-- An edit that the table accepts is made, and announced. -/
theorem Call.perform_edit (m : Nat) (e : Table.Edit) : (e.call m).perform d w =
    (w.network.table? m).bind fun t => (t.attempt e).map fun done => w.commit d m done.1 done.2 := by
  cases e with
  | addRow => rfl
  | setValue column row value =>
    simp only [Table.attempt, Option.map_eq_bind]
    rfl
  | deleteRow row =>
    simp only [Table.attempt, Option.map_eq_bind]
    rfl

/-- Worlds in step stay in step when the same is written in both. -/
theorem World.InStep.write (h : w.InStep n more base w') (ho : o.Passive) (hsteady : base.Steady)
    (hwrites : call.Writes) (depth : Nat) :
    ((call.perform (dispatch o depth) w).getD w).InStep n more base ((call.perform (dispatch o depth) w').getD w') := by
  obtain ⟨m, e, rfl⟩ := hwrites.exists_edit
  rw [Call.perform_edit, Call.perform_edit, h.network, table?_extend]
  rcases ht : w.network.table? m with - | t
  · exact h
  · have hattempt := Table.attempt_extend
      (fun _ hid => Tight.kind?_eq_none (h.network ▸ h.tight') (content?_of_table? ht) hid) e
    simp only [Option.map_some, Option.bind_some]
    rcases hdone : t.attempt e with - | done
    · rcases hdone' : (t.extend (moreAt n more m)).attempt e with - | done'
      · exact h
      · rw [hdone, hdone'] at hattempt
        cases hattempt
    · rcases hdone' : (t.extend (moreAt n more m)).attempt e with - | done'
      · rw [hdone, hdone'] at hattempt
        cases hattempt
      · rw [hdone, hdone'] at hattempt
        obtain ⟨hsame, hsignals⟩ : Table.Alongside (moreAt n more m) done done' := by
          cases hattempt with
          | some halongside => exact halongside
        have hedited := (h.hold m).edit ht hdone hdone' hsame
        exact ((ho.inStep n more depth).announces (hsteady.hold m) hedited hsignals).release hsteady

theorem World.InStep.tryAll (h : w.InStep n more base w') (ho : o.Passive) (hsteady : base.Steady)
    (hwrites : ∀ call ∈ calls, call.Writes) (depth : Nat) :
    (Call.tryAll o depth w calls).InStep n more base (Call.tryAll o depth w' calls) :=
  h.foldl fun _ _ call hcall h => h.write ho hsteady (hwrites call hcall) depth

/-- Worlds of one network are in step. -/
theorem World.InStep.of_eq (h : w.network.Tight) (hsame : w'.network = w.network) :
    w.InStep 0 [] w.network w' :=
  ⟨by rw [extend_nil, hsame], h, hsame ▸ h, rfl⟩

/-! ## Registering -/

/-- A table accepts a computed column: its identifier is new, and all that it depends on is there. -/
def Network.Accepts (net : Network) (n : Nat) (col : ComputedColumn) : Prop :=
  ∃ ids, (net.content? n).map Content.columnIds = some ids ∧ col.id ∉ ids ∧ ∀ d ∈ col.dependencies, d ∈ ids

namespace Network

theorem Accepts.congr {net' : Network} (h : net.Accepts n col) (hframe : net'.frame = net.frame) :
    net'.Accepts n col := by
  rw [Accepts, columnIds_congr hframe]
  exact h

theorem accepts_iff : net.Accepts n col ↔
    ∃ content, net.content? n = some content ∧ content.register col = some (content.extend [col]) := by
  constructor
  · rintro ⟨ids, hids, hnew, hdeps⟩
    obtain ⟨content, hcontent, rfl⟩ := Option.map_eq_some_iff.1 hids
    exact ⟨content, hcontent, by rw [Content.register_eq, if_pos ⟨hnew, hdeps⟩]⟩
  · rintro ⟨content, hcontent, hregister⟩
    rw [Content.register_eq] at hregister
    split_ifs at hregister with hok
    exact ⟨content.columnIds, by rw [hcontent, Option.map_some], hok⟩

/-- To put the table with more columns in its place is to extend the network. -/
theorem Ordered.setContent_eq_extend (h : net.Ordered) (hcontent : net.content? n = some content) :
    net.setContent n (content.extend more) = net.extend n more := by
  rw [setContent, extend, Network.modify, Network.modify]
  congr 1
  refine List.map_congr_left fun x hx => ?_
  split_ifs with hid
  · have hx' := h.content?_of_mem hx
    rw [hid, hcontent] at hx'
    rw [Node.extend, Option.some.inj hx']
  · rfl

end Network

namespace Call

theorem perform_addComputed (n : Nat) (col : ComputedColumn) : (addComputed n col).perform d w =
    (w.network.content? n).bind fun content => (content.register col).map fun content =>
      w.modifyNetwork (·.setContent n content) := by
  simp only [perform, Option.bind_eq_bind]
  refine congrArg _ (funext fun content => ?_)
  cases content with
  | stored t => simp only [Content.register, Option.map_eq_bind, Option.bind_assoc]; rfl
  | joined j => simp only [Content.register, Option.map_eq_bind, Option.bind_assoc]; rfl

/-- What registering a column comes to. -/
theorem perform_of_accepts (ho : w.network.Ordered) (h : w.network.Accepts n col) :
    (addComputed n col).perform d w = some (w.modifyNetwork (·.extend n [col])) := by
  obtain ⟨content, hcontent, hregister⟩ := accepts_iff.1 h
  rw [perform_addComputed, hcontent, Option.bind_some, hregister, Option.map_some, modifyNetwork, modifyNetwork,
    ho.setContent_eq_extend hcontent]

theorem perform_of_not_accepts (h : ¬ w.network.Accepts n col) : (addComputed n col).perform d w = none := by
  rw [perform_addComputed]
  rcases hcontent : w.network.content? n with - | content
  · rfl
  · have hregister : content.register col = none := by
      rw [Content.register_eq, if_neg]
      exact fun hok => h ⟨content.columnIds, by rw [hcontent, Option.map_some], hok⟩
    rw [Option.bind_some, hregister, Option.map_none]

end Call

/-- A world in which a column is registered is in step with the world before. -/
theorem World.InStep.of_accepts (h : w.network.Tight) (hok : w.network.Accepts n col) :
    w.InStep n [col] w.network (w.modifyNetwork (·.extend n [col])) := by
  obtain ⟨content, hcontent, hregister⟩ := accepts_iff.1 hok
  suffices hchanges : w.network.Changes (w.network.extend n [col]) from ⟨rfl, h, h.changes hchanges, rfl⟩
  rw [← h.kinded.regular.orderly.ordered.setContent_eq_extend hcontent]
  cases content with
  | stored t =>
    obtain ⟨⟨t', _⟩, hadd, heq⟩ := Option.map_eq_some_iff.1 hregister
    rw [← heq]
    exact .addComputed (table?_eq_some_iff.2 hcontent) (accepted?_eq_some.1 hadd)
  | joined j =>
    obtain ⟨⟨j', _⟩, hadd, heq⟩ := Option.map_eq_some_iff.1 hregister
    rw [← heq]
    exact .addComputedJoined (joined?_eq_some_iff.2 hcontent) (accepted?_eq_some.1 hadd)

/-! ## Runs -/

/-- A call that writes, or registers a computed column. -/
def Call.Plain (call : Call) : Prop := call.registers = true ∨ call.Writes

section Runs

variable (ho : o.Passive) (h : w.network.Tight) (hsteady : w.network.Steady)

include ho h hsteady

/-- A call leaves a network as it should be, and what it does is a matter of the network. -/
theorem network_try (hplain : call.Plain) (hsame : w'.network = w.network) (depth : Nat) :
    ((call.perform (dispatch o depth) w).getD w).network.Tight ∧
      ((call.perform (dispatch o depth) w).getD w).network.Steady ∧
      ((call.perform (dispatch o depth) w').getD w').network = ((call.perform (dispatch o depth) w).getD w).network := by
  rcases hplain with hregisters | hwrites
  · obtain ⟨n, col, rfl⟩ := Call.exists_of_registers hregisters
    have hordered := h.kinded.regular.orderly.ordered
    by_cases hok : w.network.Accepts n col
    · rw [Call.perform_of_accepts hordered hok, Call.perform_of_accepts (hsame ▸ hordered) (hsame ▸ hok)]
      refine ⟨(World.InStep.of_accepts h hok).tight', hsteady.extend n [col], ?_⟩
      show w'.network.extend n [col] = w.network.extend n [col]
      rw [hsame]
    · rw [Call.perform_of_not_accepts hok, Call.perform_of_not_accepts (hsame ▸ hok)]
      exact ⟨h, hsteady, hsame⟩
  · have hstep := (World.InStep.of_eq h hsame).write ho hsteady hwrites depth
    exact ⟨hstep.tight, hsteady.of_frame hstep.frame, by rw [hstep.network, extend_nil]⟩

theorem keeps_tryAll (hplain : ∀ call ∈ calls, call.Plain) (depth : Nat) :
    (Call.tryAll o depth w calls).network.Tight ∧ (Call.tryAll o depth w calls).network.Steady := by
  induction calls generalizing w with
  | nil => exact ⟨h, hsteady⟩
  | cons call calls ih =>
    obtain ⟨hcall, hcalls⟩ := List.forall_mem_cons.1 hplain
    obtain ⟨h₁, hsteady₁, -⟩ := network_try ho h hsteady hcall rfl depth
    exact ih h₁ hsteady₁ hcalls

/-- A column may be registered before something is written, or afterwards. -/
theorem network_register (hwrites : ∀ call ∈ calls, call.Writes) (n : Nat) (col : ComputedColumn) (depth : Nat) :
    (Call.tryAll o depth w (calls ++ [.addComputed n col])).network =
      (Call.tryAll o depth w (.addComputed n col :: calls)).network := by
  have hwritten := (World.InStep.of_eq h rfl).tryAll ho hsteady hwrites depth
  have hlast : Call.tryAll o depth w (calls ++ [.addComputed n col]) =
      ((Call.addComputed n col).perform (dispatch o depth) (Call.tryAll o depth w calls)).getD
        (Call.tryAll o depth w calls) := Call.tryAll_append o depth w calls [.addComputed n col]
  have hfirst : Call.tryAll o depth w (.addComputed n col :: calls) =
      Call.tryAll o depth (((Call.addComputed n col).perform (dispatch o depth) w).getD w) calls := rfl
  rw [hlast, hfirst]
  by_cases hok : w.network.Accepts n col
  · have hregistered := (World.InStep.of_accepts h hok).tryAll ho hsteady hwrites depth
    rw [Call.perform_of_accepts h.kinded.regular.orderly.ordered hok,
      Call.perform_of_accepts hwritten.tight.kinded.regular.orderly.ordered (hok.congr hwritten.frame)]
    exact hregistered.network.symm
  · rw [Call.perform_of_not_accepts hok,
      Call.perform_of_not_accepts fun hlater => hok (hlater.congr hwritten.frame.symm)]
    rfl

/-- It is as if all columns had been registered at the start. -/
theorem network_tryAll (hplain : ∀ call ∈ calls, call.Plain) (depth : Nat) :
    (Call.tryAll o depth w calls).network =
      (Call.tryAll o depth w (calls.filter (·.registers) ++ calls.filter (!·.registers))).network := by
  induction calls using List.reverseRecOn with
  | nil => rfl
  | append_singleton calls call ih =>
    have hcalls : ∀ call ∈ calls, call.Plain := fun c hc => hplain c (List.mem_append_left _ hc)
    have hcall : call.Plain := hplain call (by simp)
    have hfilter (p : Call → Bool) : ∀ call ∈ calls.filter p, call.Plain :=
      fun c hc => hcalls c (List.mem_of_mem_filter hc)
    have hordered : ∀ call ∈ calls.filter (·.registers) ++ calls.filter (!·.registers), call.Plain :=
      List.forall_mem_append.2 ⟨hfilter _, hfilter _⟩
    have hkept := keeps_tryAll ho h hsteady hordered depth
    -- the last call does the same after the calls in either order
    have hlast := (network_try ho hkept.1 hkept.2 hcall (ih hcalls) depth).2.2
    rw [Call.tryAll_append]
    refine hlast.trans ?_
    rw [List.filter_append, List.filter_append, List.filter_singleton, List.filter_singleton]
    rcases hregisters : call.registers with - | -
    · simp only [Bool.not_false, cond_true, cond_false, List.append_nil]
      rw [← List.append_assoc, Call.tryAll_append o depth w (_ ++ _) [call]]
      rfl
    · obtain ⟨n, col, rfl⟩ := Call.exists_of_registers hregisters
      have hfront := keeps_tryAll ho h hsteady (hfilter (·.registers)) depth
      have hwrites : ∀ call ∈ calls.filter (!·.registers), call.Writes := fun c hc => by
        obtain ⟨hmem, hnot⟩ := List.mem_filter.1 hc
        refine (hcalls c hmem).resolve_left fun hreg => ?_
        rw [hreg] at hnot
        cases hnot
      have hmove := network_register ho hfront.1 hfront.2 hwrites n col depth
      simp only [Bool.not_true, cond_true, cond_false, List.append_nil]
      rw [List.append_assoc, List.singleton_append, Call.tryAll_append o depth w _ (_ :: _), ← hmove,
        Call.tryAll_append, Call.tryAll_append]
      rfl

end Runs

end LiveTables
