import LiveTables.Proofs.Data.Lookup
import LiveTables.Proofs.Subject.History
import LiveTables.Subject.Scene

/-!
# Subjects in a scene

Whatever steps a scene takes, and whatever its observers do from inside their reactions, each subject that lives in
the end has been through a run (`Scene.passes_exec`), and so it has served those who listen
(`Scene.exists_run_performAll`). A subject that has gone does not come back, since numbers are counted up.
-/

namespace LiveTables.Scene

variable {w w' w'' : Scene} {n m : Nat} {t : Token} {name : String}

/-! ## What a scene keeps -/

/-- A token was issued by a subject, if it has one. -/
def Issued (w : Scene) (t : Token) : Prop :=
  ∀ n, t.subject? = some n → n < w.nextSubject ∧ (w.isLive n = true → t.id < (w.subject n).nextId)

/-- Subjects that live, are named or have issued a token were made. -/
structure Sound (w : Scene) : Prop where
  subjects : ∀ n, w.isLive n = true → n < w.nextSubject
  handles : ∀ h ∈ w.handles, h.2 < w.nextSubject
  tokens : ∀ e ∈ w.tokens, w.Issued e.2
  bag : ∀ t ∈ w.bag, w.Issued t

/-- What may happen to the subjects: none comes back, and those that live have been through a run. -/
structure Leads (w w' : Scene) : Prop where
  nextSubject_le : w.nextSubject ≤ w'.nextSubject
  lived : ∀ n < w.nextSubject, w'.isLive n = true → w.isLive n = true
  run : ∀ n, w'.isLive n = true → ∀ within count, ∃ story, Subject.Run (subject · n) within count w story w'

/-- What leads from a sound scene to a sound scene. -/
def Passes (w w' : Scene) : Prop := w.Sound → w'.Sound ∧ Leads w w'

theorem isLive_iff : w.isLive n = true ↔ n ∈ w.subjects.map (·.1) := by
  simp [isLive]

theorem subject_of_gone (h : w.isLive n ≠ true) : w.subject n = ∅ := by
  have hnone := lookup_eq_none_iff_not_mem.mpr (mt isLive_iff.mpr h)
  unfold subject
  rw [hnone]
  rfl

namespace Leads

theorem issued (h : Leads w w') (ht : w.Issued t) : w'.Issued t := by
  intro n hn
  obtain ⟨hlt, hid⟩ := ht n hn
  refine ⟨Nat.lt_of_lt_of_le hlt h.nextSubject_le, fun hlive => ?_⟩
  obtain ⟨story, hrun⟩ := h.run n hlive [] 0
  exact Nat.lt_of_lt_of_le (hid (h.lived n hlt hlive)) hrun.nextId_le

theorem trans (hsound : w.Sound) (h : Leads w w') (h' : Leads w' w'') : Leads w w'' := by
  refine ⟨Nat.le_trans h.nextSubject_le h'.nextSubject_le, fun n hn hlive => ?_, fun n hlive within count => ?_⟩
  · exact h.lived n hn (h'.lived n (Nat.lt_of_lt_of_le hn h.nextSubject_le) hlive)
  · by_cases hlive' : w'.isLive n = true
    · obtain ⟨story, hrun⟩ := h.run n hlive' within count
      obtain ⟨story', hrun'⟩ := h'.run n hlive within (count + Subject.deliveries story)
      exact ⟨_, hrun.append hrun'⟩
    · -- the subject was made meanwhile
      have hge : ¬ n < w'.nextSubject := fun hlt => hlive' (h'.lived n hlt hlive)
      have hnone : w.isLive n ≠ true := fun hw => hge (Nat.lt_of_lt_of_le (hsound.subjects n hw) h.nextSubject_le)
      have hsame : w'.subject n = w.subject n := (subject_of_gone hlive').trans (subject_of_gone hnone).symm
      obtain ⟨story, hrun⟩ := h'.run n hlive within count
      exact ⟨_, (Subject.Run.rest hsame).append hrun⟩

end Leads

namespace Passes

theorem refl (w : Scene) : Passes w w := fun h =>
  ⟨h, Nat.le_refl _, fun _ _ hlive => hlive, fun _ _ _ _ => ⟨[], .rest rfl⟩⟩

theorem trans (h : Passes w w') (h' : Passes w' w'') : Passes w w'' := by
  intro hsound
  obtain ⟨hsound', hleads⟩ := h hsound
  obtain ⟨hsound'', hleads'⟩ := h' hsound'
  exact ⟨hsound'', hleads.trans hsound hleads'⟩

theorem foldl {α : Type} {f : Scene → α → Scene} (h : ∀ w a, Passes w (f w a)) (l : List α) (w : Scene) :
    Passes w (l.foldl f w) := by
  induction l generalizing w with
  | nil => exact refl w
  | cons a l ih => exact (h w a).trans (ih _)

end Passes

/-! ## Single steps -/

/-- A change that leaves the registrations of the subjects that live on, and brings only names and tokens of subjects
that were made. -/
theorem Sound.keep (h : w.Sound) (hnext : w'.nextSubject = w.nextSubject)
    (hsubjects : ∀ n, w'.isLive n = true → w.isLive n = true ∧ w'.subject n = w.subject n)
    (hhandles : ∀ e ∈ w'.handles, e ∈ w.handles ∨ e.2 < w.nextSubject)
    (htokens : ∀ e ∈ w'.tokens, e ∈ w.tokens ∨ w.Issued e.2) (hbag : ∀ t ∈ w'.bag, t ∈ w.bag ∨ w.Issued t) :
    w'.Sound ∧ Leads w w' := by
  have hleads : Leads w w' := ⟨Nat.le_of_eq hnext.symm, fun n _ hn => (hsubjects n hn).1,
    fun n hn _ _ => ⟨[], .rest (hsubjects n hn).2⟩⟩
  refine ⟨⟨fun n hn => ?_, fun e he => ?_, fun e he => ?_, fun t ht => ?_⟩, hleads⟩
  · rw [hnext]
    exact h.subjects n (hsubjects n hn).1
  · rw [hnext]
    exact (hhandles e he).elim (h.handles e) fun hlt => hlt
  · exact hleads.issued ((htokens e he).elim (h.tokens e) fun hissued => hissued)
  · exact hleads.issued ((hbag t ht).elim (h.bag t) fun hissued => hissued)

theorem isLive_sweep (h : w.sweep.isLive n = true) : w.isLive n = true := by
  rw [isLive_iff] at h ⊢
  exact (List.filter_sublist.map _).subset h

theorem subject_sweep (h : w.sweep.isLive n = true) : w.sweep.subject n = w.subject n := by
  obtain ⟨e, he, rfl⟩ := List.mem_map.mp (isLive_iff.mp h)
  have hkept : (decide (e.1 ∈ w.busy) || w.handles.any (·.2 = e.1)) = true := (List.mem_filter.mp he).2
  have hlookup := lookup_filter w.subjects (fun n => n ∈ w.busy || w.handles.any (·.2 = n)) e.1
  exact congrArg (·.getD ∅) (hlookup.trans (if_pos hkept))

theorem passes_sweep (w : Scene) : Passes w w.sweep := fun h =>
  h.keep rfl (fun _ hn => ⟨isLive_sweep hn, subject_sweep hn⟩) (fun _ he => .inl he) (fun _ he => .inl he)
    fun _ ht => .inl ht

theorem isLive_modifySubject (f : Subject Nat → Subject Nat) : (w.modifySubject m f).isLive n = w.isLive n := by
  unfold modifySubject isLive
  rw [List.any_map]
  rfl

theorem subject_modifySubject (f : Subject Nat → Subject Nat) (hlive : w.isLive n = true) :
    (w.modifySubject m f).subject n = if n = m then f (w.subject n) else w.subject n := by
  have hlookup := lookup_map w.subjects (fun k s => if k = m then f s else s) n
  obtain ⟨s, hs⟩ := Option.ne_none_iff_exists'.mp (mt lookup_eq_none_iff_not_mem.mp (not_not.mpr (isLive_iff.mp hlive)))
  unfold modifySubject subject
  rw [hs]
  rw [hs] at hlookup
  exact congrArg (·.getD ∅) hlookup

/-- A change of one subject that is a run of it. -/
theorem Sound.modify (h : w.Sound) {f : Subject Nat → Subject Nat}
    (hrun : w.isLive m = true → ∀ within count,
      ∃ story, Subject.Run (subject · m) within count w story (w.modifySubject m f)) :
    (w.modifySubject m f).Sound ∧ Leads w (w.modifySubject m f) := by
  have hlive (n : Nat) : (w.modifySubject m f).isLive n = w.isLive n := isLive_modifySubject f
  have hleads : Leads w (w.modifySubject m f) := by
    refine ⟨Nat.le_refl _, fun n _ hn => hlive n ▸ hn, fun n hn within count => ?_⟩
    rw [hlive] at hn
    by_cases heq : n = m
    · subst heq
      exact hrun hn within count
    · refine ⟨[], .rest ?_⟩
      rw [subject_modifySubject f hn, if_neg heq]
  exact ⟨⟨fun n hn => h.subjects n (hlive n ▸ hn), h.handles, fun e he => hleads.issued (h.tokens e he),
    fun t ht => hleads.issued (h.bag t ht)⟩, hleads⟩

theorem Sound.disposeToken (h : w.Sound) (ht : w.Issued t) :
    (w.disposeToken t).Sound ∧ Leads w (w.disposeToken t) := by
  unfold Scene.disposeToken
  cases hsubject : t.subject? with
  | none => exact Passes.refl w h
  | some m =>
    refine h.modify fun hlive within count => ⟨_, .unsubscribe ((ht m hsubject).2 hlive) ?_⟩
    rw [subject_modifySubject _ hlive, if_pos rfl]

theorem Sound.takeToken (h : w.Sound) (name : String) :
    (w.takeToken name).2.Sound ∧ Leads w (w.takeToken name).2 :=
  h.keep rfl (fun _ hn => ⟨hn, rfl⟩) (fun _ he => .inl he) (fun _ he => .inl (List.mem_of_mem_filter he))
    fun _ ht => .inl ht

theorem Sound.issued_of_lookup (h : w.Sound) (ht : w.tokens.lookup name = some t) : w.Issued t :=
  h.tokens _ (mem_of_lookup_eq_some ht)

theorem passes_dropToken (w : Scene) (name : String) : Passes w (w.dropToken name) := by
  intro h
  obtain ⟨hsound, hleads⟩ := h.takeToken name
  unfold dropToken
  rcases htake : w.takeToken name with ⟨token, w'⟩
  rw [htake] at hsound hleads
  cases token with
  | none => exact ⟨hsound, hleads⟩
  | some t =>
    have hlookup : w.tokens.lookup name = some t := congrArg Prod.fst htake
    obtain ⟨hsound', hleads'⟩ := hsound.disposeToken (hleads.issued (h.issued_of_lookup hlookup))
    exact ⟨hsound', hleads.trans h hleads'⟩

theorem Sound.setToken (h : w.Sound) (name : String) (ht : w.Issued t) :
    (w.setToken name t).Sound ∧ Leads w (w.setToken name t) := by
  obtain ⟨hsound, hleads⟩ := passes_dropToken w name h
  have hissued := hleads.issued ht
  obtain ⟨hsound', hleads'⟩ : (w.setToken name t).Sound ∧ Leads (w.dropToken name) (w.setToken name t) :=
    hsound.keep rfl (fun _ hn => ⟨hn, rfl⟩) (fun _ he => .inl he)
      (fun e he => (List.mem_cons.mp he).elim (fun heq => .inr (heq ▸ hissued)) .inl) fun _ ht => .inl ht
  exact ⟨hsound', hleads.trans h hleads'⟩

theorem passes_setHandle (hm : m < w.nextSubject) (name : String) : Passes w (w.setHandle name m) := by
  have hnamed : Passes w { w with handles := (name, m) :: w.handles.filter (·.1 ≠ name) } := by
    intro h
    refine h.keep rfl (fun _ hn => ⟨hn, rfl⟩) (fun e he => ?_) (fun _ he => .inl he) fun _ ht => .inl ht
    rcases List.mem_cons.mp he with rfl | he
    · exact .inr hm
    · exact .inl (List.mem_of_mem_filter he)
  exact hnamed.trans (passes_sweep _)

/-- A registration is a run of its subject, which has then issued the token. -/
theorem passes_subscribe (hm : m < w.nextSubject) (observer : String) (reactions : List Reaction) :
    Passes w (w.subscribe m observer reactions).1 := by
  intro h
  let w₁ := w.modifySubject m fun s => (s.subscribe w.observers.size).1
  have hsubject (hlive : w.isLive m = true) : w₁.subject m = ((w.subject m).subscribe w.observers.size).1 :=
    (subject_modifySubject _ hlive).trans (if_pos rfl)
  obtain ⟨hsound₁, hleads₁⟩ : w₁.Sound ∧ Leads w w₁ :=
    h.modify fun hlive within count => ⟨_, .subscribe w.observers.size (hsubject hlive)⟩
  let w₂ : Scene := { w₁ with observers := w.observers.push ⟨observer, reactions.map (·, 0)⟩ }
  obtain ⟨hsound₂, hleads₂⟩ : w₂.Sound ∧ Leads w₁ w₂ :=
    hsound₁.keep rfl (fun _ hn => ⟨hn, rfl⟩) (fun _ he => .inl he) (fun _ he => .inl he) fun _ ht => .inl ht
  have hissued : w₁.Issued ⟨some m, (w.subject m).nextId⟩ := by
    intro n hn
    obtain rfl := Option.some.inj hn
    refine ⟨hm, fun hlive => ?_⟩
    rw [hsubject (isLive_modifySubject _ ▸ hlive)]
    exact Nat.lt_succ_self _
  obtain ⟨hsound₃, hleads₃⟩ := hsound₂.setToken observer (hleads₂.issued hissued)
  exact ⟨hsound₃, (hleads₁.trans h hleads₂).trans h hleads₃⟩

/-- A change of what is heard and remembered. -/
theorem passes_of_same (hsubjects : w'.subjects = w.subjects) (hnext : w'.nextSubject = w.nextSubject)
    (hhandles : w'.handles = w.handles) (htokens : w'.tokens = w.tokens) (hbag : w'.bag = w.bag) : Passes w w' := by
  intro h
  refine h.keep hnext (fun n hn => ?_) (fun _ he => .inl (hhandles ▸ he)) (fun _ he => .inl (htokens ▸ he))
    fun _ ht => .inl (hbag ▸ ht)
  unfold isLive subject at *
  rw [hsubjects] at hn ⊢
  exact ⟨hn, rfl⟩

theorem passes_write (w : Scene) (line : Line) : Passes w (w.write line) := passes_of_same rfl rfl rfl rfl rfl

theorem passes_busy (w : Scene) (busy : List Nat) : Passes w { w with busy } := passes_of_same rfl rfl rfl rfl rfl

/-! ## Programs -/

/-- A way to deliver that passes. -/
def Delivers (notify : Scene → Nat → Int → Scene) : Prop :=
  ∀ w n value, n < w.nextSubject → Passes w (notify w n value)

theorem lt_of_lookup (h : w.Sound) (hn : w.handles.lookup name = some n) : n < w.nextSubject :=
  h.handles _ (mem_of_lookup_eq_some hn)

variable {notify : Scene → Nat → Int → Scene}

/-- A new subject has no registrations, as before it was made. -/
theorem passes_create (w : Scene) :
    Passes w { w with nextSubject := w.nextSubject + 1, subjects := w.subjects ++ [(w.nextSubject, ∅)] } := by
  intro h
  let w' : Scene := { w with nextSubject := w.nextSubject + 1, subjects := w.subjects ++ [(w.nextSubject, ∅)] }
  have hlive (n : Nat) : w'.isLive n = true ↔ w.isLive n = true ∨ n = w.nextSubject := by
    simp [w', isLive_iff]
  have hsubject (n : Nat) : w'.subject n = w.subject n := by
    show ((w.subjects ++ [(w.nextSubject, ∅)]).lookup n).getD ∅ = (w.subjects.lookup n).getD ∅
    rw [List.lookup_append]
    cases w.subjects.lookup n with
    | some s => rfl
    | none =>
      rw [Option.none_or, lookup_cons]
      split_ifs <;> rfl
  have hleads : Leads w w' :=
    ⟨Nat.le_succ _, fun n hn hn' => ((hlive n).mp hn').resolve_right (Nat.ne_of_lt hn),
      fun n _ _ _ => ⟨[], .rest (hsubject n)⟩⟩
  refine ⟨⟨fun n hn => ?_, fun e he => Nat.lt_succ_of_lt (h.handles e he), fun e he => hleads.issued (h.tokens e he),
    fun t ht => hleads.issued (h.bag t ht)⟩, hleads⟩
  rcases (hlive n).mp hn with hn | rfl
  · exact Nat.lt_succ_of_lt (h.subjects n hn)
  · exact Nat.lt_succ_self _

theorem passes_release (w : Scene) (name : String) :
    Passes w ({ w with handles := w.handles.filter (·.1 ≠ name) } : Scene).sweep := by
  have hfiltered : Passes w { w with handles := w.handles.filter (·.1 ≠ name) } := fun h =>
    h.keep rfl (fun _ hn => ⟨hn, rfl⟩) (fun _ he => .inl (List.mem_of_mem_filter he)) (fun _ he => .inl he)
      fun _ ht => .inl ht
  exact hfiltered.trans (passes_sweep _)

theorem Sound.disposeTokens (h : w.Sound) {tokens : List Token} (htokens : ∀ t ∈ tokens, w.Issued t) :
    (tokens.foldl Scene.disposeToken w).Sound ∧ Leads w (tokens.foldl Scene.disposeToken w) := by
  induction tokens generalizing w with
  | nil => exact Passes.refl w h
  | cons t tokens ih =>
    obtain ⟨hsound, hleads⟩ := h.disposeToken (htokens t List.mem_cons_self)
    obtain ⟨hsound', hleads'⟩ := ih hsound fun t ht => hleads.issued (htokens t (List.mem_cons_of_mem _ ht))
    exact ⟨hsound', hleads.trans h hleads'⟩

/-- A step passes, whatever it is. -/
theorem passes_exec (hnotify : Delivers notify) (w : Scene) (step : Step) : Passes w (exec notify w step).1 := by
  intro h
  cases step with
  | create name => exact (passes_create w).trans (passes_setHandle (Nat.lt_succ_self _) name) h
  | «alias» name other =>
    simp only [exec]
    cases hn : w.handles.lookup name with
    | none => exact Passes.refl w h
    | some n => exact passes_setHandle (lt_of_lookup h hn) other h
  | release name => exact passes_release w name h
  | subscribe name observer reactions =>
    simp only [exec]
    cases hn : w.handles.lookup name with
    | none => exact Passes.refl w h
    | some n => exact passes_subscribe (lt_of_lookup h hn) observer reactions h
  | blank name => exact h.setToken name fun n hn => absurd hn (Option.some_ne_none n).symm
  | notify name value =>
    simp only [exec]
    cases hn : w.handles.lookup name with
    | none => exact Passes.refl w h
    | some n => exact hnotify w n value (lt_of_lookup h hn) h
  | drop name => exact passes_dropToken w name h
  | token name =>
    simp only [exec]
    cases w.tokens.lookup name <;> exact Passes.refl w h
  | info name =>
    simp only [exec]
    cases w.handles.lookup name <;> exact Passes.refl w h
  | collect name =>
    obtain ⟨hsound, hleads⟩ := h.takeToken name
    simp only [exec]
    rcases htake : w.takeToken name with ⟨token, w'⟩
    rw [htake] at hsound hleads
    cases token with
    | none => exact ⟨hsound, hleads⟩
    | some t =>
      have hissued := hleads.issued (h.issued_of_lookup (congrArg Prod.fst htake))
      obtain ⟨hsound', hleads'⟩ : ({ w' with bag := w'.bag ++ [t] } : Scene).Sound ∧
          Leads w' { w' with bag := w'.bag ++ [t] } := by
        refine hsound.keep rfl (fun _ hn => ⟨hn, rfl⟩) (fun _ he => .inl he) (fun _ he => .inl he) fun t' ht => ?_
        rcases List.mem_append.mp ht with ht | ht
        · exact .inl ht
        · exact .inr (List.mem_singleton.mp ht ▸ hissued)
      exact ⟨hsound', hleads.trans h hleads'⟩
  | dropCollected =>
    obtain ⟨hsound, hleads⟩ : ({ w with bag := [] } : Scene).Sound ∧ Leads w { w with bag := [] } :=
      h.keep rfl (fun _ hn => ⟨hn, rfl⟩) (fun _ he => .inl he) (fun _ he => .inl he)
        fun _ ht => absurd ht List.not_mem_nil
    obtain ⟨hsound', hleads'⟩ := hsound.disposeTokens fun t ht => hleads.issued (h.bag t ht)
    exact ⟨hsound', hleads.trans h hleads'⟩
  | collected => exact Passes.refl w h

theorem passes_react (hnotify : Delivers notify) (observer : Nat) (value : Int) (w : Scene) (place : Nat) :
    Passes w (react notify observer value w place) := by
  unfold react
  split
  · exact .refl w
  · split
    · exact .refl w
    · split
      · refine Passes.trans ?_ (Passes.foldl (fun w step => ?_) _ _)
        · exact passes_of_same rfl rfl rfl rfl rfl
        · exact (passes_exec hnotify w step).trans (passes_write _ _)
      · exact .refl w

theorem passes_hear (hnotify : Delivers notify) (value : Int) (w : Scene) (observer : Nat) :
    Passes w (hear notify value w observer) := by
  unfold hear
  split
  · exact .refl w
  · exact (passes_write w _).trans (Passes.foldl (passes_react hnotify observer value) _ _)

/-! ## Deliveries -/

section Deliver

variable {call : Scene → Nat × Nat → Scene} (hcall : ∀ w e, Passes w (call w e))

include hcall

theorem passes_turn (w : Scene) (e : Nat × Nat) : Passes w (Subject.turn (subject · m) call w e) := by
  unfold Subject.turn
  split
  · exact hcall w e
  · exact .refl w

/-- The turns of a delivery, if the subject lives in the end. -/
theorem exists_turns (entries : List (Nat × Nat)) (h : w.Sound) (hm : m < w.nextSubject)
    (hlive : (entries.foldl (Subject.turn (subject · m) call) w).isLive m = true) (within : List Nat)
    (delivery count : Nat) :
    ∃ story, Subject.Turns (subject · m) within delivery call count entries w story := by
  induction entries generalizing w count with
  | nil => exact ⟨_, .nil⟩
  | cons e entries ih =>
    rw [List.foldl_cons] at hlive
    by_cases hthere : (w.subject m).contains e.1 = true
    · rw [Subject.turn, if_pos hthere] at hlive
      obtain ⟨hsound, hleads⟩ := hcall w e h
      have hm' := Nat.lt_of_lt_of_le hm hleads.nextSubject_le
      have hlive' := (Passes.foldl (passes_turn hcall) entries _ hsound).2.lived m hm' hlive
      obtain ⟨story, hrun⟩ := hleads.run m hlive' (e.1 :: within) count
      obtain ⟨story', hturns⟩ := ih hsound hm' hlive (count + Subject.deliveries story)
      exact ⟨_, .heard hthere hrun hturns⟩
    · rw [Subject.turn, if_neg hthere] at hlive
      obtain ⟨story, hturns⟩ := ih h hm hlive count
      exact ⟨_, .passed (Bool.eq_false_iff.mpr hthere) hturns⟩

theorem passes_deliver (hm : m < w.nextSubject) : Passes w (Subject.deliver (subject · m) call w) := by
  intro h
  obtain ⟨hsound, hleads⟩ := Passes.foldl (passes_turn hcall) (w.subject m).entries w h
  refine ⟨hsound, hleads.nextSubject_le, hleads.lived, fun n hlive within count => ?_⟩
  by_cases heq : n = m
  · subst heq
    obtain ⟨story, hturns⟩ := exists_turns hcall (w.subject n).entries h hm hlive within count (count + 1)
    exact ⟨_, .deliver hturns⟩
  · exact hleads.run n hlive within count

end Deliver

/-- A delivery passes, whatever the observers do in their reactions and how deep the deliveries nest. -/
theorem delivers_notify (depth : Nat) : Delivers (Scene.notify depth) := by
  induction depth with
  | zero => exact fun w _ _ _ => .refl w
  | succ depth ih =>
    intro w n value hn
    let held : Scene := { w with busy := n :: w.busy }
    have hheld : Passes w held := passes_busy w _
    have hdelivered := passes_deliver (fun w e => passes_hear ih value w e.2) (show n < held.nextSubject from hn)
    exact hheld.trans (hdelivered.trans ((passes_busy _ _).trans (passes_sweep _)))

theorem sound_initial : initial.Sound := by
  refine ⟨fun n hn => ?_, by simp [initial], by simp [initial], by simp [initial]⟩
  obtain rfl : n = 0 := by simpa [isLive_iff, initial] using hn
  exact Nat.one_pos

/-- The scene after a program. -/
def performAll (depth : Nat) (steps : List Step) : Scene :=
  steps.foldl (fun w step => (exec (Scene.notify depth) { w with log := [] } step).1) initial

/-- Whatever a program does, each subject that lives in the end has been through a run. -/
theorem exists_run_performAll (depth : Nat) (steps : List Step) (hlive : (performAll depth steps).isLive n = true) :
    ∃ story, Subject.Run (subject · n) [] 0 initial story (performAll depth steps) := by
  have hpasses : Passes initial (performAll depth steps) := by
    refine Passes.foldl (fun w step => ?_) steps initial
    have hcleared : Passes w { w with log := [] } := passes_of_same rfl rfl rfl rfl rfl
    exact hcleared.trans (passes_exec (delivers_notify depth) _ step)
  exact (hpasses sound_initial).2.run n hlive [] 0

end LiveTables.Scene
