import Mathlib.Logic.Relation
import Unbox.Decision

/-!
# Steps of deciding, run from a state

* `Decide.result`, `Decide.after` : how a step ends, and the decisions it leaves;
* `Leads W s t` : from `s` to `t` the marks changed by writes of `W` only, one after the other, and
  the rewrites in force and the declarations being decided are the same;
* `Leads.history` : what holds from each write to the next holds between any two moments of a run;
* `Decide.Follows W act` : `act` leads by `W` from every state, whether it fails or not; one lemma
  for each way to build a step;
* `Decide.holds_after_forM` : what one step makes true and no other undoes holds in the end;
  `Decide.holds_of_forM`, if no write undoes it;
* `Decide.holds_of_seq` : what a step makes true from every such state it makes true after another one;
* `Decide.Keeps Q act` : `act` keeps `Q` true unless it fails.
-/

namespace Unbox

namespace Decide
variable {α β : Type}

def result (act : Decide α) (s : Decisions) : Except Failure α := (act.run.run s).1

def after (act : Decide α) (s : Decisions) : Decisions := (act.run.run s).2

@[simp] theorem result_pure (a : α) (s : Decisions) : result (pure a) s = .ok a := rfl

@[simp] theorem after_pure (a : α) (s : Decisions) : after (pure a : Decide α) s = s := rfl

theorem result_bind (x : Decide α) (f : α → Decide β) (s : Decisions) :
    result (x >>= f) s = match result x s with
      | .ok a => result (f a) (after x s)
      | .error e => .error e := by
  simp only [result, after, ExceptT.run_bind, StateT.run_bind]
  rcases x.run.run s with ⟨_ | _, _⟩ <;> rfl

theorem after_bind (x : Decide α) (f : α → Decide β) (s : Decisions) :
    after (x >>= f) s = match result x s with
      | .ok a => after (f a) (after x s)
      | .error _ => after x s := by
  simp only [result, after, ExceptT.run_bind, StateT.run_bind]
  rcases x.run.run s with ⟨_ | _, _⟩ <;> rfl

/-- A sequence that succeeds: both parts do, the second from where the first ended. -/
theorem result_bind_eq_ok {x : Decide α} {f : α → Decide β} {s : Decisions} {b : β} :
    result (x >>= f) s = .ok b ↔
      ∃ a, result x s = .ok a ∧ result (f a) (after x s) = .ok b := by
  rw [result_bind]
  cases h : result x s <;> simp

theorem after_bind_of_ok {x : Decide α} {f : α → Decide β} {s : Decisions} {a : α}
    (h : result x s = .ok a) : after (x >>= f) s = after (f a) (after x s) := by
  rw [after_bind, h]

@[simp] theorem result_get (s : Decisions) : result get s = .ok s := rfl

@[simp] theorem after_get (s : Decisions) : after get s = s := rfl

@[simp] theorem result_modifyMarks (f : Marks → Marks) (s : Decisions) :
    result (modifyMarks f) s = .ok () := rfl

@[simp] theorem after_modifyMarks (f : Marks → Marks) (s : Decisions) :
    after (modifyMarks f) s = s.record (f s.marks) := rfl

@[simp] theorem result_count (f : DeclarationStats → DeclarationStats) (s : Decisions) :
    result (count f) s = .ok () := rfl

@[simp] theorem after_count (f : DeclarationStats → DeclarationStats) (s : Decisions) :
    after (count f) s = { s with stats := f s.stats } := rfl

@[simp] theorem result_force (d : DeclId) (s : Decisions) : result (force d) s = .ok () := by
  simp [force, result_bind]

@[simp] theorem after_force (d : DeclId) (s : Decisions) :
    (after (force d) s).marks = s.marks.forceBoxed d := by
  simp [force, after_bind, Decisions.record]

@[simp] theorem result_unboxed (d : DeclId) (s : Decisions) :
    result (unboxed d) s = .ok (s.marks.unboxed d) := rfl

@[simp] theorem after_unboxed (d : DeclId) (s : Decisions) : after (unboxed d) s = s := rfl

@[simp] theorem result_ofExcept (e : Except Failure α) (s : Decisions) :
    result (MonadExcept.ofExcept e) s = e := by
  cases e <;> rfl

@[simp] theorem after_ofExcept (e : Except Failure α) (s : Decisions) :
    after (MonadExcept.ofExcept e) s = s := by
  cases e <;> rfl

@[simp] theorem after_askBounds (question : StateM BoundMarks α) (s : Decisions) :
    after (askBounds question) s =
      s.record { s.marks with bounds := (question s.marks.bounds).2 } := rfl

@[simp] theorem result_between (enter leave : Decisions → Decisions) (act : Decide α)
    (s : Decisions) : result (between enter leave act) s = result act (enter s) := rfl

@[simp] theorem after_between (enter leave : Decisions → Decisions) (act : Decide α)
    (s : Decisions) : after (between enter leave act) s = leave (after act (enter s)) := rfl

theorem ext {x y : Decide α} (hr : ∀ s, result x s = result y s) (ha : ∀ s, after x s = after y s) :
    x = y := funext fun s => Prod.ext (hr s) (ha s)

/-- Two steps in brackets are each in brackets, if entering again undoes leaving. -/
theorem between_seq {enter leave : Decisions → Decisions} {x : Decide α} {y : Decide β}
    (h : ∀ s, enter (leave (after x (enter s))) = after x (enter s)) :
    between enter leave (x >>= fun _ => y) =
      between enter leave x >>= fun _ => between enter leave y := by
  refine ext (fun s => ?_) fun s => ?_
  · rw [result_between, result_bind, result_bind, result_between, after_between]
    cases result x (enter s) with
    | ok a => simp only [result_between, h]
    | error e => rfl
  · rw [after_between, after_bind, after_bind, result_between, after_between]
    cases result x (enter s) with
    | ok a => simp only [after_between, h]
    | error e => rfl

end Decide

/-! ## Chains of writes -/

/-- One more moment, by a write of `W` from the latest one. -/
inductive Extends (W : Marks → Marks → Prop) : List Marks → List Marks → Prop where
  | write {m m' : Marks} {past : List Marks} (h : W m m') : Extends W (m :: past) (m' :: m :: past)

/-- From `s` to `t` every change of the marks is a write of `W`; the rewrites in force and the
declarations being decided are the same. -/
structure Leads (W : Marks → Marks → Prop) (s t : Decisions) : Prop where
  writes : Relation.ReflTransGen (Extends W) s.moments t.moments
  rewrites : t.rewrites = s.rewrites
  pending : t.pending = s.pending

namespace Leads
variable {W R : Marks → Marks → Prop} {s t u : Decisions}

theorem refl (W : Marks → Marks → Prop) (s : Decisions) : Leads W s s := ⟨.refl, rfl, rfl⟩

theorem trans (h : Leads W s t) (h' : Leads W t u) : Leads W s u :=
  ⟨h.writes.trans h'.writes, h'.rewrites.trans h.rewrites, h'.pending.trans h.pending⟩

theorem mono {V : Marks → Marks → Prop} (hVW : ∀ m m', V m m' → W m m') (h : Leads V s t) :
    Leads W s t := by
  refine ⟨Relation.ReflTransGen.mono ?_ _ _ h.writes, h.rewrites, h.pending⟩
  rintro _ _ ⟨hw⟩
  exact .write (hVW _ _ hw)

theorem record {m : Marks} (h : W s.marks m) : Leads W s (s.record m) :=
  ⟨.single (.write h), rfl, rfl⟩

/-- A transitive relation that every write respects holds between any two moments since `s`. -/
theorem history (hR : ∀ m m', W m m' → R m m') (trans : ∀ {a b c}, R a b → R b c → R a c)
    (h : Leads W s t) : ∃ during, t.moments = during ++ s.moments ∧
      (during ++ [s.marks]).Pairwise fun later earlier => R earlier later := by
  have hw := h.writes
  generalize t.moments = ms at hw ⊢
  induction hw with
  | refl => exact ⟨[], rfl, List.pairwise_singleton _ _⟩
  | tail _ hw ih =>
    obtain ⟨during, hd, hp⟩ := ih
    obtain @⟨m, m', past, hw⟩ := hw
    refine ⟨m' :: during, by rw [hd, List.cons_append], ?_⟩
    rw [List.cons_append, List.pairwise_cons]
    refine ⟨fun a ha => ?_, hp⟩
    have hm : (during ++ [s.marks]).head? = some m := by
      have := congrArg List.head? hd
      cases during <;> simpa [Decisions.moments] using this.symm
    obtain ⟨rest, hr⟩ := List.head?_eq_some_iff.mp hm
    rw [hr] at ha hp
    rcases List.mem_cons.mp ha with rfl | ha
    · exact hR _ _ hw
    · exact trans ((List.pairwise_cons.mp hp).1 a ha) (hR _ _ hw)

/-- What every write preserves holds in the end if it held in the beginning. -/
theorem preserves {P : Marks → Prop} (hP : ∀ m m', W m m' → P m → P m') (h : Leads W s t)
    (hs : P s.marks) : P t.marks := by
  obtain ⟨during, hd, hp⟩ := h.history (R := fun m m' => P m → P m') hP fun h h' => h' ∘ h
  cases during with
  | nil =>
    have ht : t.marks = s.marks := (List.cons.inj hd).1
    rwa [ht]
  | cons m during =>
    have ht : t.marks = m := (List.cons.inj hd).1
    rw [ht]
    exact (List.pairwise_cons.mp hp).1 s.marks (by simp) hs

end Leads

namespace Decide
variable {α β : Type} {W : Marks → Marks → Prop}

/-- From every state `act` leads by writes of `W`, whether it fails or not. -/
def Follows (W : Marks → Marks → Prop) (act : Decide α) : Prop := ∀ s, Leads W s (after act s)

namespace Follows

theorem pure (a : α) : Follows W (Pure.pure a : Decide α) := by
  intro s
  rw [after_pure]
  exact .refl W s

theorem bind {x : Decide α} {f : α → Decide β} (hx : Follows W x) (hf : ∀ a, Follows W (f a)) :
    Follows W (x >>= f) := by
  intro s
  rw [after_bind]
  cases result x s with
  | ok a => exact (hx s).trans (hf a _)
  | error e => exact hx s

theorem seq {x : Decide α} {y : Decide β} (hx : Follows W x) (hy : Follows W y) :
    Follows W (x >>= fun _ => y) := bind hx fun _ => hy

theorem ite {p : Prop} [Decidable p] {x y : Decide α} (hx : p → Follows W x)
    (hy : ¬ p → Follows W y) : Follows W (if p then x else y) := by
  split
  · next h => exact hx h
  · next h => exact hy h

theorem mono {V : Marks → Marks → Prop} {act : Decide α} (hVW : ∀ m m', V m m' → W m m')
    (h : Follows V act) : Follows W act := fun s => (h s).mono hVW

theorem modifyMarks {f : Marks → Marks} (h : ∀ m, W m (f m)) : Follows W (modifyMarks f) := by
  intro s
  rw [after_modifyMarks]
  exact .record (h s.marks)

theorem count (f : DeclarationStats → DeclarationStats) : Follows W (count f) := by
  intro s
  rw [after_count]
  exact ⟨.refl, rfl, rfl⟩

theorem unboxed (d : DeclId) : Follows W (unboxed d) := by
  intro s
  rw [after_unboxed]
  exact .refl W s

theorem get : Follows W (MonadState.get : Decide Decisions) := by
  intro s
  rw [after_get]
  exact .refl W s

theorem ofExcept (e : Except Failure α) : Follows W (MonadExcept.ofExcept e : Decide α) := by
  intro s
  rw [after_ofExcept]
  exact .refl W s

theorem askBounds {question : StateM BoundMarks α}
    (h : ∀ m : Marks, W m { m with bounds := (question m.bounds).2 }) :
    Follows W (askBounds question) := by
  intro s
  rw [after_askBounds]
  exact .record (h s.marks)

/-- What was entered is left again, so the stacks are as before. -/
theorem deciding {act : Decide α} (d : DeclId) (h : Follows W act) : Follows W (deciding d act) := by
  intro s
  obtain ⟨hw, hr, hp⟩ := h { s with pending := d :: s.pending }
  refine ⟨hw, hr, ?_⟩
  simp only [Decide.deciding, after_between, hp, List.erase_cons_head]

theorem forM {f : α → Decide Unit} : ∀ {as : List α}, (∀ a ∈ as, Follows W (f a)) →
    Follows W (as.forM f)
  | [], _ => pure ()
  | a :: as, h => by
    rw [List.forM_eq_forM, List.forM_cons]
    refine seq (h a (by simp)) ?_
    exact forM fun b hb => h b (by simp [hb])

end Follows

/-- What `f a` makes true and no step undoes holds once the whole list is done, if all steps before
`f a` leave true what it needs. -/
theorem holds_after_forM {P I : Decisions → Prop} {f : α → Decide Unit} {as : List α} {a : α}
    {s : Decisions} (hP : ∀ b ∈ as, ∀ s, P s → P (after (f b) s))
    (hI : ∀ b ∈ as, ∀ s, I s → I (after (f b) s))
    (holds : ∀ s, I s → result (f a) s = .ok () → P (after (f a) s)) (hs : P s ∨ I s ∧ a ∈ as)
    (h : result (as.forM f) s = .ok ()) : P (after (as.forM f) s) := by
  induction as generalizing s with
  | nil => exact hs.resolve_right fun ⟨_, ha⟩ => List.not_mem_nil ha
  | cons b as ih =>
    rw [List.forM_eq_forM, List.forM_cons] at h ⊢
    obtain ⟨⟨⟩, hb, has⟩ := result_bind_eq_ok.mp h
    rw [after_bind_of_ok hb]
    refine ih (fun e he => hP e (List.mem_cons_of_mem b he))
      (fun e he => hI e (List.mem_cons_of_mem b he)) ?_ has
    rcases hs with hs | ⟨hs, ha⟩
    · exact .inl (hP b List.mem_cons_self s hs)
    · rcases List.mem_cons.mp ha with rfl | ha
      · exact .inl (holds s hs hb)
      · exact .inr ⟨hI b List.mem_cons_self s hs, ha⟩

theorem holds_of_forM {P : Marks → Prop} {f : α → Decide Unit} {as : List α} {a : α}
    {s : Decisions} (hP : ∀ m m', W m m' → P m → P m') (hf : ∀ b ∈ as, Follows W (f b))
    (ha : a ∈ as) (holds : ∀ s', s'.rewrites = s.rewrites → s'.pending = s.pending →
      result (f a) s' = .ok () → P (after (f a) s').marks)
    (h : result (as.forM f) s = .ok ()) : P (after (as.forM f) s).marks := by
  refine holds_after_forM (P := fun s' => P s'.marks)
    (I := fun s' => s'.rewrites = s.rewrites ∧ s'.pending = s.pending)
    (fun b hb s' => (hf b hb s').preserves hP) (fun b hb s' hs' => ?_)
    (fun s' hs' => holds s' hs'.1 hs'.2) (.inr ⟨⟨rfl, rfl⟩, ha⟩) h
  exact ⟨(hf b hb s').rewrites.trans hs'.1, (hf b hb s').pending.trans hs'.2⟩

/-- What comes first leaves the rewrites in force and the declarations being decided, so it does not
matter for what comes then. -/
theorem holds_of_seq {P : Marks → Prop} {x : Decide α} {y : Decide Unit} {s : Decisions}
    (hx : Follows W x) (hy : ∀ s', s'.rewrites = s.rewrites → s'.pending = s.pending →
      result y s' = .ok () → P (after y s').marks)
    (h : result (x >>= fun _ => y) s = .ok ()) : P (after (x >>= fun _ => y) s).marks := by
  obtain ⟨_, hxs, h⟩ := result_bind_eq_ok.mp h
  rw [after_bind_of_ok hxs]
  obtain ⟨-, hr, hp⟩ := hx s
  exact hy _ hr hp h

/-! ## Invariants of what succeeds -/

variable {Q : Marks → Rewrites → Prop}

/-- If `act` succeeds it leaves `Q` true of the marks and of the rewrites in force. -/
def Keeps (Q : Marks → Rewrites → Prop) (act : Decide α) : Prop :=
  ∀ s a, Q s.marks s.rewrites → result act s = .ok a → Q (after act s).marks (after act s).rewrites

theorem Follows.keeps {act : Decide α} (h : Follows W act)
    (hQ : ∀ m m' r, W m m' → Q m r → Q m' r) : Keeps Q act := by
  intro s a hs _
  obtain ⟨-, hr, -⟩ := h s
  rw [hr]
  exact (h s).preserves (fun m m' => hQ m m' s.rewrites) hs

namespace Keeps

theorem pure (a : α) : Keeps Q (Pure.pure a) := fun _ _ hs _ => hs

theorem bind {x : Decide α} {f : α → Decide β} (hx : Keeps Q x) (hf : ∀ a, Keeps Q (f a)) :
    Keeps Q (x >>= f) := by
  intro s b hs h
  obtain ⟨a, hxa, hfa⟩ := result_bind_eq_ok.mp h
  rw [after_bind_of_ok hxa]
  exact hf a _ b (hx s a hs hxa) hfa

theorem ite {p : Prop} [Decidable p] {x y : Decide α} (hx : p → Keeps Q x)
    (hy : ¬ p → Keeps Q y) : Keeps Q (if p then x else y) := by
  split
  · next h => exact hx h
  · next h => exact hy h

theorem forM {f : α → Decide Unit} {as : List α} (h : ∀ a ∈ as, Keeps Q (f a)) :
    Keeps Q (as.forM f) := by
  induction as with
  | nil => exact pure ()
  | cons a as ih =>
    rw [List.forM_eq_forM, List.forM_cons]
    exact bind (h a List.mem_cons_self) fun _ => ih fun b hb => h b (List.mem_cons_of_mem a hb)

theorem deciding {act : Decide α} (d : DeclId) (h : Keeps Q act) : Keeps Q (deciding d act) :=
  fun s a hs ha => h { s with pending := d :: s.pending } a hs ha

end Keeps

end Decide

end Unbox
