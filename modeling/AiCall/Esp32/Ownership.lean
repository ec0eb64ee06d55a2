import AiCall.Esp32.Session

/-! Which task owns the published session.  `Inv` ties `g_curr_aicall`, each task's line, its record
and its engine together; it is kept by every step except an allocation that overwrites a session. -/

namespace AiCall.Esp32

open Kit

/-- How far a task has come with the record and the engine it creates. -/
inductive Stage where
  | unborn  -- nothing is allocated
  | raw  -- the record is allocated and not yet cleared
  | bare  -- the record has no engine
  | made  -- the engine exists and is not stored
  | up  -- the engine is stored
  | closing  -- in `destroy_aicall`, before its test of the engine
  | stopping  -- in `artc_aicall_destroy`
  | stopped  -- the destroyed engine is still stored
  | emptied  -- no engine is left
  | freed  -- the record is freed and still published
  | gone
deriving DecidableEq, Repr

def ImplLine.stage : ImplLine → Stage
  | .uncreated | .resetErrorCode | .mallocAicall => .unborn
  | .clearAicall => .raw
  | .mallocConfig | .storeConfig | .loadClearConfig | .clearConfig _ | .takeConfig
  | .fillConfig _ | .init => .bare
  | .storeEngine _ => .made
  | .destroyTestCurr | .destroyTestEngine => .closing
  | .destroyingEngine _ => .stopping
  | .destroyClearEngine => .stopped
  | .destroyTestConfig | .destroyLoadConfig | .destroyFreeConfig _ | .destroyClearConfig
  | .destroyLoadCurr | .destroyFreeCurr _ => .emptied
  | .destroyClearCurr => .freed
  | .deleteTask | .deleted => .gone
  | _ => .up

/-- Between the allocation of `g_curr_aicall` and the end of `destroy_aicall`. -/
def ImplLine.inSession (line : ImplLine) : Bool :=
  match line.stage with
  | .unborn | .gone => false
  | _ => true

/-- What task `t`'s record and engine are at a stage. -/
def Stage.Holds (t : Nat) : Stage → Cell Aicall → Life → Prop
  | .unborn, c, e => c = .fresh ∧ e = .absent
  | .raw, c, e => (∃ r, c = .held r) ∧ e = .absent
  | .bare, c, e => (∃ r, c = .held r ∧ r.engine = none) ∧ e = .absent
  | .made, c, e => (∃ r, c = .held r ∧ r.engine = none) ∧ e = .live
  | .up, c, e => (∃ r, c = .held r ∧ r.engine = some t) ∧ e = .live
  | .closing, c, e =>
    ∃ r, c = .held r ∧ (r.engine = none ∧ e = .absent ∨ r.engine = some t ∧ e = .live)
  | .stopping, c, e => (∃ r, c = .held r ∧ r.engine = some t) ∧ e = .destroying
  | .stopped, c, e => (∃ r, c = .held r ∧ r.engine = some t) ∧ e = .destroyed
  | .emptied, c, e => (∃ r, c = .held r ∧ r.engine = none) ∧ (e = .absent ∨ e = .destroyed)
  | .freed, c, e | .gone, c, e => c = .freed ∧ (e = .absent ∨ e = .destroyed)

/-- The arguments that task `t` has read at a line are its own engine and record. -/
def ImplLine.Own (t : Nat) : ImplLine → Prop
  | .storeEngine e => e = t
  | .loadCallConfig p | .call p _ | .send p | .handup p | .destroyEngine p | .destroyingEngine p
  | .destroyFreeCurr p => p = some t
  | _ => True

def Ended (l : Life) : Prop := l = .destroying ∨ l = .destroyed

/-- Each task owns what it created, and the published session is that of the one task in session. -/
structure Inv (s : State) : Prop where
  owner : ∀ t, s.gCurrAicall = some t ↔ (s.impls t).line.inSession
  stage : ∀ t, (s.impls t).line.stage.Holds t (s.aicalls t) (s.engines t)
  own : ∀ t, (s.impls t).line.Own t
  ptr : ∀ t p, (s.impls t).ptr = some p → p = some t
  created : ∀ t, s.tasks ≤ t → s.impls t = { line := .uncreated }
  freed : ∀ a r, (a, r) ∈ s.freedBy ↔ a = r ∧ s.aicalls r = .freed
  freedOnce : s.freedBy.Nodup
  destroyed : ∀ a e, (a, e) ∈ s.destroyedBy ↔ a = e ∧ Ended (s.engines e)
  destroyedOnce : s.destroyedBy.Nodup

theorem inv_init : Inv demo.init where
  owner t := by simp [demo, ImplLine.inSession, ImplLine.stage]
  stage t := ⟨rfl, rfl⟩
  own t := trivial
  ptr t p h := nomatch h
  created t _ := rfl
  freed a r := by simp [demo]
  freedOnce := List.nodup_nil
  destroyed a e := by simp [demo, Ended]
  destroyedOnce := List.nodup_nil

theorem Inv.curr {s : State} (h : Inv s) {t : Nat} (ht : (s.impls t).line.inSession) :
    s.gCurrAicall = some t :=
  (h.owner t).mpr ht

theorem Inv.alone {s : State} (h : Inv s) {t u : Nat} (ht : (s.impls t).line.inSession)
    (hu : (s.impls u).line.inSession) : t = u :=
  Option.some.inj ((h.curr ht).symm.trans (h.curr hu))

/-- A record with another flag, player or config is the same record to its owner. -/
def SameEngine (c d : Cell Aicall) : Prop :=
  c = d ∨ ∃ r r', c = .held r ∧ d = .held r' ∧ r.engine = r'.engine

theorem SameEngine.freed_iff {c d : Cell Aicall} (h : SameEngine c d) :
    c = .freed ↔ d = .freed := by
  rcases h with rfl | ⟨r, r', rfl, rfl, _⟩ <;> simp

theorem Stage.Holds.congr {t : Nat} {g : Stage} {c d : Cell Aicall} {e : Life}
    (h : g.Holds t c e) (hs : SameEngine c d) : g.Holds t d e := by
  rcases hs with rfl | ⟨r, r', rfl, rfl, he⟩
  · exact h
  · cases g <;> simp_all [Stage.Holds]

/-- A step of another task than those in session: it may create a task, and it changes nothing of a
record but its flag. -/
structure Frame (s s' : State) : Prop where
  curr : s'.gCurrAicall = s.gCurrAicall
  engines : s'.engines = s.engines
  freedBy : s'.freedBy = s.freedBy
  destroyedBy : s'.destroyedBy = s.destroyedBy
  aicalls : ∀ t, SameEngine (s.aicalls t) (s'.aicalls t)
  impls : s'.impls = s.impls ∧ s'.tasks = s.tasks ∨
    s'.impls = Function.update s.impls s.tasks { line := .resetErrorCode } ∧ s'.tasks = s.tasks + 1

theorem Inv.frame {s s' : State} (h : Inv s) (hf : Frame s s') : Inv s' := by
  have himpl : ∀ t, s'.impls t = s.impls t ∨
      s.impls t = { line := .uncreated } ∧ s'.impls t = { line := .resetErrorCode } := by
    intro t
    rcases hf.impls with ⟨hi, _⟩ | ⟨hi, _⟩
    · exact Or.inl (congrFun hi t)
    · by_cases ht : t = s.tasks
      · subst ht
        exact Or.inr ⟨h.created _ (Nat.le_refl _), by simp [hi]⟩
      · exact Or.inl (by simp [hi, ht])
  constructor
  · intro t
    rw [hf.curr, h.owner t]
    rcases himpl t with hi | ⟨hi, hi'⟩
    · rw [hi]
    · simp [hi, hi', ImplLine.inSession, ImplLine.stage]
  · intro t
    have ht := (h.stage t).congr (hf.aicalls t)
    rw [hf.engines]
    rcases himpl t with hi | ⟨hi, hi'⟩
    · rwa [hi]
    · rw [hi] at ht
      rwa [hi']
  · intro t
    rcases himpl t with hi | ⟨_, hi'⟩
    · rw [hi]
      exact h.own t
    · rw [hi']
      trivial
  · intro t p hp
    rcases himpl t with hi | ⟨_, hi'⟩
    · exact h.ptr t p (hi ▸ hp)
    · simp [hi'] at hp
  · intro t ht
    rcases hf.impls with ⟨hi, hn⟩ | ⟨hi, hn⟩
    · rw [hi]
      exact h.created t (by omega)
    · rw [hi, Function.update_of_ne (by omega)]
      exact h.created t (by omega)
  · intro a r
    rw [hf.freedBy, h.freed, (hf.aicalls r).freed_iff]
  · rw [hf.freedBy]
    exact h.freedOnce
  · intro a e
    rw [hf.destroyedBy, h.destroyed, hf.engines]
  · rw [hf.destroyedBy]
    exact h.destroyedOnce

/-- What a step of task `t` does to the session: the task goes to `k`, and it touches no record and
no engine but its own. -/
structure Move (s s' : State) (t : Nat) (k : Thread ImplLine) : Prop where
  impls : s'.impls = Function.update s.impls t k
  tasks : s'.tasks = s.tasks
  aicalls : ∀ u, u ≠ t → s'.aicalls u = s.aicalls u
  engines : ∀ u, u ≠ t → s'.engines u = s.engines u
  stage : k.line.stage.Holds t (s'.aicalls t) (s'.engines t)
  own : k.line.Own t
  ptr : ∀ p, k.ptr = some p → p = some t
  curr : s'.gCurrAicall = s.gCurrAicall ∧ k.line.inSession = (s.impls t).line.inSession ∨
    s.gCurrAicall = none ∧ s'.gCurrAicall = some t ∧ k.line.inSession ∨
    s.gCurrAicall = some t ∧ s'.gCurrAicall = none ∧ k.line.inSession = false
  freedBy : s'.freedBy = s.freedBy ∧ (s'.aicalls t = .freed ↔ s.aicalls t = .freed) ∨
    s'.freedBy = (t, t) :: s.freedBy ∧ s.aicalls t ≠ .freed ∧ s'.aicalls t = .freed
  destroyedBy : s'.destroyedBy = s.destroyedBy ∧ (Ended (s'.engines t) ↔ Ended (s.engines t)) ∨
    s'.destroyedBy = (t, t) :: s.destroyedBy ∧ ¬ Ended (s.engines t) ∧ Ended (s'.engines t)

theorem Inv.move {s s' : State} {t : Nat} {k : Thread ImplLine} (h : Inv s) (ht : t < s.tasks)
    (m : Move s s' t k) : Inv s' := by
  have hself : s'.impls t = k := by simp [m.impls]
  have hother : ∀ u, u ≠ t → s'.impls u = s.impls u := fun u hu => by simp [m.impls, hu]
  constructor
  · intro u
    by_cases hu : u = t
    · subst hu
      rw [hself]
      rcases m.curr with ⟨hc, hk⟩ | ⟨_, hc, hk⟩ | ⟨_, hc, hk⟩
      · rw [hc, hk, h.owner]
      · simp [hc, hk]
      · simp [hc, hk]
    · have hout := h.owner u
      rw [hother u hu, ← hout]
      rcases m.curr with ⟨hc, _⟩ | ⟨hs, hc, _⟩ | ⟨hs, hc, _⟩
      · rw [hc]
      · simp [hs, hc, Ne.symm hu]
      · simp [hs, hc, Ne.symm hu]
  · intro u
    by_cases hu : u = t
    · subst hu
      rw [hself]
      exact m.stage
    · rw [hother u hu, m.aicalls u hu, m.engines u hu]
      exact h.stage u
  · intro u
    by_cases hu : u = t
    · subst hu
      rw [hself]
      exact m.own
    · rw [hother u hu]
      exact h.own u
  · intro u p hp
    by_cases hu : u = t
    · subst hu
      exact m.ptr p (hself ▸ hp)
    · exact h.ptr u p (hother u hu ▸ hp)
  · intro u hu
    rw [m.tasks] at hu
    rw [hother u (by omega)]
    exact h.created u hu
  · intro a r
    by_cases hr : r = t
    · subst hr
      rcases m.freedBy with ⟨hl, hc⟩ | ⟨hl, hc, hc'⟩
      · rw [hl, h.freed, hc]
      · have hnot : (a, r) ∉ s.freedBy := fun hm => hc ((h.freed a r).mp hm).2
        simp [hl, hnot, hc']
    · rw [m.aicalls r hr, ← h.freed]
      rcases m.freedBy with ⟨hl, _⟩ | ⟨hl, _⟩
      · rw [hl]
      · simp [hl, hr]
  · rcases m.freedBy with ⟨hl, _⟩ | ⟨hl, hc, _⟩
    · rw [hl]
      exact h.freedOnce
    · rw [hl]
      exact List.nodup_cons.mpr ⟨fun hm => hc ((h.freed t t).mp hm).2, h.freedOnce⟩
  · intro a e
    by_cases he : e = t
    · subst he
      rcases m.destroyedBy with ⟨hl, hc⟩ | ⟨hl, hc, hc'⟩
      · rw [hl, h.destroyed, hc]
      · have hnot : (a, e) ∉ s.destroyedBy := fun hm => hc ((h.destroyed a e).mp hm).2
        simp [hl, hnot, hc']
    · rw [m.engines e he, ← h.destroyed]
      rcases m.destroyedBy with ⟨hl, _⟩ | ⟨hl, _⟩
      · rw [hl]
      · simp [hl, he]
  · rcases m.destroyedBy with ⟨hl, _⟩ | ⟨hl, hc, _⟩
    · rw [hl]
      exact h.destroyedOnce
    · rw [hl]
      exact List.nodup_cons.mpr ⟨fun hm => hc ((h.destroyed t t).mp hm).2, h.destroyedOnce⟩

/-- A line that goes through `g_curr_aicall` keeps the record and the engine in step with the line
it leads to. -/
theorem access_stage {t : Nat} {line : ImplLine} {f : Aicall → Aicall × ImplLine} {r : Aicall}
    {e : Life} (hf : line.access t = some f) (ho : line.Own t)
    (hs : line.stage.Holds t (.held r) e) :
    (f r).2.stage.Holds t (.held (f r).1) e ∧ (f r).2.Own t ∧ (f r).2.inSession := by
  cases line <;> simp only [ImplLine.access, Option.some.injEq, reduceCtorEq] at hf <;> subst hf <;>
    dsimp only <;> (try split) <;>
    simp_all [ImplLine.stage, Stage.Holds, ImplLine.Own, ImplLine.inSession]
  -- what is left is the test of `destroy_aicall` on a record with an engine
  rename_i hsome
  rcases hs with ⟨hn, _⟩ | hup
  · simp [hn] at hsome
  · exact hup

theorem access_inSession {t : Nat} {line : ImplLine} (h : (line.access t).isSome) :
    line.inSession := by
  cases line <;> simp_all [ImplLine.access, ImplLine.inSession, ImplLine.stage]

/-- The allocation of a session does not overwrite another one. -/
def AllocatesVacant (s : State) (a : Action) : Prop :=
  ∀ t ok junk, a = .impl t ok junk → (s.impls t).line = .mallocAicall → s.gCurrAicall = none

theorem Frame.of_eq {s s' : State} (ha : s'.aicalls = s.aicalls := by rfl)
    (hc : s'.gCurrAicall = s.gCurrAicall := by rfl) (he : s'.engines = s.engines := by rfl)
    (hf : s'.freedBy = s.freedBy := by rfl) (hd : s'.destroyedBy = s.destroyedBy := by rfl)
    (hi : s'.impls = s.impls := by rfl) (ht : s'.tasks = s.tasks := by rfl) : Frame s s' :=
  ⟨hc, he, hf, hd, fun _ => ha ▸ Or.inl rfl, Or.inl ⟨hi, ht⟩⟩

theorem Frame.fail (s : State) (f : Fault) : Frame s (s.fail f) :=
  .of_eq

/-- The key task's own accesses leave the engine of a record alone. -/
theorem KeyLine.access_engine {line : KeyLine} {f : Aicall → Aicall × KeyLine}
    (hf : line.access = some f) (r : Aicall) : (f r).1.engine = r.engine := by
  cases line <;> simp only [KeyLine.access, Option.some.injEq, reduceCtorEq] at hf <;>
    subst hf <;> rfl

theorem CallbackLine.access_record {line : CallbackLine} {f : Aicall → Aicall × CallbackLine}
    (hf : line.access = some f) (r : Aicall) : (f r).1 = r := by
  cases line <;> simp only [CallbackLine.access, Option.some.injEq, reduceCtorEq] at hf <;>
    subst hf <;> rfl

theorem keyStep_frame {s s' : State} {ok : Bool} (h : s.keyStep ok = some s') : Frame s s' := by
  unfold State.keyStep at h
  split at h
  · unfold State.keyLine at h
    split at h
    case h_3 =>
      split at h <;> cases h
      · exact .fail s _
      · exact .of_eq
    case h_4 =>
      split at h <;> cases h
      · exact ⟨rfl, rfl, rfl, rfl, fun _ => Or.inl rfl, Or.inr ⟨rfl, rfl⟩⟩
      · exact .of_eq
    all_goals cases h
    all_goals exact .of_eq
  · cases h
    exact .of_eq
  · cases h
    exact .fail s _
  · rename_i h' k ha
    cases h
    obtain ⟨f, i, r, hf, _, hi, rfl, _⟩ := Thread.access_done ha
    refine ⟨rfl, rfl, rfl, rfl, fun t => ?_, Or.inl ⟨rfl, rfl⟩⟩
    by_cases ht : t = i
    · subst ht
      exact Or.inr ⟨r, (f r).1, hi, by simp, (KeyLine.access_engine hf r).symm⟩
    · exact Or.inl (by simp [ht])

theorem callbackStep_frame {s s' : State} {i : Nat} (h : s.callbackStep i = some s') :
    Frame s s' := by
  unfold State.callbackStep at h
  simp only at h
  split at h
  · unfold State.callbackLine at h
    simp only at h
    split at h
    case h_3 =>
      split at h <;> cases h
      · exact .of_eq
      · exact .fail s _
    all_goals cases h
    all_goals exact .of_eq
  · cases h
    exact .of_eq
  · cases h
    exact .fail s _
  · rename_i h' k ha
    cases h
    obtain ⟨f, i, r, hf, _, hi, rfl, _⟩ := Thread.access_done ha
    refine .of_eq ?_
    rw [CallbackLine.access_record hf, ← hi]
    exact Function.update_eq_self i s.aicalls

theorem ImplLine.ne_uncreated {line : ImplLine} (h : line.inSession) : line ≠ .uncreated := by
  rintro rfl
  exact Bool.false_ne_true h

theorem Inv.lt_tasks {s : State} (h : Inv s) {t : Nat} (hl : (s.impls t).line ≠ .uncreated) :
    t < s.tasks := by
  by_contra hn
  exact hl (by rw [h.created t (by omega)])

/-- A task goes to a line of the same stage, and `s'` differs from `s` in nothing else that the
session depends on. -/
theorem Inv.goto {s s' : State} {t : Nat} {line : ImplLine} (h : Inv s) (ht : t < s.tasks)
    (hs : line.stage = (s.impls t).line.stage) (ho : line.Own t)
    (hi : s'.impls = s.impls := by rfl) (hn : s'.tasks = s.tasks := by rfl)
    (ha : s'.aicalls = s.aicalls := by rfl) (he : s'.engines = s.engines := by rfl)
    (hc : s'.gCurrAicall = s.gCurrAicall := by rfl) (hf : s'.freedBy = s.freedBy := by rfl)
    (hd : s'.destroyedBy = s.destroyedBy := by rfl) : Inv (s'.goto t line) := by
  refine h.move ht (k := { line }) ⟨by rw [← hi]; rfl, hn, fun _ _ => congrFun ha _,
    fun _ _ => congrFun he _, ?_, ho, by simp, Or.inl ⟨hc, ?_⟩, Or.inl ⟨hf, ?_⟩,
    Or.inl ⟨hd, ?_⟩⟩
  · change line.stage.Holds t (s'.aicalls t) (s'.engines t)
    rw [hs, ha, he]
    exact h.stage t
  · simp only [ImplLine.inSession, hs]
  · change s'.aicalls t = .freed ↔ _
    rw [ha]
  · change Ended (s'.engines t) ↔ _
    rw [he]

theorem Inv.fail {s : State} (h : Inv s) (f : Fault) : Inv (s.fail f) := h.frame (.fail s f)

theorem Inv.sdkCall {s : State} {t : Nat} {p : Option Nat} {line : ImplLine} (h : Inv s)
    (ht : t < s.tasks) (hs : line.stage = (s.impls t).line.stage) (ho : line.Own t) :
    Inv (s.sdkCall t p line) := by
  unfold State.sdkCall
  split
  · exact h.fail _
  · exact h.goto ht hs ho

theorem Inv.curr_eq {s : State} (h : Inv s) {t : Nat} {line : ImplLine}
    (hl : (s.impls t).line = line) (hin : line.inSession) : s.gCurrAicall = some t :=
  h.curr (by rw [hl]; exact hin)

theorem Inv.stage_eq {s : State} (h : Inv s) {t : Nat} {line : ImplLine}
    (hl : (s.impls t).line = line) : line.stage.Holds t (s.aicalls t) (s.engines t) :=
  hl ▸ h.stage t

theorem Inv.own_eq {s : State} (h : Inv s) {t : Nat} {line : ImplLine}
    (hl : (s.impls t).line = line) : line.Own t :=
  hl ▸ h.own t

theorem Inv.mallocAicall {s : State} {t : Nat} {junk : Aicall} (h : Inv s)
    (hl : (s.impls t).line = .mallocAicall) (hv : s.gCurrAicall = none) :
    Inv ({ s with
      gCurrAicall := some t
      aicalls := Function.update s.aicalls t (.held junk) }.goto t .clearAicall) := by
  obtain ⟨hc, he⟩ := h.stage_eq hl
  refine h.move (h.lt_tasks (by simp [hl])) (k := { line := .clearAicall })
    ⟨rfl, rfl, fun u hu => Function.update_of_ne hu _ _, fun _ _ => rfl,
      ⟨⟨junk, Function.update_self ..⟩, he⟩, trivial, by simp, Or.inr (Or.inl ⟨hv, rfl, rfl⟩),
      Or.inl ⟨rfl, ?_⟩, Or.inl ⟨rfl, Iff.rfl⟩⟩
  simp [State.goto, State.setImpl, hc]

theorem Inv.init {s : State} {t : Nat} (h : Inv s) (hl : (s.impls t).line = .init) (ok : Bool) :
    Inv (if ok then
      { s with engines := Function.update s.engines t .live }.goto t (.storeEngine t)
    else s.goto t .destroyTestCurr) := by
  obtain ⟨⟨r, hr, hn⟩, he⟩ := h.stage_eq hl
  have ht := h.lt_tasks (t := t) (by simp [hl])
  cases ok with
  | true =>
    refine h.move ht (k := { line := .storeEngine t })
      ⟨rfl, rfl, fun _ _ => rfl, fun u hu => Function.update_of_ne hu _ _,
        ⟨⟨r, hr, hn⟩, Function.update_self ..⟩, rfl, by simp,
        Or.inl ⟨rfl, by simp [hl, ImplLine.inSession, ImplLine.stage]⟩, Or.inl ⟨rfl, Iff.rfl⟩,
        Or.inl ⟨rfl, ?_⟩⟩
    simp [State.goto, State.setImpl, Ended, he]
  | false =>
    exact h.move ht (k := { line := .destroyTestCurr })
      ⟨rfl, rfl, fun _ _ => rfl, fun _ _ => rfl, ⟨r, hr, Or.inl ⟨hn, he⟩⟩, trivial, by simp,
        Or.inl ⟨rfl, by simp [hl, ImplLine.inSession, ImplLine.stage]⟩, Or.inl ⟨rfl, Iff.rfl⟩,
        Or.inl ⟨rfl, Iff.rfl⟩⟩

theorem Inv.handup {s : State} {t : Nat} {p : Option Nat} (h : Inv s)
    (hl : (s.impls t).line = .handup p) : Inv (s.sdkCall t p .destroyTestCurr) := by
  obtain ⟨⟨r, hr, hn⟩, he⟩ := h.stage_eq hl
  unfold State.sdkCall
  split
  · exact h.fail _
  · exact h.move (h.lt_tasks (by simp [hl])) (k := { line := .destroyTestCurr })
      ⟨rfl, rfl, fun _ _ => rfl, fun _ _ => rfl, ⟨r, hr, Or.inr ⟨hn, he⟩⟩, trivial, by simp,
        Or.inl ⟨rfl, by simp [hl, ImplLine.inSession, ImplLine.stage]⟩, Or.inl ⟨rfl, Iff.rfl⟩,
        Or.inl ⟨rfl, Iff.rfl⟩⟩

theorem Inv.destroyEngine {s : State} {t : Nat} (h : Inv s)
    (hl : (s.impls t).line = .destroyEngine (some t)) :
    Inv ({ s with
      engines := Function.update s.engines t .destroying
      destroyedBy := (t, t) :: s.destroyedBy }.goto t (.destroyingEngine (some t))) := by
  obtain ⟨hr, he⟩ := h.stage_eq hl
  exact h.move (h.lt_tasks (by simp [hl])) (k := { line := .destroyingEngine (some t) })
    ⟨rfl, rfl, fun _ _ => rfl, fun u hu => Function.update_of_ne hu _ _,
      ⟨hr, Function.update_self ..⟩, rfl, by simp,
      Or.inl ⟨rfl, by simp [hl, ImplLine.inSession, ImplLine.stage]⟩, Or.inl ⟨rfl, Iff.rfl⟩,
      Or.inr ⟨rfl, by simp [Ended, he], by simp [State.goto, State.setImpl, Ended]⟩⟩

theorem Inv.destroyingEngine {s : State} {t : Nat} (h : Inv s)
    (hl : (s.impls t).line = .destroyingEngine (some t)) :
    Inv ({ s with
      engines := Function.update s.engines t .destroyed }.goto t .destroyClearEngine) := by
  obtain ⟨hr, he⟩ := h.stage_eq hl
  exact h.move (h.lt_tasks (by simp [hl])) (k := { line := .destroyClearEngine })
    ⟨rfl, rfl, fun _ _ => rfl, fun u hu => Function.update_of_ne hu _ _,
      ⟨hr, Function.update_self ..⟩, trivial, by simp,
      Or.inl ⟨rfl, by simp [hl, ImplLine.inSession, ImplLine.stage]⟩, Or.inl ⟨rfl, Iff.rfl⟩,
      Or.inl ⟨rfl, by simp [State.goto, State.setImpl, Ended, he]⟩⟩

theorem Inv.destroyFreeCurr {s : State} {t : Nat} (h : Inv s)
    (hl : (s.impls t).line = .destroyFreeCurr (some t)) :
    Inv ({ s with
      aicalls := Function.update s.aicalls t .freed
      freedBy := (t, t) :: s.freedBy }.goto t .destroyClearCurr) := by
  obtain ⟨⟨r, hr, _⟩, he⟩ := h.stage_eq hl
  exact h.move (h.lt_tasks (by simp [hl])) (k := { line := .destroyClearCurr })
    ⟨rfl, rfl, fun u hu => Function.update_of_ne hu _ _, fun _ _ => rfl,
      ⟨Function.update_self .., he⟩, trivial, by simp,
      Or.inl ⟨rfl, by simp [hl, ImplLine.inSession, ImplLine.stage]⟩,
      Or.inr ⟨rfl, by simp [hr], Function.update_self ..⟩, Or.inl ⟨rfl, Iff.rfl⟩⟩

theorem Inv.destroyClearCurr {s : State} {t : Nat} (h : Inv s)
    (hl : (s.impls t).line = .destroyClearCurr) :
    Inv ({ s with gCurrAicall := none }.goto t .deleteTask) := by
  have hs := h.stage_eq hl
  exact h.move (h.lt_tasks (by simp [hl])) (k := { line := .deleteTask })
    ⟨rfl, rfl, fun _ _ => rfl, fun _ _ => rfl, hs, trivial, by simp,
      Or.inr (Or.inr ⟨h.curr_eq hl rfl, rfl, rfl⟩), Or.inl ⟨rfl, Iff.rfl⟩, Or.inl ⟨rfl, Iff.rfl⟩⟩

theorem implLine_inv {s s' : State} {t : Nat} {ok : Bool} {junk : Aicall} (h : Inv s)
    (hv : (s.impls t).line = .mallocAicall → s.gCurrAicall = none)
    (hs : s.implLine t ok junk = some s') : Inv s' := by
  have ht : ∀ {line}, (s.impls t).line = line → line ≠ .uncreated → t < s.tasks :=
    fun hl hne => h.lt_tasks (hl ▸ hne)
  cases hl : (s.impls t).line <;>
    simp only [State.implLine, hl, reduceCtorEq, Option.some.injEq] at hs
  case mallocAicall => exact hs ▸ h.mallocAicall hl (hv hl)
  case init =>
    rw [← apply_ite some, Option.some.injEq] at hs
    exact hs ▸ h.init hl ok
  case handup p => exact hs ▸ h.handup hl
  case destroyTestCurr =>
    rw [h.curr_eq hl rfl] at hs
    exact hs ▸ h.goto (ht hl nofun) (by rw [hl]; rfl) trivial
  case destroyEngine p =>
    obtain rfl : p = some t := h.own_eq hl
    split at hs
    · cases hs
      exact h.fail _
    · contradiction
    · rename_i e _ he
      obtain rfl : t = e := by simpa using he
      cases hs
      exact h.destroyEngine hl
  case destroyingEngine p =>
    obtain rfl : p = some t := h.own_eq hl
    simp only at hs
    split at hs <;> cases hs
    exact h.destroyingEngine hl
  case destroyLoadCurr =>
    rw [h.curr_eq hl rfl] at hs
    exact hs ▸ h.goto (ht hl nofun) (by rw [hl]; rfl) rfl
  case destroyFreeCurr p =>
    obtain rfl : p = some t := h.own_eq hl
    split at hs
    · rename_i i _ hi
      obtain rfl : t = i := by simpa using hi
      cases hs
      exact h.destroyFreeCurr hl
    · cases hs
      exact h.fail _
  case destroyClearCurr => exact hs ▸ h.destroyClearCurr hl
  -- the lines left stay within their stage, or fail
  all_goals
    try split at hs
    all_goals
      cases hs
      first
        | exact h.fail _
        | exact h.sdkCall (ht hl nofun) (by rw [hl]; rfl) trivial
        | exact h.goto (ht hl nofun) (by rw [hl]; rfl) trivial

theorem implStep_inv {s s' : State} {t : Nat} {ok : Bool} {junk : Aicall} (h : Inv s)
    (hv : (s.impls t).line = .mallocAicall → s.gCurrAicall = none)
    (hs : s.implStep t ok junk = some s') : Inv s' := by
  unfold State.implStep at hs
  split at hs
  · exact implLine_inv h hv hs
  · rename_i k ha
    cases hs
    obtain ⟨_, hsome, rfl⟩ := Thread.access_load ha
    have hin := access_inSession hsome
    have ht := h.lt_tasks (ImplLine.ne_uncreated hin)
    exact h.move ht ⟨rfl, rfl, fun _ _ => rfl, fun _ _ => rfl, h.stage t, h.own t,
      fun p hp => by rw [h.curr hin] at hp; exact (Option.some.inj hp).symm,
      Or.inl ⟨rfl, rfl⟩, Or.inl ⟨rfl, Iff.rfl⟩, Or.inl ⟨rfl, Iff.rfl⟩⟩
  · cases hs
    exact h.fail _
  · rename_i h' k ha
    cases hs
    obtain ⟨f, i, r, hf, hp, hi, rfl, rfl⟩ := Thread.access_done ha
    obtain rfl : i = t := Option.some.inj (h.ptr t _ hp)
    have hin : (s.impls i).line.inSession := access_inSession (t := i) (by rw [hf]; rfl)
    have ht := h.lt_tasks (ImplLine.ne_uncreated hin)
    obtain ⟨hst, ho, hin'⟩ := access_stage (r := r) hf (h.own i) (hi ▸ h.stage i)
    refine h.move ht ⟨rfl, rfl, fun u hu => Function.update_of_ne hu _ _, fun _ _ => rfl, ?_, ho,
      by simp, Or.inl ⟨rfl, hin'.trans hin.symm⟩, Or.inl ⟨rfl, ?_⟩, Or.inl ⟨rfl, Iff.rfl⟩⟩
    · change Stage.Holds i _ (Function.update s.aicalls i _ i) _
      rw [Function.update_self]
      exact hst
    · simp [State.setImpl, hi]

/-- Every step keeps the ownership of sessions, unless it allocates one over another. -/
theorem step_inv {s s' : State} {a : Action} (h : Inv s) (hv : AllocatesVacant s a)
    (hs : demo.step s a = some s') : Inv s' := by
  simp only [demo, State.step] at hs
  split at hs
  · cases hs
  cases a with
  | call f =>
    simp only at hs
    split at hs <;> cases hs
    exact h.frame .of_eq
  | key ok => exact h.frame (keyStep_frame hs)
  | impl t ok junk => exact implStep_inv h (hv t ok junk rfl) hs
  | agentAudio e =>
    simp only at hs
    split at hs <;> cases hs
    exact h.frame .of_eq
  | callback i => exact h.frame (callbackStep_frame hs)
  | error e code =>
    simp only at hs
    split at hs <;> cases hs
    exact h.frame .of_eq

end AiCall.Esp32
