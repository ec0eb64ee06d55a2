import AiCall.Jl.Session
import Mathlib.Data.Set.Card

/-! The session that `g_curr_aicall` publishes in the JL demo.  `Inv` ties the line of `app_core` to
the record, the engine and the config of the session, and the one audio task that can be running to
the lines at which `app_core` leaves that session alone. -/

namespace AiCall.Jl

open Kit

/-- How far `app_core` has come with a session. -/
inductive Stage where
  | settled  -- there is no session, or one that is up
  | vacant  -- there is no session
  | raw  -- the record is allocated and not yet cleared
  | bare  -- the record has no engine
  | provided  -- its config is allocated as well
  | configured  -- the config is stored
  | made  -- the engine exists and is not stored
  | up  -- the engine is stored
  | closing  -- in `destroy_aicall`, before its test of the engine
  | stopping  -- in `artc_aicall_destroy`
  | stopped  -- the destroyed engine is still stored
  | emptied  -- no engine is left
  | unprovided  -- the freed config is still stored
  | cleared  -- no config is left
  | freed  -- the record is freed and still published
deriving DecidableEq, Repr

def StartLine.stage : StartLine → Stage
  | .testError | .testCurr => .settled
  | .resetError | .testWifi | .mallocAicall => .vacant
  | .clearAicall => .raw
  | .mallocConfig => .bare
  | .storeConfig _ => .provided
  | .loadClearConfig | .clearConfig _ | .clearPid | .clearRunning | .clearGet | .clearWrite
  | .takeConfig | .fillConfig _ | .init => .configured
  | .storeEngine _ => .made
  | _ => .up

def HandupLine.stage : HandupLine → Stage
  | .testCurr => .settled
  | _ => .up

def DestroyLine.stage : DestroyLine → Stage
  | .testCurr | .testEngine => .closing
  | .loadEngine | .destroy _ => .up
  | .destroying _ => .stopping
  | .clearEngine => .stopped
  | .testConfig | .loadConfig | .freeConfig _ => .emptied
  | .clearConfig => .unprovided
  | .loadCurr | .freeCurr _ => .cleared
  | .clearCurr => .freed

def UseLine.stage : UseLine → Stage
  | .testCurr => .settled
  | _ => .up

def KeyLine.stage : KeyLine → Stage
  | .idle => .settled
  | .start l => l.stage
  | .handup _ l => l.stage
  | .destroy _ l => l.stage
  | .use _ l => l.stage

/-- What session `n` is at a stage: the published pointer, its record, config and engine. -/
def Stage.Holds (n : Nat) (g : Option Nat) (c : Cell Aicall) (k : Cell Unit) (e : Life) :
    Stage → Prop
  | .settled => g = none ∧ e.held = false ∨
    g = some n ∧ (∃ r, c = .held r ∧ r.engine = some n ∧ r.config = some n) ∧ k = .held () ∧
      e = .live
  | .vacant => g = none ∧ e.held = false
  | .raw => g = some n ∧ (∃ r, c = .held r) ∧ e = .absent
  | .bare => g = some n ∧ (∃ r, c = .held r ∧ r.engine = none) ∧ e = .absent
  | .provided => g = some n ∧ (∃ r, c = .held r ∧ r.engine = none) ∧ k = .held () ∧ e = .absent
  | .configured => g = some n ∧ (∃ r, c = .held r ∧ r.engine = none ∧ r.config = some n) ∧
    k = .held () ∧ e = .absent
  | .made => g = some n ∧ (∃ r, c = .held r ∧ r.engine = none ∧ r.config = some n) ∧
    k = .held () ∧ e = .live
  | .up => g = some n ∧ (∃ r, c = .held r ∧ r.engine = some n ∧ r.config = some n) ∧
    k = .held () ∧ e = .live
  | .closing => g = some n ∧ k = .held () ∧ ∃ r, c = .held r ∧ r.config = some n ∧
    (r.engine = none ∧ e = .absent ∨ r.engine = some n ∧ e = .live)
  | .stopping => g = some n ∧ (∃ r, c = .held r ∧ r.engine = some n ∧ r.config = some n) ∧
    k = .held () ∧ e = .destroying
  | .stopped => g = some n ∧ (∃ r, c = .held r ∧ r.engine = some n ∧ r.config = some n) ∧
    k = .held () ∧ e = .destroyed
  | .emptied => g = some n ∧ (∃ r, c = .held r ∧ r.engine = none ∧ r.config = some n) ∧
    k = .held () ∧ e.held = false
  | .unprovided => g = some n ∧ (∃ r, c = .held r ∧ r.engine = none ∧ r.config = some n) ∧
    k = .freed ∧ e.held = false
  | .cleared => g = some n ∧ (∃ r, c = .held r ∧ r.engine = none) ∧ e.held = false
  | .freed => g = some n ∧ c = .freed ∧ e.held = false

/-- The arguments that `app_core` has read at a line are of session `n`. -/
def KeyLine.Own (n : Nat) : KeyLine → Prop
  | .start (.storeConfig c) => c = n
  | .start (.clearConfig p) | .start (.fillConfig p) | .start (.loadCallConfig p) => p = some n
  | .start (.storeEngine e) => e = n
  | .start (.call e c) => e = some n ∧ c = some n
  | .start (.fork p) => p = some n
  | .start (.storePid p pid) => p = some n ∧ 0 < pid
  | .handup _ (.kill p) | .handup _ (.handup p) => p = some n
  | .destroy _ (.destroy p) | .destroy _ (.destroying p) | .destroy _ (.freeConfig p)
  | .destroy _ (.freeCurr p) => p = some n
  | .use _ (.callSdk p) => p = some n
  | _ => True

/-- The lines of `app_core` at which an audio task can be running. -/
def KeyLine.mayRun : KeyLine → Bool
  | .idle | .use _ _ => true
  | .start .testError | .start .testCurr | .start (.storePid _ _) | .start .logPid => true
  | .handup _ .testCurr | .handup _ .testEngine | .handup _ .clearGet | .handup _ .clearWrite
  | .handup _ .clearRunning | .handup _ .testPid | .handup _ .loadPid | .handup _ (.kill _) => true
  | _ => false

/-- The pid that `thread_fork` is about to store. -/
def KeyLine.storing : KeyLine → Option Int
  | .start (.storePid _ pid) => some pid
  | _ => none

def AudioLine.Own (n : Nat) : AudioLine → Prop
  | .read p | .send p => p = some n
  | _ => True

/-- An audio task that is running: it is the last one, it belongs to the session that is up, and its
pid is stored, or about to be. -/
structure Running (s : State) (i : Nat) : Prop where
  live : (s.tasks i).running
  last : i + 1 = s.taskCount
  session : (s.tasks i).session = s.session
  curr : s.gCurrAicall = some s.session
  line : s.key.line.mayRun
  pos : 0 < (s.tasks i).pid
  pid : ∀ r, s.aicalls s.session = .held r →
    s.key.line.storing.getD r.recordTaskPid = (s.tasks i).pid
  ptr : ∀ p, (s.tasks i).thread.ptr = some p → p = some s.session
  own : (s.tasks i).thread.line.Own s.session

/-- What holds between any two steps of the JL demo. -/
structure Inv (s : State) : Prop where
  stage : s.key.line.stage.Holds s.session s.gCurrAicall (s.aicalls s.session)
    (s.configs s.session) (s.engines s.session)
  own : s.key.line.Own s.session
  ptr : ∀ p, s.key.ptr = some p → p = some s.session
  others : ∀ i, i ≠ s.session → (s.engines i).held = false
  fresh : ∀ i, s.session < i → s.engines i = .absent
  running : ∀ i, (s.tasks i).running → Running s i
  beyond : ∀ i, s.taskCount ≤ i → (s.tasks i).running = false
  noFault : s.fault = none

theorem inv_init : Inv demo.init where
  stage := Or.inl ⟨rfl, rfl⟩
  own := trivial
  ptr := by simp [demo]
  others _ _ := rfl
  fresh _ _ := rfl
  running i hi := by simp [demo, AudioTask.running] at hi
  beyond _ _ := rfl
  noFault := rfl

/-- At the lines that go through `g_curr_aicall`, it leads to the record of the session. -/
theorem KeyLine.access_held {line : KeyLine} (ha : (line.access).isSome) {n : Nat} {g : Option Nat}
    {c : Cell Aicall} {k : Cell Unit} {e : Life} (hs : line.stage.Holds n g c k e) :
    g = some n ∧ ∃ r, c = .held r := by
  have hne : line.stage ≠ .settled ∧ line.stage ≠ .vacant ∧ line.stage ≠ .freed := by
    cases line with
    | idle => simp [KeyLine.access] at ha
    | start l =>
      cases l <;> simp_all [KeyLine.access, StartLine.access, KeyLine.stage, StartLine.stage]
    | handup _ l =>
      cases l <;> simp_all [KeyLine.access, HandupLine.access, KeyLine.stage, HandupLine.stage]
    | destroy _ l =>
      cases l <;> simp_all [KeyLine.access, DestroyLine.access, KeyLine.stage, DestroyLine.stage]
    | use _ l => cases l <;> simp_all [KeyLine.access, UseLine.access, KeyLine.stage, UseLine.stage]
  cases hg : line.stage <;> rw [hg] at hs hne <;> simp only [Stage.Holds] at hs <;> grind

/-- A line that goes through `g_curr_aicall` keeps the session in step with the line it leads to,
and does not leave a running audio task alone with it. -/
theorem KeyLine.access_stage {line : KeyLine} {f : Aicall → Aicall × KeyLine} {r : Aicall} {n : Nat}
    {g : Option Nat} {k : Cell Unit} {e : Life} (hf : line.access = some f) (ho : line.Own n)
    (hs : line.stage.Holds n g (.held r) k e) :
    (f r).2.stage.Holds n g (.held (f r).1) k e ∧ (f r).2.Own n ∧
      (line.mayRun → (f r).1.recordTaskPid = r.recordTaskPid ∧
        (0 < r.recordTaskPid → (f r).2.mayRun)) := by
  cases line with
  | idle => simp [KeyLine.access] at hf
  | start l =>
    cases l <;>
      simp only [KeyLine.access, StartLine.access, Option.some.injEq, reduceCtorEq] at hf <;>
      subst hf <;>
      simp_all [KeyLine.stage, StartLine.stage, Stage.Holds, KeyLine.Own, KeyLine.mayRun]
  | handup c l =>
    cases l <;>
      simp only [KeyLine.access, HandupLine.access, Option.some.injEq, reduceCtorEq] at hf <;>
      subst hf <;> dsimp only <;> (try split) <;>
      simp_all [KeyLine.stage, HandupLine.stage, Stage.Holds, KeyLine.Own, KeyLine.mayRun]
  | destroy c l =>
    cases l <;>
      simp only [KeyLine.access, DestroyLine.access, Option.some.injEq, reduceCtorEq] at hf <;>
      subst hf <;> dsimp only <;> (try split) <;>
      simp_all [KeyLine.stage, DestroyLine.stage, Stage.Holds, KeyLine.Own, KeyLine.mayRun,
        Life.held]
    -- what is left is the test of the engine, on a record that has one
    rename_i hsome
    obtain ⟨_, _, _, ⟨hn, _⟩ | hup⟩ := hs
    · simp [hn] at hsome
    · exact hup
  | use c l =>
    cases l <;>
      simp only [KeyLine.access, UseLine.access, Option.some.injEq, reduceCtorEq] at hf <;>
      subst hf <;> dsimp only <;> (try split) <;>
      simp_all [KeyLine.stage, UseLine.stage, Stage.Holds, KeyLine.Own, KeyLine.mayRun]

theorem KeyLine.access_storing {line : KeyLine} {f : Aicall → Aicall × KeyLine}
    (hf : line.access = some f) (r : Aicall) : line.storing = none ∧ (f r).2.storing = none := by
  cases line with
  | idle => simp [KeyLine.access] at hf
  | start l =>
    cases l <;>
      simp only [KeyLine.access, StartLine.access, Option.some.injEq, reduceCtorEq] at hf <;>
      subst hf <;> dsimp only <;> (try split) <;> exact ⟨rfl, rfl⟩
  | handup c l =>
    cases l <;>
      simp only [KeyLine.access, HandupLine.access, Option.some.injEq, reduceCtorEq] at hf <;>
      subst hf <;> dsimp only <;> (try split) <;> cases c <;> exact ⟨rfl, rfl⟩
  | destroy c l =>
    cases l <;>
      simp only [KeyLine.access, DestroyLine.access, Option.some.injEq, reduceCtorEq] at hf <;>
      subst hf <;> dsimp only <;> (try split) <;> exact ⟨rfl, rfl⟩
  | use c l =>
    cases l <;>
      simp only [KeyLine.access, UseLine.access, Option.some.injEq, reduceCtorEq] at hf <;>
      subst hf <;> dsimp only <;> (try split) <;> exact ⟨rfl, rfl⟩

/-- The stage of a session that is up holds exactly where the published pointer is not null. -/
theorem Stage.Holds.of_settled {n : Nat} {g : Option Nat} {c : Cell Aicall} {k : Cell Unit}
    {e : Life} (h : Stage.settled.Holds n g c k e) :
    g = none ∧ Stage.vacant.Holds n g c k e ∨ g = some n ∧ Stage.up.Holds n g c k e := by
  rcases h with h | h
  · exact Or.inl ⟨h.1, h⟩
  · exact Or.inr ⟨h.1, h⟩

/-- At most lines of `app_core`, no audio task runs. -/
theorem not_running {s : State} (hm : s.key.line.mayRun = false) (i : Nat) : ¬ Running s i :=
  fun hi => by simp [hi.line] at hm

namespace Inv

variable {s s' : State} (h : Inv s)
include h

theorem stage_eq {line : KeyLine} (hl : s.key.line = line) :
    line.stage.Holds s.session s.gCurrAicall (s.aicalls s.session) (s.configs s.session)
      (s.engines s.session) :=
  hl ▸ h.stage

theorem own_eq {line : KeyLine} (hl : s.key.line = line) : line.Own s.session := hl ▸ h.own

theorem key (hst : s'.key.line.stage.Holds s'.session s'.gCurrAicall (s'.aicalls s'.session)
      (s'.configs s'.session) (s'.engines s'.session))
    (ho : s'.key.line.Own s'.session) (hp : ∀ p, s'.key.ptr = some p → p = some s'.session)
    (hothers : ∀ i, i ≠ s'.session → (s'.engines i).held = false)
    (hfresh : ∀ i, s'.session < i → s'.engines i = .absent)
    (hr : ∀ i, Running s i → Running s' i) (ht : s'.tasks = s.tasks := by rfl)
    (hc : s'.taskCount = s.taskCount := by rfl) (hf : s'.fault = s.fault := by rfl) : Inv s' where
  stage := hst
  own := ho
  ptr := hp
  others := hothers
  fresh := hfresh
  running i hi := hr i (h.running i (ht ▸ hi))
  beyond i hi := by
    rw [ht]
    exact h.beyond i (hc ▸ hi)
  noFault := hf.trans h.noFault

theorem goto {line : KeyLine} (hst : line.stage.Holds s.session s.gCurrAicall (s.aicalls s.session)
      (s.configs s.session) (s.engines s.session)) (ho : line.Own s.session)
    (hm : ∀ i, Running s i → line.mayRun ∧ line.storing = s.key.line.storing) :
    Inv (s.goto line) := by
  refine h.key hst ho (by simp [State.goto]) h.others h.fresh fun i hi => ?_
  obtain ⟨hrun, hpid⟩ := hm i hi
  refine ⟨hi.live, hi.last, hi.session, hi.curr, hrun, hi.pos, fun r hr => ?_, hi.ptr, hi.own⟩
  change line.storing.getD _ = _
  rw [hpid]
  exact hi.pid r hr

theorem goto_alone {line : KeyLine} (hst : line.stage.Holds s.session s.gCurrAicall
      (s.aicalls s.session) (s.configs s.session) (s.engines s.session))
    (ho : line.Own s.session) (hm : s.key.line.mayRun = false) : Inv (s.goto line) :=
  h.goto hst ho fun i hi => absurd hi (not_running hm i)

/-- The engine of the session changes at a line where no audio task runs. -/
theorem engine_alone {line : KeyLine} {l : Life} (hm : s.key.line.mayRun = false)
    (hst : line.stage.Holds s.session s.gCurrAicall (s.aicalls s.session) (s.configs s.session) l)
    (ho : line.Own s.session) :
    Inv ({ s with engines := Function.update s.engines s.session l }.goto line) := by
  have hself : Function.update s.engines s.session l s.session = l := Function.update_self ..
  refine h.key ?_ ho (by simp [State.goto]) (fun i hi => ?_) (fun i hi => ?_)
    fun i hi => absurd hi (not_running hm i)
  · change line.stage.Holds s.session s.gCurrAicall (s.aicalls s.session) (s.configs s.session)
      (Function.update s.engines s.session l s.session)
    rw [hself]
    exact hst
  · exact (congrArg Life.held (Function.update_of_ne hi _ _)).trans (h.others i hi)
  · exact (Function.update_of_ne (Nat.ne_of_gt hi) _ _).trans (h.fresh i hi)

theorem setError (code : Int) (fired : Nat → Bool) :
    Inv { s with gErrorCode := code, fired := fired } where
  stage := h.stage
  own := h.own
  ptr := h.ptr
  others := h.others
  fresh := h.fresh
  running i hi :=
    have hr := h.running i hi
    ⟨hr.live, hr.last, hr.session, hr.curr, hr.line, hr.pos, hr.pid, hr.ptr, hr.own⟩
  beyond := h.beyond
  noFault := h.noFault

end Inv

theorem sdkCall_eq {s : State} (hl : Stage.up.Holds s.session s.gCurrAicall (s.aicalls s.session)
      (s.configs s.session) (s.engines s.session)) (line : KeyLine) :
    s.sdkCall (some s.session) line = s.goto line := by
  simp [State.sdkCall, State.liveEngine, hl.2.2.2]

/-! ### The lines of `app_core` that do not go through `g_curr_aicall` -/

section Lines

variable {s s' : State} (h : Inv s)
include h

theorem startLine_inv {ok : Bool} {pid : Int} {junk : Aicall} {l : StartLine}
    (hl : s.key.line = .start l) (hs : s.startLine ok pid junk l = some s') : Inv s' := by
  have hst := h.stage_eq hl
  have hown := h.own_eq hl
  cases l <;> simp only [State.startLine, reduceCtorEq, Option.some.injEq] at hs
  case testError =>
    subst hs
    split
    · exact h.goto hst trivial fun _ _ => ⟨rfl, by rw [hl]; rfl⟩
    · exact h.goto hst trivial fun _ _ => ⟨rfl, by rw [hl]; rfl⟩
  case resetError =>
    subst hs
    exact (h.setError 0 s.fired).goto_alone (Or.inl hst) trivial (by simp [hl, KeyLine.mayRun])
  case testCurr =>
    subst hs
    rcases hst.of_settled with ⟨hg, hv⟩ | ⟨hg, hu⟩
    · simp only [hg, Option.isSome_none, Bool.false_eq_true, if_false]
      exact h.goto hv trivial fun i hi => by simp [hi.curr] at hg
    · simp only [hg, Option.isSome_some, if_true]
      exact h.goto (Or.inr hu) trivial fun _ _ => ⟨rfl, by rw [hl]; rfl⟩
  case testWifi =>
    subst hs
    split
    · exact h.goto_alone hst trivial (by simp [hl, KeyLine.mayRun])
    · exact h.goto_alone (Or.inl hst) trivial (by simp [hl, KeyLine.mayRun])
  case mallocAicall =>
    subst hs
    refine h.key ⟨rfl, ⟨junk, Function.update_self ..⟩, h.fresh _ (Nat.lt_succ_self _)⟩
      trivial (by simp [State.goto]) (fun i hi => ?_) (fun i hi => h.fresh i (Nat.lt_of_succ_lt hi))
      fun i hi => absurd hi (not_running (by simp [hl, KeyLine.mayRun]) i)
    by_cases hi' : i = s.session
    · subst hi'
      exact hst.2
    · exact h.others i hi'
  case mallocConfig =>
    subst hs
    exact h.key ⟨hst.1, hst.2.1, Function.update_self .., hst.2.2⟩ rfl
      (by simp [State.goto]) h.others h.fresh
      fun i hi => absurd hi (not_running (by simp [hl, KeyLine.mayRun]) i)
  case clearConfig c | fillConfig c =>
    obtain rfl : c = some s.session := hown
    rw [Heap.deref_of_held hst.2.2.1] at hs
    obtain rfl := Option.some.inj hs
    exact h.goto_alone hst trivial (by simp [hl, KeyLine.mayRun])
  case init =>
    split at hs <;> cases hs
    · exact h.engine_alone (by simp [hl, KeyLine.mayRun]) ⟨hst.1, hst.2.1, hst.2.2.1, rfl⟩ rfl
    · obtain ⟨hg, ⟨r, hr, hn, hc⟩, hk, he⟩ := hst
      exact h.goto_alone ⟨hg, hk, r, hr, hc, Or.inl ⟨hn, he⟩⟩ trivial (by simp [hl, KeyLine.mayRun])
  case call e c =>
    obtain ⟨rfl, rfl⟩ := hown
    rw [Heap.deref_of_held hst.2.2.1, sdkCall_eq hst] at hs
    obtain rfl := Option.some.inj hs
    exact h.goto_alone hst trivial (by simp [hl, KeyLine.mayRun])
  case calling =>
    subst hs
    split
    · exact h.goto_alone hst trivial (by simp [hl, KeyLine.mayRun])
    · exact h.goto_alone (Or.inr hst) trivial (by simp [hl, KeyLine.mayRun])
  case taskTestCurr =>
    subst hs
    simp only [hst.1, Option.isSome_some, if_true]
    exact h.goto_alone hst trivial (by simp [hl, KeyLine.mayRun])
  case loadPid =>
    subst hs
    exact h.goto_alone hst hst.1 (by simp [hl, KeyLine.mayRun])
  case fork p =>
    obtain rfl : p = some s.session := hown
    obtain ⟨hg, ⟨r, hr, hup⟩, hk, he⟩ := hst
    have hnot := not_running (s := s) (by simp [hl, KeyLine.mayRun])
    split at hs
    · split at hs <;> cases hs
      rename_i hpos
      have hnew {i : Nat} (hi : i ≠ s.taskCount) :
          Function.update s.tasks s.taskCount
            { session := s.session, pid, thread := { line := .start } } i = s.tasks i :=
        Function.update_of_ne hi _ _
      refine ⟨⟨hg, ⟨r, hr, hup⟩, hk, he⟩, ⟨rfl, hpos⟩, by simp [State.goto], h.others, h.fresh,
        fun i hi => ?_, fun i hi => ?_, h.noFault⟩
      · by_cases hi' : i = s.taskCount
        · subst hi'
          constructor <;>
            simp [State.goto, State.setTask, KeyLine.mayRun, KeyLine.storing, hg, hpos,
              AudioLine.Own, AudioTask.running]
        · have hold : (s.tasks i).running := by
            simpa [State.goto, State.setTask, hi'] using hi
          exact absurd (h.running i hold) (hnot i)
      · have hlt : s.taskCount < i := hi
        have := h.beyond i (Nat.le_of_lt hlt)
        simpa [State.goto, State.setTask, Nat.ne_of_gt hlt] using this
    · rw [Heap.deref_of_held hr] at hs
      cases hs
      refine h.key (Or.inr ⟨hg, ⟨_, Function.update_self .., hup⟩, hk, he⟩) trivial
        (by simp [State.goto]) h.others h.fresh fun i hi => absurd hi (hnot i)
  case storePid p pid' =>
    obtain ⟨rfl, hpos⟩ := hown
    obtain ⟨hg, ⟨r, hr, hup⟩, hk, he⟩ := hst
    rw [Heap.deref_of_held hr] at hs
    cases hs
    refine h.key ⟨hg, ⟨_, Function.update_self .., hup⟩, hk, he⟩ trivial
      (by simp [State.goto]) h.others h.fresh fun i hi => ?_
    refine ⟨hi.live, hi.last, hi.session, hi.curr, rfl, hi.pos, fun q hq => ?_, hi.ptr, hi.own⟩
    have hpid : pid' = (s.tasks i).pid := by simpa [hl, KeyLine.storing] using hi.pid r hr
    obtain rfl : _ = q := by simpa [State.goto, Heap.write] using hq
    exact hpid

theorem handupLine_inv {k : Caller} {l : HandupLine} (hl : s.key.line = .handup k l)
    (hs : s.handupLine k l = some s') : Inv s' := by
  have hst := h.stage_eq hl
  have hown := h.own_eq hl
  cases l <;> simp only [State.handupLine, reduceCtorEq, Option.some.injEq] at hs
  case testCurr =>
    subst hs
    rcases hst.of_settled with ⟨hg, hv⟩ | ⟨hg, hu⟩
    · simp only [hg, Option.isSome_none, Bool.false_eq_true, if_false]
      cases k
      case restart => exact h.goto hv trivial fun i hi => by simp [hi.curr] at hg
      all_goals exact h.goto (Or.inl hv) trivial fun i hi => by simp [hi.curr] at hg
    · simp only [hg, Option.isSome_some, if_true]
      exact h.goto hu trivial fun _ _ => ⟨rfl, by rw [hl]; rfl⟩
  case loadPid =>
    subst hs
    exact h.goto hst hst.1 fun _ _ => ⟨rfl, by rw [hl]; rfl⟩
  case kill p =>
    obtain rfl : p = some s.session := hown
    obtain ⟨r, hr, _⟩ := hst.2.1
    rw [Heap.deref_of_held hr] at hs
    simp only at hs
    split at hs <;> cases hs
    rename_i hq
    -- the task that could be running has the pid that `thread_kill` waits for
    refine h.goto hst trivial fun i hi => ?_
    have hpid := hi.pid r hr
    rw [hl] at hpid
    have hlast := hi.last
    have hret := hq i (by omega) hpid.symm
    have hlive := hi.live
    simp [AudioTask.running, hret] at hlive
  case handup e =>
    obtain rfl : e = some s.session := hown
    rw [sdkCall_eq hst] at hs
    subst hs
    obtain ⟨hg, ⟨r, hr, he, hc⟩, hk, hlive⟩ := hst
    exact h.goto_alone ⟨hg, hk, r, hr, hc, Or.inr ⟨he, hlive⟩⟩ trivial
      (by simp [hl, KeyLine.mayRun])

theorem destroyLine_inv {k : Caller} {l : DestroyLine} (hl : s.key.line = .destroy k l)
    (hs : s.destroyLine k l = some s') : Inv s' := by
  have hst := h.stage_eq hl
  have hown := h.own_eq hl
  have hnot := not_running (s := s) (by rw [hl]; rfl)
  cases l <;> simp only [State.destroyLine, reduceCtorEq, Option.some.injEq] at hs
  case testCurr =>
    subst hs
    simp only [hst.1, Option.isSome_some, if_true]
    exact h.goto_alone hst trivial (by rw [hl]; rfl)
  case destroy e =>
    obtain rfl : e = some s.session := hown
    simp only [State.liveEngine, hst.2.2.2, decide_true, Option.some.injEq] at hs
    subst hs
    exact h.engine_alone (by rw [hl]; rfl) ⟨hst.1, hst.2.1, hst.2.2.1, rfl⟩ rfl
  case destroying e =>
    obtain rfl : e = some s.session := hown
    obtain rfl := Option.some.inj hs
    exact h.engine_alone (by rw [hl]; rfl) ⟨hst.1, hst.2.1, hst.2.2.1, rfl⟩ trivial
  case freeConfig c =>
    obtain rfl : c = some s.session := hown
    rw [Heap.deref_of_held hst.2.2.1] at hs
    obtain rfl := Option.some.inj hs
    exact h.key ⟨hst.1, hst.2.1, Function.update_self .., hst.2.2.2⟩ trivial
      (by simp [State.goto]) h.others h.fresh fun i hi => absurd hi (hnot i)
  case loadCurr =>
    subst hs
    exact h.goto_alone hst hst.1 (by rw [hl]; rfl)
  case freeCurr p =>
    obtain rfl : p = some s.session := hown
    obtain ⟨hg, ⟨r, hr, _⟩, he⟩ := hst
    rw [Heap.deref_of_held hr] at hs
    obtain rfl := Option.some.inj hs
    exact h.key ⟨hg, Function.update_self .., he⟩ trivial
      (by simp [State.goto]) h.others h.fresh fun i hi => absurd hi (hnot i)
  case clearCurr =>
    subst hs
    refine h.key ?_ ?_ (by simp [State.goto]) h.others h.fresh
      fun i hi => absurd hi (hnot i)
    · cases k
      case restart => exact ⟨rfl, hst.2.2⟩
      all_goals exact Or.inl ⟨rfl, hst.2.2⟩
    · cases k <;> trivial

theorem useLine_inv {f : Fn} {l : UseLine} (hl : s.key.line = .use f l)
    (hs : s.useLine f l = some s') : Inv s' := by
  have hst := h.stage_eq hl
  have hown := h.own_eq hl
  cases l <;> simp only [State.useLine, reduceCtorEq, Option.some.injEq] at hs
  case testCurr =>
    subst hs
    rcases hst.of_settled with ⟨hg, hv⟩ | ⟨hg, hu⟩
    · simp only [hg, Option.isSome_none, Bool.false_eq_true, if_false]
      exact h.goto (Or.inl hv) trivial fun i hi => by simp [hi.curr] at hg
    · simp only [hg, Option.isSome_some, if_true]
      exact h.goto hu trivial fun _ _ => ⟨rfl, by rw [hl]; rfl⟩
  case callSdk e =>
    obtain rfl : e = some s.session := hown
    rw [sdkCall_eq hst] at hs
    subst hs
    exact h.goto (Or.inr hst) trivial fun _ _ => ⟨rfl, by rw [hl]; rfl⟩

theorem keyLine_inv {ok : Bool} {pid : Int} {junk : Aicall}
    (hs : s.keyLine ok pid junk = some s') : Inv s' := by
  unfold State.keyLine at hs
  split at hs
  · cases hs
  · exact startLine_inv h ‹_› hs
  · exact handupLine_inv h ‹_› hs
  · exact destroyLine_inv h ‹_› hs
  · exact useLine_inv h ‹_› hs

theorem keyStep_inv {ok : Bool} {pid : Int} {junk : Aicall}
    (hs : s.keyStep ok pid junk = some s') : Inv s' := by
  unfold State.keyStep at hs
  split at hs
  · exact keyLine_inv h hs
  · rename_i k hk
    cases hs
    obtain ⟨_, hsome, rfl⟩ := Thread.access_load hk
    obtain ⟨hg, _⟩ := KeyLine.access_held hsome h.stage
    refine h.key h.stage h.own (fun p hp => ?_) h.others h.fresh fun i hi => ?_
    · rw [hg] at hp
      exact (Option.some.inj hp).symm
    · exact ⟨hi.live, hi.last, hi.session, hi.curr, hi.line, hi.pos, hi.pid, hi.ptr, hi.own⟩
  · rename_i hk
    obtain ⟨p, hp, hsome, hd⟩ := Thread.access_fault hk
    obtain rfl : p = some s.session := h.ptr p hp
    obtain ⟨_, r, hr⟩ := KeyLine.access_held hsome h.stage
    simp [Heap.deref_of_held hr] at hd
  · rename_i h' k hk
    cases hs
    obtain ⟨f, i, r, hf, hp, hi, rfl, rfl⟩ := Thread.access_done hk
    obtain rfl : i = s.session := Option.some.inj (h.ptr _ hp)
    obtain ⟨hst, hown, hrun⟩ := KeyLine.access_stage hf h.own (hi ▸ h.stage)
    refine h.key ?_ hown (by simp) h.others h.fresh fun i hi' => ?_
    · simpa using hst
    · obtain ⟨hpid, hmay⟩ := hrun hi'.line
      obtain ⟨hnot, hnot'⟩ := KeyLine.access_storing hf r
      have hr := hi'.pid r hi
      rw [hnot, Option.getD_none] at hr
      have hpos := hi'.pos
      refine ⟨hi'.live, hi'.last, hi'.session, hi'.curr, hmay (by omega), hi'.pos, fun q hq => ?_,
        hi'.ptr, hi'.own⟩
      obtain rfl : (f r).1 = q := by simpa using hq
      simp [hnot', hpid, hr]

end Lines

/-! ### The audio task -/

theorem AudioLine.access_own {line : AudioLine} {f : Aicall → Aicall × AudioLine}
    (hf : line.access = some f) (r : Aicall) :
    (f r).1 = r ∧ ∀ n, r.engine = some n → (f r).2.Own n := by
  cases line <;> simp only [AudioLine.access, Option.some.injEq, reduceCtorEq] at hf <;>
    subst hf <;> dsimp only <;> (try split) <;> simp [AudioLine.Own]

theorem KeyLine.mayRun_stage {line : KeyLine} (h : line.mayRun) :
    line.stage = .settled ∨ line.stage = .up := by
  cases line with
  | idle => exact Or.inl rfl
  | start l => cases l <;> simp_all [KeyLine.mayRun, KeyLine.stage, StartLine.stage]
  | handup _ l => cases l <;> simp_all [KeyLine.mayRun, KeyLine.stage, HandupLine.stage]
  | destroy _ l => simp [KeyLine.mayRun] at h
  | use _ l => cases l <;> simp_all [KeyLine.stage, UseLine.stage]

section Audio

variable {s s' : State} (h : Inv s) {i : Nat}
include h

theorem Inv.up (hi : Running s i) : Stage.up.Holds s.session s.gCurrAicall (s.aicalls s.session)
    (s.configs s.session) (s.engines s.session) := by
  have hst := h.stage
  rcases KeyLine.mayRun_stage hi.line with hl | hl
  · rw [hl] at hst
    rcases hst.of_settled with ⟨hg, _⟩ | ⟨_, hu⟩
    · simp [hi.curr] at hg
    · exact hu
  · exact hl ▸ hst

theorem Inv.setThread (hi : Running s i) {k : Thread AudioLine}
    (hp : ∀ p, k.ptr = some p → p = some s.session) (ho : k.line.Own s.session) :
    Inv (s.setTask i { s.tasks i with thread := k }) where
  stage := h.stage
  own := h.own
  ptr := h.ptr
  others := h.others
  fresh := h.fresh
  running j hj := by
    by_cases hji : j = i
    · subst hji
      exact ⟨hj, hi.last, by simpa [State.setTask] using hi.session, hi.curr, hi.line,
        by simpa [State.setTask] using hi.pos, by simpa [State.setTask] using hi.pid,
        by simpa [State.setTask] using hp, by simpa [State.setTask] using ho⟩
    · have hold : (s.tasks j).running := by simpa [State.setTask, hji] using hj
      have := (h.running j hold).last
      have := hi.last
      omega
  beyond j hj := by
    have hlast := hi.last
    have hle : s.taskCount ≤ j := hj
    have hji : j ≠ i := by omega
    simpa [State.setTask, hji] using h.beyond j hle
  noFault := h.noFault

theorem audioLine_inv {ok : Bool} (hi : Running s i) (hs : s.audioLine i ok = some s') :
    Inv s' := by
  have hup := h.up hi
  have hown := hi.own
  unfold State.audioLine at hs
  cases hl : (s.tasks i).thread.line <;> simp only [hl, reduceCtorEq, Option.some.injEq] at hs <;>
    subst hs
  case read e | send e =>
    obtain rfl : e = some s.session := by simpa [hl, AudioLine.Own] using hown
    simp only [State.liveEngine, hup.2.2.2, decide_true, if_true]
    exact h.setThread hi (by simp) trivial
  case testError | getVoiceData => split <;> exact h.setThread hi (by simp) trivial
  all_goals exact h.setThread hi (by simp) trivial

theorem audioStep_inv {ok : Bool} (hs : s.audioStep i ok = some s') : Inv s' := by
  have hi : Running s i := h.running i (by
    by_contra hret
    have hl : (s.tasks i).thread.line = .returned := by simpa [AudioTask.running] using hret
    simp [State.audioStep, Thread.access, AudioLine.access, hl, State.audioLine] at hs)
  obtain ⟨hg, ⟨r, hr, he, _⟩, _⟩ := h.up hi
  unfold State.audioStep at hs
  split at hs
  · exact audioLine_inv h hi hs
  · rename_i k hk
    cases hs
    obtain ⟨_, _, rfl⟩ := Thread.access_load hk
    exact h.setThread hi (by simp [hg]) hi.own
  · rename_i hk
    obtain ⟨p, hp, _, hd⟩ := Thread.access_fault hk
    obtain rfl : p = some s.session := hi.ptr p hp
    simp [Heap.deref_of_held hr] at hd
  · rename_i h' k hk
    cases hs
    obtain ⟨f, j, q, hf, hp, hj, rfl, rfl⟩ := Thread.access_done hk
    obtain rfl : j = s.session := Option.some.inj (hi.ptr _ hp)
    obtain ⟨hq, hown⟩ := AudioLine.access_own hf q
    obtain rfl : r = q := Cell.held.inj (hr.symm.trans hj)
    rw [hq, ← hj, Function.update_eq_self]
    exact h.setThread hi (by simp) (hown _ he)

end Audio

/-- Every step keeps the session and its audio task in step with `app_core`. -/
theorem step_inv {s s' : State} {a : Action} (h : Inv s) (hs : demo.step s a = some s') :
    Inv s' := by
  simp only [demo, State.step] at hs
  split at hs
  · cases hs
  cases a with
  | press k =>
    simp only at hs
    split at hs <;> cases hs
    rename_i hl
    have hst := h.stage_eq hl
    cases k <;> exact h.goto hst trivial fun _ _ => ⟨rfl, by rw [hl]; rfl⟩
  | key ok pid junk => exact keyStep_inv h hs
  | audio i ok => exact audioStep_inv h hs
  | error e code =>
    simp only at hs
    split at hs <;> cases hs
    exact h.setError code _

/-! ### The session between key events -/

/-- Between key events there is no session, or one with a live engine and a config, and no engine
but that of the session. -/
structure Settled (s : State) : Prop where
  session : ∀ i, s.gCurrAicall = some i → ∃ r e c, s.aicalls i = .held r ∧
    r.engine = some e ∧ s.engines e = .live ∧ r.config = some c ∧ s.configs c = .held ()
  engines : {e | (s.engines e).held}.ncard = if s.gCurrAicall.isSome then 1 else 0

/-- Key events leave a settled session, one audio task runs at most, and nothing that is freed or
destroyed is used. -/
structure Consistent (s : State) : Prop where
  settled : s.key.line = .idle → Settled s
  oneTask : ∀ i j, (s.tasks i).running → (s.tasks j).running → i = j
  noFault : s.fault = none

theorem Inv.settled {s : State} (h : Inv s) (hl : s.key.line = .idle) : Settled s := by
  have hst := h.stage_eq hl
  rcases hst.of_settled with ⟨hg, _, he⟩ | ⟨hg, _, ⟨r, hr, heng, hc⟩, hk, he⟩
  · have hnone : {e | (s.engines e).held} = ∅ := by
      ext e
      by_cases hne : e = s.session
      · simp [hne, he]
      · simp [h.others e hne]
    exact ⟨fun i hi => by simp [hg] at hi, by rw [hnone, hg]; exact Set.ncard_empty _⟩
  · have hone : {e | (s.engines e).held} = {s.session} := by
      ext e
      by_cases hne : e = s.session
      · simp [hne, he, Life.held]
      · simp [hne, h.others e hne]
    refine ⟨fun i hi => ?_, by rw [hone, hg]; exact Set.ncard_singleton _⟩
    obtain rfl : s.session = i := Option.some.inj (hg.symm.trans hi)
    exact ⟨r, s.session, s.session, hr, heng, he, hc, hk⟩

/-- The JL demo is consistent in every state of every run. -/
theorem session_consistent (as : List Action) : demo.Always Consistent demo.init as := by
  have hinv : demo.Always Inv demo.init as :=
    Machine.always_invariant (P := fun _ _ => True) (fun _ _ _ h _ hs => step_inv h hs) inv_init
      (Machine.along_true _ _)
  refine hinv.imp fun s h => ⟨h.settled, fun i j hi hj => ?_, h.noFault⟩
  have hi := (h.running i hi).last
  have hj := (h.running j hj).last
  omega

end AiCall.Jl
