import AiCall.Kit.Fairness
import AiCall.Esp32.Exclusion
import AiCall.Esp32.Hangup
import Mathlib.Algebra.Order.BigOperators.Group.Finset

/-! Progress of the ESP32 demo after a hang-up or an error.  With the running flag clear, or an
error code set, the session's task leaves its loop after one more iteration at most and tears the
session down.  On the way it waits once, in `artc_aicall_destroy`, for the callbacks that the SDK
has begun. -/

namespace AiCall.Esp32

open Kit

/-- Why a session ends. -/
inductive Cause where
  | hangup  -- the running flag is clear
  | error  -- `g_error_code` is set
deriving DecidableEq, Repr

/-- How many lines of the session's task can still follow. -/
def ImplLine.rank (c : Cause) : ImplLine → Nat
  | .uncreated => 53
  | .resetErrorCode => 52
  | .mallocAicall => 51
  | .clearAicall => 50
  | .mallocConfig => 49
  | .storeConfig => 48
  | .loadClearConfig => 47
  | .clearConfig _ => 46
  | .takeConfig => 45
  | .fillConfig _ => 44
  | .init => 43
  | .storeEngine _ => 42
  | .loadCallEngine => 41
  | .loadCallConfig _ => 40
  | .call _ _ => 39
  | .calling => 38
  | .setRunning => 37
  | .mallocBuffer => 36
  | .createRecorder => 35
  | .createPlayer => 34
  | .runRecorder => 33
  | .runPlayer => 32
  | .storePlayer => 31
  | .testEngine => 30  -- the flag was read before it was cleared
  | .readMic => 29
  | .testCurr => 28
  | .testStillRunning => 27
  | .loadSendEngine => 26
  | .send _ => 25
  | .testError => 24
  | .testRunning =>
    match c with
    | .hangup => 23
    | .error => 31  -- the error code was read before it was set
  | .clearPlayer => 22
  | .destroyRecorder => 21
  | .destroyPlayer => 20
  | .destroyingPlayer => 19
  | .freeBuffer => 18
  | .clearRunning => 17
  | .loadHandupEngine => 16
  | .handup _ => 15
  | .destroyTestCurr => 14
  | .destroyTestEngine => 13
  | .destroyLoadEngine => 12
  | .destroyEngine _ => 11
  | .destroyingEngine _ => 10
  | .destroyClearEngine => 9
  | .destroyTestConfig => 8
  | .destroyLoadConfig => 7
  | .destroyFreeConfig _ => 6
  | .destroyClearConfig => 5
  | .destroyLoadCurr => 4
  | .destroyFreeCurr _ => 3
  | .destroyClearCurr => 2
  | .deleteTask => 1
  | .deleted => 0

def CallbackLine.rank : CallbackLine → Nat
  | .testCurr => 5
  | .testPlayer => 4
  | .loadPlayer => 3
  | .write _ => 2
  | .writing _ => 1
  | .returned => 0

/-- The line after an access is nearer to the end of the task. -/
theorem ImplLine.access_rank {c : Cause} {t : Nat} {line : ImplLine}
    {f : Aicall → Aicall × ImplLine} (hf : line.access t = some f) {r : Aicall}
    (hr : c = .hangup → r.canAudioTaskRunning = false) : (f r).2.rank c < line.rank c := by
  cases c <;> cases line <;>
    simp only [ImplLine.access, Option.some.injEq, reduceCtorEq] at hf <;> subst hf <;>
    dsimp only <;> (try split) <;> simp_all [ImplLine.rank]

theorem CallbackLine.access_rank {line : CallbackLine} {f : Aicall → Aicall × CallbackLine}
    (hf : line.access = some f) (r : Aicall) : (f r).2.rank < line.rank := by
  cases line <;> simp only [CallbackLine.access, Option.some.injEq, reduceCtorEq] at hf <;>
    subst hf <;> dsimp only <;> (try split) <;> simp [CallbackLine.rank]

section Steps

variable {s s' : State} (hn : s'.fault = none)
include hn

theorem sdkCall_goto {t : Nat} {p : Option Nat} {line : ImplLine} (hs : s.sdkCall t p line = s') :
    s' = s.goto t line := by
  unfold State.sdkCall at hs
  split at hs
  · subst hs
    simp [State.fail] at hn
  · exact hs.symm

theorem implLine_rank {c : Cause} {t : Nat} {ok : Bool} {junk : Aicall}
    (he : c = .error → s.gErrorCode ≠ 0) (hs : s.implLine t ok junk = some s') :
    (s'.impls t).line.rank c < (s.impls t).line.rank c := by
  have hgoto (u : State) (line : ImplLine) : ((u.goto t line).impls t).line = line := by
    simp [State.goto, State.setImpl]
  cases hl : (s.impls t).line <;>
    simp only [State.implLine, hl, reduceCtorEq, Option.some.injEq] at hs
  case call =>
    split at hs
    · cases hs
      simp [State.fail] at hn
    · obtain rfl := sdkCall_goto hn (Option.some.inj hs)
      simp [hgoto, ImplLine.rank]
  case send | handup =>
    obtain rfl := sdkCall_goto hn hs
    simp [hgoto, ImplLine.rank]
  case testError =>
    subst hs
    cases c with
    | hangup => split <;> simp [hgoto, ImplLine.rank]
    | error => simp [hgoto, ImplLine.rank, he rfl]
  all_goals
    (try split at hs) <;> (try split at hs) <;> cases hs <;>
      first
        | simp [State.fail] at hn
        | simp [hgoto, ImplLine.rank]

end Steps

/-! ### A session that is bound to end -/

/-- The record has been allocated, and the session's task is going to leave its loop. -/
structure Ending (c : Cause) (s : State) : Prop where
  single : Single s
  allocated : s.aicalls 0 ≠ .fresh
  flag : c = .hangup → NotRunning 0 s
  failed : c = .error → s.gErrorCode ≠ 0

theorem HungUp.ending {s : State} (h : HungUp s) : Ending .hangup s :=
  ⟨h.single, h.allocated, fun _ => h.flag, Cause.noConfusion⟩

theorem StaysClear.ne_fresh {k k' : Cell Aicall} (h : StaysClear k k') (hk : k ≠ .fresh) :
    k' ≠ .fresh := by
  rcases h with rfl | rfl | ⟨r, r', -, rfl, -⟩
  · exact hk
  · simp
  · simp

theorem implStep_ne_fresh {s s' : State} {t : Nat} {ok : Bool} {junk : Aicall}
    (h : s.implStep t ok junk = some s') (hm : (s.impls t).line ≠ .mallocAicall)
    (hk : s.aicalls 0 ≠ .fresh) : s'.aicalls 0 ≠ .fresh := by
  have hupdate (i : Nat) (k : Cell Aicall) (hne : k ≠ .fresh) :
      Function.update s.aicalls i k 0 ≠ .fresh := by
    by_cases h0 : 0 = i
    · rwa [h0, Function.update_self]
    · rwa [Function.update_of_ne h0]
  unfold State.implStep at h
  split at h
  · rcases implLine_aicalls h with he | he | ⟨i, he⟩
    · rwa [he]
    · exact absurd he hm
    · rw [he]
      exact hupdate i _ (by simp)
  · cases h
    exact hk
  · cases h
    exact hk
  · cases h
    obtain ⟨f, i, r, -, -, -, rfl, -⟩ := Thread.access_done ‹_›
    exact hupdate i _ (by simp)

theorem keyStep_errorCode {s s' : State} {ok : Bool} (h : s.keyStep ok = some s') :
    s'.gErrorCode = s.gErrorCode := by
  unfold State.keyStep at h
  split at h
  · cases hl : s.key.line <;>
      simp only [State.keyLine, hl, reduceCtorEq, Option.some.injEq] at h <;>
      (try split at h) <;> cases h <;> rfl
  all_goals
    cases h
    rfl

theorem sdkCall_errorCode (s : State) (t : Nat) (p : Option Nat) (line : ImplLine) :
    (s.sdkCall t p line).gErrorCode = s.gErrorCode := by
  unfold State.sdkCall
  split <;> rfl

theorem implStep_errorCode {s s' : State} {t : Nat} {ok : Bool} {junk : Aicall}
    (h : s.implStep t ok junk = some s') (hr : (s.impls t).line ≠ .resetErrorCode) :
    s'.gErrorCode = s.gErrorCode := by
  unfold State.implStep at h
  split at h
  · cases hl : (s.impls t).line <;>
      simp only [State.implLine, hl, reduceCtorEq, Option.some.injEq] at h <;>
      (try split at h) <;> (try split at h) <;> cases h <;>
      first
        | exact sdkCall_errorCode ..
        | rfl
        | exact absurd hl hr
  all_goals
    cases h
    rfl

theorem callbackStep_errorCode {s s' : State} {i : Nat} (h : s.callbackStep i = some s') :
    s'.gErrorCode = s.gErrorCode := by
  unfold State.callbackStep at h
  simp only at h
  split at h
  · unfold State.callbackLine at h
    simp only at h
    split at h
    case h_3 => split at h <;> cases h <;> rfl
    all_goals cases h <;> rfl
  all_goals
    cases h
    rfl

/-- An error that the SDK reports is not 0. -/
def Reports : Action → Prop
  | .error _ code => code ≠ 0
  | _ => True

namespace Ending

variable {c : Cause} {s s' : State} {a : Action} (h : Ending c s)
include h

theorem line_ne_unborn (hl : (s.impls 0).line.stage = .unborn) : False := by
  have hs := h.single.inv.stage 0
  rw [hl] at hs
  exact h.allocated hs.1

theorem line_ne {t : Nat} {line : ImplLine} (hl : (s.impls t).line = line)
    (hu : line.stage = .unborn) (hc : line ≠ .uncreated) : False := by
  have ht : t = 0 := h.single.eq_zero (by rwa [hl])
  subst ht
  exact h.line_ne_unborn (by rw [hl, hu])

/-- After an error, the code stays set, for it is reset only before the record is allocated. -/
theorem step_error (hc : c = .error) (ha : SingleStart s a) (hr : Reports a)
    (hs : demo.step s a = some s') : Ending c s' := by
  subst hc
  have hsingle := h.single.step ha hs
  have hcode := h.failed rfl
  simp only [demo, State.step] at hs
  split at hs
  · cases hs
  cases a with
  | key ok =>
    have hcell := (keyStep_staysClear hs).ne_fresh h.allocated
    exact ⟨hsingle, hcell, Cause.noConfusion, fun _ => keyStep_errorCode hs ▸ hcode⟩
  | impl t ok junk =>
    have hm : (s.impls t).line ≠ .mallocAicall := fun hl => h.line_ne hl rfl ImplLine.noConfusion
    have hl : (s.impls t).line ≠ .resetErrorCode := fun hl =>
      h.line_ne hl rfl ImplLine.noConfusion
    exact ⟨hsingle, implStep_ne_fresh hs hm h.allocated, Cause.noConfusion,
      fun _ => implStep_errorCode hs hl ▸ hcode⟩
  | callback i =>
    have hframe := callbackStep_callbackFrame hs
    exact ⟨hsingle, hframe.aicalls ▸ h.allocated, Cause.noConfusion,
      fun _ => callbackStep_errorCode hs ▸ hcode⟩
  | call f | agentAudio e =>
    simp only at hs
    split at hs <;> cases hs
    exact ⟨hsingle, h.allocated, Cause.noConfusion, fun _ => hcode⟩
  | error e code =>
    simp only at hs
    split at hs <;> cases hs
    exact ⟨hsingle, h.allocated, Cause.noConfusion, fun _ => hr⟩

end Ending

/-- An error comes from an engine that exists, so the session's record has been allocated. -/
theorem error_ending {s s' : State} {e : Nat} {code : Int} (h : Single s) (hcode : code ≠ 0)
    (hs : demo.step s (.error e code) = some s') : e = 0 ∧ Ending .error s' := by
  have hsingle : Single s' := h.step (a := .error e code) trivial hs
  simp only [demo, State.step] at hs
  split at hs
  · cases hs
  split at hs <;> cases hs
  rename_i hheld
  have hstage := h.inv.stage e
  have he : e = 0 := by
    by_contra hne
    rw [h.line_ne hne] at hstage
    simp [hstage.2, Life.held] at hheld
  subst he
  refine ⟨rfl, hsingle, fun hfresh => ?_, Cause.noConfusion, fun _ => hcode⟩
  have hfresh : s.aicalls 0 = .fresh := hfresh
  rw [hfresh] at hstage
  cases hl : (s.impls 0).line.stage <;> rw [hl] at hstage <;>
    simp_all [Stage.Holds, Life.held]

/-! ### The variant -/

/-- The steps that the callbacks which have begun can still take. -/
def State.callbackVariant (s : State) : Nat :=
  ∑ i ∈ Finset.range s.callbackCount, (s.callbacks i).thread.variant CallbackLine.rank

def State.variant (c : Cause) (s : State) : Nat :=
  (s.impls 0).variant (ImplLine.rank c) + s.callbackVariant

theorem implStep_lower {c : Cause} {s s' : State} {t : Nat} {ok : Bool} {junk : Aicall}
    (h : Ending c s) (hn : s'.fault = none) (hs : s.implStep t ok junk = some s') :
    t = 0 ∧ s'.variant c < s.variant c := by
  have ht : t = 0 := by
    by_contra hne
    simp [State.implStep, Thread.access, ImplLine.access, State.implLine, h.single.line_ne hne]
      at hs
  subst ht
  have hframe := implStep_frame hs
  have hcallbacks : s'.callbackVariant = s.callbackVariant := by
    unfold State.callbackVariant
    rw [hframe.callbacks, hframe.callbackCount]
  have hlower :
      (s'.impls 0).variant (ImplLine.rank c) < (s.impls 0).variant (ImplLine.rank c) := by
    unfold State.implStep at hs
    split at hs
    · exact Thread.variant_lt (implLine_rank hn h.failed hs)
    · rename_i k hk
      cases hs
      obtain ⟨hp, _, rfl⟩ := Thread.access_load hk
      simp only [State.setImpl, Function.update_self]
      exact Thread.variant_load hp
    · cases hs
      simp [State.fail] at hn
    · rename_i h' k hk
      cases hs
      obtain ⟨f, i, r, hf, _, hi, rfl, rfl⟩ := Thread.access_done hk
      obtain rfl : i = 0 := h.single.held_zero hi
      simp only [State.setImpl, Function.update_self]
      exact Thread.variant_lt (ImplLine.access_rank hf fun hc => h.flag hc r hi)
  refine ⟨rfl, ?_⟩
  unfold State.variant
  omega

theorem callbackLine_rank {s s' : State} {i : Nat} (hn : s'.fault = none)
    (hs : s.callbackLine i = some s') :
    (s'.callbacks i).thread.line.rank < (s.callbacks i).thread.line.rank := by
  unfold State.callbackLine at hs
  simp only at hs
  cases hl : (s.callbacks i).thread.line <;> simp only [hl, reduceCtorEq, Option.some.injEq] at hs
  case testCurr =>
    subst hs
    simp only [State.setCallback, Function.update_self]
    split <;> simp [CallbackLine.rank]
  case write p =>
    cases p with
    | none =>
      cases hs
      simp [State.fail] at hn
    | some p =>
      simp only at hs
      split at hs <;> cases hs
      · simp [State.setCallback, CallbackLine.rank]
      · simp [State.fail] at hn
  case writing =>
    subst hs
    simp [State.setCallback, CallbackLine.rank]

theorem callbackStep_lower {c : Cause} {s s' : State} {i : Nat} (hn : s'.fault = none)
    (hi : i < s.callbackCount) (hs : s.callbackStep i = some s') :
    s'.variant c < s.variant c := by
  have hframe := callbackStep_callbackFrame hs
  have hlower : (s'.callbacks i).thread.variant CallbackLine.rank <
      (s.callbacks i).thread.variant CallbackLine.rank := by
    unfold State.callbackStep at hs
    simp only at hs
    split at hs
    · exact Thread.variant_lt (callbackLine_rank hn hs)
    · rename_i k hk
      cases hs
      obtain ⟨hp, _, rfl⟩ := Thread.access_load hk
      simp only [State.setCallback, Function.update_self]
      exact Thread.variant_load hp
    · cases hs
      simp [State.fail] at hn
    · rename_i h' k hk
      cases hs
      obtain ⟨f, j, r, hf, _, _, rfl, rfl⟩ := Thread.access_done hk
      simp only [State.setCallback, Function.update_self]
      exact Thread.variant_lt (CallbackLine.access_rank hf r)
  have hsum : s'.callbackVariant < s.callbackVariant := by
    unfold State.callbackVariant
    rw [hframe.callbackCount]
    refine Finset.sum_lt_sum (fun j _ => ?_) ⟨i, Finset.mem_range.mpr hi, hlower⟩
    by_cases hj : j = i
    · exact hj ▸ hlower.le
    · rw [hframe.others j hj]
  unfold State.variant
  rw [hframe.impls]
  omega

/-! ### Who helps -/

/-- The tasks and the callbacks of the demo. -/
inductive Task where
  | key
  | impl (t : Nat)
  | callback (i : Nat)
deriving DecidableEq, Repr

/-- The steps of a task, whatever the outcome of the calls it makes. -/
def Task.acts : Task → Action → Prop
  | .key, .key _ => True
  | .impl t, .impl u _ _ => t = u
  | .callback i, .callback j => i = j
  | _, _ => False

def ImplLine.destroying : ImplLine → Bool
  | .destroyingEngine _ => true
  | _ => false

/-- A callback of the session's engine that has not returned. -/
def State.busy (s : State) : Option Nat :=
  (List.range s.callbackCount).find? fun i =>
    (s.callbacks i).engine = 0 ∧ (s.callbacks i).thread.line ≠ .returned

/-- The session's task, or a callback for which it waits in `artc_aicall_destroy`. -/
def State.helper (s : State) : Task :=
  match (s.impls 0).line.destroying, s.busy with
  | true, some i => .callback i
  | _, _ => .impl 0

/-- After a hang-up or an error, in a run that goes on. -/
structure Winding (c : Cause) (s : State) : Prop where
  ending : Ending c s
  beyond : ∀ i, s.callbackCount ≤ i → (s.callbacks i).thread.line = .returned
  noFault : s.fault = none

/-- There is one session, and the SDK begins no callback any more. -/
structure Winds (s : State) (a : Action) : Prop where
  single : SingleStart s a
  quiet : ∀ e, a ≠ .agentAudio e

theorem callbackStep_lt {s s' : State} {i : Nat}
    (hb : ∀ j, s.callbackCount ≤ j → (s.callbacks j).thread.line = .returned)
    (hs : s.callbackStep i = some s') : i < s.callbackCount := by
  by_contra hge
  have hl := hb i (by omega)
  simp [State.callbackStep, Thread.access, CallbackLine.access, State.callbackLine, hl] at hs

theorem callbackStep_enabled {s : State} {i : Nat}
    (hl : (s.callbacks i).thread.line ≠ .returned) : (s.callbackStep i).isSome := by
  unfold State.callbackStep
  simp only
  cases ha : (s.callbacks i).thread.access CallbackLine.access s.gCurrAicall s.aicalls with
  | pass =>
    have hacc := Thread.access_pass ha
    unfold State.callbackLine
    simp only
    cases hline : (s.callbacks i).thread.line with
    | write p =>
      cases p with
      | none => rfl
      | some p =>
        simp only
        split <;> rfl
    | returned => exact absurd hline hl
    | testCurr | writing => rfl
    | testPlayer | loadPlayer => simp [hline, CallbackLine.access] at hacc
  | _ => rfl

theorem State.quiet_of_busy {s : State} (h : s.busy = none) : s.quiet 0 := by
  intro i hi he
  have hnone := List.find?_eq_none.mp h i (List.mem_range.mpr hi)
  simpa [he] using hnone

theorem implStep_enabled {c : Cause} {s : State} (h : Ending c s) (hl : (s.impls 0).line ≠ .deleted)
    (hw : (s.impls 0).line.destroying → s.busy = none) : (s.implStep 0 false {}).isSome := by
  unfold State.implStep
  cases ha : (s.impls 0).access (ImplLine.access 0) s.gCurrAicall s.aicalls with
  | pass =>
    have hacc := Thread.access_pass ha
    have hown := h.single.inv.own 0
    cases hline : (s.impls 0).line with
    | uncreated => exact (h.line_ne_unborn (by rw [hline]; rfl)).elim
    | deleted => exact absurd hline hl
    | destroyingEngine e =>
      rw [hline] at hown hw
      obtain rfl : e = some 0 := hown
      simp [State.implLine, hline, State.quiet_of_busy (hw rfl)]
    | _ =>
      rw [hline] at hacc
      simp only [ImplLine.access, reduceCtorEq] at hacc
      try
        simp only [State.implLine, hline]
        (try split) <;> rfl
  | _ => rfl

theorem Winding.enabled {c : Cause} {s : State} (h : Winding c s)
    (hl : (s.impls 0).line ≠ .deleted) :
    ∃ a, s.helper.acts a ∧ (demo.step s a).isSome := by
  unfold State.helper
  split
  · rename_i i _ hbusy
    refine ⟨.callback i, rfl, ?_⟩
    have hret := List.find?_some hbusy
    have hline : (s.callbacks i).thread.line ≠ .returned := by
      intro hl
      simp [hl] at hret
    simpa [demo, State.step, h.noFault] using callbackStep_enabled hline
  · rename_i hw
    refine ⟨.impl 0 false {}, rfl, ?_⟩
    have hquiet (hd : (s.impls 0).line.destroying) : s.busy = none := by
      cases hb : s.busy with
      | none => rfl
      | some i => exact (hw i hd hb).elim
    simpa [demo, State.step, h.noFault] using implStep_enabled h.ending hl hquiet

theorem State.helper_ne_key (s : State) : s.helper ≠ .key := by
  unfold helper
  split <;> exact Task.noConfusion

/-- A step that leaves the session's task and the callbacks alone, and is not one of theirs. -/
theorem State.beside {c : Cause} {s s' : State} {a : Action} (him : s'.impls 0 = s.impls 0)
    (hc : s'.callbacks = s.callbacks) (hcount : s'.callbackCount = s.callbackCount)
    (ha : ∀ t : Task, t.acts a → t = .key) :
    s'.variant c = s.variant c ∧ s'.helper = s.helper ∧ ¬ s.helper.acts a := by
  unfold State.variant State.callbackVariant
  refine ⟨by rw [him, hc, hcount], ?_, fun hact => s.helper_ne_key (ha _ hact)⟩
  unfold State.helper State.busy
  rw [him, hc, hcount]

/-- The teardown makes progress towards the end of the session's task. -/
theorem progress (c : Cause) : Machine.Progress demo Task.acts (Winding c)
    (fun s => (s.impls 0).line = .deleted) Winds State.helper (State.variant c) where
  enabled s h hl := h.enabled hl
  step s a s' h h' hP _ hs := by
    refine Or.inr ?_
    simp only [demo, State.step] at hs
    split at hs
    · cases hs
    cases a with
    | call f =>
      simp only at hs
      split at hs <;> cases hs
      exact Or.inr (State.beside rfl rfl rfl fun t ht => by cases t <;> exact ht.elim)
    | key ok =>
      have hframe := keyStep_keyFrame hs
      rcases keyStep_tasks hs with ⟨_, him⟩ | ⟨rfl, hk, _⟩
      · refine Or.inr (State.beside (congrFun him 0) hframe.callbacks hframe.callbackCount ?_)
        intro t ht
        cases t <;> first | rfl | exact ht.elim
      · -- the session's task has been created, so no task is created now
        have hzero : s.tasks = 0 := hP.single hk
        have h0 := h.ending.single.inv.created 0 (by omega)
        exact (h.ending.line_ne_unborn (by rw [h0]; rfl)).elim
    | impl t ok junk => exact Or.inl (implStep_lower h.ending h'.noFault hs).2
    | agentAudio e => exact absurd rfl (hP.quiet e)
    | callback i => exact Or.inl (callbackStep_lower h'.noFault (callbackStep_lt h.beyond hs) hs)
    | error e code =>
      simp only at hs
      split at hs <;> cases hs
      exact Or.inr (State.beside rfl rfl rfl fun t ht => by cases t <;> exact ht.elim)

/-! ### The end of a session -/

theorem step_noFault {s s' : State} {a : Action} (hs : demo.step s a = some s') :
    s.fault = none := by
  simp only [demo, State.step] at hs
  split at hs
  · cases hs
  · rename_i hnone
    simpa using hnone

theorem step_beyond {s s' : State} {a : Action}
    (h : ∀ i, s.callbackCount ≤ i → (s.callbacks i).thread.line = .returned)
    (hs : demo.step s a = some s') (i : Nat) (hi : s'.callbackCount ≤ i) :
    (s'.callbacks i).thread.line = .returned := by
  simp only [demo, State.step] at hs
  split at hs
  · cases hs
  cases a with
  | call f | error e code =>
    simp only at hs
    split at hs <;> cases hs
    exact h i hi
  | key ok =>
    have hframe := keyStep_keyFrame hs
    rw [hframe.callbacks]
    exact h i (hframe.callbackCount ▸ hi)
  | impl t ok junk =>
    have hframe := implStep_frame hs
    rw [hframe.callbacks]
    exact h i (hframe.callbackCount ▸ hi)
  | agentAudio e =>
    simp only at hs
    split at hs <;> cases hs
    have hlt : s.callbackCount < i := hi
    have hne : i ≠ s.callbackCount := by omega
    simpa [State.setCallback, hne] using h i (by omega)
  | callback j =>
    have hframe := callbackStep_callbackFrame hs
    have hj := callbackStep_lt h hs
    rw [hframe.callbackCount] at hi
    rw [hframe.others i (by omega)]
    exact h i hi

/-- The session has ended: its task is deleted, nothing is published, and the record and the engine
are gone. -/
structure Torn (s : State) (t : Nat) : Prop where
  line : (s.impls t).line = .deleted
  curr : s.gCurrAicall = none
  record : s.aicalls t = .freed
  engine : (s.engines t).held = false

theorem Single.torn {s : State} (h : Single s) (hl : (s.impls 0).line = .deleted) : Torn s 0 := by
  obtain ⟨hrecord, hengine⟩ := h.inv.ended (t := 0) (by simp [hl, ImplLine.ended, ImplLine.stage])
  refine ⟨hl, ?_, hrecord, ?_⟩
  · by_contra hcurr
    obtain ⟨i, hi⟩ := Option.ne_none_iff_exists'.mp hcurr
    obtain rfl := h.curr_zero hi
    have hin := (h.inv.owner 0).mp hi
    simp [hl, ImplLine.inSession, ImplLine.stage] at hin
  · rcases hengine with he | he <;> rw [he] <;> rfl

/-! ### Fair runs exist -/

/-- The session has ended, and the key task is between calls. -/
structure Resting (s : State) : Prop where
  key : s.key = { line := .idle }
  impl : (s.impls 0).line = .deleted
  curr : s.gCurrAicall = none
  callbacks : ∀ i, (s.callbacks i).thread.line = .returned
  noFault : s.fault = none

/-- A hang-up with no session leads back to the resting state. -/
theorem Resting.back {s : State} (h : Resting s) :
    demo.step { s with key := { line := .testCurr .handup } } (.key false) = some s := by
  have hkey : { s with key := { line := .idle } } = s := by rw [← h.key]
  have hstep : demo.step { s with key := { line := .testCurr .handup } } (.key false) =
      some { s with
        key := { line := if s.gCurrAicall.isSome then .testEngine .handup else .idle } } := by
    simp [demo, State.step, h.noFault, State.keyStep, Thread.access, KeyLine.access, State.keyLine,
      Fn.afterHandup]
  rw [hstep, if_neg (by simp [h.curr])]
  exact congrArg some hkey

theorem Resting.handup {s : State} (h : Resting s) :
    demo.step s (.call .handup) = some { s with key := { line := .testCurr .handup } } := by
  simp [demo, State.step, h.noFault, h.key]

/-- From a resting state on, `artc_aicall_demo_handup` is called for ever. -/
def restPath (s : State) (h : Resting s) : demo.Path := .alternate h.handup h.back

theorem restPath_fair {s : State} (h : Resting s) (hs : Single s) (t : Task) :
    (restPath s h).Fair t.acts := by
  refine Machine.Path.alternate_fair _ _ ?_
  cases t with
  | key => exact Or.inl trivial
  | impl t =>
    refine Or.inr fun a hact => ?_
    cases a <;> simp only [Task.acts] at hact
    subst hact
    have hl : (s.impls t).line = .deleted ∨ (s.impls t).line = .uncreated := by
      by_cases ht : t = 0
      · exact Or.inl (ht ▸ h.impl)
      · exact Or.inr (hs.line_ne ht)
    rcases hl with hl | hl <;>
      simp [demo, State.step, h.noFault, State.implStep, Thread.access, ImplLine.access,
        State.implLine, hl]
  | callback i =>
    refine Or.inr fun a hact => ?_
    cases a <;> simp only [Task.acts] at hact
    subst hact
    simp [demo, State.step, h.noFault, State.callbackStep, Thread.access, CallbackLine.access,
      State.callbackLine, h.callbacks i]

theorem restPath_quiet {s : State} (h : Resting s) (n : Nat) (e : Nat) :
    (restPath s h).action n ≠ .agentAudio e :=
  Machine.Path.alternate_forall h.handup h.back (P := fun _ a => a ≠ Action.agentAudio e)
    Action.noConfusion Action.noConfusion n

theorem restPath_single {s : State} (h : Resting s) (n : Nat) :
    SingleStart ((restPath s h).state n) ((restPath s h).action n) ∧
      ¬ SetsRunning ((restPath s h).state n) ((restPath s h).action n) :=
  Machine.Path.alternate_forall h.handup h.back
    (P := fun s a => SingleStart s a ∧ ¬ SetsRunning s a) ⟨trivial, id⟩ ⟨trivial, id⟩ n

instance (s : State) : ∀ a, Decidable (SetsRunning s a)
  | .impl t _ _ =>
    inferInstanceAs (Decidable ((s.impls t).line = .setRunning ∧ (s.impls t).ptr.isSome))
  | .call _ | .key _ | .agentAudio _ | .callback _ | .error _ _ => isFalse id

/-- In a fair run, a session that is bound to end from step `n` on does end. -/
theorem Ending.torn {c : Cause} {p : demo.Path} (h0 : p.state 0 = demo.init)
    (hfair : ∀ t : Task, p.Fair t.acts) (hone : ∀ n, SingleStart (p.state n) (p.action n))
    {n : Nat} (hending : ∀ m, Ending c (p.state (n + m))) {k : Nat}
    (hsdk : ∀ m, k ≤ m → ∀ e, p.action m ≠ .agentAudio e) :
    ∃ m, n ≤ m ∧ Torn (p.state m) 0 := by
  have hbeyond (m : Nat) (j : Nat) : (p.state m).callbackCount ≤ j →
      ((p.state m).callbacks j).thread.line = .returned :=
    p.invariant (P := fun _ _ => True) (fun _ _ _ h _ hs => step_beyond h hs) (fun _ => trivial)
      (by rw [h0]; exact fun _ _ => rfl) m j
  -- from here on the SDK begins no callback
  have hwinding (m : Nat) : Winding c ((p.drop (n + k)).state m) := by
    have hm := hending (k + m)
    rw [← Nat.add_assoc] at hm
    exact ⟨hm, hbeyond _, step_noFault (p.next _)⟩
  obtain ⟨m, -, hl⟩ := (progress c).reaches hwinding (fun m => ⟨hone _, hsdk _ (by omega)⟩)
    (fun t => (hfair t).drop _) 0
  exact ⟨n + k + m, by omega, (hwinding m).ending.single.torn hl⟩

theorem path_single {p : demo.Path} (h0 : p.state 0 = demo.init)
    (hone : ∀ n, SingleStart (p.state n) (p.action n)) (n : Nat) : Single (p.state n) :=
  p.invariant (P := SingleStart) (fun _ _ _ h hP hs => h.step hP hs) hone (h0 ▸ Single.init) n

/-- A hang-up whose flag stays clear ends the session, in every fair run with one session in which
the SDK begins no more callbacks from some moment on. -/
theorem hangup_tears_down {p : demo.Path} (h0 : p.state 0 = demo.init)
    (hfair : ∀ t : Task, p.Fair t.acts) (hone : ∀ n, SingleStart (p.state n) (p.action n))
    {n i : Nat} (hh : StoresHangup (p.state n) (p.action n) i)
    (hkept : ∀ m, n < m → ¬ SetsRunning (p.state m) (p.action m)) {k : Nat}
    (hsdk : ∀ m, k ≤ m → ∀ e, p.action m ≠ .agentAudio e) :
    ∃ m, n < m ∧ Torn (p.state m) i := by
  obtain ⟨hung, rfl, -⟩ := hh.hungUp (path_single h0 hone n) (hone n) (p.next n)
  have hending (m : Nat) : Ending .hangup (p.state (n + 1 + m)) := by
    refine HungUp.ending ?_
    exact (p.drop (n + 1)).invariant (P := fun s a => SingleStart s a ∧ ¬ SetsRunning s a)
      (fun _ _ _ h hP hs => h.step hP.1 hP.2 hs) (fun j => ⟨hone _, hkept _ (by omega)⟩) hung m
  exact Ending.torn h0 hfair hone hending hsdk

/-- A call in its loop, and a hang-up of it, up to its store. -/
def hangupInLoop : List Action :=
  .call .startCall :: List.replicate 2 (.key true) ++ List.replicate 36 (.impl 0 true {}) ++
    .call .handup :: List.replicate 4 (.key true)

/-- The rest of the hang-up, and the teardown. -/
def teardown : List Action := .key false :: .key false :: List.replicate 38 (.impl 0 true {})

theorem hangupInLoop_runs : ∃ s t, demo.run demo.init hangupInLoop = some s ∧
    demo.run s teardown = some t ∧ StoresHangup s (.key false) 0 ∧ Resting t ∧
    demo.Along SingleStart demo.init hangupInLoop ∧
    demo.Along (fun s a => SingleStart s a ∧ ¬ SetsRunning s a) s teardown :=
  ⟨_, _, rfl, rfl, ⟨.handup, false, _, rfl, rfl, rfl⟩, ⟨rfl, rfl, rfl, fun _ => rfl, rfl⟩,
    by decide +kernel, by decide +kernel⟩

theorem hangupInLoop_torn : ∃ (p : demo.Path) (m : Nat), p.state 0 = demo.init ∧
    StoresHangup (p.state hangupInLoop.length) (p.action hangupInLoop.length) 0 ∧
    hangupInLoop.length < m ∧ Torn (p.state m) 0 := by
  obtain ⟨s, t, hs, ht, hh, hrest, hfirst, hsecond⟩ := hangupInLoop_runs
  have hsingle : Single t := by
    refine Machine.run_invariant (fun _ _ _ h hP hs => h.step hP hs) ?_
      (hsecond.imp fun _ _ h => h.1) ht
    exact Machine.run_invariant (fun _ _ _ h hP hs => h.step hP hs) Single.init hfirst hs
  obtain ⟨q, hqfair, hq⟩ := (restPath t hrest).exists_extends ht (restPath_fair hrest hsingle)
  have hq0 : s = q.state 0 := Option.some.inj (hq.state 0 (Nat.zero_le _))
  obtain ⟨p, hfair, hp⟩ := q.exists_extends (hq0 ▸ hs) hqfair
  have hkeep := hq.along hsecond (restPath_single hrest)
  have hhang : StoresHangup (p.state hangupInLoop.length) (p.action hangupInLoop.length) 0 := by
    have hstate : p.state hangupInLoop.length = q.state 0 := (hp.after 0).1
    have haction : p.action hangupInLoop.length = q.action 0 := (hp.after 0).2
    rw [hstate, haction, ← hq0, hq.action 0 _ rfl]
    exact hh
  obtain ⟨m, hm, htorn⟩ := hangup_tears_down
    (Option.some.inj (hp.state 0 (Nat.zero_le _))).symm hfair
    (hp.along hfirst fun n => (hkeep n).1) hhang
    (fun m hm => by
      obtain ⟨k, rfl⟩ := Nat.exists_eq_add_of_lt hm
      rw [Nat.add_assoc, (hp.after (k + 1)).1, (hp.after (k + 1)).2]
      exact (hkeep _).2)
    (k := hangupInLoop.length + teardown.length) (fun m hm e => by
      obtain ⟨k, rfl⟩ := Nat.exists_eq_add_of_le hm
      rw [Nat.add_assoc, (hp.after _).2, (hq.after _).2]
      exact restPath_quiet hrest k e)
  exact ⟨p, m, (Option.some.inj (hp.state 0 (Nat.zero_le _))).symm, hhang, hm, htorn⟩

/-- An error of a live engine ends its session, in every fair run with one session in which the SDK
begins no more callbacks from some moment on. -/
theorem error_tears_down {p : demo.Path} (h0 : p.state 0 = demo.init)
    (hfair : ∀ t : Task, p.Fair t.acts) (hone : ∀ n, SingleStart (p.state n) (p.action n))
    (hreports : ∀ n, Reports (p.action n)) {n e : Nat} {code : Int}
    (he : p.action n = .error e code) {k : Nat}
    (hsdk : ∀ m, k ≤ m → ∀ e, p.action m ≠ .agentAudio e) :
    ∃ m, n < m ∧ Torn (p.state m) e := by
  have hcode : code ≠ 0 := by
    have hn := hreports n
    rwa [he] at hn
  obtain ⟨rfl, hfailed⟩ := error_ending (path_single h0 hone n) hcode (he ▸ p.next n)
  have hending (m : Nat) : Ending .error (p.state (n + 1 + m)) :=
    (p.drop (n + 1)).invariant (P := fun s a => SingleStart s a ∧ Reports a)
      (fun _ _ _ h hP hs => h.step_error rfl hP.1 hP.2 hs) (fun j => ⟨hone _, hreports _⟩)
      hfailed m
  exact Ending.torn h0 hfair hone hending hsdk

/-- A call whose engine reports an error while it is in its loop, and the teardown. -/
def erroredCall : List Action :=
  .call .startCall :: List.replicate 2 (.key true) ++ List.replicate 36 (.impl 0 true {}) ++
    .error 0 7 :: List.replicate 39 (.impl 0 true {})

instance : ∀ a, Decidable (Reports a)
  | .error _ code => inferInstanceAs (Decidable (code ≠ 0))
  | .call _ | .key _ | .impl _ _ _ | .agentAudio _ | .callback _ => isTrue trivial

theorem erroredCall_runs : ∃ t, demo.run demo.init erroredCall = some t ∧ Resting t ∧
    demo.Along (fun s a => SingleStart s a ∧ Reports a) demo.init erroredCall :=
  ⟨_, rfl, ⟨rfl, rfl, rfl, fun _ => rfl, rfl⟩, by decide +kernel⟩

theorem restPath_reports {s : State} (h : Resting s) (n : Nat) :
    Reports ((restPath s h).action n) :=
  Machine.Path.alternate_forall h.handup h.back (P := fun _ a => Reports a) trivial trivial n

theorem erroredCall_torn : ∃ (p : demo.Path) (m : Nat), p.state 0 = demo.init ∧
    p.action 39 = .error 0 7 ∧ 39 < m ∧ Torn (p.state m) 0 := by
  obtain ⟨t, ht, hrest, halong⟩ := erroredCall_runs
  have hsingle : Single t := Machine.run_invariant (fun _ _ _ h hP hs => h.step hP hs) Single.init
    (halong.imp fun _ _ h => h.1) ht
  obtain ⟨p, hfair, hp⟩ := (restPath t hrest).exists_extends ht (restPath_fair hrest hsingle)
  have h0 : p.state 0 = demo.init := (Option.some.inj (hp.state 0 (Nat.zero_le _))).symm
  have hall := hp.along halong fun n => ⟨(restPath_single hrest n).1, restPath_reports hrest n⟩
  obtain ⟨m, hm, htorn⟩ := error_tears_down h0 hfair (fun n => (hall n).1) (fun n => (hall n).2)
    (hp.action 39 _ rfl) (k := erroredCall.length) fun m hm e => by
      obtain ⟨k, rfl⟩ := Nat.exists_eq_add_of_le hm
      rw [(hp.after _).2]
      exact restPath_quiet hrest k e
  exact ⟨p, m, h0, hp.action 39 _ rfl, hm, htorn⟩

end AiCall.Esp32
