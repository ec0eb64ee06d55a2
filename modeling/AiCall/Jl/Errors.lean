import AiCall.Jl.Ownership

/-! Containment of errors in the JL demo.  One `g_error_code` serves every session.  It is reset in
one place, where no engine is held, so while an engine is held it says whether `on_error_occurs` has
been called for that engine. -/

namespace AiCall.Jl

open Kit

def NonzeroCodes (_ : State) : Action → Prop
  | .error _ code => code ≠ 0
  | _ => True

instance (s : State) (a : Action) : Decidable (NonzeroCodes s a) := by
  unfold NonzeroCodes
  split <;> infer_instance

/-- From the test of `g_error_code` in `artc_aicall_demo_start_call` to the allocation. -/
def StartLine.checked : StartLine → Bool
  | .testCurr | .testWifi | .mallocAicall => true
  | _ => false

def KeyLine.checked : KeyLine → Bool
  | .start l => l.checked
  | _ => false

/-- What a step of `app_core` can do to the errors, the published pointer and the engines. -/
structure KeyMove (s s' : State) : Prop where
  fired : s'.fired = s.fired
  code : s'.gErrorCode = s.gErrorCode ∨ s.key.line = .start .resetError ∧ s'.gErrorCode = 0
  curr : s'.gCurrAicall = s.gCurrAicall ∨ s'.gCurrAicall = none ∨
    s.key.line = .start .mallocAicall
  checked : s'.key.line.checked →
    s'.gErrorCode = 0 ∨ s.key.line.checked ∧ s'.gCurrAicall = s.gCurrAicall
  engines : s'.engines = s.engines ∨
    s.engines s.session = .absent ∧ s'.engines = Function.update s.engines s.session .live ∨
    s.engines s.session = .live ∧ s'.engines = Function.update s.engines s.session .destroying ∨
    s.engines s.session = .destroying ∧ s'.engines = Function.update s.engines s.session .destroyed

/-- A step that leaves these alone, to a line after the allocation. -/
theorem KeyMove.of_eq {s s' : State} (hl : s'.key.line.checked = false)
    (hf : s'.fired = s.fired := by rfl) (hc : s'.gErrorCode = s.gErrorCode := by rfl)
    (hg : s'.gCurrAicall = s.gCurrAicall := by rfl) (he : s'.engines = s.engines := by rfl) :
    KeyMove s s' :=
  ⟨hf, Or.inl hc, Or.inl hg, fun h => by simp [hl] at h, Or.inl he⟩

theorem KeyMove.goto {s : State} {line : KeyLine}
    (h : line.checked → s.gErrorCode = 0 ∨ s.key.line.checked) : KeyMove s (s.goto line) :=
  ⟨rfl, Or.inl rfl, Or.inl rfl, fun hc => (h hc).imp_right fun hc => ⟨hc, rfl⟩, Or.inl rfl⟩

/-- A step that moves one engine on, to a line after the allocation. -/
theorem KeyMove.engine {s s' : State} {l l' : Life} (hl : s'.key.line.checked = false)
    (hold : s.engines s.session = l) (he : s'.engines = Function.update s.engines s.session l')
    (hm : l = .absent ∧ l' = .live ∨ l = .live ∧ l' = .destroying ∨
      l = .destroying ∧ l' = .destroyed)
    (hf : s'.fired = s.fired := by rfl) (hc : s'.gErrorCode = s.gErrorCode := by rfl)
    (hg : s'.gCurrAicall = s.gCurrAicall := by rfl) : KeyMove s s' := by
  refine ⟨hf, Or.inl hc, Or.inl hg, fun h => by simp [hl] at h, Or.inr ?_⟩
  rcases hm with ⟨rfl, rfl⟩ | ⟨rfl, rfl⟩ | ⟨rfl, rfl⟩
  · exact Or.inl ⟨hold, he⟩
  · exact Or.inr (Or.inl ⟨hold, he⟩)
  · exact Or.inr (Or.inr ⟨hold, he⟩)

theorem KeyMove.sdkCall {s : State} {e : Option Nat} {line : KeyLine}
    (h : line.checked = false) (hk : s.key.line.checked = false) :
    KeyMove s (s.sdkCall e line) := by
  unfold State.sdkCall
  split
  · exact .of_eq h
  · exact .of_eq hk

theorem startLine_move {s s' : State} {ok : Bool} {pid : Int} {junk : Aicall} {l : StartLine}
    (h : Inv s) (hl : s.key.line = .start l) (hs : s.startLine ok pid junk l = some s') :
    KeyMove s s' := by
  have hst := h.stage_eq hl
  have hk : s.key.line.checked = l.checked := by rw [hl]; rfl
  cases l <;> simp only [State.startLine, reduceCtorEq, Option.some.injEq] at hs
  case testError =>
    subst hs
    split
    · exact .of_eq rfl
    · rename_i hc
      exact .goto fun _ => Or.inl (by simpa using hc)
  case resetError =>
    subst hs
    exact ⟨rfl, Or.inr ⟨hl, rfl⟩, Or.inl rfl, fun _ => Or.inl rfl, Or.inl rfl⟩
  case testCurr | testWifi =>
    subst hs
    exact .goto fun _ => Or.inr (by rw [hl]; rfl)
  case mallocAicall =>
    subst hs
    exact ⟨rfl, Or.inl rfl, Or.inr (Or.inr hl), fun hc => absurd hc Bool.false_ne_true, Or.inl rfl⟩
  case init =>
    split at hs <;> cases hs
    · exact .engine rfl hst.2.2.2 rfl (Or.inl ⟨rfl, rfl⟩)
    · exact .of_eq rfl
  case call e c =>
    split at hs <;> cases hs
    · exact .of_eq hk
    · exact .sdkCall rfl hk
  case fork p =>
    split at hs
    · split at hs <;> cases hs
      exact .of_eq rfl
    · split at hs <;> cases hs
      · exact .of_eq hk
      · exact .of_eq rfl
  case clearConfig | fillConfig | storePid =>
    split at hs <;> cases hs
    · exact .of_eq hk
    · exact .of_eq rfl
  case mallocConfig | loadPid =>
    subst hs
    exact .of_eq rfl
  case calling | taskTestCurr =>
    subst hs
    split <;> exact .of_eq rfl

theorem Caller.returns_unchecked (k : Caller) : k.returns.checked = false := by
  cases k <;> rfl

theorem handupLine_move {s s' : State} {k : Caller} {l : HandupLine}
    (hl : s.key.line = .handup k l) (hs : s.handupLine k l = some s') : KeyMove s s' := by
  have hk : s.key.line.checked = false := by rw [hl]; rfl
  cases l <;> simp only [State.handupLine, reduceCtorEq, Option.some.injEq] at hs
  case testCurr =>
    subst hs
    split
    · exact .of_eq rfl
    · exact .of_eq k.returns_unchecked
  case loadPid =>
    subst hs
    exact .of_eq rfl
  case kill =>
    split at hs
    · cases hs
      exact .of_eq hk
    · split at hs <;> cases hs
      exact .of_eq rfl
  case handup =>
    subst hs
    exact .sdkCall rfl hk

theorem destroyLine_move {s s' : State} {k : Caller} {l : DestroyLine} (h : Inv s)
    (hl : s.key.line = .destroy k l) (hs : s.destroyLine k l = some s') : KeyMove s s' := by
  have hst := h.stage_eq hl
  have hown := h.own_eq hl
  have hk : s.key.line.checked = false := by rw [hl]; rfl
  cases l <;> simp only [State.destroyLine, reduceCtorEq, Option.some.injEq] at hs
  case testCurr =>
    subst hs
    split
    · exact .of_eq rfl
    · exact .of_eq k.returns_unchecked
  case destroy e =>
    obtain rfl : e = some s.session := hown
    have hlive := hst.2.2.2
    simp only [State.liveEngine, hlive, decide_true, Option.some.injEq] at hs
    subst hs
    exact .engine rfl hlive rfl (Or.inr (Or.inl ⟨rfl, rfl⟩))
  case destroying e =>
    obtain rfl : e = some s.session := hown
    obtain rfl := Option.some.inj hs
    exact .engine rfl hst.2.2.2 rfl (Or.inr (Or.inr ⟨rfl, rfl⟩))
  case freeConfig | freeCurr =>
    split at hs <;> cases hs
    · exact .of_eq rfl
    · exact .of_eq hk
  case loadCurr =>
    subst hs
    exact .of_eq rfl
  case clearCurr =>
    subst hs
    refine ⟨rfl, Or.inl rfl, Or.inr (Or.inl rfl), fun hc => ?_, Or.inl rfl⟩
    simp [State.goto, k.returns_unchecked] at hc

theorem useLine_move {s s' : State} {f : Fn} {l : UseLine} (hl : s.key.line = .use f l)
    (hs : s.useLine f l = some s') : KeyMove s s' := by
  have hk : s.key.line.checked = false := by rw [hl]; rfl
  cases l <;> simp only [State.useLine, reduceCtorEq, Option.some.injEq] at hs
  case testCurr =>
    subst hs
    split <;> exact .of_eq rfl
  case callSdk =>
    subst hs
    exact .sdkCall rfl hk

theorem KeyLine.access_checked {line : KeyLine} {f : Aicall → Aicall × KeyLine}
    (hf : line.access = some f) (r : Aicall) : line.checked = false ∧ (f r).2.checked = false := by
  cases line with
  | idle => simp [KeyLine.access] at hf
  | start l =>
    cases l <;>
      simp only [KeyLine.access, StartLine.access, Option.some.injEq, reduceCtorEq] at hf <;>
      subst hf <;> dsimp only <;> (try split) <;> exact ⟨rfl, rfl⟩
  | handup c l =>
    cases l <;>
      simp only [KeyLine.access, HandupLine.access, Option.some.injEq, reduceCtorEq] at hf <;>
      subst hf <;> dsimp only <;> (try split) <;> cases c <;> exact ⟨rfl, rfl⟩
  | destroy c l =>
    cases l <;>
      simp only [KeyLine.access, DestroyLine.access, Option.some.injEq, reduceCtorEq] at hf <;>
      subst hf <;> dsimp only <;> (try split) <;> exact ⟨rfl, rfl⟩
  | use c l =>
    cases l <;>
      simp only [KeyLine.access, UseLine.access, Option.some.injEq, reduceCtorEq] at hf <;>
      subst hf <;> dsimp only <;> (try split) <;> exact ⟨rfl, rfl⟩

theorem keyStep_move {s s' : State} {ok : Bool} {pid : Int} {junk : Aicall} (h : Inv s)
    (hs : s.keyStep ok pid junk = some s') : KeyMove s s' := by
  unfold State.keyStep at hs
  split at hs
  · unfold State.keyLine at hs
    split at hs
    · cases hs
    · exact startLine_move h ‹_› hs
    · exact handupLine_move ‹_› hs
    · exact destroyLine_move h ‹_› hs
    · exact useLine_move ‹_› hs
  · rename_i k hk
    cases hs
    obtain ⟨_, hsome, rfl⟩ := Thread.access_load hk
    obtain ⟨f, hf⟩ := Option.isSome_iff_exists.mp hsome
    exact .of_eq (KeyLine.access_checked hf {}).1
  · rename_i hk
    cases hs
    obtain ⟨_, _, hsome, _⟩ := Thread.access_fault hk
    obtain ⟨f, hf⟩ := Option.isSome_iff_exists.mp hsome
    exact .of_eq (KeyLine.access_checked hf {}).1
  · rename_i h' k hk
    cases hs
    obtain ⟨f, i, r, hf, _, _, _, rfl⟩ := Thread.access_done hk
    exact .of_eq (KeyLine.access_checked hf r).2

/-- A step of an audio task changes nothing but that task and the record. -/
structure AudioFrame (s s' : State) : Prop where
  fired : s'.fired = s.fired
  code : s'.gErrorCode = s.gErrorCode
  curr : s'.gCurrAicall = s.gCurrAicall
  engines : s'.engines = s.engines
  key : s'.key = s.key

theorem audioStep_frame {s s' : State} {i : Nat} {ok : Bool} (hs : s.audioStep i ok = some s') :
    AudioFrame s s' := by
  unfold State.audioStep at hs
  split at hs
  · unfold State.audioLine at hs
    split at hs <;> (try cases hs) <;> (try split) <;> exact ⟨rfl, rfl, rfl, rfl, rfl⟩
  all_goals
    cases hs
    exact ⟨rfl, rfl, rfl, rfl, rfl⟩

/-- A task that has returned takes no step. -/
theorem audioStep_running {s s' : State} {i : Nat} {ok : Bool} (hs : s.audioStep i ok = some s') :
    (s.tasks i).running := by
  by_contra hret
  have hl : (s.tasks i).thread.line = .returned := by simpa [AudioTask.running] using hret
  simp [State.audioStep, Thread.access, AudioLine.access, hl, State.audioLine] at hs

/-! ### The error code and the engine it stands for -/

/-- While an engine is held, `g_error_code` is set if and only if that engine has failed. -/
structure Errors (s : State) : Prop where
  inv : Inv s
  existed : ∀ e, s.fired e → s.engines e ≠ .absent
  kept : ∀ e, s.fired e → (s.engines e).held → s.gErrorCode ≠ 0
  own : ∀ n, s.gCurrAicall = some n → s.gErrorCode ≠ 0 → s.fired n
  clear : s.key.line.checked → s.gCurrAicall = none → s.gErrorCode = 0

theorem Errors.init : Errors demo.init where
  inv := inv_init
  existed e he := by simp [demo] at he
  kept e he := by simp [demo] at he
  own n hn := by simp [demo] at hn
  clear hc := by simp [demo, KeyLine.checked] at hc

/-- The published pointer leads to the session, or nowhere, and then no engine is held. -/
theorem Inv.curr_cases {s : State} (h : Inv s) :
    s.gCurrAicall = some s.session ∨
      s.gCurrAicall = none ∧ ∀ e, (s.engines e).held = false := by
  have hst := h.stage
  have hnone (he : (s.engines s.session).held = false) (e : Nat) : (s.engines e).held = false := by
    by_cases hne : e = s.session
    · exact hne ▸ he
    · exact h.others e hne
  cases hg : s.key.line.stage <;> rw [hg] at hst
  case settled =>
    rcases hst with ⟨hc, he⟩ | ⟨hc, _⟩
    · exact Or.inr ⟨hc, hnone he⟩
    · exact Or.inl hc
  case vacant => exact Or.inr ⟨hst.1, hnone hst.2⟩
  all_goals exact Or.inl hst.1

/-- A held engine is that of the published session. -/
theorem Inv.held_session {s : State} (h : Inv s) {e : Nat} (he : (s.engines e).held) :
    e = s.session ∧ s.gCurrAicall = some s.session := by
  constructor
  · by_contra hne
    simp [h.others e hne] at he
  · rcases h.curr_cases with hc | ⟨_, hn⟩
    · exact hc
    · simp [hn e] at he

namespace KeyMove

variable {s s' : State} (m : KeyMove s s')
include m

theorem held {e : Nat} (he : (s'.engines e).held) :
    (s.engines e).held ∨ s.engines e = .absent := by
  rcases m.engines with hm | ⟨hold, hm⟩ | ⟨hold, hm⟩ | ⟨hold, hm⟩ <;> rw [hm] at he
  · exact Or.inl he
  all_goals
    by_cases hne : e = s.session
    · subst hne
      simp [hold, Life.held]
    · rw [Function.update_of_ne hne] at he
      exact Or.inl he

/-- No step unmakes an engine, or takes back its destruction. -/
theorem lasting {e : Nat} : (s.engines e ≠ .absent → s'.engines e ≠ .absent) ∧
    (s.engines e = .destroyed → s'.engines e = .destroyed) := by
  rcases m.engines with hm | ⟨hold, hm⟩ | ⟨hold, hm⟩ | ⟨hold, hm⟩ <;> rw [hm]
  · exact ⟨id, id⟩
  all_goals
    by_cases hne : e = s.session
    · subst hne
      simp [hold]
    · rw [Function.update_of_ne hne]
      exact ⟨id, id⟩

end KeyMove

namespace Errors

variable {s s' : State} (h : Errors s)
include h

theorem key (m : KeyMove s s') (hi : Inv s') : Errors s' where
  inv := hi
  existed e he := m.lasting.1 (h.existed e (m.fired ▸ he))
  kept e he hheld := by
    rw [m.fired] at he
    have hold := (m.held hheld).resolve_right (h.existed e he)
    rcases m.code with hc | ⟨hl, _⟩
    · exact hc ▸ h.kept e he hold
    · -- `g_error_code` is reset where no engine is held
      have hst := h.inv.stage_eq hl
      have hcurr := (h.inv.held_session hold).2
      simp [hst.1] at hcurr
  own n hn hcode := by
    rw [m.fired]
    rcases m.code with hc | ⟨_, hc⟩
    · rw [hc] at hcode
      rcases m.curr with hg | hg | hl
      · exact h.own n (hg ▸ hn) hcode
      · simp [hg] at hn
      · have hst := h.inv.stage_eq hl
        exact absurd (h.clear (by rw [hl]; rfl) hst.1) hcode
    · exact absurd hc hcode
  clear hl hg := by
    rcases m.checked hl with h0 | ⟨hold, hcurr⟩
    · exact h0
    · rcases m.code with hc | ⟨_, hc⟩
      · exact hc.trans (h.clear hold (hcurr ▸ hg))
      · exact hc

theorem audio {i : Nat} {ok : Bool} (hs : s.audioStep i ok = some s') (hi : Inv s') :
    Errors s' := by
  have hf := audioStep_frame hs
  exact ⟨hi, hf.fired ▸ hf.engines ▸ h.existed,
    by rw [hf.fired, hf.engines, hf.code]; exact h.kept,
    by rw [hf.fired, hf.curr, hf.code]; exact h.own,
    by rw [hf.key, hf.curr, hf.code]; exact h.clear⟩

/-- The SDK calls `on_error_occurs` for the engine of the session. -/
theorem error {e : Nat} {code : Int} (he : (s.engines e).held) (hc : code ≠ 0)
    (hi : Inv { s with gErrorCode := code, fired := Function.update s.fired e true }) :
    Errors { s with gErrorCode := code, fired := Function.update s.fired e true } := by
  obtain ⟨rfl, hcurr⟩ := h.inv.held_session he
  refine ⟨hi, fun i hf => ?_, fun _ _ _ => hc, fun n hn _ => ?_, fun _ hg => ?_⟩
  · by_cases hne : i = s.session
    · subst hne
      exact Life.ne_absent he
    · exact h.existed i (by simpa [hne] using hf)
  · obtain rfl : s.session = n := Option.some.inj (hcurr.symm.trans hn)
    simp
  · simp [hcurr] at hg

theorem step {a : Action} (ha : NonzeroCodes s a) (hs : demo.step s a = some s') :
    Errors s' := by
  have hi := step_inv h.inv hs
  simp only [demo, State.step] at hs
  split at hs
  · cases hs
  cases a with
  | press k =>
    simp only at hs
    split at hs <;> cases hs
    exact h.key (.of_eq (by cases k <;> rfl)) hi
  | key ok pid junk => exact h.key (keyStep_move h.inv hs) hi
  | audio i ok => exact h.audio hs hi
  | error e code =>
    simp only at hs
    split at hs <;> cases hs
    exact h.error ‹_› ha hi

end Errors

/-- The loop test of an audio task fails on `g_error_code` if and only if the engine of its session
has failed, and the code of a failed engine is kept until the engine is destroyed. -/
structure Contained (s : State) : Prop where
  loopTest : ∀ i, (s.tasks i).thread.line = .testError →
    (s.gErrorCode ≠ 0 ↔ s.fired (s.tasks i).session)
  kept : ∀ e, s.fired e → s.engines e ≠ .destroyed → s.gErrorCode ≠ 0

theorem Errors.contained {s : State} (h : Errors s) : Contained s where
  loopTest i hl := by
    have hi := h.inv.running i (by simp [AudioTask.running, hl])
    have hlive := (h.inv.up hi).2.2.2
    rw [hi.session]
    exact ⟨h.own _ hi.curr, fun hf => h.kept _ hf (by rw [hlive]; rfl)⟩
  kept e hf hd := by
    have hex := h.existed e hf
    refine h.kept e hf ?_
    cases he : s.engines e <;> simp_all [Life.held]

end AiCall.Jl
