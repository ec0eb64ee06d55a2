import AiCall.Jl.Progress

/-! What a fair run of the JL demo brings about.  A run is fair when `app_core` and the audio tasks
are not left waiting for ever at a step that they could take, so that every call of the SDK returns.
Then every handler returns, a hang-up leaves no session, and a restart after an error begins where
no session is left. -/

namespace AiCall.Jl

open Kit

/-! ### How a handler ends -/

/-- The call of `artc_aicall_demo_handup` or `destroy_aicall` that a line is in. -/
def KeyLine.caller : KeyLine → Option Caller
  | .handup k _ | .destroy k _ => some k
  | _ => none

/-- The session is gone: nothing is published, no audio task runs, no engine is held. -/
structure Gone (s : State) : Prop where
  curr : s.gCurrAicall = none
  tasks : ∀ i, (s.tasks i).running = false
  engines : ∀ e, (s.engines e).held = false

theorem Inv.gone {s : State} (h : Inv s) (hg : s.gCurrAicall = none) : Gone s where
  curr := hg
  tasks i := by
    by_contra hi
    have hcurr := (h.running i (by simpa using hi)).curr
    simp [hg] at hcurr
  engines e := by
    by_contra he
    have hcurr := (h.held_session (by simpa using he)).2
    simp [hg] at hcurr

/-- Such a call goes on, or it has returned and left no session. -/
def Ended (k : Caller) (s : State) : Prop :=
  s.key.line.caller = some k ∨ s.key.line = k.returns ∧ s.gCurrAicall = none

theorem KeyLine.access_caller {line : KeyLine} {f : Aicall → Aicall × KeyLine}
    (hf : line.access = some f) {k : Caller} (hl : line.caller = some k) {r : Aicall}
    (hr : line.stage = .up → r.engine.isSome) : (f r).2.caller = some k := by
  cases line with
  | handup c l =>
    obtain rfl : c = k := Option.some.inj hl
    cases l <;>
      simp only [KeyLine.access, HandupLine.access, Option.some.injEq, reduceCtorEq] at hf <;>
      subst hf <;> (try rfl)
    · simp [hr rfl, KeyLine.caller]
    · dsimp only
      split <;> rfl
  | destroy c l =>
    obtain rfl : c = k := Option.some.inj hl
    cases l <;>
      simp only [KeyLine.access, DestroyLine.access, Option.some.injEq, reduceCtorEq] at hf <;>
      subst hf <;> dsimp only <;> (try split) <;> rfl
  | _ => simp [KeyLine.caller] at hl

section Ended

variable {s s' : State} (hn : s'.fault = none)
include hn

theorem handupLine_ended {k : Caller} {l : HandupLine} (hs : s.handupLine k l = some s') :
    Ended k s' := by
  cases l <;> simp only [State.handupLine, reduceCtorEq, Option.some.injEq] at hs
  case testCurr =>
    subst hs
    cases hg : s.gCurrAicall with
    | none => exact Or.inr ⟨rfl, hg⟩
    | some n => exact Or.inl rfl
  case loadPid =>
    subst hs
    exact Or.inl rfl
  case kill =>
    split at hs
    · cases hs
      simp [State.fail] at hn
    · split at hs <;> cases hs
      exact Or.inl rfl
  case handup =>
    obtain rfl := sdkCall_key hn hs
    exact Or.inl rfl

theorem destroyLine_ended {k : Caller} {l : DestroyLine} (hs : s.destroyLine k l = some s') :
    Ended k s' := by
  cases l <;> simp only [State.destroyLine, reduceCtorEq, Option.some.injEq] at hs
  case testCurr =>
    subst hs
    cases hg : s.gCurrAicall with
    | none => exact Or.inr ⟨rfl, hg⟩
    | some n => exact Or.inl rfl
  case loadCurr =>
    subst hs
    exact Or.inl rfl
  case clearCurr =>
    subst hs
    exact Or.inr ⟨rfl, rfl⟩
  all_goals
    split at hs <;> cases hs <;> first | exact Or.inl rfl | simp [State.fail] at hn

end Ended

theorem step_ended {s s' : State} {a : Action} {k : Caller} (h : Inv s)
    (hl : s.key.line.caller = some k) (hs : demo.step s a = some s') : Ended k s' := by
  have hn := (step_inv h hs).noFault
  simp only [demo, State.step] at hs
  split at hs
  · cases hs
  cases a with
  | press q =>
    simp only at hs
    split at hs
    · simp_all [KeyLine.caller]
    · cases hs
  | key ok pid junk =>
    simp only [State.keyStep] at hs
    split at hs
    · unfold State.keyLine at hs
      split at hs
      case h_3 c l hline =>
        obtain rfl : c = k := by simpa [hline, KeyLine.caller] using hl
        exact handupLine_ended hn hs
      case h_4 c l hline =>
        obtain rfl : c = k := by simpa [hline, KeyLine.caller] using hl
        exact destroyLine_ended hn hs
      all_goals
        rename_i hline
        simp [hline, KeyLine.caller] at hl
    · rename_i t hk
      cases hs
      obtain ⟨_, _, rfl⟩ := Thread.access_load hk
      exact Or.inl hl
    · cases hs
      simp [State.fail] at hn
    · rename_i h' t hk
      cases hs
      obtain ⟨f, i, r, hf, hp, hi, rfl, rfl⟩ := Thread.access_done hk
      obtain rfl : i = s.session := Option.some.inj (h.ptr _ hp)
      refine Or.inl (KeyLine.access_caller hf hl fun hup => ?_)
      have hst := h.stage
      rw [hup] at hst
      obtain ⟨q, hq, he, _⟩ := hst.2.1
      obtain rfl : r = q := Cell.held.inj (hi.symm.trans hq)
      simp [he]
  | audio i ok =>
    refine Or.inl ?_
    rw [(audioStep_frame hs).key]
    exact hl
  | error e code =>
    simp only at hs
    split at hs <;> cases hs
    exact Or.inl hl

theorem step_press {s s' : State} {k : Key} (hs : demo.step s (.press k) = some s') :
    s.key.line = .idle ∧ s' = s.goto k.handler := by
  simp only [demo, State.step] at hs
  split at hs
  · cases hs
  · split at hs <;> cases hs
    exact ⟨‹_›, rfl⟩

/-- The handler of K1 finds an error, and its call of `artc_aicall_demo_handup` has not returned. -/
structure Restarting (s : State) : Prop where
  line : s.key.line = .start .testError ∨ s.key.line.caller = some .restart
  code : s.gErrorCode ≠ 0

theorem Restarting.ne_idle {s : State} (h : Restarting s) : s.key.line ≠ .idle := by
  intro hidle
  rcases h.line with hl | hl <;> rw [hidle] at hl <;> cases hl

/-- The one error code is kept until that call returns. -/
theorem Restarting.step_code {s s' : State} {a : Action} (h : Restarting s) (hi : Inv s)
    (hP : NonzeroCodes s a) (hs : demo.step s a = some s') : s'.gErrorCode ≠ 0 := by
  simp only [demo, State.step] at hs
  split at hs
  · cases hs
  cases a with
  | press k =>
    simp only at hs
    split at hs <;> cases hs
    exact h.code
  | key ok pid junk =>
    rcases (keyStep_move hi hs).code with hc | ⟨hreset, -⟩
    · exact hc ▸ h.code
    · have hline := h.line
      rw [hreset] at hline
      rcases hline with hl | hl <;> cases hl
  | audio i ok =>
    rw [(audioStep_frame hs).code]
    exact h.code
  | error e code =>
    simp only at hs
    split at hs <;> cases hs
    exact hP

/-- The test of `g_error_code` at the start of K1 leads to that call. -/
theorem testError_step {s s' : State} {a : Action} (hl : s.key.line = .start .testError)
    (hc : s.gErrorCode ≠ 0) (hs : demo.step s a = some s') :
    s'.key.line = .start .testError ∨ s'.key.line.caller = some .restart := by
  cases a with
  | press k => simp [(step_press hs).1] at hl
  | key ok pid junk =>
    simp only [demo, State.step, State.keyStep, Thread.access, KeyLine.access, StartLine.access,
      State.keyLine, hl, State.startLine] at hs
    split at hs <;> cases hs
    exact Or.inr (by simp [State.goto, KeyLine.caller])
  | audio i ok =>
    simp only [demo, State.step] at hs
    split at hs
    · cases hs
    · exact Or.inl ((audioStep_frame hs).key ▸ hl)
  | error e code =>
    simp only [demo, State.step] at hs
    split at hs
    · cases hs
    · split at hs <;> cases hs
      exact Or.inl hl

/-- A restart goes on, or it has come to the reset of `g_error_code`, and no session is left. -/
theorem Restarting.step {s s' : State} {a : Action} (h : Restarting s) (hi : Inv s)
    (hP : NonzeroCodes s a) (hs : demo.step s a = some s') :
    Restarting s' ∨ s'.key.line = .start .resetError ∧ s'.gErrorCode ≠ 0 ∧ Gone s' := by
  have hcode := h.step_code hi hP hs
  rcases h.line with hl | hl
  · exact Or.inl ⟨testError_step hl h.code hs, hcode⟩
  · rcases step_ended hi hl hs with hl' | ⟨hl', hg⟩
    · exact Or.inl ⟨Or.inr hl', hcode⟩
    · exact Or.inr ⟨hl', hcode, (step_inv hi hs).gone hg⟩

/-- With no session, the next step is one of the handler. -/
theorem Gone.step_key {s s' : State} {a : Action} (h : Gone s) (hl : s.key.line ≠ .idle)
    (hs : demo.step s a = some s') : ∃ ok pid junk, s.keyStep ok pid junk = some s' := by
  cases a with
  | press k => exact absurd (step_press hs).1 hl
  | key ok pid junk =>
    simp only [demo, State.step] at hs
    split at hs
    · cases hs
    · exact ⟨ok, pid, junk, hs⟩
  | audio i ok =>
    simp only [demo, State.step] at hs
    split at hs
    · cases hs
    · have hi := audioStep_running hs
      simp [h.tasks i] at hi
  | error e code => simp [demo, State.step, h.engines e] at hs

/-- `g_error_code` is reset, and no session is there that could take a step before. -/
theorem resetError_step {s s' : State} {a : Action} (hl : s.key.line = .start .resetError)
    (hgone : Gone s) (hinv : Inv s') (hs : demo.step s a = some s') :
    s'.key.line = .start .testCurr ∧ s'.gErrorCode = 0 ∧ Gone s' := by
  obtain ⟨ok, pid, junk, hk⟩ := hgone.step_key (by rw [hl]; exact KeyLine.noConfusion) hs
  simp only [State.keyStep, Thread.access, KeyLine.access, StartLine.access, State.keyLine, hl,
    State.startLine, Option.some.injEq] at hk
  subst hk
  exact ⟨rfl, rfl, hinv.gone hgone.curr⟩

/-- The test of `g_curr_aicall` passes. -/
theorem testCurr_step {s s' : State} {a : Action} (hl : s.key.line = .start .testCurr)
    (hgone : Gone s) (hs : demo.step s a = some s') :
    s'.key.line = .start .testWifi ∧ s'.gCurrAicall = none := by
  obtain ⟨ok, pid, junk, hk⟩ := hgone.step_key (by rw [hl]; exact KeyLine.noConfusion) hs
  simp only [State.keyStep, Thread.access, KeyLine.access, StartLine.access, State.keyLine, hl,
    State.startLine, Option.some.injEq] at hk
  subst hk
  rw [hgone.curr]
  exact ⟨rfl, hgone.curr⟩

/-! ### Fair runs exist -/

/-- A state with no session, between key events. -/
structure Resting (s : State) : Prop where
  key : s.key = { line := .idle }
  curr : s.gCurrAicall = none
  noFault : s.fault = none

/-- A press of K3 leads back to the resting state. -/
theorem Resting.back {s : State} (h : Resting s) :
    demo.step (s.goto (.use .interruptSpeaking .testCurr)) (.key true 0 {}) = some s := by
  have hkey : s.goto .idle = s := by
    unfold State.goto
    rw [← h.key]
  have hstep : demo.step (s.goto (.use .interruptSpeaking .testCurr)) (.key true 0 {}) =
      some (s.goto
        (if s.gCurrAicall.isSome then .use .interruptSpeaking .testEngine else .idle)) := by
    simp [demo, State.step, State.goto, h.noFault, State.keyStep, Thread.access, KeyLine.access,
      UseLine.access, State.keyLine, State.useLine]
  rw [hstep, h.curr]
  exact congrArg some hkey

theorem Resting.press {s : State} (h : Resting s) :
    demo.step s (.press .k3) = some (s.goto (.use .interruptSpeaking .testCurr)) := by
  simp [demo, State.step, h.noFault, h.key, Key.handler]

/-- From a resting state on, K3 is pressed for ever. -/
def restPath (s : State) (h : Resting s) : demo.Path := .alternate h.press h.back

theorem restPath_fair {s : State} (h : Resting s) (hinv : Inv s) (t : Task) :
    (restPath s h).Fair t.acts := by
  refine Machine.Path.alternate_fair _ _ ?_
  cases t with
  | key => exact Or.inl trivial
  | audio i =>
    refine Or.inr fun a hact => ?_
    cases a <;> simp only [Task.acts] at hact
    subst hact
    refine Option.eq_none_iff_forall_ne_some.mpr fun s' hs => ?_
    simp only [demo, State.step, h.noFault, Option.isSome_none, Bool.false_eq_true, if_false] at hs
    have hi := audioStep_running hs
    simp [(hinv.gone h.curr).tasks i] at hi

theorem restPath_codes {s : State} (h : Resting s) (n : Nat) :
    NonzeroCodes ((restPath s h).state n) ((restPath s h).action n) :=
  Machine.Path.alternate_forall h.press h.back (P := NonzeroCodes) trivial trivial n

/-- A run to a resting state has a fair continuation. -/
theorem exists_fair {as : List Action} {s : State} (hr : demo.run demo.init as = some s)
    (h : Resting s) : ∃ q : demo.Path, q.state 0 = demo.init ∧ (∀ t : Task, q.Fair t.acts) ∧
      (restPath s h).Extends q demo.init as := by
  obtain ⟨q, hfair, hext⟩ := (restPath s h).exists_extends hr (restPath_fair h (reachable_inv hr))
  exact ⟨q, (Option.some.inj (hext.state 0 (Nat.zero_le _))).symm, hfair, hext⟩

theorem Halted.path {p : demo.Path} (h : Halted (p.state 0)) (n : Nat) : Halted (p.state n) :=
  p.invariant (P := fun _ _ => True) (fun _ _ _ h _ hs => step_halted h hs) (fun _ => trivial) h n

theorem path_halted {p : demo.Path} (h0 : p.state 0 = demo.init) (n : Nat) :
    Halted (p.state n) :=
  Halted.path (h0 ▸ Halted.init) n

/-- In every fair run, the handler of every key returns. -/
theorem key_handled {p : demo.Path} (h0 : p.state 0 = demo.init)
    (hfair : ∀ t : Task, p.Fair t.acts) (n : Nat) : ∃ m, n ≤ m ∧ (p.state m).key.line = .idle :=
  progress.reaches (path_halted h0) (fun _ => trivial) hfair n

theorem finishedCall_handled : ∃ p : demo.Path, p.action 47 = .press .k2 ∧
    ∃ m, 48 ≤ m ∧ (p.state m).key.line = .idle := by
  obtain ⟨p, h0, hfair, hext⟩ := @exists_fair finishedCall _ rfl ⟨rfl, rfl, rfl⟩
  exact ⟨p, hext.action 47 _ rfl, key_handled h0 hfair 48⟩

/-- A call of `artc_aicall_demo_handup` or `destroy_aicall` returns, and no session is left. -/
theorem caller_returns {p : demo.Path} (h0 : p.state 0 = demo.init)
    (hfair : ∀ t : Task, p.Fair t.acts) {k : Caller} {n : Nat}
    (hn : (p.state n).key.line.caller = some k) :
    ∃ m, n < m ∧ (p.state m).key.line = k.returns ∧ Gone (p.state m) := by
  have hinv (n : Nat) : Inv (p.state n) := (path_halted h0 n).inv
  obtain ⟨m, hm, hend, -⟩ := progress.leads (Q := (·.key.line.caller = some k))
    (R := fun s => s.key.line = k.returns ∧ Gone s) (path_halted h0) (fun _ => trivial) hfair
    (fun m hm => (step_ended (hinv m) hm (p.next m)).imp_right fun hr => ⟨hr.1, (hinv _).gone hr.2⟩)
    (fun s hs hidle => by simp [hidle, KeyLine.caller] at hs) hn
  exact ⟨m, hm, hend⟩

/-- In every fair run, a press of K2 ends the session: the handler returns, the audio task has
returned before, and the engine is destroyed. -/
theorem hangup_ends {p : demo.Path} (h0 : p.state 0 = demo.init)
    (hfair : ∀ t : Task, p.Fair t.acts) {n : Nat} (hk : p.action n = .press .k2) :
    ∃ m, n < m ∧ (p.state m).key.line = .idle ∧ Gone (p.state m) := by
  obtain ⟨_, hnext⟩ := step_press (hk ▸ p.next n)
  obtain ⟨m, hm, hend⟩ := caller_returns h0 hfair (n := n + 1) (k := .key) (by rw [hnext]; rfl)
  exact ⟨m, by omega, hend⟩

theorem finishedCall_ends : ∃ p : demo.Path, p.action 47 = .press .k2 ∧
    ∃ m, 47 < m ∧ (p.state m).key.line = .idle ∧ Gone (p.state m) := by
  obtain ⟨p, h0, hfair, hext⟩ := @exists_fair finishedCall _ rfl ⟨rfl, rfl, rfl⟩
  have hk := hext.action 47 _ rfl
  exact ⟨p, hk, hangup_ends h0 hfair hk⟩

/-- A restart ends the session that has failed before it resets `g_error_code`, and then its test of
`g_curr_aicall` passes. -/
structure Resets (p : demo.Path) (m : Nat) : Prop where
  before : (p.state m).key.line = .start .resetError ∧ (p.state m).gErrorCode ≠ 0 ∧
    Gone (p.state m)
  reset : (p.state (m + 1)).key.line = .start .testCurr ∧ (p.state (m + 1)).gErrorCode = 0 ∧
    Gone (p.state (m + 1))
  passes : (p.state (m + 2)).key.line = .start .testWifi ∧ (p.state (m + 2)).gCurrAicall = none

theorem Restarting.resets {p : demo.Path} (hp : ∀ n, Halted (p.state n))
    (hfair : ∀ t : Task, p.Fair t.acts) (hcode : ∀ n, NonzeroCodes (p.state n) (p.action n))
    {n : Nat} (hn : Restarting (p.state n)) :
    ∃ m, n < m ∧ (∀ i, n ≤ i → i < m → Restarting (p.state i)) ∧ Resets p m := by
  obtain ⟨m, hm, hend, huntil⟩ := progress.leads (Q := Restarting)
    (R := fun s => s.key.line = .start .resetError ∧ s.gErrorCode ≠ 0 ∧ Gone s) hp
    (fun _ => trivial) hfair (fun m hm => hm.step (hp m).inv (hcode m) (p.next m))
    (fun s hs => hs.ne_idle) hn
  have hreset := resetError_step hend.1 hend.2.2 (hp (m + 1)).inv (p.next m)
  exact ⟨m, hm, huntil, hend, hreset, testCurr_step hreset.1 hreset.2.2 (p.next (m + 1))⟩

/-- In every fair run, a press of K1 after an error first ends the session that failed, and only
then resets `g_error_code` and goes on to start a new one. -/
theorem restart_recovers {p : demo.Path} (h0 : p.state 0 = demo.init)
    (hfair : ∀ t : Task, p.Fair t.acts) (hcode : ∀ n, NonzeroCodes (p.state n) (p.action n))
    {n : Nat} (hk : p.action n = .press .k1) (he : (p.state n).gErrorCode ≠ 0) :
    ∃ m, n < m ∧ (∀ i, n < i → i < m → Restarting (p.state i)) ∧ Resets p m := by
  obtain ⟨_, hnext⟩ := step_press (hk ▸ p.next n)
  have hfirst : Restarting (p.state (n + 1)) := by
    rw [hnext]
    exact ⟨Or.inl rfl, he⟩
  obtain ⟨m, hm, huntil, hresets⟩ := hfirst.resets (path_halted h0) hfair hcode
  exact ⟨m, by omega, huntil, hresets⟩

/-- A call that fails, and a press of K1 after it, with no network. -/
def restartedCall : List Action :=
  .press .k1 :: List.replicate 46 (.key true 5 {}) ++ .error 1 7 :: .press .k1 ::
    List.replicate 13 (.key true 0 {}) ++ List.replicate 3 (.audio 0 true) ++
    List.replicate 27 (.key true 0 {}) ++ [.key false 0 {}]

theorem restartedCall_recovers : ∃ p : demo.Path, p.action 48 = .press .k1 ∧
    (p.state 48).gErrorCode = 7 ∧
    ∃ m, 48 < m ∧ (∀ i, 48 < i → i < m → Restarting (p.state i)) ∧ Resets p m := by
  obtain ⟨p, h0, hfair, hext⟩ := @exists_fair restartedCall _ rfl ⟨rfl, rfl, rfl⟩
  have hk := hext.action 48 _ rfl
  have herror : (p.state 48).gErrorCode = 7 := by
    rw [← Option.some.inj (hext.state 48 (by decide))]
  have hcode := hext.along (P := NonzeroCodes) (by decide +kernel) (restPath_codes _)
  exact ⟨p, hk, herror, restart_recovers h0 hfair hcode hk (by simp [herror])⟩

end AiCall.Jl
