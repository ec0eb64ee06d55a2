import AiCall.Esp32.Release
import AiCall.Esp32.Teardown
import AiCall.Sdk

/-! The tasks of the ESP32 demo follow the protocol of the SDK, where no session is allocated over
another.  The protocol is that of the JL demo; what the key task passes to the SDK is not part of
it, since the key task does not ask whether the call is up. -/

namespace AiCall.Esp32

open Kit

/-- The calls of the SDK in the next step of task `t`. -/
def ImplLine.sdkCalls (t : Nat) (ok : Bool) : ImplLine → List Sdk.Event
  | .init => if ok then [⟨some t, .init⟩] else []
  | .call e _ => [⟨e, .call⟩]
  | .calling => [⟨some t, .called ok⟩]
  | .send e => [⟨e, .use .sendAudioData⟩]
  | .handup e => [⟨e, .handup⟩]
  | .destroyEngine e => [⟨e, .destroy⟩]
  | .destroyingEngine e => [⟨e, .destroyed⟩]
  | _ => []

def State.sdkCalls (s : State) : Action → List Sdk.Event
  | .impl t ok _ => (s.impls t).line.sdkCalls t ok
  | _ => []

/-- What can have been done with a live engine when its task is at a line: after `__err1` the call
has been up, or refused. -/
def ImplLine.Reached (p : Sdk.Phase) : ImplLine → Prop
  | .storeEngine _ | .loadCallEngine | .loadCallConfig _ | .call _ _ => p = .created
  | .calling => p = .calling
  | .clearRunning | .loadHandupEngine | .handup _ => p = .talking ∨ p = .refused
  | .destroyTestCurr | .destroyTestEngine | .destroyLoadEngine | .destroyEngine _
  | .destroyingEngine _ | .destroyClearEngine | .destroyTestConfig | .destroyLoadConfig
  | .destroyFreeConfig _ | .destroyClearConfig | .destroyLoadCurr | .destroyFreeCurr _
  | .destroyClearCurr => p = .hungUp
  | _ => p = .talking

/-- What has been done with the engine of a task. -/
def lifePhase (p : Sdk.Phase) (line : ImplLine) : Life → Prop
  | .live => line.Reached p
  | .destroying => p = .destroying
  | .absent | .destroyed => p = .idle

def State.At (s : State) (p : Sdk.Phase) : Prop :=
  match s.gCurrAicall with
  | none => p = .idle
  | some u => lifePhase p (s.impls u).line (s.engines u)

/-- The protocol has read the calls that led to the state. -/
structure Follows (s : State) (t : Sdk.State) : Prop where
  inv : Inv s
  supplied : ∃ l, ∀ u, Supplied false s l u
  phase : s.At t.phase
  last : ∀ u, s.gCurrAicall = some u → s.engines u ≠ .absent → t.made.head? = some u
  made : ∀ e, e ∈ t.made ↔ s.engines e ≠ .absent

theorem Follows.init : Follows demo.init Sdk.protocol.init where
  inv := inv_init
  supplied := ⟨_, Supplied.init false⟩
  phase := rfl
  last _ h := (Option.some_ne_none _ h.symm).elim
  made e := by simp [Sdk.protocol, demo]

theorem access_reached {t : Nat} {line : ImplLine} {f : Aicall → Aicall × ImplLine}
    {p : Sdk.Phase} (hf : line.access t = some f) (r : Aicall) (ok : Bool) :
    (line.Reached p → (f r).2.Reached p) ∧ line.sdkCalls t ok = [] := by
  cases line <;> simp only [ImplLine.access, Option.some.injEq, reduceCtorEq] at hf <;> subst hf <;>
    dsimp only <;> (try split) <;> exact ⟨id, rfl⟩

/-- The protocol reads the calls of a step, and keeps up with it. -/
def Next (t : Sdk.State) (w : List Sdk.Event) (s' : State) : Prop :=
  ∃ t', Sdk.protocol.run t w = some t' ∧ Follows s' t'

namespace Follows

variable {s s' : State} {t : Sdk.State} {u : Nat} (h : Follows s t)
include h

theorem phase_eq (hc : s.gCurrAicall = some u) :
    lifePhase t.phase (s.impls u).line (s.engines u) := by
  have hphase := h.phase
  rw [State.At, hc] at hphase
  exact hphase

/-- A step that makes no call of the SDK and leaves the session as it is. -/
theorem silent (hi : Inv s') (hl : ∃ l, ∀ v, Supplied false s' l v)
    (hr : ∀ v p, s.gCurrAicall = some v → (s.impls v).line.Reached p → (s'.impls v).line.Reached p)
    (hc : s'.gCurrAicall = s.gCurrAicall := by rfl) (he : s'.engines = s.engines := by rfl) :
    Next t [] s' := by
  refine ⟨t, rfl, hi, hl, ?_, by rw [hc, he]; exact h.last, by rw [he]; exact h.made⟩
  have hphase := h.phase
  rw [State.At] at hphase ⊢
  rw [hc]
  cases hg : s.gCurrAicall with
  | none => rwa [hg] at hphase
  | some v =>
    rw [hg] at hphase
    simp only [he] at hphase ⊢
    cases hv : s.engines v <;> rw [hv] at hphase
    case live => exact hr v _ hg hphase
    all_goals exact hphase

/-- The task in session goes on without a call of the SDK. -/
theorem goto {line : ImplLine} (hc : s.gCurrAicall = some u) (hi : Inv (s'.goto u line))
    (hl : ∃ l, ∀ v, Supplied false (s'.goto u line) l v)
    (hr : ∀ p, (s.impls u).line.Reached p → line.Reached p)
    (hg : s'.gCurrAicall = s.gCurrAicall := by rfl) (he : s'.engines = s.engines := by rfl) :
    Next t [] (s'.goto u line) := by
  refine h.silent hi hl (fun v p hv hp => ?_) hg he
  obtain rfl : u = v := Option.some.inj (hc.symm.trans hv)
  simpa [State.goto, State.setImpl] using hr p hp

/-- A call of the SDK by the task in session. -/
theorem call {c : Sdk.Call} {p : Sdk.Phase} (hc : s.gCurrAicall = some u) (hi : Inv s')
    (hl : ∃ l, ∀ v, Supplied false s' l v) (hn : t.phase.next c = some p)
    (hp : lifePhase p (s'.impls u).line (s'.engines u)) (hlive : s.engines u ≠ .absent)
    (he : ∀ e, s'.engines e ≠ .absent ↔ s.engines e ≠ .absent)
    (hg : s'.gCurrAicall = s.gCurrAicall := by rfl) : Next t [⟨some u, c⟩] s' := by
  have hlast := h.last u hc hlive
  refine ⟨{ t with phase := p }, ?_, hi, hl, ?_, fun v hv _ => ?_, fun e => ?_⟩
  · rw [Machine.run_singleton]
    exact Sdk.step_next hlast hn
  · rw [State.At, hg, hc]
    exact hp
  · rw [hg, hc] at hv
    exact Option.some.inj hv ▸ hlast
  · rw [he]
    exact h.made e

/-- A call of the SDK at which the engine stays live. -/
theorem callLive {c : Sdk.Call} {p : Sdk.Phase} {line : ImplLine} (hc : s.gCurrAicall = some u)
    (hlive : s.engines u = .live) (hi : Inv (s.goto u line))
    (hl : ∃ l, ∀ v, Supplied false (s.goto u line) l v) (hn : t.phase.next c = some p)
    (hp : line.Reached p) : Next t [⟨some u, c⟩] (s.goto u line) := by
  refine h.call hc hi hl hn ?_ (by rw [hlive]; exact Life.noConfusion) fun _ => Iff.rfl
  have hline : ((s.goto u line).impls u).line = line := by simp [State.goto, State.setImpl]
  have hengine : (s.goto u line).engines u = .live := hlive
  rw [hline, hengine]
  exact hp

theorem implLine {ok : Bool} {junk : Aicall} (hi : Inv s')
    (hl : ∃ l, ∀ v, Supplied false s' l v)
    (hv : (s.impls u).line = .mallocAicall → s.gCurrAicall = none)
    (hs : s.implLine u ok junk = some s') : Next t ((s.impls u).line.sdkCalls u ok) s' := by
  have hstage := h.inv.stage u
  have hother {line : ImplLine} (hout : (s.impls u).line.inSession = false) (v : Nat)
      (p : Sdk.Phase) (hg : s.gCurrAicall = some v) (hp : (s.impls v).line.Reached p) :
      ((s.goto u line).impls v).line.Reached p := by
    have hne : v ≠ u := by
      rintro rfl
      rw [(h.inv.owner v).mp hg] at hout
      cases hout
    simpa [State.goto, State.setImpl, hne] using hp
  cases hline : (s.impls u).line <;>
    simp only [State.implLine, hline, reduceCtorEq, Option.some.injEq] at hs <;>
    rw [hline] at hstage
  case resetErrorCode | deleteTask =>
    subst hs
    exact h.silent hi hl (hother (by rw [hline]; rfl))
  case mallocAicall =>
    subst hs
    have hnone := hv hline
    have hphase := h.phase
    rw [State.At, hnone] at hphase
    refine ⟨t, rfl, hi, hl, ?_, fun v hv' hne => ?_, h.made⟩
    · simp only [State.At, State.goto, State.setImpl, hstage.2]
      exact hphase
    · obtain rfl : u = v := Option.some.inj hv'
      exact absurd hstage.2 hne
  case init =>
    have hcurr := h.inv.curr_eq hline rfl
    have hphase := h.phase_eq hcurr
    rw [hstage.2] at hphase
    split at hs <;> cases hs
    · rename_i hok
      subst hok
      refine ⟨⟨u :: t.made, .created⟩, ?_, hi, hl, ?_, fun v hv' _ => ?_, fun e => ?_⟩
      · exact (Machine.run_singleton ..).trans
          (Sdk.step_init hphase (by rw [h.made, hstage.2]; exact fun hne => hne rfl))
      · simp [State.At, State.goto, State.setImpl, hcurr, lifePhase, ImplLine.Reached]
      · rw [← Option.some.inj (hcurr.symm.trans hv')]
        rfl
      · by_cases hne : e = u
        · simp [hne, State.goto, State.setImpl]
        · simp [hne, State.goto, State.setImpl, h.made]
    · rename_i hok
      rw [Bool.not_eq_true] at hok
      subst hok
      refine ⟨t, rfl, hi, hl, ?_, h.last, h.made⟩
      simp only [State.At, State.goto, State.setImpl, hcurr, hstage.2]
      exact hphase
  case call e c =>
    have hcurr := h.inv.curr_eq hline rfl
    obtain rfl : e = some u := h.inv.own_eq hline
    have hlive : s.engines u = .live := hstage.2
    have hphase := h.phase_eq hcurr
    rw [hline, hlive] at hphase
    obtain ⟨l, hsup⟩ := h.supplied
    have hown := (hsup u).own
    have hsupply := (hsup u).supply
    rw [hline] at hown hsupply
    obtain rfl : c = some u := hown
    rw [Heap.deref_of_held hsupply.1, h.inv.sdkCall_eq hline rfl] at hs
    obtain rfl := Option.some.inj hs
    have hphase : t.phase = .created := hphase
    exact h.callLive hcurr hlive hi hl (by rw [hphase]; rfl) rfl
  case calling =>
    have hcurr := h.inv.curr_eq hline rfl
    have hlive : s.engines u = .live := hstage.2
    have hphase := h.phase_eq hcurr
    rw [hline, hlive] at hphase
    have hphase : t.phase = .calling := hphase
    subst hs
    cases ok with
    | true => exact h.callLive (p := .talking) hcurr hlive hi hl (by rw [hphase]; rfl) rfl
    | false => exact h.callLive (p := .refused) hcurr hlive hi hl (by rw [hphase]; rfl) (Or.inr rfl)
  case send e =>
    have hcurr := h.inv.curr_eq hline rfl
    obtain rfl : e = some u := h.inv.own_eq hline
    have hlive : s.engines u = .live := hstage.2
    have hphase := h.phase_eq hcurr
    rw [hline, hlive] at hphase
    rw [h.inv.sdkCall_eq hline rfl] at hs
    subst hs
    have hphase : t.phase = .talking := hphase
    exact h.callLive hcurr hlive hi hl (by rw [hphase]; rfl) rfl
  case handup e =>
    have hcurr := h.inv.curr_eq hline rfl
    obtain rfl : e = some u := h.inv.own_eq hline
    have hlive : s.engines u = .live := hstage.2
    have hphase := h.phase_eq hcurr
    rw [hline, hlive] at hphase
    rw [h.inv.sdkCall_eq hline rfl] at hs
    subst hs
    have hphase : t.phase = .talking ∨ t.phase = .refused := hphase
    refine h.callLive (p := .hungUp) hcurr hlive hi hl ?_ rfl
    rcases hphase with hp | hp <;> rw [hp] <;> rfl
  case destroyTestCurr =>
    have hcurr := h.inv.curr_eq hline rfl
    rw [hcurr] at hs
    subst hs
    exact h.goto hcurr hi hl fun p hp => by rw [hline] at hp; exact hp
  case destroyEngine e =>
    have hcurr := h.inv.curr_eq hline rfl
    obtain rfl : e = some u := h.inv.own_eq hline
    have hlive : s.engines u = .live := hstage.2
    have hphase := h.phase_eq hcurr
    rw [hline, hlive] at hphase
    have hphase : t.phase = .hungUp := hphase
    simp only [State.passEngine, hlive, Option.some.injEq] at hs
    subst hs
    refine h.call (p := .destroying) hcurr hi hl (by rw [hphase]; rfl) ?_
      (by rw [hlive]; exact Life.noConfusion) fun e => ?_
    · simp [State.goto, State.setImpl, lifePhase]
    · by_cases hne : e = u <;> simp [State.goto, State.setImpl, hne, hlive]
  case destroyingEngine e =>
    have hcurr := h.inv.curr_eq hline rfl
    obtain rfl : e = some u := h.inv.own_eq hline
    have hdest : s.engines u = .destroying := hstage.2
    have hphase := h.phase_eq hcurr
    rw [hdest] at hphase
    have hphase : t.phase = .destroying := hphase
    simp only at hs
    split at hs <;> cases hs
    refine h.call (p := .idle) hcurr hi hl (by rw [hphase]; rfl) ?_
      (by rw [hdest]; exact Life.noConfusion) fun e => ?_
    · simp [State.goto, State.setImpl, lifePhase]
    · by_cases hne : e = u <;> simp [State.goto, State.setImpl, hne, hdest]
  case destroyClearCurr =>
    have hcurr := h.inv.curr_eq hline rfl
    have hphase := h.phase_eq hcurr
    subst hs
    refine ⟨t, rfl, hi, hl, ?_, fun v hv' _ => (Option.some_ne_none v hv'.symm).elim, h.made⟩
    rcases hstage.2 with he | he <;> rw [he] at hphase <;> exact hphase
  case destroyFreeConfig c | destroyFreeCurr c =>
    have hcurr := h.inv.curr_eq hline rfl
    split at hs <;> cases hs
    · exact h.goto hcurr hi hl fun p hp => by rw [hline] at hp; exact hp
    · exact h.silent hi hl fun _ _ _ => id
  -- the lines left make no call of the SDK, or fail
  all_goals
    have hcurr := h.inv.curr_eq hline rfl
    try split at hs
    all_goals
      cases hs
      first
        | exact h.silent hi hl fun _ _ _ => id
        | exact h.goto hcurr hi hl fun p hp => by rw [hline] at hp; exact hp
        | exact h.goto hcurr hi hl fun p hp => by rw [hline] at hp; exact Or.inl hp

theorem implStep {ok : Bool} {junk : Aicall} (hi : Inv s')
    (hl : ∃ l, ∀ v, Supplied false s' l v)
    (hv : (s.impls u).line = .mallocAicall → s.gCurrAicall = none)
    (hs : s.implStep u ok junk = some s') : Next t ((s.impls u).line.sdkCalls u ok) s' := by
  unfold State.implStep at hs
  split at hs
  · exact h.implLine hi hl hv hs
  · rename_i k ha
    cases hs
    obtain ⟨_, hsome, rfl⟩ := Thread.access_load ha
    obtain ⟨f, hf⟩ := Option.isSome_iff_exists.mp hsome
    rw [(@access_reached u _ f .idle hf {} ok).2]
    refine h.silent hi hl fun v p _ hp => ?_
    by_cases hne : v = u
    · subst hne
      simpa [State.setImpl] using hp
    · simpa [State.setImpl, hne] using hp
  · cases hs
    obtain ⟨_, _, hsome, _⟩ := Thread.access_fault ‹_›
    obtain ⟨f, hf⟩ := Option.isSome_iff_exists.mp hsome
    rw [(@access_reached u _ f .idle hf {} ok).2]
    exact h.silent hi hl fun _ _ _ => id
  · rename_i h' k ha
    cases hs
    obtain ⟨f, i, r, hf, _, _, rfl, rfl⟩ := Thread.access_done ha
    rw [(@access_reached u _ f .idle hf {} ok).2]
    refine h.silent hi hl fun v p _ hp => ?_
    by_cases hne : v = u
    · subst hne
      simpa [State.setImpl] using (access_reached hf r ok).1 hp
    · simpa [State.setImpl, hne] using hp

/-- A step beside the tasks makes no call of theirs. -/
theorem frame (hi : Inv s') (hl : ∃ l, ∀ v, Supplied false s' l v) (hf : Frame s s') :
    Next t [] s' := by
  refine h.silent hi hl (fun v p hv hp => ?_) hf.curr hf.engines
  rcases hf.impls with ⟨him, -⟩ | ⟨him, -⟩
  · rwa [him]
  · have hne : v ≠ s.tasks := by
      rintro rfl
      have hin := (h.inv.owner _).mp hv
      rw [h.inv.created _ (Nat.le_refl _)] at hin
      cases hin
    rwa [him, Function.update_of_ne hne]

end Follows

theorem sdk_simulated :
    demo.Simulation Sdk.protocol State.sdkCalls AllocatesVacant Follows where
  init := .init
  step s t a s' h hv hs := by
    have hi := step_inv h.inv hv hs
    obtain ⟨l, hl⟩ := h.supplied
    obtain ⟨l', -, -, hl'⟩ := (ledger_simulated false).step s l a s' ⟨h.inv, hl⟩ hv hs
    have hsup : ∃ l, ∀ v, Supplied false s' l v := ⟨l', hl'⟩
    simp only [demo, State.step] at hs
    split at hs
    · cases hs
    cases a with
    | call f =>
      simp only at hs
      split at hs <;> cases hs
      exact h.frame hi hsup .of_eq
    | key ok => exact h.frame hi hsup (keyStep_frame hs)
    | impl u ok junk => exact h.implStep hi hsup (hv u ok junk rfl) hs
    | agentAudio e =>
      simp only at hs
      split at hs <;> cases hs
      exact h.frame hi hsup .of_eq
    | callback i => exact h.frame hi hsup (callbackStep_frame hs)
    | error e code =>
      simp only at hs
      split at hs <;> cases hs
      exact h.frame hi hsup .of_eq

/-! ### The calls of a run -/

/-- The calls of the tasks are complete dialogs, and then perhaps that of the published session.  A
task that has ended has had its dialog, if it had an engine. -/
structure Conforms (s : State) (w : List Sdk.Event) : Prop where
  spoken : (∃ es, Sdk.Dialogs es w) ∨
    ∃ es e p, p ≠ .idle ∧ s.gCurrAicall = some e ∧ Sdk.Open es e p w
  none : s.gCurrAicall = none → ∃ es, Sdk.Dialogs es w
  once : ∀ u, (s.impls u).line.ended → s.engines u ≠ .absent → Sdk.Once u w

theorem Follows.conforms {s : State} {t : Sdk.State} {w : List Sdk.Event} (h : Follows s t)
    (hw : t.Spoken w) : Conforms s w := by
  rcases hw with ⟨hp, hd⟩ | ⟨hp, e, es, hm, w₁, w₂, rfl, hd, hfresh, hword⟩
  · exact ⟨Or.inl ⟨_, hd⟩, fun _ => ⟨_, hd⟩, fun u _ he => hd.once u ((h.made u).mpr he)⟩
  · have hphase := h.phase
    cases hg : s.gCurrAicall with
    | none =>
      rw [State.At, hg] at hphase
      exact absurd hphase hp
    | some v =>
      have hheld : (s.engines v).held := by
        rw [State.At, hg] at hphase
        cases he : s.engines v <;> simp_all [lifePhase, Life.held]
      obtain rfl : e = v := by
        have hlast := h.last v hg (Life.ne_absent hheld)
        rw [hm] at hlast
        exact Option.some.inj hlast
      refine ⟨Or.inr ⟨es, e, t.phase, hp, hg, w₁, w₂, rfl, hd, hfresh, hword⟩,
        fun hnone => ?_, fun u hu he => ?_⟩
      · rw [hg] at hnone
        cases hnone
      · have hne : e ≠ u := by
          rintro rfl
          rcases (h.inv.ended hu).2 with hl | hl <;> rw [hl] at hheld <;> cases hheld
        have hmem : u ∈ es := by
          have hmade := (h.made u).mpr he
          rw [hm] at hmade
          exact (List.mem_cons.mp hmade).resolve_left (Ne.symm hne)
        refine (hd.once u hmem).append_right fun ev hev heq => hne ?_
        exact Option.some.inj ((hword.engine ev hev).symm.trans heq)

/-- In every run of the ESP32 demo in which no session is allocated over another, the calls of the
tasks follow the protocol of the SDK. -/
theorem task_calls_conform {as : List Action} {s : State}
    (hv : demo.Along AllocatesVacant demo.init as) (hr : demo.run demo.init as = some s) :
    Conforms s (demo.trace State.sdkCalls demo.init as) := by
  obtain ⟨t, ht, h⟩ := sdk_simulated.run hv hr
  exact h.conforms (Sdk.run_spoken ht)

theorem failedCall_conforms : ∃ s, demo.run demo.init failedCall = some s ∧
    s.gCurrAicall = none ∧ Conforms s (demo.trace State.sdkCalls demo.init failedCall) :=
  ⟨_, rfl, rfl, @task_calls_conform failedCall _ (by decide +kernel) rfl⟩

end AiCall.Esp32
