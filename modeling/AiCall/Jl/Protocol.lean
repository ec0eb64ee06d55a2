import AiCall.Jl.Errors
import AiCall.Sdk

/-! The JL demo follows the protocol of the SDK.  `Follows` ties the line of `app_core` to what has
been done with the engine of the session; the audio task uses the engine only while its call is
up. -/

namespace AiCall.Jl

open Kit

def Fn.sdkUse : Fn → Sdk.Use
  | .interruptSpeaking => .interruptSpeaking
  | .muteLocalAudio => .muteLocalAudio true
  | .unmuteLocalAudio => .muteLocalAudio false

/-- The calls of the SDK in the next step of `app_core`, where `n` is the session. -/
def KeyLine.sdkCalls (n : Nat) (ok : Bool) : KeyLine → List Sdk.Event
  | .start .init => if ok then [⟨some n, .init⟩] else []
  | .start (.call e _) => [⟨e, .call⟩]
  | .start .calling => [⟨some n, .called ok⟩]
  | .handup _ (.handup e) => [⟨e, .handup⟩]
  | .destroy _ (.destroy e) => [⟨e, .destroy⟩]
  | .destroy _ (.destroying e) => [⟨e, .destroyed⟩]
  | .use f (.callSdk e) => [⟨e, .use f.sdkUse⟩]
  | _ => []

def AudioLine.sdkCalls : AudioLine → List Sdk.Event
  | .read e => [⟨e, .use .readAgentAudioData⟩]
  | .send e => [⟨e, .use .sendAudioData⟩]
  | _ => []

def State.sdkCalls (s : State) : Action → List Sdk.Event
  | .key ok _ _ => s.key.line.sdkCalls s.session ok
  | .audio i _ => (s.tasks i).thread.line.sdkCalls
  | _ => []

/-- What has been done with a live engine when `app_core` is at a line. -/
def KeyLine.reached : KeyLine → Sdk.Phase
  | .start (.storeEngine _) | .start .loadCallEngine | .start (.loadCallConfig _)
  | .start (.call _ _) => .created
  | .start .calling => .calling
  | .handup .callFailed _ => .refused
  | .destroy _ _ => .hungUp
  | _ => .talking

/-- In `artc_aicall_demo_handup` after a call that was refused. -/
def KeyLine.refused : KeyLine → Bool
  | .handup k _ => k = .callFailed
  | _ => false

/-- What has been done with the engine of the session. -/
def State.phase (s : State) : Sdk.Phase :=
  match s.engines s.session with
  | .live => s.key.line.reached
  | .destroying => .destroying
  | .absent | .destroyed => .idle

/-- The protocol has read the calls that led to the state. -/
structure Follows (s : State) (t : Sdk.State) : Prop where
  inv : Inv s
  phase : t.phase = s.phase
  last : s.engines s.session ≠ .absent → t.made.head? = some s.session
  made : ∀ e, e ∈ t.made ↔ s.engines e ≠ .absent
  refused : s.key.line.refused → ∀ i, (s.tasks i).running = false

theorem Follows.init : Follows demo.init Sdk.protocol.init where
  inv := inv_init
  phase := rfl
  last h := absurd rfl h
  made e := by simp [Sdk.protocol, demo]
  refused _ _ := rfl

theorem KeyLine.reached_mayRun {line : KeyLine} (hm : line.mayRun) (hr : line.refused = false) :
    line.reached = .talking := by
  cases line with
  | idle | use => rfl
  | start l => cases l <;> simp_all [KeyLine.mayRun, KeyLine.reached]
  | handup k l => cases k <;> simp_all [KeyLine.refused, KeyLine.reached]
  | destroy k l => simp [KeyLine.mayRun] at hm

/-- A line that goes through `g_curr_aicall` calls no function of the SDK, and leads to a line with
as much done. -/
theorem KeyLine.access_reached {line : KeyLine} {f : Aicall → Aicall × KeyLine} {r : Aicall}
    {n : Nat} {g : Option Nat} {k : Cell Unit} {e : Life} (hf : line.access = some f)
    (hs : line.stage.Holds n g (.held r) k e) :
    (f r).2.reached = line.reached ∧ ((f r).2.refused → line.refused) := by
  cases line with
  | idle => simp [KeyLine.access] at hf
  | start l =>
    cases l <;>
      simp only [KeyLine.access, StartLine.access, Option.some.injEq, reduceCtorEq] at hf <;>
      subst hf <;> dsimp only <;> (try split) <;> exact ⟨rfl, id⟩
  | handup c l =>
    cases l <;>
      simp only [KeyLine.access, HandupLine.access, Option.some.injEq, reduceCtorEq] at hf <;>
      subst hf <;> dsimp only
    case testEngine =>
      -- the record of a session that is up has its engine
      obtain ⟨-, ⟨q, hq, he, -⟩, -⟩ := hs
      obtain rfl : r = q := Cell.held.inj hq
      rw [he, Option.isSome_some, if_pos rfl]
      cases c <;> exact ⟨rfl, id⟩
    case testPid => split <;> cases c <;> exact ⟨rfl, id⟩
    all_goals cases c <;> exact ⟨rfl, id⟩
  | destroy c l =>
    cases l <;>
      simp only [KeyLine.access, DestroyLine.access, Option.some.injEq, reduceCtorEq] at hf <;>
      subst hf <;> dsimp only <;> (try split) <;> exact ⟨rfl, id⟩
  | use c l =>
    cases l <;>
      simp only [KeyLine.access, UseLine.access, Option.some.injEq, reduceCtorEq] at hf <;>
      subst hf <;> dsimp only <;> (try split) <;> exact ⟨rfl, id⟩

theorem KeyLine.access_sdkCalls {line : KeyLine} (h : (line.access).isSome) (n : Nat) (ok : Bool) :
    line.sdkCalls n ok = [] := by
  cases line with
  | idle => simp [KeyLine.access] at h
  | start l => cases l <;> simp_all [KeyLine.access, StartLine.access, KeyLine.sdkCalls]
  | handup _ l => cases l <;> simp_all [KeyLine.access, HandupLine.access, KeyLine.sdkCalls]
  | destroy _ l => cases l <;> simp_all [KeyLine.access, DestroyLine.access, KeyLine.sdkCalls]
  | use _ l => cases l <;> simp_all [KeyLine.access, UseLine.access, KeyLine.sdkCalls]

theorem AudioLine.access_sdkCalls {line : AudioLine} (h : (line.access).isSome) :
    line.sdkCalls = [] := by
  cases line <;> simp_all [AudioLine.access, AudioLine.sdkCalls]

namespace Follows

variable {s s' : State} {t : Sdk.State}

/-- The protocol reads the calls of a step, and keeps up with it. -/
def Next (t : Sdk.State) (w : List Sdk.Event) (s' : State) : Prop :=
  ∃ t', Sdk.protocol.run t w = some t' ∧ Follows s' t'

variable (h : Follows s t)
include h

theorem noTask (hr : s.key.line.refused ∨ s.key.line.mayRun = false) (i : Nat) :
    (s.tasks i).running = false := by
  rcases hr with hr | hm
  · exact h.refused hr i
  · cases hi : (s.tasks i).running with
    | false => rfl
    | true => exact absurd (h.inv.running i hi) (not_running hm i)

/-- A step without a call of the SDK, at which the engines stay as they are. -/
theorem silent (hi : Inv s')
    (hd : s.engines s.session = .live → s'.key.line.reached = s.key.line.reached)
    (hr : s'.key.line.refused → s'.tasks = s.tasks ∧
      (s.key.line.refused ∨ s.key.line.mayRun = false))
    (he : s'.engines = s.engines := by rfl) (hn : s'.session = s.session := by rfl) :
    Next t [] s' := by
  refine ⟨t, rfl, hi, ?_, by rw [he, hn]; exact h.last, by rw [he]; exact h.made,
    fun hr' i => ?_⟩
  · rw [h.phase, State.phase, State.phase, he, hn]
    cases hl : s.engines s.session with
    | live => exact (hd hl).symm
    | absent | destroying | destroyed => rfl
  · obtain ⟨ht, hr⟩ := hr hr'
    rw [ht]
    exact h.noTask hr i

/-- A call with the engine of the session, at which no other engine changes. -/
theorem call {c : Sdk.Call} (hi : Inv s') (hc : s.phase.next c = some s'.phase)
    (he : ∀ e, s'.engines e ≠ .absent ↔ s.engines e ≠ .absent)
    (hlive : s.engines s.session ≠ .absent)
    (hr : s'.key.line.refused → s'.tasks = s.tasks ∧ s.key.line.mayRun = false)
    (hn : s'.session = s.session := by rfl) : Next t [⟨some s.session, c⟩] s' := by
  refine ⟨{ t with phase := s'.phase }, ?_, hi, rfl, ?_, ?_, fun hr' i => ?_⟩
  · rw [Machine.run_singleton]
    exact Sdk.step_next (h.last hlive) (h.phase ▸ hc)
  · intro _
    rw [hn]
    exact h.last hlive
  · intro e
    rw [he]
    exact h.made e
  · obtain ⟨ht, hr⟩ := hr hr'
    rw [ht]
    exact h.noTask (Or.inr hr) i

/-- A call that leaves the engines as they are. -/
theorem goto {c : Sdk.Call} {line : KeyLine} (hi : Inv (s.goto line))
    (hlive : s.engines s.session = .live) (hc : s.key.line.reached.next c = some line.reached)
    (hr : line.refused → s.key.line.mayRun = false) :
    Next t [⟨some s.session, c⟩] (s.goto line) := by
  have hphase : s.phase = s.key.line.reached := by rw [State.phase, hlive]
  have hphase' : (s.goto line).phase = line.reached := by
    simp only [State.phase, State.goto, hlive]
  refine h.call hi ?_ (fun _ => Iff.rfl) (by rw [hlive]; exact Life.noConfusion)
    fun hr' => ⟨rfl, hr hr'⟩
  rw [hphase, hphase']
  exact hc

theorem startLine {ok : Bool} {pid : Int} {junk : Aicall} {l : StartLine} (hi : Inv s')
    (hl : s.key.line = .start l) (hs : s.startLine ok pid junk l = some s') :
    Next t ((KeyLine.start l).sdkCalls s.session ok) s' := by
  have hst := h.inv.stage_eq hl
  have hown := h.inv.own_eq hl
  have hreached : s.key.line.reached = (KeyLine.start l).reached := by rw [hl]
  cases l <;> simp only [State.startLine, reduceCtorEq, Option.some.injEq] at hs
  case testError | testCurr | testWifi | taskTestCurr =>
    subst hs
    refine h.silent hi (fun _ => ?_) fun hr => ?_
    · rw [hreached]
      simp only [State.goto]
      split <;> rfl
    · simp only [State.goto] at hr
      split at hr <;> cases hr
  case resetError | mallocConfig | loadPid =>
    subst hs
    exact h.silent hi (fun _ => by rw [hreached]; rfl) fun hr => Bool.noConfusion hr
  case mallocAicall =>
    subst hs
    have hidle : s.phase = .idle := by
      rw [State.phase]
      cases he : s.engines s.session <;>
        simp_all [KeyLine.stage, StartLine.stage, Stage.Holds, Life.held]
    have hnew := h.inv.fresh _ (Nat.lt_succ_self s.session)
    refine ⟨t, rfl, hi, ?_, fun hne => absurd hnew hne, h.made, fun hr => Bool.noConfusion hr⟩
    rw [h.phase, hidle]
    simp [State.phase, State.goto, hnew]
  case clearConfig | fillConfig | storePid =>
    split at hs <;> cases hs
    · exact absurd hi.noFault (by simp [State.fail])
    · exact h.silent hi (fun _ => by rw [hreached]; rfl) fun hr => Bool.noConfusion hr
  case init =>
    have he : s.engines s.session = .absent := hst.2.2.2
    split at hs <;> cases hs
    · rename_i hok
      subst hok
      refine ⟨⟨s.session :: t.made, .created⟩, ?_, hi, ?_, fun _ => rfl, fun e => ?_,
        fun hr => Bool.noConfusion hr⟩
      · exact (Machine.run_singleton ..).trans (Sdk.step_init (by rw [h.phase, State.phase, he])
          (by rw [h.made, he]; exact fun hne => hne rfl))
      · simp [State.phase, State.goto, KeyLine.reached]
      · by_cases hne : e = s.session
        · simp [hne, State.goto]
        · simp [hne, State.goto, h.made]
    · rename_i hok
      rw [Bool.not_eq_true] at hok
      subst hok
      refine h.silent hi (fun hlive => ?_) fun hr => Bool.noConfusion hr
      rw [he] at hlive
      cases hlive
  case call e c =>
    obtain ⟨rfl, rfl⟩ := hown
    rw [Heap.deref_of_held hst.2.2.1, sdkCall_eq hst] at hs
    obtain rfl := Option.some.inj hs
    exact h.goto hi hst.2.2.2 (by rw [hreached]; rfl) fun hr => Bool.noConfusion hr
  case calling =>
    subst hs
    refine h.goto hi hst.2.2.2 ?_ fun _ => by rw [hl]; rfl
    rw [hreached]
    cases ok <;> rfl
  case fork p =>
    split at hs
    · split at hs <;> cases hs
      exact h.silent hi (fun _ => by rw [hreached]; rfl) fun hr => Bool.noConfusion hr
    · split at hs <;> cases hs
      · exact absurd hi.noFault (by simp [State.fail])
      · exact h.silent hi (fun _ => by rw [hreached]; rfl) fun hr => Bool.noConfusion hr

theorem handupLine {ok : Bool} {k : Caller} {l : HandupLine} (hi : Inv s')
    (hl : s.key.line = .handup k l) (hs : s.handupLine k l = some s') :
    Next t ((KeyLine.handup k l).sdkCalls s.session ok) s' := by
  have hst := h.inv.stage_eq hl
  have hown := h.inv.own_eq hl
  have hreached : s.key.line.reached = (KeyLine.handup k l).reached := by rw [hl]
  have hrefused : s.key.line.refused = (KeyLine.handup k l).refused := by rw [hl]
  cases l <;> simp only [State.handupLine, reduceCtorEq, Option.some.injEq] at hs
  case testCurr =>
    subst hs
    rcases hst.of_settled with ⟨hg, -, he⟩ | ⟨hg, -⟩
    · refine h.silent hi (fun hlive => ?_) fun hr => ?_
      · rw [hlive] at he
        cases he
      · rw [hg] at hr
        cases k <;> cases hr
    · refine h.silent hi (fun _ => ?_) fun hr => ⟨rfl, Or.inl ?_⟩
      · rw [hreached, hg]
        cases k <;> rfl
      · rw [hg] at hr
        rw [hrefused]
        exact hr
  case loadPid =>
    subst hs
    exact h.silent hi (fun _ => by rw [hreached]; cases k <;> rfl)
      fun hr => ⟨rfl, Or.inl (hrefused.trans hr)⟩
  case kill p =>
    split at hs
    · cases hs
      exact absurd hi.noFault (by simp [State.fail])
    · split at hs <;> cases hs
      exact h.silent hi (fun _ => by rw [hreached]; cases k <;> rfl)
        fun hr => ⟨rfl, Or.inl (hrefused.trans hr)⟩
  case handup e =>
    obtain rfl : e = some s.session := hown
    rw [sdkCall_eq hst] at hs
    subst hs
    exact h.goto hi hst.2.2.2 (by rw [hreached]; cases k <;> rfl) fun hr => Bool.noConfusion hr

theorem destroyLine {ok : Bool} {k : Caller} {l : DestroyLine} (hi : Inv s')
    (hl : s.key.line = .destroy k l) (hs : s.destroyLine k l = some s') :
    Next t ((KeyLine.destroy k l).sdkCalls s.session ok) s' := by
  have hst := h.inv.stage_eq hl
  have hown := h.inv.own_eq hl
  have hreached : s.key.line.reached = .hungUp := by rw [hl]; rfl
  cases l <;> simp only [State.destroyLine, reduceCtorEq, Option.some.injEq] at hs
  case testCurr =>
    subst hs
    rw [hst.1] at hi ⊢
    exact h.silent hi (fun _ => by rw [hreached]; rfl) fun hr => Bool.noConfusion hr
  case destroy e =>
    obtain rfl : e = some s.session := hown
    have hlive := hst.2.2.2
    simp only [State.liveEngine, hlive, decide_true, Option.some.injEq] at hs
    subst hs
    refine h.call hi ?_ (fun e => ?_) (by rw [hlive]; exact Life.noConfusion)
      fun hr => Bool.noConfusion hr
    · simp [State.phase, State.goto, hlive, hreached, Sdk.Phase.next]
    · by_cases hne : e = s.session <;> simp [State.goto, hne, hlive]
  case destroying e =>
    obtain rfl : e = some s.session := hown
    have hdest := hst.2.2.2
    obtain rfl := Option.some.inj hs
    refine h.call hi ?_ (fun e => ?_) (by rw [hdest]; exact Life.noConfusion)
      fun hr => Bool.noConfusion hr
    · simp [State.phase, State.goto, hdest, Sdk.Phase.next]
    · by_cases hne : e = s.session <;> simp [State.goto, hne, hdest]
  case freeConfig c =>
    split at hs <;> cases hs
    · exact h.silent hi (fun _ => by rw [hreached]; rfl) fun hr => Bool.noConfusion hr
    · exact absurd hi.noFault (by simp [State.fail])
  case loadCurr =>
    subst hs
    exact h.silent hi (fun _ => by rw [hreached]; rfl) fun hr => Bool.noConfusion hr
  case freeCurr p =>
    split at hs <;> cases hs
    · exact h.silent hi (fun _ => by rw [hreached]; rfl) fun hr => Bool.noConfusion hr
    · exact absurd hi.noFault (by simp [State.fail])
  case clearCurr =>
    subst hs
    refine h.silent hi (fun hlive => ?_) fun hr => ?_
    · have he := hst.2.2
      rw [hlive] at he
      cases he
    · cases k <;> cases hr

theorem useLine {ok : Bool} {f : Fn} {l : UseLine} (hi : Inv s')
    (hl : s.key.line = .use f l) (hs : s.useLine f l = some s') :
    Next t ((KeyLine.use f l).sdkCalls s.session ok) s' := by
  have hst := h.inv.stage_eq hl
  have hown := h.inv.own_eq hl
  have hreached : s.key.line.reached = .talking := by rw [hl]; rfl
  cases l <;> simp only [State.useLine, reduceCtorEq, Option.some.injEq] at hs
  case testCurr =>
    subst hs
    refine h.silent hi (fun _ => ?_) fun hr => ?_
    · rw [hreached]
      simp only [State.goto]
      split <;> rfl
    · simp only [State.goto] at hr
      split at hr <;> cases hr
  case callSdk e =>
    obtain rfl : e = some s.session := hown
    rw [sdkCall_eq hst] at hs
    subst hs
    exact h.goto hi hst.2.2.2 (by rw [hreached]; rfl) fun hr => Bool.noConfusion hr

theorem keyStep {ok : Bool} {pid : Int} {junk : Aicall} (hi : Inv s')
    (hs : s.keyStep ok pid junk = some s') : Next t (s.key.line.sdkCalls s.session ok) s' := by
  unfold State.keyStep at hs
  split at hs
  · unfold State.keyLine at hs
    split at hs
    · cases hs
    all_goals
      rename_i hl
      rw [hl]
    · exact h.startLine hi hl hs
    · exact h.handupLine hi hl hs
    · exact h.destroyLine hi hl hs
    · exact h.useLine hi hl hs
  · rename_i k hk
    cases hs
    obtain ⟨_, hsome, rfl⟩ := Thread.access_load hk
    rw [KeyLine.access_sdkCalls hsome]
    exact h.silent hi (fun _ => rfl) fun hr => ⟨rfl, Or.inl hr⟩
  · cases hs
    exact absurd hi.noFault (by simp [State.fail])
  · rename_i h' k hk
    cases hs
    obtain ⟨f, i, r, hf, hp, hr, rfl, rfl⟩ := Thread.access_done hk
    obtain rfl : i = s.session := Option.some.inj (h.inv.ptr _ hp)
    obtain ⟨hreached, hrefused⟩ := KeyLine.access_reached hf (hr ▸ h.inv.stage)
    rw [KeyLine.access_sdkCalls (by rw [hf]; rfl)]
    exact h.silent hi (fun _ => hreached) fun hr => ⟨rfl, Or.inl (hrefused hr)⟩

/-- A step of the audio task that is running, at which its call is up. -/
theorem audio {i : Nat} {k : Thread AudioLine} {w : List Sdk.Event} (hi : Running s i)
    (hi' : Inv (s.setTask i { s.tasks i with thread := k }))
    (hw : w = [] ∨ ∃ f, w = [⟨some s.session, .use f⟩]) :
    Next t w (s.setTask i { s.tasks i with thread := k }) := by
  have hnot : s.key.line.refused = false := by
    by_contra hr
    have hdone := h.refused (by simpa using hr) i
    rw [hi.live] at hdone
    cases hdone
  have hlive := (h.inv.up hi).2.2.2
  have hphase : t.phase = .talking := by
    rw [h.phase, State.phase, hlive]
    exact KeyLine.reached_mayRun hi.line hnot
  refine ⟨t, ?_, hi', h.phase, h.last, h.made, fun hr => ?_⟩
  · rcases hw with rfl | ⟨f, rfl⟩
    · rfl
    · rw [Machine.run_singleton, Sdk.step_next (h.last (by rw [hlive]; exact Life.noConfusion))
        (p := .talking) (by rw [hphase]; rfl), ← hphase]
  · have hr : s.key.line.refused = true := hr
    rw [hnot] at hr
    cases hr

theorem audioStep {i : Nat} {ok : Bool} (hi' : Inv s') (hs : s.audioStep i ok = some s') :
    Next t (s.tasks i).thread.line.sdkCalls s' := by
  have hi : Running s i := h.inv.running i (audioStep_running hs)
  obtain ⟨-, ⟨r, hr, -, -⟩, -⟩ := h.inv.up hi
  have hown := hi.own
  unfold State.audioStep at hs
  split at hs
  · unfold State.audioLine at hs
    cases hl : (s.tasks i).thread.line <;> simp only [hl, reduceCtorEq, Option.some.injEq] at hs <;>
      subst hs
    case read e | send e =>
      obtain rfl : e = some s.session := by simpa [hl, AudioLine.Own] using hown
      split at hi'
      · rename_i hlive
        rw [if_pos hlive]
        exact h.audio hi hi' (Or.inr ⟨_, rfl⟩)
      · exact absurd hi'.noFault (by simp [State.fail])
    all_goals exact h.audio hi hi' (Or.inl rfl)
  · rename_i k hk
    cases hs
    obtain ⟨_, hsome, rfl⟩ := Thread.access_load hk
    exact h.audio hi hi' (Or.inl (AudioLine.access_sdkCalls hsome))
  · cases hs
    exact absurd hi'.noFault (by simp [State.fail])
  · rename_i h' k hk
    cases hs
    obtain ⟨f, j, q, hf, hp, hj, rfl, rfl⟩ := Thread.access_done hk
    obtain rfl : j = s.session := Option.some.inj (hi.ptr _ hp)
    rw [(AudioLine.access_own hf q).1, ← hj, Function.update_eq_self] at hi' ⊢
    exact h.audio hi hi' (Or.inl (AudioLine.access_sdkCalls (by rw [hf]; rfl)))

theorem step {a : Action} (hs : demo.step s a = some s') : Next t (s.sdkCalls a) s' := by
  have hi := step_inv h.inv hs
  simp only [demo, State.step] at hs
  split at hs
  · cases hs
  cases a with
  | press k =>
    simp only at hs
    split at hs <;> cases hs
    rename_i hl
    have hreached : s.key.line.reached = .talking := by rw [hl]; rfl
    cases k <;> exact h.silent hi (fun _ => hreached.symm) fun hr => Bool.noConfusion hr
  | key ok pid junk => exact h.keyStep hi hs
  | audio i ok => exact h.audioStep hi hs
  | error e code =>
    simp only at hs
    split at hs <;> cases hs
    exact h.silent hi (fun _ => rfl) fun hr => ⟨rfl, Or.inl hr⟩

end Follows

theorem sdk_simulated :
    demo.Simulation Sdk.protocol State.sdkCalls (fun _ _ => True) Follows where
  init := .init
  step _ _ _ _ h _ hs := h.step hs

/-! ### The calls of a run -/

/-- The calls of the SDK are complete dialogs, and then perhaps that of the published session, which
is up between key events.  An engine that is destroyed has had its dialog. -/
structure Conforms (s : State) (w : List Sdk.Event) : Prop where
  spoken : (∃ es, Sdk.Dialogs es w) ∨
    ∃ es e p, p ≠ .idle ∧ s.gCurrAicall = some e ∧ Sdk.Open es e p w
  idle : s.key.line = .idle →
    match s.gCurrAicall with
    | none => ∃ es, Sdk.Dialogs es w
    | some e => ∃ es, Sdk.Open es e .talking w
  once : ∀ e, s.engines e = .destroyed → Sdk.Once e w

theorem State.phase_ne_idle {s : State} (h : s.phase ≠ .idle) :
    (s.engines s.session).held := by
  rw [State.phase] at h
  cases he : s.engines s.session <;> simp_all [Life.held]

theorem Follows.conforms {s : State} {t : Sdk.State} {w : List Sdk.Event} (h : Follows s t)
    (hw : t.Spoken w) : Conforms s w := by
  rcases hw with ⟨hp, hd⟩ | ⟨hp, e, es, hm, w₁, w₂, rfl, hd, hfresh, hword⟩
  · refine ⟨Or.inl ⟨_, hd⟩, fun hl => ?_, fun e he => ?_⟩
    · have hst := h.inv.stage_eq hl
      rcases hst.of_settled with ⟨hg, -⟩ | ⟨hg, -, -, -, hlive⟩
      · rw [hg]
        exact ⟨_, hd⟩
      · rw [h.phase, State.phase, hlive, hl] at hp
        cases hp
    · exact hd.once e ((h.made e).mpr (by rw [he]; exact Life.noConfusion))
  · have hheld : (s.engines s.session).held := State.phase_ne_idle (h.phase ▸ hp)
    obtain rfl : e = s.session := by
      have hlast := h.last (Life.ne_absent hheld)
      rw [hm] at hlast
      exact Option.some.inj hlast
    have hcurr := (h.inv.held_session hheld).2
    refine ⟨Or.inr ⟨es, _, t.phase, hp, hcurr, w₁, w₂, rfl, hd, hfresh, hword⟩, fun hl => ?_,
      fun e he => ?_⟩
    · have htalk : t.phase = .talking := by
        have hst := h.inv.stage_eq hl
        rcases hst.of_settled with ⟨hg, -⟩ | ⟨-, -, -, -, hlive⟩
        · rw [hg] at hcurr
          cases hcurr
        · rw [h.phase, State.phase, hlive, hl]
          rfl
      rw [hcurr]
      exact ⟨es, w₁, w₂, rfl, hd, hfresh, htalk ▸ hword⟩
    · have hne : s.session ≠ e := by
        rintro rfl
        exact Life.ne_destroyed hheld he
      have hmem : e ∈ es := by
        have hmade := (h.made e).mpr (by rw [he]; exact Life.noConfusion)
        rw [hm] at hmade
        exact (List.mem_cons.mp hmade).resolve_left (Ne.symm hne)
      refine (hd.once e hmem).append_right fun ev hev heq => hne ?_
      exact Option.some.inj ((hword.engine ev hev).symm.trans heq)

/-- In every run of the JL demo the calls of the SDK follow its protocol. -/
theorem sdk_protocol_followed {as : List Action} {s : State}
    (hr : demo.run demo.init as = some s) :
    Conforms s (demo.trace State.sdkCalls demo.init as) := by
  obtain ⟨t, ht, h⟩ := sdk_simulated.run (Machine.along_true _ _) hr
  exact h.conforms (Sdk.run_spoken ht)

/-- A call, the interruption of the agent, and the hang-up. -/
def shortCall : List Action :=
  .press .k1 :: List.replicate 46 (.key true 5 {}) ++ .audio 0 true :: .audio 0 true ::
    .press .k3 :: List.replicate 6 (.key true 0 {}) ++ .press .k2 ::
    List.replicate 12 (.key true 0 {}) ++ List.replicate 3 (.audio 0 true) ++
    List.replicate 25 (.key true 0 {})

theorem shortCall_followed : ∃ s, demo.run demo.init shortCall = some s ∧
    s.engines 1 = .destroyed ∧ Sdk.Once 1 (demo.trace State.sdkCalls demo.init shortCall) :=
  ⟨_, rfl, rfl, (@sdk_protocol_followed shortCall _ rfl).once 1 rfl⟩

end AiCall.Jl
