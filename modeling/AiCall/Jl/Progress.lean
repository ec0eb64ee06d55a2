import AiCall.Kit.Fairness
import AiCall.Jl.Errors

/-! Progress of the JL demo.  The handler of a key runs to its end in a bounded number of its own
steps, except that `thread_kill` waits for the audio task.  That wait ends too: the flag that the
loop of the audio task tests is already off, so the task leaves its loop after one more iteration at
most.  A fair run therefore brings every key press back to `idle`. -/

namespace AiCall.Jl

open Kit

/-! ### Ranks of lines -/

/-- The steps that may still follow the return of `artc_aicall_demo_handup` or `destroy_aicall`. -/
def Caller.rank : Caller → Nat
  | .restart => 45
  | _ => 0

def DestroyLine.rank : DestroyLine → Nat
  | .testCurr => 13
  | .testEngine => 12
  | .loadEngine => 11
  | .destroy _ => 10
  | .destroying _ => 9
  | .clearEngine => 8
  | .testConfig => 7
  | .loadConfig => 6
  | .freeConfig _ => 5
  | .clearConfig => 4
  | .loadCurr => 3
  | .freeCurr _ => 2
  | .clearCurr => 1

def HandupLine.rank : HandupLine → Nat
  | .testCurr => 24
  | .testEngine => 23
  | .clearGet => 22
  | .clearWrite => 21
  | .clearRunning => 20
  | .testPid => 19
  | .loadPid => 18
  | .kill _ => 17
  | .clearPid => 16
  | .loadEngine => 15
  | .handup _ => 14

def StartLine.rank : StartLine → Nat
  | .testError => 70  -- it may call `artc_aicall_demo_handup` first
  | .resetError => 45
  | .testCurr => 44
  | .testWifi => 43
  | .mallocAicall => 42
  | .clearAicall => 41
  | .mallocConfig => 40
  | .storeConfig _ => 39
  | .loadClearConfig => 38
  | .clearConfig _ => 37
  | .clearPid => 36
  | .clearRunning => 35
  | .clearGet => 34
  | .clearWrite => 33
  | .takeConfig => 32
  | .fillConfig _ => 31
  | .init => 30
  | .storeEngine _ => 29
  | .loadCallEngine => 28
  | .loadCallConfig _ => 27
  | .call _ _ => 26
  | .calling => 25  -- it may call `artc_aicall_demo_handup` last
  | .setRunning => 10
  | .setGet => 9
  | .setWrite => 8
  | .taskTestCurr => 7
  | .taskTestEngine => 6
  | .loadPid => 5
  | .fork _ => 4
  | .storePid _ _ => 3
  | .logPid => 2

def UseLine.rank : UseLine → Nat
  | .testCurr => 4
  | .testEngine => 3
  | .loadEngine => 2
  | .callSdk _ => 1

/-- How many lines of the handler can still follow. -/
def KeyLine.rank : KeyLine → Nat
  | .idle => 0
  | .start l => l.rank
  | .handup k l => k.rank + l.rank
  | .destroy k l => k.rank + l.rank
  | .use _ l => l.rank

/-- How many lines of the audio task can still follow once `can_audio_task_running` is off. -/
def AudioLine.rank : AudioLine → Nat
  | .testEngine => 14
  | .pace => 13
  | .testWrite => 12
  | .loadReadEngine => 11
  | .read _ => 10
  | .testGet => 9
  | .getVoiceData => 8
  | .testStillGet => 7
  | .testSendEngine => 6
  | .loadSendEngine => 5
  | .send _ => 4
  | .start => 4
  | .testError => 3
  | .testRunning => 2
  | .stop => 1
  | .returned => 0

@[simp] theorem KeyLine.rank_idle : KeyLine.idle.rank = 0 := rfl

@[simp] theorem KeyLine.rank_start (l : StartLine) : (KeyLine.start l).rank = l.rank := rfl

@[simp] theorem KeyLine.rank_use (f : Fn) (l : UseLine) : (KeyLine.use f l).rank = l.rank := rfl

@[simp] theorem KeyLine.rank_handup (k : Caller) (l : HandupLine) :
    (KeyLine.handup k l).rank = k.rank + l.rank := rfl

@[simp] theorem KeyLine.rank_destroy (k : Caller) (l : DestroyLine) :
    (KeyLine.destroy k l).rank = k.rank + l.rank := rfl

@[simp] theorem Caller.returns_rank (k : Caller) : k.returns.rank = k.rank := by
  cases k <;> rfl

theorem KeyLine.access_rank {line : KeyLine} {f : Aicall → Aicall × KeyLine}
    (hf : line.access = some f) (r : Aicall) : (f r).2.rank < line.rank := by
  cases line with
  | idle => simp [KeyLine.access] at hf
  | start l =>
    cases l <;>
      simp only [KeyLine.access, StartLine.access, Option.some.injEq, reduceCtorEq] at hf <;>
      subst hf <;> dsimp only <;> (try split) <;> simp [StartLine.rank]
  | handup k l =>
    cases l <;>
      simp only [KeyLine.access, HandupLine.access, Option.some.injEq, reduceCtorEq] at hf <;>
      subst hf <;> dsimp only <;> (try split) <;>
      simp [HandupLine.rank]
  | destroy k l =>
    cases l <;>
      simp only [KeyLine.access, DestroyLine.access, Option.some.injEq, reduceCtorEq] at hf <;>
      subst hf <;> dsimp only <;> (try split) <;> simp [DestroyLine.rank]
  | use c l =>
    cases l <;>
      simp only [KeyLine.access, UseLine.access, Option.some.injEq, reduceCtorEq] at hf <;>
      subst hf <;> dsimp only <;> (try split) <;> simp [UseLine.rank]

section Lines

variable {s s' : State} (hn : s'.fault = none)
include hn

theorem sdkCall_key {e : Option Nat} {line : KeyLine} (hs : s.sdkCall e line = s') :
    s' = s.goto line := by
  unfold State.sdkCall at hs
  split at hs
  · exact hs.symm
  · subst hs
    simp [State.fail] at hn

theorem startLine_rank {ok : Bool} {pid : Int} {junk : Aicall} {l : StartLine}
    (hs : s.startLine ok pid junk l = some s') : s'.key.line.rank < l.rank := by
  cases l <;> simp only [State.startLine, reduceCtorEq, Option.some.injEq] at hs
  case call e c =>
    split at hs
    · cases hs
      simp [State.fail] at hn
    · obtain rfl := sdkCall_key hn (Option.some.inj hs)
      simp [State.goto, StartLine.rank]
  case clearConfig | fillConfig | storePid =>
    split at hs <;> cases hs
    · simp [State.fail] at hn
    · simp [State.goto, StartLine.rank]
  case fork =>
    split at hs
    · split at hs <;> cases hs
      simp [State.goto, StartLine.rank]
    · split at hs <;> cases hs
      · simp [State.fail] at hn
      · simp [State.goto, StartLine.rank]
  case init =>
    split at hs <;> cases hs <;> simp [State.goto, StartLine.rank, DestroyLine.rank, Caller.rank]
  all_goals
    subst hs
    (try split) <;> simp [State.goto, StartLine.rank, HandupLine.rank, Caller.rank]

theorem handupLine_rank {k : Caller} {l : HandupLine} (hs : s.handupLine k l = some s') :
    s'.key.line.rank < k.rank + l.rank := by
  cases l <;> simp only [State.handupLine, reduceCtorEq, Option.some.injEq] at hs
  case testCurr =>
    subst hs
    split <;> simp [State.goto, HandupLine.rank]
  case loadPid =>
    subst hs
    simp [State.goto, HandupLine.rank]
  case kill =>
    split at hs
    · cases hs
      simp [State.fail] at hn
    · split at hs <;> cases hs
      simp [State.goto, HandupLine.rank]
  case handup =>
    obtain rfl := sdkCall_key hn hs
    simp [State.goto, HandupLine.rank, DestroyLine.rank]

theorem destroyLine_rank {k : Caller} {l : DestroyLine} (hs : s.destroyLine k l = some s') :
    s'.key.line.rank < k.rank + l.rank := by
  cases l <;> simp only [State.destroyLine, reduceCtorEq, Option.some.injEq] at hs
  case testCurr =>
    subst hs
    split <;> simp [State.goto, DestroyLine.rank]
  case loadCurr =>
    subst hs
    simp [State.goto, DestroyLine.rank]
  case clearCurr =>
    subst hs
    simp [State.goto, DestroyLine.rank]
  all_goals
    split at hs <;> cases hs <;>
      simp_all [State.fail, State.goto, DestroyLine.rank]

theorem useLine_rank {f : Fn} {l : UseLine} (hs : s.useLine f l = some s') :
    s'.key.line.rank < l.rank := by
  cases l <;> simp only [State.useLine, reduceCtorEq, Option.some.injEq] at hs
  case testCurr =>
    subst hs
    split <;> simp [State.goto, UseLine.rank]
  case callSdk =>
    obtain rfl := sdkCall_key hn hs
    simp [State.goto, UseLine.rank]

end Lines

/-- The steps that the handler of the key can still take. -/
def State.keyVariant (s : State) : Nat := s.key.variant KeyLine.rank

theorem keyStep_lower {s s' : State} {ok : Bool} {pid : Int} {junk : Aicall} (h : Inv s)
    (hs : s.keyStep ok pid junk = some s') : s'.keyVariant < s.keyVariant := by
  have hn := (keyStep_inv h hs).noFault
  unfold State.keyStep at hs
  split at hs
  · refine Thread.variant_lt ?_
    unfold State.keyLine at hs
    split at hs
    case h_1 => cases hs
    all_goals
      rename_i hl
      rw [hl]
    · exact startLine_rank hn hs
    · exact handupLine_rank hn hs
    · exact destroyLine_rank hn hs
    · exact useLine_rank hn hs
  · rename_i k hk
    cases hs
    obtain ⟨hp, _, rfl⟩ := Thread.access_load hk
    exact Thread.variant_load hp
  · cases hs
    simp [State.fail] at hn
  · rename_i h' k hk
    cases hs
    obtain ⟨f, i, r, hf, _, _, _, rfl⟩ := Thread.access_done hk
    exact Thread.variant_lt (KeyLine.access_rank hf r)

/-! ### The handler takes finitely many steps -/

def NoPress (_ : State) : Action → Prop
  | .press _ => False
  | _ => True

instance (s : State) (a : Action) : Decidable (NoPress s a) := by
  unfold NoPress
  split <;> infer_instance

def Action.isKey : Action → Bool
  | .key _ _ _ => true
  | _ => false

theorem AudioFrame.keyVariant {s s' : State} (hf : AudioFrame s s') :
    s'.keyVariant = s.keyVariant := by
  unfold State.keyVariant
  rw [hf.key]

theorem step_keyVariant {s s' : State} {a : Action} (h : Inv s) (hP : NoPress s a)
    (hs : demo.step s a = some s') :
    s'.keyVariant + (if a.isKey then 1 else 0) ≤ s.keyVariant := by
  simp only [demo, State.step] at hs
  split at hs
  · cases hs
  cases a with
  | press k => exact hP.elim
  | key ok pid junk => exact keyStep_lower h hs
  | audio i ok => exact (audioStep_frame hs).keyVariant.le
  | error e code =>
    simp only at hs
    split at hs <;> cases hs
    exact Nat.le_refl _

theorem KeyLine.rank_le (line : KeyLine) : line.rank ≤ 70 := by
  cases line with
  | idle => simp
  | start l => cases l <;> simp [StartLine.rank]
  | handup k l => cases k <;> cases l <;> simp [Caller.rank, HandupLine.rank]
  | destroy k l => cases k <;> cases l <;> simp [Caller.rank, DestroyLine.rank]
  | use _ l => cases l <;> simp [UseLine.rank]

theorem reachable_inv {as : List Action} {s : State} (hr : demo.run demo.init as = some s) :
    Inv s :=
  Machine.run_invariant (P := fun _ _ => True) (fun _ _ _ h _ hs => step_inv h hs) inv_init
    (Machine.along_true _ _) hr

/-- However the audio task and the errors interleave with it, the handler of a key takes at most 141
steps before the next key press. -/
theorem handler_bounded {as bs : List Action} {s s' : State}
    (hs : demo.run demo.init as = some s) (hP : demo.Along NoPress s bs)
    (hr : demo.run s bs = some s') : bs.countP Action.isKey ≤ 141 := by
  have hinv := reachable_inv hs
  have hcount : bs.countP Action.isKey + s'.keyVariant ≤ s.keyVariant :=
    Machine.run_count (fun _ _ _ h _ hs => step_inv h hs) (fun _ _ _ h hP hs =>
      step_keyVariant h hP hs) hinv hP hr
  have hle : s.keyVariant ≤ 141 := Thread.variant_le s.key.line.rank_le
  omega

/-- A call that K2 ends while the audio task is in its loop. -/
def finishedCall : List Action :=
  .press .k1 :: List.replicate 46 (.key true 5 {}) ++ .press .k2 ::
    List.replicate 12 (.key true 0 {}) ++ List.replicate 5 (.audio 0 true) ++
    List.replicate 25 (.key true 0 {})

theorem finishedCall_bounded : ∃ s s', demo.run demo.init (finishedCall.take 48) = some s ∧
    demo.run s (finishedCall.drop 48) = some s' ∧
    (finishedCall.drop 48).countP Action.isKey ≤ 141 :=
  ⟨_, _, rfl, rfl, @handler_bounded (finishedCall.take 48) _ _ _ rfl (by decide +kernel) rfl⟩

/-! ### The wait for the audio task -/

/-- The lines of `artc_aicall_demo_handup` from its store to `can_audio_task_running` to
`thread_kill`. -/
def HandupLine.halting : HandupLine → Bool
  | .testPid | .loadPid | .kill _ => true
  | _ => false

def KeyLine.halting : KeyLine → Bool
  | .handup _ l => l.halting
  | _ => false

@[simp] theorem KeyLine.halting_idle : KeyLine.idle.halting = false := rfl

@[simp] theorem KeyLine.halting_start (l : StartLine) : (KeyLine.start l).halting = false := rfl

@[simp] theorem KeyLine.halting_handup (k : Caller) (l : HandupLine) :
    (KeyLine.handup k l).halting = l.halting := rfl

@[simp] theorem KeyLine.halting_destroy (k : Caller) (l : DestroyLine) :
    (KeyLine.destroy k l).halting = false := rfl

@[simp] theorem KeyLine.halting_use (f : Fn) (l : UseLine) :
    (KeyLine.use f l).halting = false := rfl

@[simp] theorem Caller.returns_halting (k : Caller) : k.returns.halting = false := by
  cases k <;> rfl

/-- At these lines, the flag that the loop of the audio task tests is off. -/
structure Halted (s : State) : Prop where
  inv : Inv s
  off : s.key.line.halting → ∀ r, s.aicalls s.session = .held r → r.canAudioTaskRunning = false

theorem Halted.init : Halted demo.init where
  inv := inv_init
  off hl := by simp [demo] at hl

theorem KeyLine.access_halting {line : KeyLine} {f : Aicall → Aicall × KeyLine}
    (hf : line.access = some f) {r : Aicall} (hl : (f r).2.halting) :
    (f r).1.canAudioTaskRunning = false ∨
      line.halting ∧ (f r).1.canAudioTaskRunning = r.canAudioTaskRunning := by
  cases line with
  | idle => simp [KeyLine.access] at hf
  | start l =>
    cases l <;>
      simp only [KeyLine.access, StartLine.access, Option.some.injEq, reduceCtorEq] at hf <;>
      subst hf <;> dsimp only at hl <;> (try split at hl) <;> simp at hl
  | handup k l =>
    cases l <;>
      simp only [KeyLine.access, HandupLine.access, Option.some.injEq, reduceCtorEq] at hf <;>
      subst hf <;> dsimp only at hl <;> (try split at hl) <;>
      simp_all [HandupLine.halting]
  | destroy k l =>
    cases l <;>
      simp only [KeyLine.access, DestroyLine.access, Option.some.injEq, reduceCtorEq] at hf <;>
      subst hf <;> dsimp only at hl <;> (try split at hl) <;> simp at hl
  | use c l =>
    cases l <;>
      simp only [KeyLine.access, UseLine.access, Option.some.injEq, reduceCtorEq] at hf <;>
      subst hf <;> dsimp only at hl <;> (try split at hl) <;> simp at hl

/-- What a step of `app_core` that ends between the store and `thread_kill` leaves alone. -/
structure HaltingStep (s s' : State) : Prop where
  line : s.key.line.halting
  session : s'.session = s.session
  aicalls : s'.aicalls = s.aicalls

section Lines

variable {s s' : State} (hn : s'.fault = none) (hl : s'.key.line.halting)
include hn hl

theorem startLine_halting {ok : Bool} {pid : Int} {junk : Aicall} {l : StartLine}
    (hs : s.startLine ok pid junk l = some s') : False := by
  cases l <;> simp only [State.startLine, reduceCtorEq, Option.some.injEq] at hs
  case call e c =>
    split at hs
    · cases hs
      simp [State.fail] at hn
    · obtain rfl := sdkCall_key hn (Option.some.inj hs)
      simp [State.goto] at hl
  case clearConfig | fillConfig | storePid =>
    split at hs <;> cases hs
    · simp [State.fail] at hn
    · simp [State.goto] at hl
  case fork =>
    split at hs
    · split at hs <;> cases hs
      simp [State.goto] at hl
    · split at hs <;> cases hs
      · simp [State.fail] at hn
      · simp [State.goto] at hl
  case init =>
    split at hs <;> cases hs <;> simp [State.goto] at hl
  all_goals
    subst hs
    simp only [State.goto] at hl
    (try split at hl) <;> simp [HandupLine.halting] at hl

theorem handupLine_halting {k : Caller} {l : HandupLine} (hk : s.key.line = .handup k l)
    (hs : s.handupLine k l = some s') : HaltingStep s s' := by
  cases l <;> simp only [State.handupLine, reduceCtorEq, Option.some.injEq] at hs
  case testCurr =>
    subst hs
    simp only [State.goto] at hl
    split at hl <;> simp [HandupLine.halting] at hl
  case loadPid =>
    subst hs
    exact ⟨by rw [hk]; rfl, rfl, rfl⟩
  case kill =>
    split at hs
    · cases hs
      simp [State.fail] at hn
    · split at hs <;> cases hs
      simp [State.goto, HandupLine.halting] at hl
  case handup =>
    obtain rfl := sdkCall_key hn hs
    simp [State.goto] at hl

theorem destroyLine_halting {k : Caller} {l : DestroyLine} (hs : s.destroyLine k l = some s') :
    False := by
  cases l <;> simp only [State.destroyLine, reduceCtorEq, Option.some.injEq] at hs
  case testCurr =>
    subst hs
    simp only [State.goto] at hl
    split at hl <;> simp at hl
  case loadCurr | clearCurr =>
    subst hs
    simp [State.goto] at hl
  all_goals
    split at hs <;> cases hs <;> simp_all [State.fail, State.goto]

theorem useLine_halting {f : Fn} {l : UseLine} (hs : s.useLine f l = some s') : False := by
  cases l <;> simp only [State.useLine, reduceCtorEq, Option.some.injEq] at hs
  case testCurr =>
    subst hs
    simp only [State.goto] at hl
    split at hl <;> simp at hl
  case callSdk =>
    obtain rfl := sdkCall_key hn hs
    simp [State.goto] at hl

end Lines

theorem keyStep_halted {s s' : State} {ok : Bool} {pid : Int} {junk : Aicall} (h : Halted s)
    (hs : s.keyStep ok pid junk = some s') : Halted s' := by
  have hinv := keyStep_inv h.inv hs
  have hn := hinv.noFault
  refine ⟨hinv, fun hl r hr => ?_⟩
  unfold State.keyStep at hs
  split at hs
  · unfold State.keyLine at hs
    split at hs
    · cases hs
    · exact (startLine_halting hn hl hs).elim
    · obtain ⟨hold, hses, haic⟩ := handupLine_halting hn hl ‹_› hs
      rw [hses, haic] at hr
      exact h.off hold r hr
    · exact (destroyLine_halting hn hl hs).elim
    · exact (useLine_halting hn hl hs).elim
  · rename_i k hk
    cases hs
    obtain ⟨_, _, rfl⟩ := Thread.access_load hk
    exact h.off hl r hr
  · cases hs
    simp [State.fail] at hn
  · rename_i h' k hk
    cases hs
    obtain ⟨f, i, q, hf, hp, hi, rfl, rfl⟩ := Thread.access_done hk
    obtain rfl : i = s.session := Option.some.inj (h.inv.ptr _ hp)
    obtain rfl : (f q).1 = r := by simpa using hr
    rcases KeyLine.access_halting hf hl with hoff | ⟨hold, hoff⟩
    · exact hoff
    · exact hoff.trans (h.off hold q hi)

/-- An audio task does not write to the record, and forks no task. -/
theorem audioStep_record {s s' : State} {i : Nat} {ok : Bool} (hs : s.audioStep i ok = some s') :
    s'.aicalls = s.aicalls ∧ s'.session = s.session ∧ s'.taskCount = s.taskCount := by
  unfold State.audioStep at hs
  split at hs
  · unfold State.audioLine at hs
    split at hs <;> (try cases hs) <;> (try split) <;> exact ⟨rfl, rfl, rfl⟩
  · cases hs
    exact ⟨rfl, rfl, rfl⟩
  · cases hs
    exact ⟨rfl, rfl, rfl⟩
  · rename_i h' k hk
    cases hs
    obtain ⟨f, j, q, hf, _, hj, rfl, rfl⟩ := Thread.access_done hk
    refine ⟨?_, rfl, rfl⟩
    change Function.update s.aicalls j _ = s.aicalls
    rw [(AudioLine.access_own hf q).1, ← hj, Function.update_eq_self]

theorem step_halted {s s' : State} {a : Action} (h : Halted s) (hs : demo.step s a = some s') :
    Halted s' := by
  have hinv := step_inv h.inv hs
  simp only [demo, State.step] at hs
  split at hs
  · cases hs
  cases a with
  | press k =>
    simp only at hs
    split at hs <;> cases hs
    refine ⟨hinv, fun hl => ?_⟩
    cases k <;> simp [State.goto, Key.handler, HandupLine.halting] at hl
  | key ok pid junk => exact keyStep_halted h hs
  | audio i ok =>
    obtain ⟨haic, hses, _⟩ := audioStep_record hs
    refine ⟨hinv, fun hl => ?_⟩
    rw [(audioStep_frame hs).key] at hl
    rw [haic, hses]
    exact h.off hl
  | error e code =>
    simp only at hs
    split at hs <;> cases hs
    exact ⟨hinv, h.off⟩

/-- The steps that an audio task can still take once the flag is off. -/
def AudioTask.variant (a : AudioTask) : Nat := a.thread.variant AudioLine.rank

theorem AudioTask.variant_le (a : AudioTask) : a.variant ≤ 29 := by
  have hrank : a.thread.line.rank ≤ 14 := by cases a.thread.line <;> simp [AudioLine.rank]
  exact Thread.variant_le hrank

/-- Once the flag is off, the line after an access is nearer to the end of the task. -/
theorem AudioLine.access_rank {line : AudioLine} {f : Aicall → Aicall × AudioLine}
    (hf : line.access = some f) {r : Aicall} (hr : r.canAudioTaskRunning = false) :
    (f r).2.rank < line.rank := by
  cases line <;> simp only [AudioLine.access, Option.some.injEq, reduceCtorEq] at hf <;>
    subst hf <;> dsimp only <;> (try split) <;> simp_all [AudioLine.rank]

theorem audioStep_lower {s s' : State} {i : Nat} {ok : Bool} (h : Inv s) (hi : Running s i)
    (hoff : ∀ r, s.aicalls s.session = .held r → r.canAudioTaskRunning = false)
    (hs : s.audioStep i ok = some s') : (s'.tasks i).variant < (s.tasks i).variant := by
  have hn := (audioStep_inv h hs).noFault
  have hlower (line : AudioLine) (hr : line.rank < (s.tasks i).thread.line.rank) :
      { s.tasks i with thread := { line } : AudioTask }.variant < (s.tasks i).variant :=
    Thread.variant_lt hr
  unfold State.audioStep at hs
  split at hs
  · unfold State.audioLine at hs
    cases hl : (s.tasks i).thread.line <;>
      simp only [hl, reduceCtorEq, Option.some.injEq] at hs <;> subst hs
    case read | send =>
      split at hn
      · simp only [*, if_true, State.audioGoto, State.setTask, Function.update_self]
        exact hlower _ (by simp [hl, AudioLine.rank])
      · simp [State.fail] at hn
    all_goals
      simp only [State.audioGoto, State.setTask, Function.update_self]
      refine hlower _ ?_
      rw [hl]
      (try split) <;> simp [AudioLine.rank]
  · rename_i k hk
    cases hs
    obtain ⟨hp, _, rfl⟩ := Thread.access_load hk
    simp only [State.setTask, Function.update_self]
    exact Thread.variant_load hp
  · cases hs
    simp [State.fail] at hn
  · rename_i h' k hk
    cases hs
    obtain ⟨f, j, q, hf, hp, hj, rfl, rfl⟩ := Thread.access_done hk
    obtain rfl : j = s.session := Option.some.inj (hi.ptr _ hp)
    simp only [State.setTask, Function.update_self]
    exact hlower _ (AudioLine.access_rank hf (hoff q hj))

/-! ### Fair runs -/

/-- The tasks of the demo. -/
inductive Task where
  | key  -- `app_core`
  | audio (i : Nat)
deriving DecidableEq, Repr

/-- The steps of a task, whatever the outcome of the calls it makes. -/
def Task.acts : Task → Action → Prop
  | .key, .key _ _ _ => True
  | .audio i, .audio j _ => i = j
  | _, _ => False

def HandupLine.killing : HandupLine → Bool
  | .kill _ => true
  | _ => false

/-- At `thread_kill`. -/
def KeyLine.killing : KeyLine → Bool
  | .handup _ l => l.killing
  | _ => false

namespace State

/-- `app_core` waits in `thread_kill` for the audio task, which is the last one forked. -/
def waits (s : State) : Bool := s.key.line.killing && (s.tasks (s.taskCount - 1)).running

/-- The task that brings the handler of the key nearer to its end. -/
def helper (s : State) : Task := if s.waits then .audio (s.taskCount - 1) else .key

/-- The steps of the handler, and, while it waits, those of the audio task. -/
def variant (s : State) : Nat :=
  30 * s.keyVariant + if s.key.line.killing then (s.tasks (s.taskCount - 1)).variant else 0

end State

theorem KeyLine.halting_of_killing {line : KeyLine} (h : line.killing) : line.halting := by
  cases line with
  | handup k l => cases l <;> simp_all [KeyLine.killing, HandupLine.killing, HandupLine.halting]
  | _ => simp [KeyLine.killing] at h

/-- An audio task that has not returned can take a step. -/
theorem audioStep_enabled {s : State} {i : Nat} (hi : (s.tasks i).running) :
    (s.audioStep i false).isSome := by
  unfold State.audioStep
  cases ha : (s.tasks i).thread.access AudioLine.access s.gCurrAicall s.aicalls with
  | pass =>
    have hret : (s.tasks i).thread.line ≠ .returned := by simpa [AudioTask.running] using hi
    have hacc := Thread.access_pass ha
    unfold State.audioLine
    cases hl : (s.tasks i).thread.line <;> simp_all [AudioLine.access]
  | _ => rfl

/-- The task that `thread_kill` waits for is the only one. -/
theorem Inv.quiet {s : State} (h : Inv s) (hl : (s.tasks (s.taskCount - 1)).running = false)
    (pid : Int) : s.quiet pid := by
  intro i _ _
  by_contra hret
  have hi : (s.tasks i).running := by simpa [AudioTask.running] using hret
  have hlast := (h.running i hi).last
  have heq : s.taskCount - 1 = i := by omega
  rw [heq, hi] at hl
  exact Bool.noConfusion hl

/-- Where `app_core` does not wait for the audio task, it can take a step, even if every call that
it makes fails. -/
theorem keyStep_enabled {s : State} (h : Inv s) (hl : s.key.line ≠ .idle)
    (hw : s.waits = false) : (s.keyStep false 0 {}).isSome := by
  unfold State.keyStep
  cases ha : s.key.access KeyLine.access s.gCurrAicall s.aicalls with
  | pass =>
    have hacc := Thread.access_pass ha
    unfold State.keyLine
    cases hline : s.key.line with
    | idle => exact absurd hline hl
    | start l =>
      rw [hline] at hacc
      cases l <;> simp_all [KeyLine.access, StartLine.access, State.startLine] <;>
        split <;> rfl
    | handup k l =>
      rw [hline] at hacc
      cases l <;> simp_all [KeyLine.access, HandupLine.access, State.handupLine]
      case kill p =>
        have hlast : (s.tasks (s.taskCount - 1)).running = false := by
          simpa [State.waits, hline, KeyLine.killing, HandupLine.killing] using hw
        split
        · rfl
        · simp [h.quiet hlast]
    | destroy k l =>
      rw [hline] at hacc
      cases l <;> simp_all [KeyLine.access, DestroyLine.access, State.destroyLine] <;>
        split <;> rfl
    | use f l =>
      rw [hline] at hacc
      cases l <;> simp_all [KeyLine.access, UseLine.access, State.useLine]
  | _ => rfl

theorem Inv.enabled {s : State} (h : Inv s) (hl : s.key.line ≠ .idle) :
    ∃ a, s.helper.acts a ∧ (demo.step s a).isSome := by
  unfold State.helper
  split
  · rename_i hw
    have hi : (s.tasks (s.taskCount - 1)).running := by
      simp only [State.waits, Bool.and_eq_true] at hw
      exact hw.2
    refine ⟨.audio (s.taskCount - 1) false, rfl, ?_⟩
    simpa [demo, State.step, h.noFault] using audioStep_enabled hi
  · rename_i hw
    refine ⟨.key false 0 {}, trivial, ?_⟩
    simpa [demo, State.step, h.noFault] using keyStep_enabled h hl (by simpa using hw)

theorem keyStep_variant {s s' : State} {ok : Bool} {pid : Int} {junk : Aicall} (h : Inv s)
    (hs : s.keyStep ok pid junk = some s') : s'.variant < s.variant := by
  have hlower := keyStep_lower h hs
  have hdrain := (s'.tasks (s'.taskCount - 1)).variant_le
  unfold State.variant
  split <;> split <;> omega

theorem audioStep_variant {s s' : State} {i : Nat} {ok : Bool} (h : Halted s)
    (hs : s.audioStep i ok = some s') :
    s'.variant < s.variant ∨ s'.variant = s.variant ∧ s'.helper = s.helper ∧
      ¬ s.helper.acts (.audio i ok) := by
  have hi := h.inv.running i (audioStep_running hs)
  have hframe := audioStep_frame hs
  obtain ⟨_, _, hcount⟩ := audioStep_record hs
  have hlast : s.taskCount - 1 = i := by
    have := hi.last
    omega
  unfold State.variant State.helper State.waits
  rw [hframe.keyVariant, hframe.key, hcount, hlast]
  cases hk : s.key.line.killing with
  | true =>
    have hlower := audioStep_lower h.inv hi (h.off (KeyLine.halting_of_killing hk)) hs
    exact Or.inl (by simpa using hlower)
  | false => exact Or.inr ⟨rfl, by simp, by simp [Task.acts]⟩

/-- The handler of a key makes progress towards `idle`. -/
theorem progress : Machine.Progress demo Task.acts Halted (·.key.line = .idle) (fun _ _ => True)
    State.helper State.variant where
  enabled s h hl := h.inv.enabled hl
  step s a s' h _ _ hl hs := by
    refine Or.inr ?_
    simp only [demo, State.step] at hs
    split at hs
    · cases hs
    cases a with
    | press k => exact absurd hs (by simp)
    | key ok pid junk => exact Or.inl (keyStep_variant h.inv hs)
    | audio i ok => exact audioStep_variant h hs
    | error e code =>
      simp only at hs
      split at hs <;> cases hs
      refine Or.inr ⟨rfl, rfl, ?_⟩
      cases s.helper <;> simp [Task.acts]

end AiCall.Jl
