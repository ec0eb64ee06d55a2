import AiCall.Esp32.Hangup
import AiCall.Esp32.Release
import AiCall.Esp32.Teardown

/-! Which hang-ups of the ESP32 demo are kept.  That depends on where the store of `handup` finds
the session's task.  Where `artc_aicall_call` has not returned, the hang-up is kept if and only if
that call fails: otherwise the task sets the flag again.  Between the loop's test of the flag and
its test of the engine the store comes too late for one more iteration.  From every other line on it
is kept, whatever the other tasks do. -/

namespace AiCall.Esp32

open Kit

/-- On the way from `s` the running flag of record `i` stays clear, and no iteration of the loop
begins. -/
def Kept (i : Nat) (s : State) (bs : List Action) : Prop :=
  demo.Always (NotRunning i) s bs ∧ demo.Along (fun s a => ¬ EntersLoop s a) s bs

/-- `artc_aicall_call` returns 0 if `answer` is true, and another value if it is false. -/
def Answers (answer : Bool) (s : State) : Action → Prop
  | .impl t ok _ => (s.impls t).line = .calling → ok = answer
  | _ => True

/-- `artc_aicall_call` has not returned yet. -/
def ImplLine.beforeReturn : ImplLine → Bool
  | .uncreated | .resetErrorCode | .mallocAicall | .clearAicall | .mallocConfig | .storeConfig
  | .loadClearConfig | .clearConfig _ | .takeConfig | .fillConfig _ | .init | .storeEngine _
  | .loadCallEngine | .loadCallConfig _ | .call _ _ | .calling => true
  | _ => false

/-- A hang-up whose store finds the session's task at this line is kept. -/
def ImplLine.keepsHangup (answer : Bool) : ImplLine → Bool
  | .setRunning | .testEngine => false
  | line => !line.beforeReturn || !answer

/-! ### The lines that keep a hang-up -/

section Lines

variable {s s' : State} {t : Nat} {ok answer : Bool} {junk : Aicall}

theorem sdkCall_line (s : State) (t : Nat) (p : Option Nat) (line : ImplLine) :
    ((s.sdkCall t p line).impls t).line = line ∨ (s.sdkCall t p line).impls t = s.impls t := by
  unfold State.sdkCall
  split
  · exact Or.inr rfl
  · exact Or.inl (by simp [State.goto, State.setImpl])

/-- With the flag clear, an access leads from such a line to another one. -/
theorem ImplLine.access_keeps {line : ImplLine} {f : Aicall → Aicall × ImplLine}
    (hf : line.access t = some f) (hl : line.keepsHangup answer) {r : Aicall}
    (hr : r.canAudioTaskRunning = false) : (f r).2.keepsHangup answer := by
  cases line <;> simp only [ImplLine.access, Option.some.injEq, reduceCtorEq] at hf <;> subst hf <;>
    dsimp only <;> (try split) <;>
    simp_all [ImplLine.keepsHangup, ImplLine.beforeReturn]

theorem implLine_keepsHangup (h : s.implLine t ok junk = some s')
    (hans : (s.impls t).line = .calling → ok = answer)
    (hl : (s.impls t).line.keepsHangup answer) : (s'.impls t).line.keepsHangup answer := by
  cases he : (s.impls t).line <;> rw [he] at hl hans <;>
    simp only [State.implLine, he, reduceCtorEq, Option.some.injEq] at h <;>
    (try split at h) <;> (try split at h) <;> cases h <;>
    first
      | (rcases sdkCall_line s t _ _ with hs | hs <;> rw [hs] <;>
          simp_all [ImplLine.keepsHangup, ImplLine.beforeReturn])
      | simp_all [State.goto, State.setImpl, State.fail, ImplLine.keepsHangup,
          ImplLine.beforeReturn]

end Lines

/-! ### After the hang-up -/

/-- The session is hung up, and its task is where that is kept. -/
structure Keeping (answer : Bool) (s : State) : Prop where
  hung : HungUp s
  line : (s.impls 0).line.keepsHangup answer

namespace Keeping

variable {answer : Bool} {s s' : State} {a : Action} (h : Keeping answer s)
include h

theorem not_sets : ¬ SetsRunning s a := by
  intro hset
  cases a with
  | impl t ok junk =>
    obtain rfl : t = 0 := h.hung.single.eq_zero (by simp [hset.1])
    have hline := h.line
    rw [hset.1] at hline
    cases hline
  | _ => exact hset

theorem not_enters : ¬ EntersLoop s a := by
  intro henters
  cases a with
  | impl t ok junk =>
    obtain rfl : t = 0 := h.hung.single.eq_zero (by simp [henters.1])
    have hline := h.line
    rw [henters.1] at hline
    cases hline
  | _ => exact henters

theorem implStep_line {t : Nat} {ok : Bool} {junk : Aicall}
    (hans : (s.impls t).line = .calling → ok = answer) (hs : s.implStep t ok junk = some s') :
    (s'.impls 0).line.keepsHangup answer := by
  by_cases ht : t = 0
  · subst ht
    unfold State.implStep at hs
    split at hs
    · exact implLine_keepsHangup hs hans h.line
    · rename_i k hk
      cases hs
      obtain ⟨_, _, rfl⟩ := Thread.access_load hk
      simpa [State.setImpl] using h.line
    · cases hs
      exact h.line
    · rename_i h' k hk
      cases hs
      obtain ⟨f, i, r, hf, _, hi, _, rfl⟩ := Thread.access_done hk
      obtain rfl := h.hung.single.held_zero hi
      simpa [State.setImpl] using ImplLine.access_keeps hf h.line (h.hung.flag r hi)
  · -- there is no other task
    simp [State.implStep, Thread.access, ImplLine.access, State.implLine,
      h.hung.single.line_ne ht] at hs

theorem step (ha : SingleStart s a) (hans : Answers answer s a) (hs : demo.step s a = some s') :
    Keeping answer s' := by
  refine ⟨h.hung.step ha h.not_sets hs, ?_⟩
  simp only [demo, State.step] at hs
  split at hs
  · cases hs
  cases a with
  | key ok =>
    rcases keyStep_tasks hs with ⟨_, hi⟩ | ⟨rfl, hk, _⟩
    · rw [hi]
      exact h.line
    · -- a task created now would be the first one, but the record has been allocated
      have h0 : s.impls 0 = { line := .uncreated } :=
        h.hung.single.inv.created 0 (Nat.le_of_eq (ha hk))
      exact absurd (by rw [h0]; rfl) h.hung.line_ne_unborn
  | impl t ok junk => exact h.implStep_line hans hs
  | callback i =>
    rw [(callbackStep_callbackFrame hs).impls]
    exact h.line
  | call f | agentAudio e | error e code =>
    simp only at hs
    split at hs <;> cases hs
    exact h.line

theorem kept {bs : List Action} (hb : demo.Along SingleStart s bs)
    (hans : demo.Along (Answers answer) s bs) : Kept 0 s bs :=
  ⟨(Machine.always_invariant (fun _ _ _ h hP hs => h.step hP.1 hP.2 hs) h (hb.and hans)).imp
    fun _ h => h.hung.flag,
    Machine.along_invariant (fun _ _ _ h hP hs => h.step hP.1 hP.2 hs)
      (fun _ _ _ h _ _ => h.not_enters) h (hb.and hans)⟩

end Keeping

/-! ### The way to the store of true -/

/-- A state of a run with one session, in which no fault has happened. -/
structure Sound (s : State) : Prop where
  single : Single s
  supplied : ∃ l, ∀ t, Supplied true s l t
  noFault : s.fault = none

/-- The lines up to `g_curr_aicall->can_audio_task_running = true`, if every call succeeds. -/
def ImplLine.ahead : ImplLine → Nat
  | .clearAicall => 14
  | .mallocConfig => 13
  | .storeConfig => 12
  | .loadClearConfig => 11
  | .clearConfig _ => 10
  | .takeConfig => 9
  | .fillConfig _ => 8
  | .init => 7
  | .storeEngine _ => 6
  | .loadCallEngine => 5
  | .loadCallConfig _ => 4
  | .call _ _ => 3
  | .calling => 2
  | .setRunning => 1
  | _ => 0

/-- From `s` there is a way on which the hang-up is not kept. -/
def Loses (answer : Bool) (s : State) : Prop :=
  ∃ bs, demo.Along SingleStart s bs ∧ demo.Along (Answers answer) s bs ∧ ¬ Kept 0 s bs

theorem Loses.step {answer : Bool} {s s' : State} {a : Action} (h : Loses answer s')
    (hs : demo.step s a = some s') (ha : SingleStart s a) (hans : Answers answer s a) :
    Loses answer s := by
  obtain ⟨bs, hb, hansb, hlost⟩ := h
  refine ⟨a :: bs, (Machine.along_cons hs).mpr ⟨ha, hb⟩, (Machine.along_cons hs).mpr ⟨hans, hansb⟩,
    fun hkept => hlost ⟨?_, ?_⟩⟩
  · exact ((Machine.always_cons hs).mp hkept.1).2
  · exact ((Machine.along_cons hs).mp hkept.2).2

/-- A step that sets the flag or begins the body of the loop loses the hang-up. -/
theorem Loses.of_step {answer : Bool} {s s' : State} {a : Action} (hs : demo.step s a = some s')
    (ha : SingleStart s a) (hans : Answers answer s a)
    (hlost : ¬ NotRunning 0 s' ∨ EntersLoop s a) : Loses answer s := by
  refine ⟨[a], (Machine.along_cons hs).mpr ⟨ha, trivial⟩,
    (Machine.along_cons hs).mpr ⟨hans, trivial⟩, fun hkept => ?_⟩
  rcases hlost with hset | henters
  · exact hset ((Machine.always_cons hs).mp hkept.1).2
  · exact ((Machine.along_cons hs).mp hkept.2).1 henters

theorem Sound.of_run {as : List Action} {s : State} (hone : demo.Along SingleStart demo.init as)
    (hr : demo.run demo.init as = some s) (hf : s.fault = none) : Sound s := by
  have hvacant : demo.Along AllocatesVacant demo.init as :=
    Machine.along_invariant (fun _ _ _ h ha hs => h.step ha hs) (fun _ a _ h _ _ => h.vacant a)
      Single.init hone
  obtain ⟨l, -, -, hl⟩ := (ledger_simulated true).run hvacant hr
  exact ⟨Machine.run_invariant (fun _ _ _ h ha hs => h.step ha hs) Single.init hone hr, ⟨l, hl⟩, hf⟩

namespace Sound

variable {s s' : State} (h : Sound s)
include h

theorem step {a : Action} (ha : SingleStart s a) (hs : demo.step s a = some s')
    (hf : s'.fault = none) : Sound s' := by
  obtain ⟨l, hl⟩ := h.supplied
  obtain ⟨l', -, -, hl'⟩ :=
    (ledger_simulated true).step s l a s' ⟨h.single.inv, hl⟩ (h.single.vacant a) hs
  exact ⟨h.single.step ha hs, ⟨l', hl'⟩, hf⟩

theorem impl_step (ok : Bool) (hs : s.implStep 0 ok {} = some s') :
    demo.step s (.impl 0 ok {}) = some s' := by
  simp [demo, State.step, h.noFault, hs]

/-- The read of `g_curr_aicall` before an access. -/
theorem load {f : Aicall → Aicall × ImplLine} (hf : (s.impls 0).line.access 0 = some f)
    (hp : (s.impls 0).ptr = none) (ok : Bool) :
    demo.step s (.impl 0 ok {}) =
      some (s.setImpl 0 { line := (s.impls 0).line, ptr := some (some 0) }) := by
  have hcurr : s.gCurrAicall = some 0 :=
    h.single.inv.curr (access_inSession (Option.isSome_iff_exists.mpr ⟨f, hf⟩))
  refine h.impl_step ok ?_
  simp [State.implStep, Thread.access, hf, hp, hcurr]

/-- The access itself. -/
theorem access {f : Aicall → Aicall × ImplLine} (hf : (s.impls 0).line.access 0 = some f)
    {p : Option Nat} (hp : (s.impls 0).ptr = some p) {r : Aicall} (hr : s.aicalls 0 = .held r)
    (ok : Bool) :
    demo.step s (.impl 0 ok {}) = some ({ s with
      aicalls := Function.update s.aicalls 0 (.held (f r).1) }.setImpl 0 { line := (f r).2 }) := by
  obtain rfl := h.single.inv.ptr 0 p hp
  refine h.impl_step ok ?_
  simp [State.implStep, Thread.access, hf, hp, Heap.deref_of_held hr, Heap.write]

/-- The other lines on the way, each with the outcome that leads on. -/
theorem line_ahead (hl : 1 < (s.impls 0).line.ahead)
    (hf : (s.impls 0).line.access 0 = none) : ∃ t, s.implLine 0 true {} = some t ∧
      t.fault = none ∧ 0 < (t.impls 0).line.ahead ∧
      (t.impls 0).line.ahead < (s.impls 0).line.ahead := by
  obtain ⟨l, hsupplied⟩ := h.supplied
  have hsupply := (hsupplied 0).supply
  have hconfig := (hsupplied 0).own
  have hstage := h.single.inv.stage 0
  have hown := h.single.inv.own 0
  cases he : (s.impls 0).line <;> rw [he] at hl hf hsupply hconfig hstage hown <;>
    simp only [ImplLine.ahead, ImplLine.access, reduceCtorEq, Nat.lt_irrefl, Nat.not_lt_zero]
      at hl hf
  case clearConfig c =>
    obtain rfl : c = some 0 := hconfig
    refine ⟨s.goto 0 .takeConfig, ?_, h.noFault, ?_⟩
    · simp only [State.implLine, he, Heap.deref_of_held hsupply.1]
    · simp [State.goto, State.setImpl, ImplLine.ahead]
  case fillConfig c =>
    obtain rfl : c = some 0 := hconfig
    refine ⟨s.goto 0 .init, ?_, h.noFault, ?_⟩
    · simp only [State.implLine, he, Heap.deref_of_held hsupply.1]
    · simp [State.goto, State.setImpl, ImplLine.ahead]
  case call e c =>
    obtain rfl : e = some 0 := hown
    obtain rfl : c = some 0 := hconfig
    refine ⟨s.goto 0 .calling, ?_, h.noFault, ?_⟩
    · simp only [State.implLine, he, Heap.deref_of_held hsupply.1, State.sdkCall, State.passEngine,
        hstage.2]
    · simp [State.goto, State.setImpl, ImplLine.ahead]
  all_goals
    refine ⟨_, by simp only [State.implLine, he, if_true]; rfl, ?_, ?_⟩
    · exact h.noFault
    · simp [State.goto, State.setImpl, ImplLine.ahead]

end Sound

theorem ImplLine.access_ahead {line : ImplLine} {f : Aicall → Aicall × ImplLine}
    (hf : line.access 0 = some f) (hl : 1 < line.ahead) (r : Aicall) :
    0 < (f r).2.ahead ∧ (f r).2.ahead < line.ahead := by
  cases line <;> simp only [ImplLine.access, Option.some.injEq, reduceCtorEq] at hf <;> subst hf <;>
    simp_all [ImplLine.ahead]

theorem ImplLine.eq_setRunning {line : ImplLine} (h0 : 0 < line.ahead) (h1 : ¬ 1 < line.ahead) :
    line = .setRunning := by
  cases line <;> simp_all [ImplLine.ahead]

/-- A task before its store of true comes to it, and the flag is set. -/
theorem Sound.loses {answer : Bool} {s : State} (h : Sound s) (hl : 0 < (s.impls 0).line.ahead)
    (hans : answer = true ∨ (s.impls 0).line = .setRunning) : Loses answer s := by
  induction hk : (s.impls 0).variant ImplLine.ahead using Nat.strongRecOn generalizing s with
  | ind k ih =>
  have hanswers : Answers answer s (.impl 0 true {}) := by
    rintro hcalling
    rcases hans with rfl | hset
    · rfl
    · simp [hset] at hcalling
  -- a step that leads on, and what is lost from there
  have next {t : State} (hs : demo.step s (.impl 0 true {}) = some t) (hf : t.fault = none)
      (hahead : 0 < (t.impls 0).line.ahead)
      (hans : answer = true ∨ (t.impls 0).line = .setRunning)
      (hlt : (t.impls 0).variant ImplLine.ahead < k) : Loses answer s :=
    have ht : Sound t := h.step (a := .impl 0 true {}) trivial hs hf
    (ih _ hlt ht hahead hans rfl).step hs trivial hanswers
  cases hacc : (s.impls 0).line.access 0 with
  | none =>
    have hone : 1 < (s.impls 0).line.ahead := by
      by_contra hone
      rw [ImplLine.eq_setRunning hl hone] at hacc
      cases hacc
    obtain ⟨t, ht, hf, hahead, hlt⟩ := h.line_ahead hone hacc
    have hs : s.implStep 0 true {} = some t := by
      simp only [State.implStep, Thread.access, hacc]
      exact ht
    refine next (h.impl_step true hs) hf hahead (hans.imp_right fun hset => ?_)
      (hk ▸ Thread.variant_lt hlt)
    rw [hset] at hacc
    cases hacc
  | some f =>
    cases hp : (s.impls 0).ptr with
    | none =>
      refine next (h.load hacc hp true) h.noFault ?_ ?_ ?_
      · simpa [State.setImpl] using hl
      · simpa [State.setImpl] using hans
      · rw [← hk]
        simp only [State.setImpl, Function.update_self]
        exact Thread.variant_load hp
    | some p =>
      obtain ⟨r, hr⟩ := (h.single.inv.held
        (ImplLine.access_allocated (Option.isSome_iff_exists.mpr ⟨f, hacc⟩))).2
      have hs := h.access hacc hp hr true
      by_cases hone : 1 < (s.impls 0).line.ahead
      · obtain ⟨hahead, hlt⟩ := ImplLine.access_ahead hacc hone r
        refine next hs h.noFault ?_ ?_ (hk ▸ Thread.variant_lt ?_)
        · simpa [State.setImpl] using hahead
        · refine hans.imp_right fun hset => ?_
          simp [hset, ImplLine.ahead] at hone
        · simpa [State.setImpl] using hlt
      · have hset := ImplLine.eq_setRunning hl hone
        have hsets : SetsRunning s (.impl 0 true {}) := ⟨hset, by rw [hp]; rfl⟩
        exact Loses.of_step hs trivial hanswers (Or.inl (hsets.running h.single hs))

section Enters

variable {answer : Bool} {s : State} (h : Sound s) (hl : (s.impls 0).line = .testEngine)
include h hl

/-- The session's engine is there, so the test of it begins the body. -/
theorem Sound.entersBody (hp : (s.impls 0).ptr = some (some 0)) : Loses answer s := by
  obtain ⟨⟨r, hr, he⟩, -⟩ := h.single.inv.stage_eq hl
  have henters : EntersLoop s (.impl 0 true {}) :=
    ⟨hl, some 0, r, hp, Heap.deref_of_held hr, by rw [he]; rfl⟩
  have hs := h.access (by rw [hl]; rfl) hp hr true
  exact Loses.of_step hs trivial (fun hcalling => by simp [hl] at hcalling) (Or.inr henters)

/-- A task that has read the flag as true goes on to the body of the loop. -/
theorem Sound.enters : Loses answer s := by
  cases hp : (s.impls 0).ptr with
  | none =>
    have hs := h.load (by rw [hl]; rfl) hp true
    have hnext := h.step (a := .impl 0 true {}) trivial hs h.noFault
    refine Loses.step (hnext.entersBody ?_ ?_) hs trivial fun hcalling => by simp [hl] at hcalling
    · simp [State.setImpl, hl]
    · simp [State.setImpl]
  | some p =>
    obtain rfl := h.single.inv.ptr 0 p hp
    exact h.entersBody hl hp

end Enters

theorem ImplLine.not_keeps {answer : Bool} {line : ImplLine} (h : ¬ line.keepsHangup answer) :
    line = .testEngine ∨
      (line.stage = .unborn ∨ 0 < line.ahead) ∧ (answer = true ∨ line = .setRunning) := by
  cases answer <;> cases line <;>
    simp_all [ImplLine.keepsHangup, ImplLine.beforeReturn, ImplLine.stage, ImplLine.ahead]

/-- A hang-up is kept in every continuation of its run, for a given outcome of `artc_aicall_call`,
if and only if its store finds the session's task at a line that keeps it. -/
theorem hangup_kept_iff {as : List Action} {a : Action} {s s' : State} {i : Nat} (answer : Bool)
    (hr : demo.run demo.init as = some s) (hone : demo.Along SingleStart demo.init (as ++ [a]))
    (hh : StoresHangup s a i) (hs : demo.step s a = some s') :
    (∀ bs, demo.Along SingleStart s' bs → demo.Along (Answers answer) s' bs → Kept i s' bs) ↔
      (s.impls i).line.keepsHangup answer := by
  obtain ⟨has, hlast⟩ := (Machine.along_append hr).mp hone
  have ha := ((Machine.along_cons hs).mp hlast).1
  have hsingle : Single s :=
    Machine.run_invariant (fun _ _ _ h ha hs => h.step ha hs) Single.init has hr
  obtain ⟨hung, rfl, himpls, hf⟩ := hh.hungUp hsingle ha hs
  constructor
  · intro hkept
    by_contra hline
    have hrun : demo.run demo.init (as ++ [a]) = some s' := by
      rw [Machine.run_append, hr]
      exact (Machine.run_singleton s a).trans hs
    have hsound : Sound s' := .of_run hone hrun hf
    obtain ⟨bs, hb, hans, hlost⟩ : Loses answer s' := by
      rw [← himpls] at hline
      rcases ImplLine.not_keeps hline with htest | ⟨hunborn | hahead, hans⟩
      · exact hsound.enters htest
      · exact absurd hunborn hung.line_ne_unborn
      · exact hsound.loses hahead hans
    exact hlost (hkept bs hb hans)
  · intro hline bs hb hans
    exact Keeping.kept ⟨hung, by rwa [himpls]⟩ hb hans

/-- A call that is being set up in the SDK, and a hang-up of it, up to its store. -/
def hangupInCall : List Action :=
  [.call .startCall, .key true, .key true] ++ List.replicate 21 (.impl 0 true {}) ++
    [.call .handup, .key true, .key true, .key true, .key true]

/-- The hang-up is kept if the call fails. -/
theorem hangupInCall_kept : ∃ s s', demo.run demo.init hangupInCall = some s ∧
    StoresHangup s (.key true) 0 ∧ demo.step s (.key true) = some s' ∧
    ∀ bs, demo.Along SingleStart s' bs → demo.Along (Answers false) s' bs → Kept 0 s' bs :=
  ⟨_, _, rfl, ⟨.handup, true, _, rfl, rfl, rfl⟩, rfl,
    (@hangup_kept_iff hangupInCall (.key true) _ _ 0 false rfl (by decide)
      ⟨.handup, true, _, rfl, rfl, rfl⟩ rfl).mpr rfl⟩

/-- The call succeeds, and its task sets the flag that the hang-up has cleared. -/
theorem hangup_lost : ¬ ∀ (as bs : List Action) (a : Action) (s s' : State) (i : Nat),
    demo.run demo.init as = some s → demo.Along SingleStart demo.init (as ++ a :: bs) →
    StoresHangup s a i → demo.step s a = some s' → Kept i s' bs := by
  intro h
  obtain ⟨hflag, -⟩ := h hangupInCall (List.replicate 3 (.impl 0 true {})) (.key true) _ _ 0 rfl
    (by decide) ⟨.handup, true, _, rfl, rfl, rfl⟩ rfl
  have hr := hflag.last rfl _ rfl
  exact Bool.noConfusion hr

end AiCall.Esp32
