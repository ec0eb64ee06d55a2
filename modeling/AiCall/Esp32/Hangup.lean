import AiCall.Esp32.Single

/-! A hang-up on the ESP32 and the running flag of its session.  Both the key task and the session's
task write `can_audio_task_running`: `handup` clears it from the moment the engine is published,
and the session's task sets it only after the blocking `artc_aicall_call`.  Every other step leaves
a flag that is clear as it is. -/

namespace AiCall.Esp32

open Kit

/-- `handup`, past its tests, stores `can_audio_task_running = false` in record `i`. -/
def StoresHangup (s : State) (a : Action) (i : Nat) : Prop :=
  ∃ f ok r, a = .key ok ∧ s.key = { line := .clearRunning f, ptr := some (some i) } ∧
    s.aicalls i = .held r

/-- A session's task stores `can_audio_task_running = true`. -/
def SetsRunning (s : State) : Action → Prop
  | .impl t _ _ => (s.impls t).line = .setRunning ∧ (s.impls t).ptr.isSome
  | _ => False

/-- A session's task passes the last test of its loop and begins the body. -/
def EntersLoop (s : State) : Action → Prop
  | .impl t _ _ => (s.impls t).line = .testEngine ∧
    ∃ p r, (s.impls t).ptr = some p ∧ s.aicalls.deref p = some r ∧ r.engine.isSome
  | _ => False

/-- The running flag of record `i` is clear, as long as the record exists. -/
def NotRunning (i : Nat) (s : State) : Prop :=
  ∀ r, s.aicalls i = .held r → r.canAudioTaskRunning = false

/-- After a hang-up: the record has been allocated, and its flag is clear. -/
structure HungUp (s : State) : Prop where
  single : Single s
  allocated : s.aicalls 0 ≠ .fresh
  flag : NotRunning 0 s

theorem KeyLine.access_flag {line : KeyLine} {f : Aicall → Aicall × KeyLine}
    (hf : line.access = some f) {r : Aicall} (hr : r.canAudioTaskRunning = false) :
    (f r).1.canAudioTaskRunning = false := by
  cases line <;> simp only [KeyLine.access, Option.some.injEq, reduceCtorEq] at hf <;> subst hf <;>
    first | rfl | exact hr

/-- Every access of the session's task but one leaves a clear flag clear. -/
theorem ImplLine.access_flag {t : Nat} {line : ImplLine} {f : Aicall → Aicall × ImplLine}
    (hf : line.access t = some f) (hl : line ≠ .setRunning) {r : Aicall}
    (hr : r.canAudioTaskRunning = false) : (f r).1.canAudioTaskRunning = false := by
  cases line <;> simp only [ImplLine.access, Option.some.injEq, reduceCtorEq] at hf <;> subst hf <;>
    simp_all

theorem sdkCall_aicalls (s : State) (t : Nat) (p : Option Nat) (line : ImplLine) :
    (s.sdkCall t p line).aicalls = s.aicalls := by
  unfold State.sdkCall
  split <;> rfl

theorem implLine_aicalls {s s' : State} {t : Nat} {ok : Bool} {junk : Aicall}
    (h : s.implLine t ok junk = some s') :
    s'.aicalls = s.aicalls ∨ (s.impls t).line = .mallocAicall ∨
      ∃ i, s'.aicalls = Function.update s.aicalls i .freed := by
  cases hl : (s.impls t).line <;>
    simp only [State.implLine, hl, reduceCtorEq, Option.some.injEq] at h <;>
    (try split at h) <;> (try split at h) <;> cases h <;>
    first
      | exact Or.inr (Or.inl rfl)
      | exact Or.inl (sdkCall_aicalls ..)
      | exact Or.inl rfl
      | exact Or.inr (Or.inr ⟨_, rfl⟩)

/-- A cell that is as well hung up as another one. -/
def StaysClear (c d : Cell Aicall) : Prop :=
  d = c ∨ d = .freed ∨ ∃ r r', c = .held r ∧ d = .held r' ∧
    (r.canAudioTaskRunning = false → r'.canAudioTaskRunning = false)

theorem StaysClear.update {s : State} {i : Nat} {r r' : Aicall} (hi : s.aicalls i = .held r)
    (hr : r.canAudioTaskRunning = false → r'.canAudioTaskRunning = false) :
    StaysClear (s.aicalls 0) (Function.update s.aicalls i (.held r') 0) := by
  by_cases h0 : 0 = i
  · subst h0
    exact Or.inr (Or.inr ⟨r, r', hi, Function.update_self .., hr⟩)
  · exact Or.inl (Function.update_of_ne h0 _ _)

theorem keyStep_staysClear {s s' : State} {ok : Bool} (h : s.keyStep ok = some s') :
    StaysClear (s.aicalls 0) (s'.aicalls 0) := by
  unfold State.keyStep at h
  split at h
  · cases hl : s.key.line <;>
      simp only [State.keyLine, hl, reduceCtorEq, Option.some.injEq] at h <;>
      (try split at h) <;> cases h <;> exact Or.inl rfl
  · cases h
    exact Or.inl rfl
  · cases h
    exact Or.inl rfl
  · rename_i h' k ha
    cases h
    obtain ⟨f, i, r, hf, _, hi, rfl, _⟩ := Thread.access_done ha
    exact StaysClear.update hi (KeyLine.access_flag hf)

theorem implStep_staysClear {s s' : State} {t : Nat} {ok : Bool} {junk : Aicall}
    (h : s.implStep t ok junk = some s') (hm : (s.impls t).line ≠ .mallocAicall)
    (hr : ¬ SetsRunning s (.impl t ok junk)) : StaysClear (s.aicalls 0) (s'.aicalls 0) := by
  unfold State.implStep at h
  split at h
  · rcases implLine_aicalls h with he | he | ⟨i, he⟩
    · exact Or.inl (by rw [he])
    · exact absurd he hm
    · by_cases h0 : 0 = i
      · exact Or.inr (Or.inl (by rw [he, h0, Function.update_self]))
      · exact Or.inl (by rw [he, Function.update_of_ne h0])
  · cases h
    exact Or.inl rfl
  · cases h
    exact Or.inl rfl
  · rename_i h' k ha
    cases h
    obtain ⟨f, i, r, hf, hp, hi, rfl, _⟩ := Thread.access_done ha
    have hne : (s.impls t).line ≠ .setRunning := fun hl => hr ⟨hl, by rw [hp]; rfl⟩
    exact StaysClear.update hi fun hc => ImplLine.access_flag hf hne hc

namespace HungUp

variable {s s' : State} {a : Action} (h : HungUp s)
include h

theorem of_staysClear (hs : Single s') (hc : StaysClear (s.aicalls 0) (s'.aicalls 0)) :
    HungUp s' := by
  rcases hc with hc | hc | ⟨r, r', hr, hr', hf⟩
  · exact ⟨hs, hc ▸ h.allocated, fun r hr => h.flag r (hc ▸ hr)⟩
  · exact ⟨hs, by simp [hc], fun r hr => by simp [hc] at hr⟩
  · refine ⟨hs, by simp [hr'], fun q hq => ?_⟩
    obtain rfl : r' = q := by simpa [hr'] using hq
    exact hf (h.flag r hr)

theorem line_ne_unborn (hl : (s.impls 0).line.stage = .unborn) : False := by
  have hs := h.single.inv.stage 0
  rw [hl] at hs
  exact h.allocated hs.1

/-- The flag stays clear, as long as the session's task does not set it. -/
theorem step (ha : SingleStart s a) (hr : ¬ SetsRunning s a) (hs : demo.step s a = some s') :
    HungUp s' := by
  refine h.of_staysClear (h.single.step ha hs) ?_
  simp only [demo, State.step] at hs
  split at hs
  · cases hs
  cases a with
  | key ok => exact keyStep_staysClear hs
  | impl t ok junk =>
    refine implStep_staysClear hs (fun hl => ?_) hr
    have ht : t = 0 := h.single.eq_zero (by simp [hl])
    subst ht
    exact h.line_ne_unborn (by rw [hl]; rfl)
  | callback i => exact Or.inl (by rw [(callbackStep_callbackFrame hs).aicalls])
  | call f | agentAudio e | error e code =>
    simp only at hs
    split at hs <;> cases hs
    exact Or.inl rfl

end HungUp

theorem StoresHangup.hungUp {s s' : State} {a : Action} {i : Nat} (h : StoresHangup s a i)
    (hs : Single s) (ha : SingleStart s a) (hst : demo.step s a = some s') :
    HungUp s' ∧ i = 0 ∧ s'.impls = s.impls ∧ s'.fault = none := by
  obtain ⟨f, ok, r, rfl, hk, hi⟩ := h
  obtain rfl : i = 0 := hs.held_zero hi
  have hnext := hs.step ha hst
  simp only [demo, State.step] at hst
  split at hst
  · cases hst
  have hnone : s.fault = none := Option.not_isSome_iff_eq_none.mp ‹_›
  have hs' : s' = { s with
      aicalls := Function.update s.aicalls 0 (.held { r with canAudioTaskRunning := false })
      key := { line := .delay f } } := by
    simpa [State.keyStep, Thread.access, KeyLine.access, hk, Heap.deref_of_held hi,
      Heap.write] using hst.symm
  subst hs'
  refine ⟨⟨hnext, by simp, fun q hq => ?_⟩, rfl, rfl, hnone⟩
  simp only [Function.update_self, Cell.held.injEq] at hq
  rw [← hq]

theorem SetsRunning.running {s s' : State} {a : Action} (h : SetsRunning s a) (hs : Single s)
    (hst : demo.step s a = some s') : ¬ NotRunning 0 s' := by
  cases a with
  | impl t ok junk =>
    obtain ⟨hl, hp⟩ := h
    obtain rfl : t = 0 := hs.eq_zero (by simp [hl])
    obtain ⟨p, hp⟩ := Option.isSome_iff_exists.mp hp
    obtain rfl : p = some 0 := hs.inv.ptr 0 p hp
    obtain ⟨⟨r, hr, _⟩, _⟩ := hs.inv.stage_eq hl
    simp only [demo, State.step] at hst
    split at hst
    · cases hst
    have hs' : s'.aicalls 0 = .held { r with canAudioTaskRunning := true } := by
      simp only [State.implStep, Thread.access, hl, ImplLine.access, hp, Heap.deref_of_held hr,
        Heap.write, Option.some.injEq] at hst
      subst hst
      simp [State.setImpl]
    exact fun hn => absurd (hn _ hs') (by simp)
  | _ => exact h.elim

end AiCall.Esp32
