import AiCall.Esp32.Ownership

/-! Runs of the ESP32 demo with one session: a single task is ever created, so it owns everything.
What each kind of step leaves alone is stated here once, for the hang-up and the teardown. -/

namespace AiCall.Esp32

open Kit

/-- At most one task is created. -/
def SingleStart (s : State) : Action → Prop
  | .key true => s.key.line = .createTask → s.tasks = 0
  | _ => True

instance (s : State) (a : Action) : Decidable (SingleStart s a) := by
  unfold SingleStart
  split <;> infer_instance

/-- A step of a task leaves the key task and the callbacks alone. -/
structure ImplFrame (s s' : State) : Prop where
  key : s'.key = s.key
  tasks : s'.tasks = s.tasks
  callbacks : s'.callbacks = s.callbacks
  callbackCount : s'.callbackCount = s.callbackCount

theorem sdkCall_frame (s : State) (t : Nat) (p : Option Nat) (line : ImplLine) :
    ImplFrame s (s.sdkCall t p line) := by
  unfold State.sdkCall
  split <;> exact ⟨rfl, rfl, rfl, rfl⟩

theorem implStep_frame {s s' : State} {t : Nat} {ok : Bool} {junk : Aicall}
    (h : s.implStep t ok junk = some s') : ImplFrame s s' := by
  unfold State.implStep at h
  split at h
  · cases hl : (s.impls t).line <;>
      simp only [State.implLine, hl, reduceCtorEq, Option.some.injEq] at h <;>
      (try split at h) <;> (try split at h) <;> cases h <;>
      first
        | exact sdkCall_frame ..
        | exact ⟨rfl, rfl, rfl, rfl⟩
  all_goals
    cases h
    exact ⟨rfl, rfl, rfl, rfl⟩

/-- A step of the key task leaves the callbacks and the player alone. -/
structure KeyFrame (s s' : State) : Prop where
  callbacks : s'.callbacks = s.callbacks
  callbackCount : s'.callbackCount = s.callbackCount
  players : s'.players = s.players

theorem keyStep_keyFrame {s s' : State} {ok : Bool} (h : s.keyStep ok = some s') :
    KeyFrame s s' := by
  unfold State.keyStep at h
  split at h
  · cases hl : s.key.line <;>
      simp only [State.keyLine, hl, reduceCtorEq, Option.some.injEq] at h <;>
      (try split at h) <;> cases h <;> exact ⟨rfl, rfl, rfl⟩
  all_goals
    cases h
    exact ⟨rfl, rfl, rfl⟩

theorem keyStep_tasks {s s' : State} {ok : Bool} (h : s.keyStep ok = some s') :
    s'.tasks = s.tasks ∧ s'.impls = s.impls ∨
      ok = true ∧ s.key.line = .createTask ∧ s'.tasks = s.tasks + 1 := by
  unfold State.keyStep at h
  split at h
  · cases hl : s.key.line <;>
      simp only [State.keyLine, hl, reduceCtorEq, Option.some.injEq] at h <;>
      (try split at h) <;> cases h
    all_goals first
      | exact Or.inl ⟨rfl, rfl⟩
      | exact Or.inr ⟨‹ok = true›, rfl, rfl⟩
  all_goals
    cases h
    exact Or.inl ⟨rfl, rfl⟩

/-- A step of a callback changes nothing but that callback. -/
structure CallbackFrame (s s' : State) (i : Nat) : Prop where
  key : s'.key = s.key
  tasks : s'.tasks = s.tasks
  impls : s'.impls = s.impls
  aicalls : s'.aicalls = s.aicalls
  players : s'.players = s.players
  callbackCount : s'.callbackCount = s.callbackCount
  others : ∀ j, j ≠ i → s'.callbacks j = s.callbacks j

theorem callbackStep_callbackFrame {s s' : State} {i : Nat} (h : s.callbackStep i = some s') :
    CallbackFrame s s' i := by
  have set (c : Callback) : CallbackFrame s (s.setCallback i c) i :=
    ⟨rfl, rfl, rfl, rfl, rfl, rfl, fun j hj => Function.update_of_ne hj _ _⟩
  have fail (f : Fault) : CallbackFrame s (s.fail f) i :=
    ⟨rfl, rfl, rfl, rfl, rfl, rfl, fun _ _ => rfl⟩
  unfold State.callbackStep at h
  simp only at h
  split at h
  · unfold State.callbackLine at h
    simp only at h
    split at h
    case h_3 => split at h <;> cases h <;> first | exact set _ | exact fail _
    all_goals cases h
    all_goals first | exact set _ | exact fail _
  · cases h
    exact set _
  · cases h
    exact fail _
  · rename_i h' k ha
    cases h
    obtain ⟨f, j, r, hf, _, hj, rfl, _⟩ := Thread.access_done ha
    refine ⟨rfl, rfl, rfl, ?_, rfl, rfl, fun j hj => Function.update_of_ne hj _ _⟩
    change Function.update s.aicalls j (.held (f r).1) = s.aicalls
    rw [CallbackLine.access_record hf, ← hj]
    exact Function.update_eq_self j s.aicalls

/-- The states of a run with one session. -/
structure Single (s : State) : Prop where
  inv : Inv s
  one : s.tasks ≤ 1

namespace Single

theorem init : Single demo.init := ⟨inv_init, Nat.zero_le 1⟩

variable {s s' : State} (h : Single s)
include h

theorem line_ne {t : Nat} (ht : t ≠ 0) : (s.impls t).line = .uncreated := by
  rw [h.inv.created t (by have := h.one; omega)]

theorem eq_zero {t : Nat} (ht : (s.impls t).line ≠ .uncreated) : t = 0 := by
  by_contra hne
  exact ht (h.line_ne hne)

theorem held_zero {i : Nat} {r : Aicall} (hi : s.aicalls i = .held r) : i = 0 := by
  by_contra hne
  have hs := h.inv.stage i
  rw [h.line_ne hne] at hs
  simp [hi, Stage.Holds, ImplLine.stage] at hs

theorem engine_zero {e : Nat} (he : s.engines e ≠ .absent) : e = 0 := by
  by_contra hne
  have hs := h.inv.stage e
  rw [h.line_ne hne] at hs
  exact he hs.2

theorem curr_zero {i : Nat} (hc : s.gCurrAicall = some i) : i = 0 := by
  have hin := (h.inv.owner i).mp hc
  exact h.eq_zero (ImplLine.ne_uncreated hin)

/-- With one session, an allocation never overwrites another. -/
theorem vacant (a : Action) : AllocatesVacant s a := by
  rintro t ok junk rfl hl
  cases hc : s.gCurrAicall with
  | none => rfl
  | some i =>
    have hin := (h.inv.owner i).mp hc
    rw [h.curr_zero hc, ← h.eq_zero (t := t) (by simp [hl]), hl] at hin
    cases hin

theorem step {a : Action} (ha : SingleStart s a) (hs : demo.step s a = some s') : Single s' := by
  refine ⟨step_inv h.inv (h.vacant a) hs, ?_⟩
  have hone := h.one
  simp only [demo, State.step] at hs
  split at hs
  · cases hs
  cases a with
  | key ok =>
    rcases keyStep_tasks hs with ⟨ht, _⟩ | ⟨rfl, hl, ht⟩
    · omega
    · have := ha hl
      omega
  | impl t ok junk => rw [(implStep_frame hs).tasks]; exact hone
  | callback i => rw [(callbackStep_callbackFrame hs).tasks]; exact hone
  | call f | agentAudio e | error e code =>
    simp only at hs
    split at hs <;> cases hs
    exact hone

end Single

end AiCall.Esp32
