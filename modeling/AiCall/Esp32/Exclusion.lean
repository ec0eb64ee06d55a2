import AiCall.Esp32.Ownership
import Mathlib.Data.List.Nodup

/-! Mutual exclusion of the ESP32 call sessions, and the release of what they create.  `handup` lets
a second `start_call` pass while the first session has no engine yet, or while its task still tears
it down, so both can fail; they hold on exactly the runs in which every task that allocates
`g_curr_aicall` finds it `NULL`, the test that `artc_aicall_demo_start_call` of the JL demo
makes. -/

namespace AiCall.Esp32

open Kit

/-- At most one task is between its allocation of `g_curr_aicall` and the end of its
`destroy_aicall`. -/
def Exclusive (s : State) : Prop :=
  ∀ t u, (s.impls t).line.inSession → (s.impls u).line.inSession → t = u

/-- The task has left `artc_aicall_demo_start_call_impl`. -/
def ImplLine.ended (line : ImplLine) : Bool := line.stage = .gone

/-- Records and engines are released by the task that created them, at most once, and once when the
task has ended. -/
structure Released (s : State) : Prop where
  recordByCreator : ∀ a r, (a, r) ∈ s.freedBy → a = r
  engineByCreator : ∀ a e, (a, e) ∈ s.destroyedBy → a = e
  recordAtMostOnce : ∀ t, s.freedBy.count (t, t) ≤ 1
  engineAtMostOnce : ∀ t, s.destroyedBy.count (t, t) ≤ 1
  record : ∀ t, (s.impls t).line.ended → s.aicalls t ≠ .fresh → s.freedBy.count (t, t) = 1
  engine : ∀ t, (s.impls t).line.ended → s.engines t ≠ .absent → s.destroyedBy.count (t, t) = 1

theorem Inv.exclusive {s : State} (h : Inv s) : Exclusive s := fun _ _ ht hu => h.alone ht hu

theorem Inv.ended {s : State} (h : Inv s) {t : Nat} (ht : (s.impls t).line.ended) :
    s.aicalls t = .freed ∧ (s.engines t = .absent ∨ s.engines t = .destroyed) := by
  have hs := h.stage t
  rw [show (s.impls t).line.stage = .gone by simpa [ImplLine.ended] using ht] at hs
  exact hs

theorem Inv.released {s : State} (h : Inv s) : Released s where
  recordByCreator a r hm := ((h.freed a r).mp hm).1
  engineByCreator a e hm := ((h.destroyed a e).mp hm).1
  recordAtMostOnce _ := List.nodup_iff_count_le_one.mp h.freedOnce _
  engineAtMostOnce _ := List.nodup_iff_count_le_one.mp h.destroyedOnce _
  record t ht _ :=
    List.count_eq_one_of_mem h.freedOnce ((h.freed t t).mpr ⟨rfl, (h.ended ht).1⟩)
  engine t ht he :=
    List.count_eq_one_of_mem h.destroyedOnce
      ((h.destroyed t t).mpr ⟨rfl, Or.inr ((h.ended ht).2.resolve_left he)⟩)

/-- An allocation over a published session leaves two tasks in session. -/
theorem Inv.overwrites {s s' : State} {a : Action} (h : Inv s) (hs : demo.step s a = some s')
    (hx : Exclusive s') : AllocatesVacant s a := by
  rintro t ok junk rfl hl
  cases hc : s.gCurrAicall with
  | none => rfl
  | some u =>
    have hu := (h.owner u).mp hc
    have hne : u ≠ t := by
      rintro rfl
      simp [hl, ImplLine.inSession, ImplLine.stage] at hu
    have hs' : s' = { s with
        gCurrAicall := some t
        aicalls := Function.update s.aicalls t (.held junk) }.goto t .clearAicall := by
      simp only [demo, State.step] at hs
      split at hs
      · cases hs
      · simpa [State.implStep, Thread.access, hl, ImplLine.access, State.implLine] using hs.symm
    refine absurd (hx u t ?_ ?_) hne
    · simpa [hs', State.goto, State.setImpl, hne] using hu
    · simp [hs', State.goto, State.setImpl, ImplLine.inSession, ImplLine.stage]

/-- In every run, sessions exclude each other and what they create is released once and by its
creator, if and only if no task allocates `g_curr_aicall` over a session. -/
theorem sessions_owned_iff (as : List Action) :
    demo.Always (fun s => Exclusive s ∧ Released s) demo.init as ↔
      demo.Along AllocatesVacant demo.init as :=
  Machine.always_iff_along (fun _ _ _ h _ hv hs => step_inv h hv hs)
    (fun _ h => ⟨h.exclusive, h.released⟩) (fun _ _ _ h _ hs hx => h.overwrites hs hx.1)
    inv_init (Machine.along_true _ _)

/-- Two presses of the start key: the second finds the first session without an engine. -/
def secondStart : List Action :=
  [.call .startCall, .key true, .key true, .impl 0 true {}, .impl 0 true {}, .impl 0 true {},
    .impl 0 true {}, .call .startCall, .key true, .key true, .key true, .key true, .impl 1 true {},
    .impl 1 true {}]

theorem secondStart_not_exclusive :
    ¬ ∀ as, demo.Always (fun s => Exclusive s ∧ Released s) demo.init as := by
  intro h
  have hrun : (demo.run demo.init secondStart).map
      (fun s => ((s.impls 0).line.inSession, (s.impls 1).line.inSession)) = some (true, true) := rfl
  obtain ⟨s, hs, hboth⟩ := Option.map_eq_some_iff.mp hrun
  obtain ⟨h0, h1⟩ := Prod.mk.inj hboth
  exact absurd (((h secondStart).last hs).1 0 1 h0 h1) (by decide)

end AiCall.Esp32
