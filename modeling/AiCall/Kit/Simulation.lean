import AiCall.Kit.Machine

/-! Refinement between machines.  Each step of a concrete machine emits a list of events, and a
simulation matches it with the abstract steps that read them.  A run of the concrete machine then
emits a word that the abstract machine reads from its initial state. -/

namespace AiCall.Kit.Machine

variable {σ α τ β : Type*} {M : Machine σ α} {N : Machine τ β}

theorem run_append {s : τ} (w v : List β) : N.run s (w ++ v) = (N.run s w).bind (N.run · v) := by
  induction w generalizing s with
  | nil => rfl
  | cons b w ih =>
    rw [List.cons_append, run, run]
    cases N.step s b with
    | none => rfl
    | some t => exact ih

@[simp] theorem run_singleton (s : τ) (b : β) : N.run s [b] = N.step s b := by
  rw [run]
  cases N.step s b <;> rfl

/-- The events of a run, up to the first action that is not enabled. -/
def trace (M : Machine σ α) (emit : σ → α → List β) : σ → List α → List β
  | _, [] => []
  | s, a :: as =>
    match M.step s a with
    | none => []
    | some t => emit s a ++ M.trace emit t as

theorem trace_cons {emit : σ → α → List β} {s t : σ} {a : α} {as : List α}
    (h : M.step s a = some t) : M.trace emit s (a :: as) = emit s a ++ M.trace emit t as := by
  simp [trace, h]

/-- A relation that every step meeting `P` keeps, while the abstract machine reads the events of
that step. -/
structure Simulation (M : Machine σ α) (N : Machine τ β) (emit : σ → α → List β)
    (P : σ → α → Prop) (R : σ → τ → Prop) : Prop where
  init : R M.init N.init
  step : ∀ s t a s', R s t → P s a → M.step s a = some s' →
    ∃ t', N.run t (emit s a) = some t' ∧ R s' t'

namespace Simulation

variable {emit : σ → α → List β} {P : σ → α → Prop} {R : σ → τ → Prop}
  (h : Simulation M N emit P R)
include h

theorem run_from {s s' : σ} {t : τ} {as : List α} (hR : R s t) (hP : M.Along P s as)
    (hr : M.run s as = some s') :
    ∃ t', N.run t (M.trace emit s as) = some t' ∧ R s' t' := by
  induction as generalizing s t with
  | nil =>
    obtain rfl : s = s' := by simpa using hr
    exact ⟨t, rfl, hR⟩
  | cons a as ih =>
    obtain ⟨u, hu, hr⟩ := run_cons.mp hr
    rw [along_cons hu] at hP
    obtain ⟨t₁, ht₁, hR₁⟩ := h.step s t a u hR hP.1 hu
    obtain ⟨t', ht', hR'⟩ := ih hR₁ hP.2 hr
    refine ⟨t', ?_, hR'⟩
    rw [trace_cons hu, run_append, ht₁]
    exact ht'

/-- The abstract machine reads the events of every run. -/
theorem run {s' : σ} {as : List α} (hP : M.Along P M.init as) (hr : M.run M.init as = some s') :
    ∃ t', N.run N.init (M.trace emit M.init as) = some t' ∧ R s' t' :=
  h.run_from h.init hP hr

end Simulation

end AiCall.Kit.Machine
