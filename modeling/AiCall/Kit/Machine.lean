import Mathlib.Data.List.Basic

/-! Machines with a partial step function.  An action picks the thread that moves and the outcome of
what the environment decides, so a list of actions is one interleaving.  `Along` and `Always` are
the two modalities over a run, and the rules below turn facts about one step into facts about
runs. -/

namespace AiCall.Kit

/-- A machine: its initial state, and the state after an action, where the action is enabled. -/
structure Machine (σ α : Type*) where
  init : σ
  step : σ → α → Option σ

namespace Machine

variable {σ α : Type*} (M : Machine σ α)

/-- The state after a list of actions, if each is enabled in its turn. -/
def run : σ → List α → Option σ
  | s, [] => some s
  | s, a :: as => (M.step s a).bind fun s' => run s' as

/-- Every step that the actions take from `s` meets `P` in the state before it. -/
def Along (P : σ → α → Prop) : σ → List α → Prop
  | _, [] => True
  | s, a :: as =>
    match M.step s a with
    | none => True
    | some s' => P s a ∧ Along P s' as

/-- Every state that the actions pass through from `s` on meets `P`. -/
def Always (P : σ → Prop) : σ → List α → Prop
  | s, [] => P s
  | s, a :: as =>
    P s ∧ match M.step s a with
      | none => True
      | some s' => Always P s' as

instance decidableAlong (P : σ → α → Prop) [∀ s a, Decidable (P s a)] :
    ∀ s as, Decidable (M.Along P s as)
  | _, [] => isTrue trivial
  | s, a :: as =>
    match hs : M.step s a with
    | none => isTrue (by simp [Along, hs])
    | some s' =>
      have := decidableAlong P s' as
      decidable_of_iff (P s a ∧ M.Along P s' as) (by simp [Along, hs])

variable {M}

@[simp] theorem run_nil (s : σ) : M.run s [] = some s := rfl

theorem run_cons {s s' : σ} {a : α} {as : List α} :
    M.run s (a :: as) = some s' ↔ ∃ t, M.step s a = some t ∧ M.run t as = some s' := by
  simp [run, Option.bind_eq_some_iff]

/-- What every step updates as `g` does, a run folds `g` over. -/
theorem run_foldl {τ : Type*} {f : σ → τ} {g : τ → α → τ}
    (hstep : ∀ s a t, M.step s a = some t → f t = g (f s) a) {s t : σ} {as : List α}
    (hr : M.run s as = some t) : f t = as.foldl g (f s) := by
  induction as generalizing s with
  | nil =>
    obtain rfl : s = t := by simpa using hr
    rfl
  | cons a as ih =>
    obtain ⟨u, hu, hr⟩ := run_cons.mp hr
    rw [List.foldl_cons, ← hstep s a u hu]
    exact ih hr

theorem along_cons {P : σ → α → Prop} {s t : σ} {a : α} {as : List α} (h : M.step s a = some t) :
    M.Along P s (a :: as) ↔ P s a ∧ M.Along P t as := by
  simp [Along, h]

theorem along_cons_none {P : σ → α → Prop} {s : σ} {a : α} {as : List α}
    (h : M.step s a = none) : M.Along P s (a :: as) := by
  simp [Along, h]

theorem along_true (s : σ) (as : List α) : M.Along (fun _ _ => True) s as := by
  induction as generalizing s with
  | nil => trivial
  | cons a as ih =>
    cases hs : M.step s a with
    | none => exact along_cons_none hs
    | some t => exact (along_cons hs).mpr ⟨trivial, ih t⟩

theorem Along.imp {P Q : σ → α → Prop} (hPQ : ∀ s a, P s a → Q s a) {s : σ} {as : List α}
    (h : M.Along P s as) : M.Along Q s as := by
  induction as generalizing s with
  | nil => trivial
  | cons a as ih =>
    cases hs : M.step s a with
    | none => exact along_cons_none hs
    | some t =>
      rw [along_cons hs] at h ⊢
      exact ⟨hPQ s a h.1, ih h.2⟩

theorem Along.and {P Q : σ → α → Prop} {s : σ} {as : List α} (hP : M.Along P s as)
    (hQ : M.Along Q s as) : M.Along (fun s a => P s a ∧ Q s a) s as := by
  induction as generalizing s with
  | nil => trivial
  | cons a as ih =>
    cases hs : M.step s a with
    | none => exact along_cons_none hs
    | some t =>
      rw [along_cons hs] at hP hQ ⊢
      exact ⟨⟨hP.1, hQ.1⟩, ih hP.2 hQ.2⟩

theorem along_append {P : σ → α → Prop} {s t : σ} {as bs : List α} (h : M.run s as = some t) :
    M.Along P s (as ++ bs) ↔ M.Along P s as ∧ M.Along P t bs := by
  induction as generalizing s with
  | nil =>
    obtain rfl : s = t := by simpa using h
    simp [Along]
  | cons a as ih =>
    obtain ⟨u, hu, hr⟩ := run_cons.mp h
    rw [List.cons_append, along_cons hu, along_cons hu, ih hr, and_assoc]

theorem Always.head {P : σ → Prop} {s : σ} {as : List α} (h : M.Always P s as) : P s := by
  cases as with
  | nil => exact h
  | cons a as => exact h.1

theorem always_cons {P : σ → Prop} {s t : σ} {a : α} {as : List α} (h : M.step s a = some t) :
    M.Always P s (a :: as) ↔ P s ∧ M.Always P t as := by
  simp [Always, h]

theorem Always.last {P : σ → Prop} {s t : σ} {as : List α} (h : M.Always P s as)
    (hr : M.run s as = some t) : P t := by
  induction as generalizing s with
  | nil =>
    obtain rfl : s = t := by simpa using hr
    exact h
  | cons a as ih =>
    obtain ⟨u, hu, hr⟩ := run_cons.mp hr
    exact ih ((always_cons hu).mp h).2 hr

section Invariant

variable {P : σ → α → Prop} {I : σ → Prop}
  (hstep : ∀ s a t, I s → P s a → M.step s a = some t → I t)
include hstep

/-- An invariant of the steps that meet `P` holds at the end of every run of such steps. -/
theorem run_invariant {s t : σ} {as : List α} (hs : I s) (hP : M.Along P s as)
    (hr : M.run s as = some t) : I t := by
  induction as generalizing s with
  | nil =>
    obtain rfl : s = t := by simpa using hr
    exact hs
  | cons a as ih =>
    obtain ⟨u, hu, hr⟩ := run_cons.mp hr
    rw [along_cons hu] at hP
    exact ih (hstep s a u hs hP.1 hu) hP.2 hr

/-- An invariant of the steps that meet `P` holds in every state of a run of such steps. -/
theorem always_invariant {s : σ} {as : List α} (hs : I s) (hP : M.Along P s as) :
    M.Always I s as := by
  induction as generalizing s with
  | nil => exact hs
  | cons a as ih =>
    refine ⟨hs, ?_⟩
    cases hu : M.step s a with
    | none => trivial
    | some u =>
      rw [along_cons hu] at hP
      exact ih (hstep s a u hs hP.1 hu) hP.2

/-- Every step of such a run meets what the invariant and `P` give for one step. -/
theorem along_invariant {Q : σ → α → Prop}
    (himp : ∀ s a t, I s → P s a → M.step s a = some t → Q s a) {s : σ} {as : List α}
    (hs : I s) (hP : M.Along P s as) : M.Along Q s as := by
  induction as generalizing s with
  | nil => trivial
  | cons a as ih =>
    cases hu : M.step s a with
    | none => exact along_cons_none hu
    | some u =>
      rw [along_cons hu] at hP ⊢
      exact ⟨himp s a u hs hP.1 hu, ih (hstep s a u hs hP.1 hu) hP.2⟩

end Invariant

theorem Always.imp {P Q : σ → Prop} (hPQ : ∀ s, P s → Q s) {s : σ} {as : List α}
    (h : M.Always P s as) : M.Always Q s as := by
  induction as generalizing s with
  | nil => exact hPQ s h
  | cons a as ih =>
    refine ⟨hPQ s h.1, ?_⟩
    cases hu : M.step s a with
    | none => trivial
    | some u =>
      rw [always_cons hu] at h
      exact ih h.2

/-- When every good step keeps the invariant, the invariant gives `P`, and only good steps lead to
`P`, the runs in `P` are those of good steps. -/
theorem always_iff_along {P I : σ → Prop} {Q G : σ → α → Prop}
    (hstep : ∀ s a t, I s → Q s a → G s a → M.step s a = some t → I t) (hgood : ∀ s, I s → P s)
    (hneed : ∀ s a t, I s → Q s a → M.step s a = some t → P t → G s a) {s : σ} {as : List α}
    (hs : I s) (hQ : M.Along Q s as) : M.Always P s as ↔ M.Along G s as := by
  constructor
  · intro h
    induction as generalizing s with
    | nil => trivial
    | cons a as ih =>
      cases hu : M.step s a with
      | none => exact along_cons_none hu
      | some u =>
        rw [along_cons hu] at hQ ⊢
        have hnext := ((always_cons hu).mp h).2
        have hG := hneed s a u hs hQ.1 hu hnext.head
        exact ⟨hG, ih (hstep s a u hs hQ.1 hG hu) hQ.2 hnext⟩
  · intro h
    exact (always_invariant (fun s a t hi hP hu => hstep s a t hi hP.1 hP.2 hu) hs
      (hQ.and h)).imp hgood

end Machine

end AiCall.Kit
