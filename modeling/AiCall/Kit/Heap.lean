import Mathlib.Logic.Function.Basic

/-! A heap of records behind one published pointer, and the threads that use it.  A thread reads the
pointer in one step and goes through it in a later one, so a record can be freed, and the pointer
changed, between the two. -/

namespace AiCall.Kit

/-- The life of an object that a foreign library creates and destroys. -/
inductive Life where
  | absent
  | live
  | destroying
  | destroyed
deriving DecidableEq, Repr

/-- An object that exists and whose destruction has not returned. -/
def Life.held : Life → Bool
  | .live | .destroying => true
  | .absent | .destroyed => false

theorem Life.ne_absent {l : Life} (h : l.held) : l ≠ .absent := by
  rintro rfl
  exact Bool.noConfusion h

theorem Life.ne_destroyed {l : Life} (h : l.held) : l ≠ .destroyed := by
  rintro rfl
  exact Bool.noConfusion h

/-- An address of a heap: not allocated yet, allocated, or freed. -/
inductive Cell (ρ : Type*) where
  | fresh
  | held (r : ρ)
  | freed
deriving DecidableEq, Repr

/-- Records by address.  An address is allocated at most once. -/
abbrev Heap (ρ : Type*) := Nat → Cell ρ

namespace Heap

variable {ρ : Type*}

/-- The record that a pointer leads to, unless it is null, wild or dangling. -/
def deref (h : Heap ρ) : Option Nat → Option ρ
  | none => none
  | some i =>
    match h i with
    | .held r => some r
    | _ => none

def write (h : Heap ρ) : Option Nat → ρ → Heap ρ
  | none, _ => h
  | some i, r => Function.update h i (.held r)

theorem deref_eq_some {h : Heap ρ} {p : Option Nat} {r : ρ} :
    h.deref p = some r ↔ ∃ i, p = some i ∧ h i = .held r := by
  cases p with
  | none => simp [deref]
  | some i => cases hi : h i <;> simp [deref, hi]

@[simp] theorem deref_of_held {h : Heap ρ} {i : Nat} {r : ρ} (hi : h i = .held r) :
    h.deref (some i) = some r := by
  simp [deref, hi]

end Heap

/-- A thread: the line it is at, and the pointer it has read for the access on that line. -/
structure Thread (Λ : Type*) where
  line : Λ
  ptr : Option (Option Nat) := none
deriving DecidableEq, Repr

/-- What a thread does next with the published pointer. -/
inductive Access (ρ Λ : Type*) where
  | pass  -- Its line does not go through the pointer.
  | load (k : Thread Λ)  -- It reads the pointer.
  | fault  -- It goes through a null or dangling pointer.
  | done (h : Heap ρ) (k : Thread Λ)  -- It reads and writes the record and moves to another line.

namespace Thread

variable {ρ Λ : Type*}

/-- The next step of a thread at a line where `code` goes through the published pointer: first the
read of the pointer, then the access. -/
def access (code : Λ → Option (ρ → ρ × Λ)) (curr : Option Nat) (h : Heap ρ) (k : Thread Λ) :
    Access ρ Λ :=
  match code k.line with
  | none => .pass
  | some f =>
    match k.ptr with
    | none => .load { k with ptr := some curr }
    | some p =>
      match h.deref p with
      | none => .fault
      | some r => .done (h.write p (f r).1) { line := (f r).2 }

variable {code : Λ → Option (ρ → ρ × Λ)} {curr : Option Nat} {h : Heap ρ} {k : Thread Λ}

theorem access_pass (ha : k.access code curr h = .pass) : code k.line = none := by
  unfold access at ha
  cases hc : code k.line with
  | none => rfl
  | some f =>
    cases hp : k.ptr with
    | none => simp [hc, hp] at ha
    | some p => cases hd : h.deref p <;> simp [hc, hp, hd] at ha

theorem access_load {k' : Thread Λ} (ha : k.access code curr h = .load k') :
    k.ptr = none ∧ (code k.line).isSome ∧ k' = { k with ptr := some curr } := by
  unfold access at ha
  cases hc : code k.line with
  | none => simp [hc] at ha
  | some f =>
    cases hp : k.ptr with
    | none => simp [hc, hp] at ha; simp [ha]
    | some p => cases hd : h.deref p <;> simp [hc, hp, hd] at ha

theorem access_fault (ha : k.access code curr h = .fault) :
    ∃ p, k.ptr = some p ∧ (code k.line).isSome ∧ h.deref p = none := by
  unfold access at ha
  cases hc : code k.line with
  | none => simp [hc] at ha
  | some f =>
    cases hp : k.ptr with
    | none => simp [hc, hp] at ha
    | some p =>
      cases hd : h.deref p with
      | none => exact ⟨p, rfl, rfl, hd⟩
      | some r => simp [hc, hp, hd] at ha

/-- An access that succeeds goes through a pointer to a record that is held. -/
theorem access_done {h' : Heap ρ} {k' : Thread Λ} (ha : k.access code curr h = .done h' k') :
    ∃ f i r, code k.line = some f ∧ k.ptr = some (some i) ∧ h i = .held r ∧
      h' = Function.update h i (.held (f r).1) ∧ k' = { line := (f r).2 } := by
  unfold access at ha
  cases hc : code k.line with
  | none => simp [hc] at ha
  | some f =>
    cases hp : k.ptr with
    | none => simp [hc, hp] at ha
    | some p =>
      cases hd : h.deref p with
      | none => simp [hc, hp, hd] at ha
      | some r =>
        obtain ⟨i, rfl, hi⟩ := Heap.deref_eq_some.mp hd
        simp only [hc, hp, hd, Access.done.injEq, Heap.write] at ha
        exact ⟨f, i, r, rfl, rfl, hi, ha.1.symm, ha.2.symm⟩

/-- The steps that a thread can still take, when at most `rank` lines can follow a line: the read of
the pointer is a step of its own. -/
def variant (rank : Λ → Nat) (k : Thread Λ) : Nat :=
  2 * rank k.line + if k.ptr = none then 1 else 0

variable {rank : Λ → Nat}

theorem variant_lt {k' : Thread Λ} (h : rank k'.line < rank k.line) :
    k'.variant rank < k.variant rank := by
  unfold variant
  split <;> split <;> omega

theorem variant_load (h : k.ptr = none) :
    ({ k with ptr := some curr } : Thread Λ).variant rank < k.variant rank := by
  simp [variant, h]

theorem variant_le {b : Nat} (h : rank k.line ≤ b) : k.variant rank ≤ 2 * b + 1 := by
  unfold variant
  split <;> omega

end Thread

end AiCall.Kit
