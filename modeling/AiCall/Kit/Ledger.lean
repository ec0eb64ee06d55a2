import AiCall.Kit.Heap
import AiCall.Kit.Simulation
import Mathlib.Data.List.Induction

/-! A ledger of resources that are acquired and released once each.  It reads a word of transfers
only if nothing is acquired twice, and nothing is released that is not held, so the counts of a word
that it has read say what is held. -/

namespace AiCall.Kit

inductive Transfer (ρ : Type*) where
  | acquire (r : ρ)
  | release (r : ρ)
deriving DecidableEq, Repr

inductive Holding where
  | unused
  | held
  | released
deriving DecidableEq, Repr

def Cell.holding {ρ : Type*} : Cell ρ → Holding
  | .fresh => .unused
  | .held _ => .held
  | .freed => .released

def Life.holding : Life → Holding
  | .absent => .unused
  | .live | .destroying => .held
  | .destroyed => .released

/-- How often a resource has been acquired and released. -/
def Holding.counts : Holding → Nat × Nat
  | .unused => (0, 0)
  | .held => (1, 0)
  | .released => (1, 1)

namespace Ledger

variable {ρ : Type*} [DecidableEq ρ]

def step (l : ρ → Holding) : Transfer ρ → Option (ρ → Holding)
  | .acquire r => if l r = .unused then some (Function.update l r .held) else none
  | .release r => if l r = .held then some (Function.update l r .released) else none

/-- The ledger in which nothing is used yet. -/
def ledger (ρ : Type*) [DecidableEq ρ] : Machine (ρ → Holding) (Transfer ρ) :=
  ⟨fun _ => .unused, step⟩

theorem run_acquire {l : ρ → Holding} {r : ρ} (h : l r = .unused) :
    (ledger ρ).run l [.acquire r] = some (Function.update l r .held) := by
  rw [Machine.run_singleton]
  exact if_pos h

theorem run_release {l : ρ → Holding} {r : ρ} (h : l r = .held) :
    (ledger ρ).run l [.release r] = some (Function.update l r .released) := by
  rw [Machine.run_singleton]
  exact if_pos h

/-- A resource that has been used is not unused again. -/
theorem run_ne_unused {l l' : ρ → Holding} {w : List (Transfer ρ)}
    (h : (ledger ρ).run l w = some l') {r : ρ} (hr : l r ≠ .unused) : l' r ≠ .unused := by
  induction w generalizing l with
  | nil =>
    obtain rfl : l = l' := by simpa using h
    exact hr
  | cons t w ih =>
    obtain ⟨k, hk, hw⟩ := Machine.run_cons.mp h
    refine ih hw ?_
    cases t with
    | acquire q | release q =>
      simp only [ledger, step] at hk
      split at hk <;> cases hk
      by_cases hq : r = q
      · subst hq
        rw [Function.update_self]
        exact Holding.noConfusion
      · rwa [Function.update_of_ne hq]

def counts (w : List (Transfer ρ)) (r : ρ) : Nat × Nat :=
  (w.count (.acquire r), w.count (.release r))

/-- The ledger after the same transfer of several resources. -/
def enter (l : ρ → Holding) (rs : List ρ) (a : Holding) (r : ρ) : Holding :=
  if r ∈ rs then a else l r

@[simp] theorem enter_nil (l : ρ → Holding) (a : Holding) : enter l [] a = l := by
  funext r
  simp [enter]

theorem enter_cons (l : ρ → Holding) (r : ρ) (rs : List ρ) (a : Holding) :
    enter (Function.update l r a) rs a = enter l (r :: rs) a := by
  funext q
  by_cases hq : q = r
  · subst hq
    simp [enter]
  · simp [enter, hq]

theorem run_acquireAll {l : ρ → Holding} {rs : List ρ} (hn : rs.Nodup)
    (h : ∀ r ∈ rs, l r = .unused) :
    (ledger ρ).run l (rs.map .acquire) = some (enter l rs .held) := by
  induction rs generalizing l with
  | nil => simp
  | cons r rs ih =>
    obtain ⟨hr, hn⟩ := List.nodup_cons.mp hn
    rw [List.map_cons, ← List.singleton_append, Machine.run_append,
      run_acquire (h r (List.mem_cons_self ..)), Option.bind_some, ← enter_cons]
    refine ih hn fun q hq => ?_
    rw [Function.update_of_ne (ne_of_mem_of_not_mem hq hr)]
    exact h q (List.mem_cons_of_mem _ hq)

theorem run_releaseAll {l : ρ → Holding} {rs : List ρ} (hn : rs.Nodup)
    (h : ∀ r ∈ rs, l r = .held) :
    (ledger ρ).run l (rs.map .release) = some (enter l rs .released) := by
  induction rs generalizing l with
  | nil => simp
  | cons r rs ih =>
    obtain ⟨hr, hn⟩ := List.nodup_cons.mp hn
    rw [List.map_cons, ← List.singleton_append, Machine.run_append,
      run_release (h r (List.mem_cons_self ..)), Option.bind_some, ← enter_cons]
    refine ih hn fun q hq => ?_
    rw [Function.update_of_ne (ne_of_mem_of_not_mem hq hr)]
    exact h q (List.mem_cons_of_mem _ hq)

/-- A word that the ledger has read has acquired and released each resource as often as its holding
says. -/
theorem run_counts {l : ρ → Holding} {w : List (Transfer ρ)}
    (h : (ledger ρ).run (ledger ρ).init w = some l) (r : ρ) : counts w r = (l r).counts := by
  induction w using List.reverseRecOn generalizing l with
  | nil =>
    obtain rfl : (ledger ρ).init = l := by simpa using h
    rfl
  | append_singleton w t ih =>
    rw [Machine.run_append, Option.bind_eq_some_iff] at h
    obtain ⟨k, hk, hs⟩ := h
    rw [Machine.run_singleton] at hs
    have hold := ih hk
    simp only [counts, List.count_append, List.count_singleton] at hold ⊢
    cases t with
    | acquire q | release q =>
      simp only [ledger, step] at hs
      split at hs <;> cases hs
      rename_i hq
      by_cases hr : r = q
      · subst hr
        simp_all [Holding.counts]
      · simp_all [Holding.counts, Ne.symm hr]

section Read

variable {l : ρ → Holding} {w : List (Transfer ρ)}
  (h : (ledger ρ).run (ledger ρ).init w = some l) (r : ρ)
include h

/-- Nothing is acquired twice, and no more is released than was acquired. -/
theorem run_once : w.count (.acquire r) ≤ 1 ∧ w.count (.release r) ≤ w.count (.acquire r) := by
  have hc := run_counts h r
  rw [counts] at hc
  cases hr : l r <;> rw [hr, Holding.counts] at hc <;> obtain ⟨ha, hb⟩ := Prod.mk.inj hc <;> omega

theorem run_held (hr : l r = .held) : w.count (.acquire r) = 1 ∧ w.count (.release r) = 0 := by
  have hc := run_counts h r
  rw [hr] at hc
  exact Prod.mk.inj hc

/-- What has not been released as often as acquired is held. -/
theorem held_of_ne (hne : w.count (.release r) ≠ w.count (.acquire r)) : l r = .held := by
  have hc := run_counts h r
  rw [counts] at hc
  cases hr : l r with
  | held => rfl
  | unused | released =>
    rw [hr, Holding.counts] at hc
    obtain ⟨ha, hb⟩ := Prod.mk.inj hc
    omega

end Read

end Ledger

end AiCall.Kit
