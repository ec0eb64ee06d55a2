import AiCall.Kit.Heap
import Mathlib.Data.Set.Insert

/-! Ownership in a heap that several parties share.  Each allocated address has one owner, whose
footprint is the set of its addresses.  A change that one owner makes to its own footprint leaves
the footprints of the others, and what they hold, as they are. -/

namespace AiCall.Kit.Heap

variable {ρ ο : Type*}

def Allocated (h : Heap ρ) (x : Nat) : Prop := ∃ r, h x = .held r

/-- A change of the heap by the owner of `l`, which owns `l'` afterwards. -/
structure Change (h : Heap ρ) (l : Set Nat) (h' : Heap ρ) (l' : Set Nat) : Prop where
  keep : ∀ x r, x ∉ l → h x = .held r → h' x = .held r
  own : ∀ x, h'.Allocated x → x ∈ l' ∨ x ∉ l ∧ h.Allocated x
  held : ∀ x ∈ l', h'.Allocated x
  taken : ∀ x ∈ l', x ∈ l ∨ ¬ h.Allocated x

namespace Change

variable {h h' h'' : Heap ρ} {l l' l'' : Set Nat} {x : Nat} {r : ρ}

theorem refl (hl : ∀ y ∈ l, h.Allocated y) : Change h l h l where
  keep _ _ _ hr := hr
  own y hy := (em (y ∈ l)).imp_right (⟨·, hy⟩)
  held := hl
  taken _ hy := .inl hy

theorem trans (h₁ : Change h l h' l') (h₂ : Change h' l' h'' l'') : Change h l h'' l'' where
  keep y r hy hr := by
    refine h₂.keep y r (fun hy' => ?_) (h₁.keep y r hy hr)
    exact (h₁.taken y hy').elim hy fun hn => hn ⟨r, hr⟩
  own y hy := by
    rcases h₂.own y hy with hy | ⟨hn, hy⟩
    · exact .inl hy
    · exact .inr ((h₁.own y hy).resolve_left hn)
  held := h₂.held
  taken y hy := by
    by_cases hl : y ∈ l
    · exact .inl hl
    · refine .inr fun ⟨r, hr⟩ => ?_
      rcases h₂.taken y hy with hl' | hn
      · exact (h₁.taken y hl').elim hl fun hn => hn ⟨r, hr⟩
      · exact hn ⟨r, h₁.keep y r hl hr⟩

/-- A write to an address of its own. -/
theorem write (hl : ∀ y ∈ l, h.Allocated y) (hx : x ∈ l) :
    Change h l (Function.update h x (.held r)) l where
  keep y r' hy hr := by
    have hne : y ≠ x := fun e => hy (e ▸ hx)
    rwa [Function.update_of_ne hne]
  own y hy := by
    by_cases hyl : y ∈ l
    · exact .inl hyl
    · have hne : y ≠ x := fun e => hyl (e ▸ hx)
      exact .inr ⟨hyl, by rwa [Allocated, Function.update_of_ne hne] at hy⟩
  held y hy := by
    by_cases hyx : y = x
    · exact ⟨r, by rw [hyx, Function.update_self]⟩
    · rw [Allocated, Function.update_of_ne hyx]
      exact hl y hy
  taken _ hy := .inl hy

/-- The allocation of an address. -/
theorem alloc (hl : ∀ y ∈ l, h.Allocated y) (hx : ¬ h.Allocated x) :
    Change h l (Function.update h x (.held r)) (insert x l) where
  keep y r' _ hr := by
    have hne : y ≠ x := fun e => hx (e ▸ ⟨r', hr⟩)
    rwa [Function.update_of_ne hne]
  own y hy := by
    by_cases hyx : y = x
    · exact .inl (.inl hyx)
    · rw [Allocated, Function.update_of_ne hyx] at hy
      exact (em (y ∈ l)).imp .inr (⟨·, hy⟩)
  held y hy := by
    by_cases hyx : y = x
    · exact ⟨r, by rw [hyx, Function.update_self]⟩
    · rw [Allocated, Function.update_of_ne hyx]
      exact hl y (hy.resolve_left hyx)
  taken y hy := hy.elim (fun e => .inr (e ▸ hx)) .inl

/-- The release of an address of its own. -/
theorem free (hl : ∀ y ∈ l, h.Allocated y) (hx : x ∈ l) :
    Change h l (Function.update h x .freed) (l \ {x}) where
  keep y r hy hr := by
    have hne : y ≠ x := fun e => hy (e ▸ hx)
    rwa [Function.update_of_ne hne]
  own y hy := by
    have hyx : y ≠ x := by
      rintro rfl
      obtain ⟨r, hr⟩ := hy
      rw [Function.update_self] at hr
      cases hr
    rw [Allocated, Function.update_of_ne hyx] at hy
    exact (em (y ∈ l)).imp (⟨·, hyx⟩) (⟨·, hy⟩)
  held y hy := by
    rw [Allocated, Function.update_of_ne hy.2]
    exact hl y hy.1
  taken _ hy := .inl hy.1

end Change

/-- Each allocated address has one owner. -/
structure Owned (h : Heap ρ) (own : ο → Set Nat) : Prop where
  held : ∀ o, ∀ x ∈ own o, h.Allocated x
  owner : ∀ x, h.Allocated x → ∃ o, x ∈ own o
  once : ∀ o o' x, x ∈ own o → x ∈ own o' → o = o'

/-- Where nothing is allocated, nobody has anything. -/
theorem Owned.empty {h : Heap ρ} (hn : ∀ x, ¬ h.Allocated x) : h.Owned fun _ : ο => ∅ where
  held _ _ hx := absurd hx (Set.notMem_empty _)
  owner x hx := absurd hx (hn x)
  once _ _ _ hx := absurd hx (Set.notMem_empty _)

namespace Owned

variable {h h' : Heap ρ} {own : ο → Set Nat} {o o' : ο} {l : Set Nat} (H : Owned h own)
include H

/-- A change by one owner leaves alone what another one holds. -/
theorem frame (hc : Change h (own o) h' l) (hne : o' ≠ o) {x : Nat} (hx : x ∈ own o') :
    h' x = h x := by
  obtain ⟨r, hr⟩ := H.held o' x hx
  rw [hr]
  exact hc.keep x r (fun hxo => hne (H.once o' o x hx hxo)) hr

theorem change [DecidableEq ο] (hc : Change h (own o) h' l) :
    Owned h' (Function.update own o l) where
  held p x hx := by
    by_cases hp : p = o
    · rw [hp, Function.update_self] at hx
      exact hc.held x hx
    · rw [Function.update_of_ne hp] at hx
      rw [Allocated, H.frame hc hp hx]
      exact H.held p x hx
  owner x hx := by
    rcases hc.own x hx with hxl | ⟨hxo, hx⟩
    · exact ⟨o, by rwa [Function.update_self]⟩
    · obtain ⟨p, hp⟩ := H.owner x hx
      have hpo : p ≠ o := fun e => hxo (e ▸ hp)
      exact ⟨p, by rwa [Function.update_of_ne hpo]⟩
  once := by
    -- what the change takes was not allocated, so no other owner has it
    have hnew : ∀ p ≠ o, ∀ x ∈ l, x ∉ own p := by
      intro p hp x hxl hx
      rcases hc.taken x hxl with hxo | hn
      · exact hp (H.once p o x hx hxo)
      · exact hn (H.held p x hx)
    intro p q x hp hq
    by_cases hpo : p = o <;> by_cases hqo : q = o
    · rw [hpo, hqo]
    · rw [hpo, Function.update_self] at hp
      rw [Function.update_of_ne hqo] at hq
      exact absurd hq (hnew q hqo x hp)
    · rw [hqo, Function.update_self] at hq
      rw [Function.update_of_ne hpo] at hp
      exact absurd hp (hnew p hpo x hq)
    · rw [Function.update_of_ne hpo] at hp
      rw [Function.update_of_ne hqo] at hq
      exact H.once p q x hp hq

/-- An owner hands its footprint to one that has nothing. -/
theorem give [DecidableEq ο] (ho : own o' = ∅) :
    Owned h (Function.update (Function.update own o ∅) o' (own o)) := by
  -- what `o'` has now `o` had before, and nobody else's footprint changes
  have hsame : ∀ p x, x ∈ Function.update (Function.update own o ∅) o' (own o) p →
      x ∈ own (if p = o' then o else p) ∧ (p ≠ o' → p ≠ o) := by
    intro p x hx
    by_cases hp : p = o'
    · rw [hp, Function.update_self] at hx
      rw [if_pos hp]
      exact ⟨hx, absurd hp⟩
    · rw [Function.update_of_ne hp] at hx
      by_cases hpo : p = o
      · rw [hpo, Function.update_self] at hx
        exact absurd hx (Set.notMem_empty x)
      · rw [Function.update_of_ne hpo] at hx
        rw [if_neg hp]
        exact ⟨hx, fun _ => hpo⟩
  refine ⟨fun p x hx => H.held _ x (hsame p x hx).1, fun x hx => ?_, fun p q x hp hq => ?_⟩
  · obtain ⟨p, hp⟩ := H.owner x hx
    have hne : p ≠ o' := by
      rintro rfl
      rw [ho] at hp
      exact hp
    by_cases hpo : p = o
    · exact ⟨o', by rwa [Function.update_self, ← hpo]⟩
    · exact ⟨p, by rwa [Function.update_of_ne hne, Function.update_of_ne hpo]⟩
  · have hpq := H.once _ _ x (hsame p x hp).1 (hsame q x hq).1
    have hp' := (hsame p x hp).2
    have hq' := (hsame q x hq).2
    by_cases hpo : p = o' <;> by_cases hqo : q = o'
    · rw [hpo, hqo]
    · rw [if_pos hpo, if_neg hqo] at hpq
      exact absurd hpq.symm (hq' hqo)
    · rw [if_neg hpo, if_pos hqo] at hpq
      exact absurd hpq (hp' hpo)
    · rwa [if_neg hpo, if_neg hqo] at hpq

/-- Where nobody has anything, nothing is allocated. -/
theorem free_of_empty (he : ∀ o, own o = ∅) (x : Nat) : ¬ h.Allocated x := by
  intro hx
  obtain ⟨o, ho⟩ := H.owner x hx
  rw [he o] at ho
  exact ho

end Owned

end AiCall.Kit.Heap
