import AiCall.Kit.Simulation
import Mathlib.Data.List.Basic

/-! Queues that lose some of what they are offered.  `Passes` says what a step, or a run, does to
such a queue: what leaves it keeps the order in which it came, and each element that came has
left, is still queued or is lost. -/

namespace AiCall.Kit

/-- A queue `q` is offered `xs` and becomes `q'`; `ys` leaves it, and `zs` is lost. -/
structure Passes {β : Type*} (q xs ys zs q' : List β) : Prop where
  order : (ys ++ q').Sublist (q ++ xs)
  account : (ys ++ q' ++ zs).Perm (q ++ xs)

namespace Passes

variable {β : Type*} {q q' q'' xs xs' ys ys' zs zs' : List β}

theorem refl (q : List β) : Passes q [] [] [] q where
  order := by simp
  account := by simp

/-- The first `n` of the elements that are offered are stored. -/
theorem put (q xs : List β) (n : Nat) : Passes q xs [] (xs.drop n) (q ++ xs.take n) where
  order := by
    show (q ++ xs.take n).Sublist (q ++ xs)
    exact (List.Sublist.refl q).append (List.take_sublist n xs)
  account := by
    rw [List.nil_append, List.append_assoc, List.take_append_drop]

theorem clear (q : List β) : Passes q [] [] q [] where
  order := List.nil_sublist _
  account := by simp

/-- The oldest elements are lost. -/
theorem skip (ys q : List β) : Passes (ys ++ q) [] [] ys q where
  order := by
    rw [List.nil_append, List.append_nil]
    exact List.sublist_append_right ys q
  account := by
    rw [List.nil_append, List.append_nil]
    exact List.perm_append_comm

theorem give (ys q : List β) : Passes (ys ++ q) [] ys [] q where
  order := by rw [List.append_nil]
  account := by rw [List.append_nil]

theorem trans (h : Passes q xs ys zs q') (h' : Passes q' xs' ys' zs' q'') :
    Passes q (xs ++ xs') (ys ++ ys') (zs ++ zs') q'' where
  order := calc
    List.Sublist (ys ++ ys' ++ q'') (ys ++ (q' ++ xs')) := by
      rw [List.append_assoc]
      exact (List.Sublist.refl ys).append h'.order
    List.Sublist _ (q ++ (xs ++ xs')) := by
      rw [← List.append_assoc, ← List.append_assoc]
      exact h.order.append (List.Sublist.refl xs')
  account := calc
    List.Perm (ys ++ ys' ++ q'' ++ (zs ++ zs')) (ys ++ (ys' ++ q'' ++ zs') ++ zs) := by
      -- what the second part loses moves to the front of what the first one does
      have hmove : (zs ++ zs').Perm (zs' ++ zs) := List.perm_append_comm
      have hall := hmove.append_left (ys ++ ys' ++ q'')
      simpa only [List.append_assoc] using hall
    List.Perm _ (ys ++ (q' ++ xs') ++ zs) := (h'.account.append_left ys).append_right zs
    List.Perm _ (ys ++ q' ++ zs ++ xs') := by
      have hmove : (xs' ++ zs).Perm (zs ++ xs') := List.perm_append_comm
      have hall := hmove.append_left (ys ++ q')
      simpa only [List.append_assoc] using hall
    List.Perm _ (q ++ (xs ++ xs')) := by
      rw [← List.append_assoc]
      exact h.account.append_right xs'

/-- Where nothing is lost, the queue holds what has come and not left. -/
theorem lossless (h : Passes q xs ys [] q') : ys ++ q' = q ++ xs := by
  apply h.order.eq_of_length
  have hlen := h.account.length_eq
  rwa [List.append_nil] at hlen

end Passes

namespace Machine

variable {σ α β : Type*} {M : Machine σ α}

/-- Where every step passes elements through a queue, so does every run. -/
theorem run_passes (queue : σ → List β) {inn out lost : σ → α → List β}
    (hstep : ∀ s a t, M.step s a = some t →
      Passes (queue s) (inn s a) (out s a) (lost s a) (queue t))
    {s t : σ} {as : List α} (hr : M.run s as = some t) :
    Passes (queue s) (M.trace inn s as) (M.trace out s as) (M.trace lost s as) (queue t) := by
  induction as generalizing s with
  | nil =>
    obtain rfl : s = t := by simpa using hr
    exact .refl _
  | cons a as ih =>
    obtain ⟨u, hu, hr⟩ := run_cons.mp hr
    rw [trace_cons hu, trace_cons hu, trace_cons hu]
    exact (hstep s a u hu).trans (ih hr)

end Machine

end AiCall.Kit
