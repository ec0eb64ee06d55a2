import Mathlib.Data.List.Basic
import Mathlib.Data.List.GetD

/-! Frames of a stream that arrives in chunks: every chunk is cut into `m` frames of `w` bytes, and
the frames are numbered through all chunks. -/

namespace AiCall.Kit

variable {β : Type*}

/-- The `j`-th block of `w` bytes. -/
def block (w : Nat) (xs : List β) (j : Nat) : List β := (xs.drop (j * w)).take w

theorem length_block {w j : Nat} {xs : List β} (h : (j + 1) * w ≤ xs.length) :
    (block w xs j).length = w := by
  rw [Nat.succ_mul] at h
  rw [block, List.length_take, List.length_drop]
  omega

theorem flatMap_block {w : Nat} (xs : List β) (t : Nat) :
    (List.range t).flatMap (block w xs) = xs.take (t * w) := by
  induction t with
  | zero => rw [Nat.zero_mul, List.take_zero, List.range_zero, List.flatMap_nil]
  | succ t ih =>
    calc (List.range (t + 1)).flatMap (block w xs)
        = (List.range t).flatMap (block w xs) ++ block w xs t := by
          rw [List.range_succ, List.flatMap_append, List.flatMap_singleton]
      _ = xs.take (t * w) ++ (xs.drop (t * w)).take w := by rw [ih, block]
      _ = xs.take ((t + 1) * w) := by rw [Nat.succ_mul, List.take_add]

/-- The `j`-th frame of a stream of chunks, each of `m` frames of `w` bytes. -/
def frame (w m : Nat) (chunks : List (List β)) (j : Nat) : List β :=
  block w (chunks.getD (j / m) []) (j % m)

section Frame

variable {w m : Nat} {chunks : List (List β)}

theorem length_frame (hc : ∀ c ∈ chunks, c.length = m * w) {j : Nat} (hj : j < chunks.length * m) :
    (frame w m chunks j).length = w := by
  have hm : 0 < m := by
    rcases Nat.eq_zero_or_pos m with rfl | hm
    · simp at hj
    · exact hm
  have hdiv : j / m < chunks.length := Nat.div_lt_of_lt_mul (Nat.mul_comm m _ ▸ hj)
  have hmod : j % m + 1 ≤ m := Nat.mod_lt j hm
  refine length_block ?_
  rw [List.getD_eq_getElem _ _ hdiv, hc _ (List.getElem_mem hdiv)]
  exact Nat.mul_le_mul_right w hmod

/-- A further chunk leaves the frames before it alone. -/
theorem frame_append (c : List β) {j : Nat} (hj : j < chunks.length * m) :
    frame w m (chunks ++ [c]) j = frame w m chunks j := by
  have hdiv : j / m < chunks.length := Nat.div_lt_of_lt_mul (Nat.mul_comm m _ ▸ hj)
  rw [frame, frame, List.getD_append _ _ _ _ hdiv]

theorem frame_last (c : List β) {i : Nat} (hi : i < m) :
    frame w m (chunks ++ [c]) (chunks.length * m + i) = block w c i := by
  have hm : 0 < m := Nat.zero_lt_of_lt hi
  have hdiv : (chunks.length * m + i) / m = chunks.length := by
    rw [Nat.mul_comm, Nat.mul_add_div hm, Nat.div_eq_of_lt hi, Nat.add_zero]
  have hmod : (chunks.length * m + i) % m = i := by
    rw [Nat.mul_comm, Nat.mul_add_mod, Nat.mod_eq_of_lt hi]
  rw [frame, hdiv, hmod, List.getD_append_right _ _ _ _ (Nat.le_refl _), Nat.sub_self]
  rfl

theorem flatMap_frame_last (c : List β) {t : Nat} (ht : t ≤ m) :
    (List.range' (chunks.length * m) t).flatMap (frame w m (chunks ++ [c])) = c.take (t * w) := by
  rw [← flatMap_block, List.range'_eq_map_range, List.flatMap_map]
  refine List.flatMap_congr fun i hi => ?_
  rw [List.mem_range] at hi
  exact frame_last c (by omega)

theorem flatMap_frame_append (c : List β) {js : List Nat} (hjs : ∀ j ∈ js, j < chunks.length * m) :
    js.flatMap (frame w m (chunks ++ [c])) = js.flatMap (frame w m chunks) :=
  List.flatMap_congr fun j hj => frame_append c (hjs j hj)

end Frame

end AiCall.Kit
