import AiCall.Kit.Machine

/-! Termination and progress of machines.  `run_count` bounds the steps of one thread by a variant.
A `Path` is an infinite run, and it is fair to a thread when it does not leave that thread waiting
for ever at steps it could take.  `Progress` is the rule that a fair path reaches a goal: in every
state before the goal one thread, the helper, can take a step, and its steps lower a variant. -/

namespace AiCall.Kit.Machine

variable {σ α ι : Type*} {M : Machine σ α}

/-- A run takes no more of the counted steps than its variant goes down by. -/
theorem run_count {I : σ → Prop} {P : σ → α → Prop} {v : σ → Nat} {counted : α → Bool}
    (hstep : ∀ s a t, I s → P s a → M.step s a = some t → I t)
    (hless : ∀ s a t, I s → P s a → M.step s a = some t →
      v t + (if counted a then 1 else 0) ≤ v s)
    {s t : σ} {as : List α} (hs : I s) (hP : M.Along P s as) (hr : M.run s as = some t) :
    as.countP counted + v t ≤ v s := by
  induction as generalizing s with
  | nil =>
    obtain rfl : s = t := by simpa using hr
    simp
  | cons a as ih =>
    obtain ⟨u, hu, hr⟩ := run_cons.mp hr
    rw [along_cons hu] at hP
    have hrest := ih (hstep s a u hs hP.1 hu) hP.2 hr
    have hone := hless s a u hs hP.1 hu
    rw [List.countP_cons]
    omega

/-- An infinite run. -/
structure Path (M : Machine σ α) where
  state : Nat → σ
  action : Nat → α
  next : ∀ n, M.step (state n) (action n) = some (state (n + 1))

namespace Path

variable (p : M.Path)

/-- A thread that can take a step at every moment from some moment on takes one. -/
def Fair (acts : α → Prop) : Prop :=
  ∀ n, (∀ m, n ≤ m → ∃ a, acts a ∧ (M.step (p.state m) a).isSome) →
    ∃ m, n ≤ m ∧ acts (p.action m)

variable {p}

theorem invariant {I : σ → Prop} {P : σ → α → Prop}
    (hstep : ∀ s a t, I s → P s a → M.step s a = some t → I t)
    (hP : ∀ n, P (p.state n) (p.action n)) (h0 : I (p.state 0)) (n : Nat) : I (p.state n) := by
  induction n with
  | zero => exact h0
  | succ n ih => exact hstep _ _ _ ih (hP n) (p.next n)

/-- The path from moment `n` on. -/
def drop (p : M.Path) (n : Nat) : M.Path where
  state k := p.state (n + k)
  action k := p.action (n + k)
  next k := p.next (n + k)

theorem Fair.drop {acts : α → Prop} (hf : p.Fair acts) (n : Nat) : (p.drop n).Fair acts := by
  intro k hen
  obtain ⟨m, hm, hact⟩ := hf (n + k) fun m hm => by
    obtain ⟨j, rfl⟩ := Nat.exists_eq_add_of_le hm
    rw [Nat.add_assoc]
    exact hen (k + j) (Nat.le_add_right k j)
  obtain ⟨j, rfl⟩ := Nat.exists_eq_add_of_le hm
  exact ⟨k + j, Nat.le_add_right k j, by rwa [Nat.add_assoc] at hact⟩

/-- A step before a path. -/
def cons (p : M.Path) {s : σ} {a : α} (h : M.step s a = some (p.state 0)) : M.Path where
  state
    | 0 => s
    | n + 1 => p.state n
  action
    | 0 => a
    | n + 1 => p.action n
  next
    | 0 => h
    | n + 1 => p.next n

theorem Fair.cons {acts : α → Prop} (hf : p.Fair acts) {s : σ} {a : α}
    (h : M.step s a = some (p.state 0)) : (p.cons h).Fair acts := by
  intro n hen
  obtain ⟨m, hm, hact⟩ := hf n fun m hm => hen (m + 1) (Nat.le_succ_of_le hm)
  exact ⟨m + 1, Nat.le_succ_of_le hm, hact⟩

section Alternate

variable {s t : σ} {a b : α} (ha : M.step s a = some t) (hb : M.step t b = some s)

include ha hb in
theorem alternate_next (n : Nat) :
    M.step (if n % 2 = 0 then s else t) (if n % 2 = 0 then a else b) =
      some (if (n + 1) % 2 = 0 then s else t) := by
  rcases Nat.mod_two_eq_zero_or_one n with hn | hn
  · rw [if_pos hn, if_pos hn, if_neg (by omega)]
    exact ha
  · rw [if_neg (by omega), if_neg (by omega), if_pos (by omega)]
    exact hb

/-- The path that goes back and forth between two states. -/
def alternate : M.Path where
  state n := if n % 2 = 0 then s else t
  action n := if n % 2 = 0 then a else b
  next := alternate_next ha hb

theorem alternate_forall {P : σ → α → Prop} (hs : P s a) (ht : P t b) (n : Nat) :
    P ((alternate ha hb).state n) ((alternate ha hb).action n) := by
  simp only [alternate]
  split
  · exact hs
  · exact ht

/-- Such a path is fair to the thread that takes the way back, and to those that can take no step in
the first state. -/
theorem alternate_fair {acts : α → Prop} (h : acts b ∨ ∀ c, acts c → M.step s c = none) :
    (alternate ha hb).Fair acts := by
  intro n hen
  rcases h with hb' | hnone
  · refine ⟨2 * n + 1, by omega, ?_⟩
    simp only [alternate]
    rwa [if_neg (by omega)]
  · obtain ⟨c, hc, hsome⟩ := hen (2 * n) (by omega)
    simp only [alternate] at hsome
    rw [if_pos (by omega), hnone c hc] at hsome
    cases hsome

end Alternate

/-- Path `q` takes the actions `as` from `s` and goes on as `p`. -/
structure Extends (p q : M.Path) (s : σ) (as : List α) : Prop where
  state : ∀ n, n ≤ as.length → M.run s (as.take n) = some (q.state n)
  action : ∀ n a, as[n]? = some a → q.action n = a
  after : ∀ n, q.state (as.length + n) = p.state n ∧ q.action (as.length + n) = p.action n

/-- A run before a fair path. -/
theorem exists_extends (p : M.Path) {s : σ} {as : List α} (hr : M.run s as = some (p.state 0))
    {acts : ι → α → Prop} (hf : ∀ i, p.Fair (acts i)) :
    ∃ q : M.Path, (∀ i, q.Fair (acts i)) ∧ Extends p q s as := by
  induction as generalizing s with
  | nil =>
    obtain rfl : s = p.state 0 := by simpa using hr
    exact ⟨p, hf, fun n hn => by simp_all, fun n a ha => by simp at ha, fun n => by simp⟩
  | cons a as ih =>
    obtain ⟨u, hu, hr⟩ := run_cons.mp hr
    obtain ⟨q, hq, hext⟩ := ih hr
    obtain rfl : u = q.state 0 := by simpa using hext.state 0 (Nat.zero_le _)
    refine ⟨q.cons hu, fun i => (hq i).cons hu, fun n hn => ?_, fun n b hb => ?_, fun n => ?_⟩
    · cases n with
      | zero => rfl
      | succ n => exact run_cons.mpr ⟨_, hu, hext.state n (Nat.le_of_succ_le_succ hn)⟩
    · cases n with
      | zero => exact Option.some.inj hb
      | succ n => exact hext.action n b hb
    · rw [List.length_cons, Nat.succ_add]
      exact hext.after n

theorem along_get {P : σ → α → Prop} {s u : σ} {as : List α} (h : M.Along P s as) {n : Nat}
    {a : α} (ha : as[n]? = some a) (hu : M.run s (as.take n) = some u)
    (hs : (M.step u a).isSome) : P u a := by
  induction as generalizing s n with
  | nil => simp at ha
  | cons b as ih =>
    cases n with
    | zero =>
      obtain rfl : b = a := Option.some.inj ha
      obtain rfl : s = u := by simpa using hu
      obtain ⟨t, ht⟩ := Option.isSome_iff_exists.mp hs
      exact ((along_cons ht).mp h).1
    | succ n =>
      obtain ⟨t, ht, hu⟩ := run_cons.mp hu
      exact ih ((along_cons ht).mp h).2 ha hu

/-- What the steps of the run and those of the path meet, the whole path meets. -/
theorem Extends.along {p q : M.Path} {s : σ} {as : List α} (h : Extends p q s as)
    {P : σ → α → Prop} (has : M.Along P s as) (hp : ∀ n, P (p.state n) (p.action n)) (n : Nat) :
    P (q.state n) (q.action n) := by
  by_cases hn : n < as.length
  · have ha := List.getElem?_eq_getElem hn
    rw [h.action n _ ha]
    refine along_get has ha (h.state n (Nat.le_of_lt hn)) ?_
    rw [← h.action n _ ha, q.next n]
    rfl
  · obtain ⟨k, rfl⟩ := Nat.exists_eq_add_of_le (Nat.le_of_not_lt hn)
    rw [(h.after k).1, (h.after k).2]
    exact hp k

end Path

/-- Before the goal the helper can take a step.  A step that meets `P` reaches the goal, or lowers
the variant, or it is a step of another thread that leaves the variant and the helper as they
are. -/
structure Progress (M : Machine σ α) (acts : ι → α → Prop) (I goal : σ → Prop) (P : σ → α → Prop)
    (helper : σ → ι) (v : σ → Nat) : Prop where
  enabled : ∀ s, I s → ¬ goal s → ∃ a, acts (helper s) a ∧ (M.step s a).isSome
  step : ∀ s a t, I s → I t → P s a → ¬ goal s → M.step s a = some t →
    goal t ∨ v t < v s ∨ v t = v s ∧ helper t = helper s ∧ ¬ acts (helper s) a

namespace Progress

variable {acts : ι → α → Prop} {I goal : σ → Prop} {P : σ → α → Prop} {helper : σ → ι}
  {v : σ → Nat} (h : Progress M acts I goal P helper v) {p : M.Path}
include h

/-- Where neither the goal is reached nor the variant lowered, the helper stays the same. -/
theorem waiting (hI : ∀ n, I (p.state n)) (hP : ∀ n, P (p.state n) (p.action n)) {n : Nat}
    (hwait : ∀ m, n ≤ m → ¬ goal (p.state m) ∧ v (p.state n) ≤ v (p.state m)) (k : Nat) :
    v (p.state (n + k)) = v (p.state n) ∧ helper (p.state (n + k)) = helper (p.state n) := by
  induction k with
  | zero => exact ⟨rfl, rfl⟩
  | succ k ih =>
    have hnow := (hwait (n + k) (by omega)).1
    have hnext := hwait (n + k + 1) (by omega)
    rcases h.step _ _ _ (hI _) (hI _) (hP _) hnow (p.next (n + k)) with hg | hlt | ⟨hv, hh, _⟩
    · exact absurd hg hnext.1
    · omega
    · exact ⟨hv.trans ih.1, hh.trans ih.2⟩

/-- The helper of a moment before the goal brings the path to the goal or lowers the variant. -/
theorem goal_or_lower (hI : ∀ n, I (p.state n)) (hP : ∀ n, P (p.state n) (p.action n))
    (hfair : ∀ i, p.Fair (acts i)) (n : Nat) :
    ∃ m, n ≤ m ∧ (goal (p.state m) ∨ v (p.state m) < v (p.state n)) := by
  by_contra hnone
  have hwait (m : Nat) (hm : n ≤ m) : ¬ goal (p.state m) ∧ v (p.state n) ≤ v (p.state m) := by
    by_contra hm'
    exact hnone ⟨m, hm, by grind⟩
  have hsame := h.waiting hI hP hwait
  obtain ⟨m, hm, hact⟩ := hfair (helper (p.state n)) n fun m hm => by
    have hen := h.enabled _ (hI m) (hwait m hm).1
    obtain ⟨k, rfl⟩ := Nat.exists_eq_add_of_le hm
    rwa [(hsame k).2] at hen
  obtain ⟨k, rfl⟩ := Nat.exists_eq_add_of_le hm
  have hnext := hsame (k + 1)
  rw [← Nat.add_assoc] at hnext
  rcases h.step _ _ _ (hI _) (hI _) (hP _) (hwait _ hm).1 (p.next (n + k)) with hg | hlt | hother
  · exact (hwait _ (Nat.le_succ_of_le hm)).1 hg
  · have hk := (hsame k).1
    omega
  · exact hother.2.2 ((hsame k).2 ▸ hact)

/-- A fair path reaches the goal again from every moment on. -/
theorem reaches (hI : ∀ n, I (p.state n)) (hP : ∀ n, P (p.state n) (p.action n))
    (hfair : ∀ i, p.Fair (acts i)) (n : Nat) : ∃ m, n ≤ m ∧ goal (p.state m) := by
  induction hk : v (p.state n) using Nat.strongRecOn generalizing n with
  | ind k ih =>
    obtain ⟨m, hm, hg | hlt⟩ := h.goal_or_lower hI hP hfair n
    · exact ⟨m, hm, hg⟩
    · obtain ⟨m', hm', hg⟩ := ih _ (hk ▸ hlt) m rfl
      exact ⟨m', Nat.le_trans hm hm', hg⟩

/-- What ends only in `R`, and never at the goal, lasts until it ends in `R`. -/
theorem leads {Q R : σ → Prop} (hI : ∀ n, I (p.state n)) (hP : ∀ n, P (p.state n) (p.action n))
    (hfair : ∀ i, p.Fair (acts i))
    (hstep : ∀ n, Q (p.state n) → Q (p.state (n + 1)) ∨ R (p.state (n + 1)))
    (hgoal : ∀ s, Q s → ¬ goal s) {n : Nat} (hn : Q (p.state n)) :
    ∃ m, n < m ∧ R (p.state m) ∧ ∀ i, n ≤ i → i < m → Q (p.state i) := by
  by_contra hnone
  have hstay (k : Nat) : ∀ i, n ≤ i → i ≤ n + k → Q (p.state i) := by
    induction k with
    | zero =>
      intro i hi hk
      obtain rfl : i = n := by omega
      exact hn
    | succ k ih =>
      intro i hi hk
      by_cases hlt : i ≤ n + k
      · exact ih i hi hlt
      · obtain rfl : i = n + k + 1 := by omega
        refine (hstep (n + k) (ih _ (by omega) (Nat.le_refl _))).resolve_right fun hr => ?_
        exact hnone ⟨n + k + 1, by omega, hr, fun j hj hlt => ih j hj (by omega)⟩
  obtain ⟨m, hm, hg⟩ := h.reaches hI hP hfair n
  exact hgoal _ (hstay m m hm (by omega)) hg

end Progress

end AiCall.Kit.Machine
