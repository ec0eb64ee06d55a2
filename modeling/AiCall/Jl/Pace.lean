import AiCall.Kit.Machine
import AiCall.Jl.AudioFormat
import Mathlib.Data.UInt

/-! The pace of `on_audio_running` in the JL demo.  The loop keeps the tick at which its next turn
is due in `nextTick`, an unsigned number of 32 bits where 0 stands for "not set", and compares it
with the reading of `os_time_get`, the tick count modulo `2^32`. -/

namespace AiCall.Jl.Pace

open Kit

/-- `StepTick`. -/
def stepTick : UInt32 := .ofNat (pcmDuration / 10)

/-- The loop when the body of a turn begins.  `tick` is the true tick count, `delay` is what the
turn has asked `os_time_dly` for, and `due` is for the proofs: the true tick that `nextTick` stands
for. -/
structure State where
  tick : Nat
  nextTick : UInt32 := 0
  turns : Nat := 0
  delay : UInt32 := 0
  due : Nat := 0
deriving DecidableEq, Repr

/-- The time that a turn takes: `body` ticks from the body of the last turn, or from the start, to
`os_time_get`, and `late` ticks that `os_time_dly` and the scheduler add. -/
structure Turn where
  body : Nat
  late : Nat
deriving DecidableEq, Repr

/-- The true tick count when the turn calls `os_time_get`. -/
def State.now (s : State) (t : Turn) : Nat := s.tick + t.body

/-- A turn of the loop, up to its body. -/
def State.turn (stepTick : UInt32) (s : State) (t : Turn) : State :=
  let curTick := UInt32.ofNat (s.now t)
  if s.nextTick = 0 then
    { tick := s.now t + t.late
      nextTick := curTick + stepTick
      turns := s.turns + 1
      delay := 0
      due := s.now t + stepTick.toNat }
  else
    let delay := if curTick < s.nextTick then s.nextTick - curTick else 0
    { tick := s.now t + delay.toNat + t.late
      nextTick := s.nextTick + stepTick
      turns := s.turns + 1
      delay
      due := s.due + stepTick.toNat }

/-- The loop, entered at tick `t0`. -/
def loop (stepTick : UInt32) (t0 : Nat) : Machine State Turn :=
  ⟨{ tick := t0 }, fun s t => some (s.turn stepTick t)⟩

/-- No delay is longer than a step, and the body of turn `n` does not begin before its time. -/
structure Paced (stepTick : UInt32) (t0 : Nat) (s : State) : Prop where
  delay : s.delay ≤ stepTick
  body : ∀ n, s.turns = n + 1 → t0 + n * stepTick.toNat ≤ s.tick

/-- The turn compares two numbers of 32 bits that are ordered as the ticks they stand for: a turn
that comes early comes after the last multiple of `2^32` before it is due, and a turn that is not
early does not read a number more than a step below the one it is compared with. -/
def Ordered (stepTick : UInt32) (s : State) (t : Turn) : Prop :=
  0 < s.turns →
    if s.now t < s.due then s.now t / 2 ^ 32 = s.due / 2 ^ 32
    else s.due % 2 ^ 32 ≤ s.now t % 2 ^ 32 + stepTick.toNat

instance (stepTick : UInt32) (s : State) (t : Turn) : Decidable (Ordered stepTick s t) := by
  unfold Ordered
  infer_instance

/-- After the first turn, `nextTick` is the tick that is due, which is at most a step ahead. -/
structure Inv (stepTick : UInt32) (t0 : Nat) (s : State) : Prop where
  paced : Paced stepTick t0 s
  start : t0 ≤ s.tick
  unset : s.turns = 0 → s.nextTick = 0
  next : 0 < s.turns → s.nextTick.toNat = s.due % 2 ^ 32
  due : 0 < s.turns → t0 + s.turns * stepTick.toNat ≤ s.due
  near : 0 < s.turns → s.due ≤ s.tick + stepTick.toNat

theorem toNat_ofNat_add (n : Nat) (k : UInt32) :
    (UInt32.ofNat n + k).toNat = (n + k.toNat) % 2 ^ 32 := by
  rw [UInt32.toNat_add, UInt32.toNat_ofNat', Nat.mod_add_mod]

section Turns

variable {stepTick : UInt32} {t0 : Nat} {s : State} {t : Turn}

/-- A turn that finds `nextTick` unset does not wait, and a whole step is left to the next turn. -/
theorem turn_unset (h : s.nextTick = 0) :
    s.turn stepTick t =
      { tick := s.now t + t.late
        nextTick := UInt32.ofNat (s.now t) + stepTick
        turns := s.turns + 1
        delay := 0
        due := s.now t + stepTick.toNat } :=
  if_pos h

theorem turn_wait (h : s.nextTick ≠ 0) (hlt : UInt32.ofNat (s.now t) < s.nextTick) :
    s.turn stepTick t =
      { tick := s.now t + (s.nextTick - UInt32.ofNat (s.now t)).toNat + t.late
        nextTick := s.nextTick + stepTick
        turns := s.turns + 1
        delay := s.nextTick - UInt32.ofNat (s.now t)
        due := s.due + stepTick.toNat } := by
  rw [State.turn, if_neg h]
  simp only [if_pos hlt]

theorem turn_late (h : s.nextTick ≠ 0) (hge : ¬ UInt32.ofNat (s.now t) < s.nextTick) :
    s.turn stepTick t =
      { tick := s.now t + t.late
        nextTick := s.nextTick + stepTick
        turns := s.turns + 1
        delay := 0
        due := s.due + stepTick.toNat } := by
  rw [State.turn, if_neg h]
  simp only [if_neg hge]
  rfl

theorem toNat_delay (hlt : UInt32.ofNat (s.now t) < s.nextTick) :
    (s.nextTick - UInt32.ofNat (s.now t)).toNat = s.nextTick.toNat - s.now t % 2 ^ 32 := by
  rw [UInt32.toNat_sub_of_le _ _ (UInt32.le_of_lt hlt), UInt32.toNat_ofNat']

section Step

variable (h : Inv stepTick t0 s) (ho : Ordered stepTick s t)
include h

/-- `nextTick` is 0 before the first turn only, or when a multiple of `2^32` is due. -/
theorem Inv.pos (hset : s.nextTick ≠ 0) : 0 < s.turns :=
  Nat.pos_of_ne_zero fun h0 => hset (h.unset h0)

include ho

/-- A turn that does not wait is not early. -/
theorem Inv.not_early (hpos : 0 < s.turns)
    (hle : s.nextTick.toNat ≤ s.now t % 2 ^ 32) : s.due ≤ s.now t := by
  have hnext := h.next hpos
  have hord := ho hpos
  by_contra hlt
  rw [if_pos (Nat.lt_of_not_le hlt)] at hord
  omega

/-- A turn that waits does so until it is due, and not for longer than a step. -/
theorem Inv.wait (hpos : 0 < s.turns) (hlt : s.now t % 2 ^ 32 < s.nextTick.toNat) :
    s.nextTick.toNat - s.now t % 2 ^ 32 ≤ stepTick.toNat ∧
      s.due ≤ s.now t + (s.nextTick.toNat - s.now t % 2 ^ 32) := by
  have hnext := h.next hpos
  have hord := ho hpos
  have hnear : s.due ≤ s.now t + stepTick.toNat :=
    Nat.le_trans (h.near hpos) (by rw [State.now]; omega)
  split at hord <;> omega

end Step

/-- A turn that begins when it is due, after a delay of a step at most, keeps the pace. -/
theorem Inv.next_turn (h : Inv stepTick t0 s) (hpos : 0 < s.turns) {tick : Nat} {delay : UInt32}
    (hdelay : delay ≤ stepTick) (htick : s.due ≤ tick) :
    Inv stepTick t0 ⟨tick, s.nextTick + stepTick, s.turns + 1, delay, s.due + stepTick.toNat⟩ where
  paced := ⟨hdelay, fun n hn => by
    obtain rfl : s.turns = n := Nat.succ.inj hn
    exact Nat.le_trans (h.due hpos) htick⟩
  start := by
    have hdue := h.due hpos
    show t0 ≤ tick
    omega
  unset hn := absurd hn (Nat.succ_ne_zero _)
  next _ := by
    show (s.nextTick + stepTick).toNat = (s.due + stepTick.toNat) % 2 ^ 32
    rw [UInt32.toNat_add, h.next hpos, Nat.mod_add_mod]
  due _ := by
    have hdue := h.due hpos
    show t0 + (s.turns + 1) * stepTick.toNat ≤ s.due + stepTick.toNat
    rw [Nat.succ_mul]
    omega
  near _ := Nat.add_le_add_right htick _

/-- A turn that finds `nextTick` unset and is not early keeps the pace. -/
theorem Inv.unset_turn (h : Inv stepTick t0 s) (hdue : 0 < s.turns → s.due ≤ s.now t) :
    Inv stepTick t0
      ⟨s.now t + t.late, UInt32.ofNat (s.now t) + stepTick, s.turns + 1, 0,
        s.now t + stepTick.toNat⟩ := by
  have hnow : t0 + s.turns * stepTick.toNat ≤ s.now t := by
    rcases Nat.eq_zero_or_pos s.turns with h0 | hpos
    · rw [h0, Nat.zero_mul]
      exact Nat.le_trans h.start (Nat.le_add_right _ _)
    · exact Nat.le_trans (h.due hpos) (hdue hpos)
  refine ⟨⟨UInt32.zero_le, fun n hn => ?_⟩, ?_, nofun, fun _ => toNat_ofNat_add .., fun _ => ?_,
    fun _ => ?_⟩
  · obtain rfl : s.turns = n := Nat.succ.inj hn
    exact Nat.le_trans hnow (Nat.le_add_right _ _)
  · exact Nat.le_trans h.start (Nat.le_trans (Nat.le_add_right _ _) (Nat.le_add_right _ _))
  · show t0 + (s.turns + 1) * stepTick.toNat ≤ s.now t + stepTick.toNat
    rw [Nat.succ_mul]
    omega
  · show s.now t + stepTick.toNat ≤ s.now t + t.late + stepTick.toNat
    omega

theorem Inv.turn (h : Inv stepTick t0 s) (ho : Ordered stepTick s t) :
    Inv stepTick t0 (s.turn stepTick t) := by
  by_cases hset : s.nextTick = 0
  · rw [turn_unset hset]
    refine h.unset_turn fun hpos => h.not_early ho hpos ?_
    rw [hset]
    exact Nat.zero_le _
  have hpos := h.pos hset
  by_cases hlt : UInt32.ofNat (s.now t) < s.nextTick
  · obtain ⟨hstep, hdue⟩ := h.wait ho hpos (by
      have hnat := UInt32.lt_iff_toNat_lt.mp hlt
      rwa [UInt32.toNat_ofNat'] at hnat)
    rw [← toNat_delay hlt] at hstep hdue
    rw [turn_wait hset hlt]
    exact h.next_turn hpos (UInt32.le_iff_toNat_le.mpr hstep) (Nat.le_add_right_of_le hdue)
  · have hle := UInt32.le_iff_toNat_le.mp (UInt32.not_lt.mp hlt)
    rw [UInt32.toNat_ofNat'] at hle
    rw [turn_late hset hlt]
    exact h.next_turn hpos UInt32.zero_le (Nat.le_add_right_of_le (h.not_early ho hpos hle))

/-- A turn that compares ticks out of their order waits too long, or is early and does not wait. -/
theorem Inv.out_of_order (h : Inv stepTick t0 s) (ho : ¬ Ordered stepTick s t) :
    stepTick < (s.turn stepTick t).delay ∨ s.now t < s.due ∧ (s.turn stepTick t).delay = 0 := by
  obtain ⟨hpos, hord⟩ := Classical.not_imp.mp ho
  have hnext := h.next hpos
  have hnear : s.due ≤ s.now t + stepTick.toNat :=
    Nat.le_trans (h.near hpos) (by rw [State.now]; omega)
  have hstep := stepTick.toNat_lt
  split at hord
  · rename_i hearly
    have hle : s.nextTick.toNat ≤ s.now t % 2 ^ 32 := by omega
    refine .inr ⟨hearly, ?_⟩
    by_cases hset : s.nextTick = 0
    · rw [turn_unset hset]
    · have hge : ¬ UInt32.ofNat (s.now t) < s.nextTick := by
        rwa [UInt32.lt_iff_toNat_lt, UInt32.toNat_ofNat', Nat.not_lt]
      rw [turn_late hset hge]
  · have hlt : UInt32.ofNat (s.now t) < s.nextTick := by
      rw [UInt32.lt_iff_toNat_lt, UInt32.toNat_ofNat']
      omega
    have hset : s.nextTick ≠ 0 := fun h0 => by simp [h0] at hlt
    left
    rw [turn_wait hset hlt, UInt32.lt_iff_toNat_lt, toNat_delay hlt]
    omega

end Turns

theorem Inv.init (stepTick : UInt32) (t0 : Nat) : Inv stepTick t0 (loop stepTick t0).init where
  paced := ⟨UInt32.zero_le, nofun⟩
  start := Nat.le_refl _
  unset _ := rfl
  next h := absurd h (Nat.lt_irrefl _)
  due h := absurd h (Nat.lt_irrefl _)
  near h := absurd h (Nat.lt_irrefl _)

/-- The loop keeps its pace as long as every turn compares ticks in their order. -/
theorem paced {stepTick : UInt32} {t0 : Nat} {ts : List Turn}
    (h : (loop stepTick t0).Along (Ordered stepTick) (loop stepTick t0).init ts) :
    (loop stepTick t0).Always (Paced stepTick t0) (loop stepTick t0).init ts := by
  have hinv : (loop stepTick t0).Always (Inv stepTick t0) (loop stepTick t0).init ts :=
    Machine.always_invariant
      (fun s t s' hi ho hs => by
        obtain rfl : s.turn stepTick t = s' := Option.some.inj hs
        exact hi.turn ho)
      (Inv.init stepTick t0) h
  exact hinv.imp fun _ hi => hi.paced

/-- A loop that waits, falls behind and catches up. -/
theorem paced_1000 : (loop stepTick 1000).Always (Paced stepTick 1000) (loop stepTick 1000).init
    [⟨0, 0⟩, ⟨0, 0⟩, ⟨5, 1⟩, ⟨0, 0⟩] :=
  paced (by decide)

/-- A loop entered at the last tick before the count wraps: the tick that is due next is 0, which
`nextTick` cannot say, and the second body begins with the first. -/
theorem wrapped_not_paced : ¬ ∀ (stepTick : UInt32) (t0 : Nat) (ts : List Turn), 1 ≤ stepTick →
    (loop stepTick t0).Always (Paced stepTick t0) (loop stepTick t0).init ts := by
  intro h
  have hpaced := h stepTick (2 ^ 32 - 1) [⟨0, 0⟩, ⟨0, 0⟩] (by decide)
  exact absurd (hpaced.last rfl).body (fun hbody => absurd (hbody 1 rfl) (by decide))

end AiCall.Jl.Pace
