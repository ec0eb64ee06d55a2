import AiCall.Kit.Machine
import Mathlib.Data.List.Basic

/-! A bounded FIFO queue with one consumer, which handles a message at a time.  What the consumer
will have done once it has handled everything that is pending does not change while it works, and
changes with a post as if the new message were handled at once. -/

namespace AiCall.Kit

/-- A queue of at most `cap` messages, oldest first, and the message that is being handled. -/
structure Mailbox (μ : Type*) (cap : Nat) where
  queue : List μ
  handling : Option μ
  fits : queue.length ≤ cap

namespace Mailbox

variable {μ τ : Type*} {cap : Nat}

def empty : Mailbox μ cap := ⟨[], none, Nat.zero_le _⟩

/-- A post, which a full queue refuses. -/
def post (b : Mailbox μ cap) (m : μ) : Option (Mailbox μ cap) :=
  if h : b.queue.length < cap then
    some { b with
      queue := b.queue ++ [m]
      fits := by rwa [List.length_append] }
  else none

/-- The consumer, while it waits, takes the oldest message. -/
def pend (b : Mailbox μ cap) : Option (Mailbox μ cap) :=
  match b with
  | ⟨m :: queue, none, h⟩ => some ⟨queue, some m, Nat.le_of_succ_le h⟩
  | _ => none

def done (b : Mailbox μ cap) : Mailbox μ cap := { b with handling := none }

/-- No message is queued and none is being handled. -/
def Idle (b : Mailbox μ cap) : Prop := b.queue = [] ∧ b.handling = none

/-- What `f` makes of `t` when everything that is pending has been handled. -/
def settled (f : τ → μ → τ) (t : τ) (b : Mailbox μ cap) : τ :=
  (b.handling.toList ++ b.queue).foldl f t

variable {f : τ → μ → τ} {t : τ} {b b' : Mailbox μ cap}

theorem settled_idle (h : b.Idle) : b.settled f t = t := by
  rw [settled, h.1, h.2]
  rfl

theorem settled_post {m : μ} (h : b.post m = some b') : b'.settled f t = f (b.settled f t) m := by
  unfold post at h
  split at h <;> cases h
  rw [settled, settled, ← List.append_assoc, List.foldl_append]
  rfl

theorem settled_pend (h : b.pend = some b') : b'.settled f t = b.settled f t := by
  unfold pend at h
  split at h <;> cases h
  rfl

theorem settled_done {m : μ} (h : b.handling = some m) :
    b.done.settled f (f t m) = b.settled f t := by
  rw [settled, settled, h]
  rfl

/-- `b` holds the images of the messages of `c`. -/
structure Image {ν : Type*} (g : ν → μ) (b : Mailbox μ cap) (c : Mailbox ν cap) : Prop where
  queue : b.queue = c.queue.map g
  handling : b.handling = c.handling.map g

namespace Image

variable {ν : Type*} {g : ν → μ} {c : Mailbox ν cap}

theorem empty : Image g (.empty : Mailbox μ cap) .empty := ⟨rfl, rfl⟩

theorem post {m : ν} (h : Image g b c) (hb : b.post (g m) = some b') :
    ∃ c', c.post m = some c' ∧ Image g b' c' := by
  unfold Mailbox.post at hb
  split at hb <;> cases hb
  rename_i hroom
  have hroom' : c.queue.length < cap := by
    rwa [h.queue, List.length_map] at hroom
  refine ⟨_, dif_pos hroom', ?_, h.handling⟩
  show b.queue ++ [g m] = (c.queue ++ [m]).map g
  rw [h.queue, List.map_append]
  rfl

theorem pend (h : Image g b c) (hb : b.pend = some b') :
    ∃ c', c.pend = some c' ∧ Image g b' c' := by
  obtain ⟨queue, handling, hfits⟩ := c
  obtain ⟨bqueue, bhandling, hbfits⟩ := b
  obtain rfl : bqueue = queue.map g := h.queue
  obtain rfl : bhandling = handling.map g := h.handling
  cases handling with
  | some m => cases queue <;> cases hb
  | none =>
    cases queue with
    | nil => cases hb
    | cons m queue =>
      cases hb
      exact ⟨_, rfl, rfl, rfl⟩

theorem done (h : Image g b c) : Image g b.done c.done := ⟨h.queue, rfl⟩

theorem idle (h : Image g b c) (hb : b.Idle) : c.Idle := by
  constructor
  · exact List.map_eq_nil_iff.mp (h.queue.symm.trans hb.1)
  · exact Option.map_eq_none_iff.mp (h.handling.symm.trans hb.2)

end Image

/-! ### The queue as a machine -/

inductive Event (μ : Type*) where
  | post (m : μ)
  | pend
  | done (m : μ)  -- the consumer has handled `m`
deriving DecidableEq, Repr

def Event.posted : Event μ → Option μ
  | .post m => some m
  | _ => none

def Event.handled : Event μ → Option μ
  | .done m => some m
  | _ => none

/-- What is posted and has not been handled, oldest first. -/
def pending (b : Mailbox μ cap) : List μ := b.handling.toList ++ b.queue

theorem length_pending (b : Mailbox μ cap) : b.pending.length ≤ cap + 1 := by
  have hfits := b.fits
  rw [pending, List.length_append]
  cases b.handling <;> simp <;> omega

section Machine

variable [DecidableEq μ]

def step (b : Mailbox μ cap) : Event μ → Option (Mailbox μ cap)
  | .post m => b.post m
  | .pend => b.pend
  | .done m => if b.handling = some m then some b.done else none

def machine (μ : Type*) [DecidableEq μ] (cap : Nat) : Machine (Mailbox μ cap) (Event μ) :=
  ⟨empty, step⟩

/-- Before and after an event, what is pending together with what the event handles is what was
pending together with what it posts. -/
theorem pending_step {e : Event μ} (h : b.step e = some b') :
    b.pending ++ e.posted.toList = e.handled.toList ++ b'.pending := by
  cases e with
  | post m =>
    change b.post m = some b' at h
    unfold post at h
    split at h <;> cases h
    simp [pending, Event.posted, Event.handled]
  | pend =>
    change b.pend = some b' at h
    unfold pend at h
    split at h <;> cases h
    simp [pending, Event.posted, Event.handled]
  | done m =>
    change (if b.handling = some m then some b.done else none) = some b' at h
    by_cases hm : b.handling = some m
    · rw [if_pos hm] at h
      cases h
      simp [pending, Event.posted, Event.handled, hm, done]
    · rw [if_neg hm] at h
      cases h

/-- Messages are handled in the order of their posts: none is lost, changed or handled twice. -/
theorem fifo {w : List (Event μ)} (h : (machine μ cap).run b w = some b') :
    b.pending ++ w.filterMap Event.posted = w.filterMap Event.handled ++ b'.pending := by
  induction w generalizing b with
  | nil =>
    obtain rfl : b = b' := by simpa using h
    simp
  | cons e w ih =>
    obtain ⟨u, hu, h⟩ := Machine.run_cons.mp h
    have hcons (f : Event μ → Option μ) :
        (e :: w).filterMap f = (f e).toList ++ w.filterMap f := by
      cases hf : f e <;> simp [hf]
    rw [hcons, hcons, ← List.append_assoc, pending_step hu, List.append_assoc, ih h,
      List.append_assoc]

end Machine

end Mailbox

end AiCall.Kit
