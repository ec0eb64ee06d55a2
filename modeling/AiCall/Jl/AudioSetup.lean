import Mathlib.Logic.Function.Basic
import AiCall.Kit.Machine
import AiCall.Jl.AudioControl
import AiCall.Jl.AudioFormat

/-! Set-up of audio in `jl-ac791/audio_input2.c`.  `_audio_soft_init` creates five things in order
and stops at most of the failures, and `_audio_init2` drops its result and never calls it again. -/

namespace AiCall.Jl.AudioSetup

open Kit AudioControl

/-- What `_audio_soft_init` creates, in its order. -/
inductive Resource where
  | encServer  -- `server_open("audio_server", "enc")`
  | decServer  -- `server_open("audio_server", "dec")`
  | rSem  -- `os_sem_create`
  | msgQue  -- `os_q_create`
  | task  -- `thread_fork` of `__audio_task`
deriving DecidableEq, Repr

/-- The static variables.  `tried` lists what the last call of `audio_stream_init2` has tried to
create, the first one first. -/
structure State where
  init : Bool := false
  format : Format := ⟨8000, 1, 16⟩
  capacity : Option Nat := none  -- of both rings, once `cbuf_init` has set it
  has : Resource → Bool := fun _ => false
  tried : List Resource := []

namespace State

variable (ok : Resource → Bool) (s : State)

def create (r : Resource) : State :=
  { s with has := Function.update s.has r (ok r), tried := s.tried ++ [r] }

/-- `_audio_soft_init`, with its result. -/
def audioSoftInit : State × Bool :=
  let s := { s with capacity := some s.format.capacity }
  let s := if s.has .encServer then s else s.create ok .encServer
  if s.has .encServer = false then (s, false) else
  let s := if s.has .decServer then s else s.create ok .decServer
  if s.has .decServer = false then (s, false) else
  let s := s.create ok .rSem
  if ok .rSem = false then (s, false) else
  let s := s.create ok .msgQue
  -- the result of `os_q_create` is returned, and that of `thread_fork` is not looked at
  (s.create ok .task, ok .msgQue)

/-- `_audio_init2`, with `audio_cfg_init2`. -/
def audioInit2 (f : Format) : State :=
  let s := { s with format := f, tried := [] }
  let s := if s.init then s else (s.audioSoftInit ok).1
  { s with init := true }

end State

inductive Call where
  | audioStreamInit2 (f : Format) (ok : Resource → Bool)
  | startAudioStream2 (first second : Sent)
  | stopAudioStream2 (first second : Sent)

/-- The effect of a call on the set-up.  The test in `_send_audio_msg` is of the address of
`msg_que`, so it stops no call. -/
def State.call (s : State) : Call → State
  | .audioStreamInit2 f ok => s.audioInit2 ok f
  | .startAudioStream2 .. | .stopAudioStream2 .. => s

def setup : Machine State Call := ⟨{}, fun s c => some (s.call c)⟩

/-! ### What the calls should do -/

/-- The call gets as far as an `os_q_post`. -/
def Call.Posts : Call → Prop
  | .audioStreamInit2 .. => False
  | .startAudioStream2 first second | .stopAudioStream2 first second =>
    first ≠ .noMemory ∨ second ≠ .noMemory

/-- The semaphore and the queue have been created and the task has been forked. -/
structure State.Ready (s : State) : Prop where
  rSem : s.has .rSem
  msgQue : s.has .msgQue
  task : s.has .task

/-- Between `s` and `s'` each missing thing has been tried, unless a try before it has failed. -/
def Retries (ok : Resource → Bool) (s s' : State) : Prop :=
  ∀ r, s.has r = false → r ∈ s'.tried ∨ ∃ q ∈ s'.tried, ok q = false

/-- A call posts only to a queue that is there, and initialises what is missing. -/
structure Sound (s : State) (c : Call) : Prop where
  posts : c.Posts → s.Ready
  retries : ∀ f ok, c = .audioStreamInit2 f ok → Retries ok s (s.audioInit2 ok f)

/-- A call that neither initialises nor posts. -/
def Call.Harmless : Call → Prop
  | .audioStreamInit2 .. => False
  | c => ¬ c.Posts

/-! ### The first call -/

section First

variable {ok : Resource → Bool} (f : Format)

/-- `_audio_soft_init` looks at three results, and after one of them fails it creates no more. -/
theorem first_stops {r : Resource} (hr : r = .encServer ∨ r = .decServer ∨ r = .rSem)
    (h : ok r = false) :
    ¬ (setup.init.audioInit2 ok f).has .msgQue ∧
      ∃ q ∈ (setup.init.audioInit2 ok f).tried, ok q = false := by
  rcases Bool.eq_false_or_eq_true (ok .encServer) with he | he
  · rcases Bool.eq_false_or_eq_true (ok .decServer) with hd | hd
    · have hs : ok .rSem = false := by
        rcases hr with rfl | rfl | rfl <;> simp_all
      simp [setup, State.audioInit2, State.audioSoftInit, State.create, he, hd, hs]
    · simp [setup, State.audioInit2, State.audioSoftInit, State.create, he, hd]
  · simp [setup, State.audioInit2, State.audioSoftInit, State.create, he]

theorem first_completes (he : ok .encServer) (hd : ok .decServer) (hs : ok .rSem) (r : Resource) :
    (setup.init.audioInit2 ok f).has r = ok r ∧ r ∈ (setup.init.audioInit2 ok f).tried := by
  cases r <;> simp [setup, State.audioInit2, State.audioSoftInit, State.create, he, hd, hs]

theorem ready_first_iff : (setup.init.audioInit2 ok f).Ready ↔ ∀ r, ok r = true := by
  constructor
  · intro h
    have hfirst (r : Resource) (hr : r = .encServer ∨ r = .decServer ∨ r = .rSem) :
        ok r = true := by
      by_contra hf
      exact (first_stops f hr (eq_false_of_ne_true hf)).1 h.msgQue
    have hhas (r : Resource) : (setup.init.audioInit2 ok f).has r = ok r :=
      (first_completes f (hfirst .encServer (by decide)) (hfirst .decServer (by decide))
        (hfirst .rSem (by decide)) r).1
    intro r
    cases r with
    | encServer | decServer | rSem => exact hfirst _ (by decide)
    | msgQue => exact (hhas .msgQue).symm.trans h.msgQue
    | task => exact (hhas .task).symm.trans h.task
  · intro h
    have hhas (r : Resource) : (setup.init.audioInit2 ok f).has r = true :=
      (first_completes f (h _) (h _) (h _) r).1.trans (h r)
    exact ⟨hhas _, hhas _, hhas _⟩

theorem has_first (h : ∀ r, ok r = true) (r : Resource) :
    (setup.init.audioInit2 ok f).has r = true :=
  (first_completes f (h _) (h _) (h _) r).1.trans (h r)

theorem sound_first : Sound setup.init (.audioStreamInit2 f ok) := by
  refine ⟨nofun, ?_⟩
  rintro g ok' ⟨⟩ r -
  by_cases h : ∃ q, (q = .encServer ∨ q = .decServer ∨ q = .rSem) ∧ ok q = false
  · obtain ⟨q, hq, hf⟩ := h
    exact .inr (first_stops f hq hf).2
  · have hok (q : Resource) (hq : q = .encServer ∨ q = .decServer ∨ q = .rSem) : ok q = true :=
      eq_true_of_ne_false fun hf => h ⟨q, hq, hf⟩
    exact .inl (first_completes f (hok _ (by decide)) (hok _ (by decide)) (hok _ (by decide)) r).2

end First

/-! ### The later calls -/

section Later

variable {s : State} (h : s.init)
include h

theorem later_has (c : Call) : (s.call c).has = s.has ∧ (s.call c).init := by
  cases c with
  | audioStreamInit2 f ok => simp [State.call, State.audioInit2, h]
  | startAudioStream2 | stopAudioStream2 => exact ⟨rfl, h⟩

theorem later_retries_iff (f : Format) (ok : Resource → Bool) :
    Retries ok s (s.audioInit2 ok f) ↔ ∀ r, s.has r = true := by
  have htried : (s.audioInit2 ok f).tried = [] := by simp [State.audioInit2, h]
  simp [Retries, htried]

theorem later_sound_iff (hready : s.Ready ↔ ∀ r, s.has r = true) (c : Call) :
    Sound s c ↔ (∀ r, s.has r = true) ∨ c.Harmless := by
  constructor
  · rintro ⟨hp, hr⟩
    cases c with
    | audioStreamInit2 f ok => exact .inl ((later_retries_iff h f ok).mp (hr f ok rfl))
    | startAudioStream2 first second | stopAudioStream2 first second =>
      rw [hready] at hp
      exact (Classical.em _).imp_right fun hhas hposts => hhas (hp hposts)
  · rintro (hall | hharm)
    · exact ⟨fun _ => hready.mpr hall, fun f ok _ => (later_retries_iff h f ok).mpr hall⟩
    · cases c with
      | audioStreamInit2 f ok => exact hharm.elim
      | startAudioStream2 | stopAudioStream2 => exact ⟨fun hp => (hharm hp).elim, nofun⟩

theorem later_along_iff (hready : s.Ready ↔ ∀ r, s.has r = true) (cs : List Call) :
    setup.Along Sound s cs ↔ (∀ r, s.has r = true) ∨ ∀ c ∈ cs, c.Harmless := by
  induction cs generalizing s with
  | nil => simp [Machine.Along]
  | cons c cs ih =>
    obtain ⟨hhas, hinit⟩ := later_has h c
    have hready' : (s.call c).Ready ↔ ∀ r, (s.call c).has r = true := by
      rw [hhas, ← hready]
      constructor
      · rintro ⟨h1, h2, h3⟩
        exact ⟨hhas ▸ h1, hhas ▸ h2, hhas ▸ h3⟩
      · rintro ⟨h1, h2, h3⟩
        exact ⟨hhas ▸ h1, hhas ▸ h2, hhas ▸ h3⟩
    rw [Machine.along_cons (t := s.call c) rfl, ih hinit hready', later_sound_iff h hready, hhas,
      List.forall_mem_cons, or_and_left]

end Later

/-- A run that begins with `audio_stream_init2` posts only to a queue that is there, and initialises
again after a failure, if and only if nothing fails in that call, or nothing that matters
follows. -/
theorem setup_sound_iff (f : Format) (ok : Resource → Bool) (cs : List Call) :
    setup.Along Sound setup.init (.audioStreamInit2 f ok :: cs) ↔
      (∀ r, ok r = true) ∨ ∀ c ∈ cs, c.Harmless := by
  have hinit : (setup.init.audioInit2 ok f).init := by simp [State.audioInit2]
  have hall : (∀ r, (setup.init.audioInit2 ok f).has r = true) ↔ ∀ r, ok r = true :=
    ⟨fun h => (ready_first_iff f).mp ⟨h _, h _, h _⟩, has_first f⟩
  rw [Machine.along_cons (t := setup.init.audioInit2 ok f) rfl,
    later_along_iff hinit ((ready_first_iff f).trans hall.symm), hall]
  exact and_iff_right (sound_first f)

/-- After a failure to open the encoder, initialising again tries nothing. -/
theorem failedSetup_kept : ¬ ∀ (f : Format) (ok : Resource → Bool) (cs : List Call),
    setup.Along Sound setup.init (.audioStreamInit2 f ok :: cs) := by
  intro h
  have hfail := h (.mono 16000) (fun r => r ≠ .encServer)
    [.audioStreamInit2 (.mono 16000) fun _ => true, .startAudioStream2 .posted .posted]
  exact absurd (hfail.2.1.retries _ _ rfl .task rfl) (by decide)

end AiCall.Jl.AudioSetup
