import AiCall.Kit.Machine
import AiCall.Kit.Mailbox

/-! Control of the audio streams in `jl-ac791/audio_input2.c`: `start_audio_stream2` and
`stop_audio_stream2` post two messages each to the queue `msg_que`, and `__audio_task` handles them.
Nobody looks at the result of a post. -/

namespace AiCall.Jl.AudioControl

open Kit

inductive Stream where
  | play
  | record
deriving DecidableEq, Repr

/-- The messages: `MSG_START_NET_AUDIO_PLAY`, `MSG_STOP_NET_AUDIO_PLAY`, `MSG_START_AUDIO_RECORDER`
and `MSG_STOP_AUDIO_RECORDER`. -/
structure Msg where
  stream : Stream
  start : Bool
deriving DecidableEq, Repr

/-- How a call of `_send_audio_msg` without data ends. -/
inductive Sent where
  | noMemory  -- `malloc` fails, and the result is -1
  | refused  -- `os_q_post` fails, and its result is returned
  | posted
deriving DecidableEq, Repr

/-- The requests to the audio server, for the decoder of `play` or the encoder of `record`. -/
inductive Cmd where
  | open (stream : Stream)  -- `AUDIO_DEC_OPEN`, `AUDIO_ENC_OPEN`
  | decStart  -- `AUDIO_DEC_START`
  | stop (stream : Stream)  -- `AUDIO_DEC_STOP`, `AUDIO_ENC_STOP`
deriving DecidableEq, Repr

/-- What `__audio_task` keeps in `g_audio_hdl`, and the requests it has made, the last one first,
each with the result of `server_request`. -/
structure Handle where
  isAudioPlayOpen : Bool := false
  isAudioRecordOpen : Bool := false
  requests : List (Cmd × Int) := []

namespace Handle

def isOpen (h : Handle) : Stream → Bool
  | .play => h.isAudioPlayOpen
  | .record => h.isAudioRecordOpen

def setOpen (h : Handle) (flag : Bool) : Stream → Handle
  | .play => { h with isAudioPlayOpen := flag }
  | .record => { h with isAudioRecordOpen := flag }

/-- `server_request`, whose result the server decides. -/
def request (err : Cmd → Int) (h : Handle) (c : Cmd) : Handle :=
  { h with requests := (c, err c) :: h.requests }

/-- `_audio_player_stop` and `_audio_recoder_stop`. -/
def stop (err : Cmd → Int) (h : Handle) (stream : Stream) : Handle := h.request err (.stop stream)

def playerNetInit (err : Cmd → Int) (h : Handle) : Handle :=
  let h := h.request err (.open .play)
  if err (.open .play) ≠ 0 then h else h.request err .decStart

def recoderInit (err : Cmd → Int) (h : Handle) : Handle := h.request err (.open .record)

/-- The cases of the switch in `__audio_task`. -/
def receive (err : Cmd → Int) (h : Handle) (m : Msg) : Handle :=
  if m.start then
    let h := if h.isOpen m.stream then h.stop err m.stream else h
    let h := h.setOpen true m.stream
    match m.stream with
    | .play => h.playerNetInit err
    | .record => h.recoderInit err
  else (h.setOpen false m.stream).stop err m.stream

end Handle

/-- The queue and its task, and the caller: after the first post of `_device_net_audio2(flag)` the
second one is still to come. -/
structure State (cap : Nat) where
  mailbox : Mailbox Msg cap := .empty
  handle : Handle := {}
  caller : Option Bool := none

inductive Action where
  | call (flag : Bool) (sent : Sent)  -- `_device_net_audio2(flag)` up to its first post
  | second (flag : Bool) (sent : Sent)  -- its second post
  | pend  -- `os_q_pend` gets a message
  | pendFails  -- `os_q_pend` has a result other than 0
  | receive (err : Cmd → Int)  -- `__audio_task` handles its message

variable {cap : Nat}

/-- `_send_audio_msg`; `os_q_post` fails at least where the queue is full. -/
def sendAudioMsg (b : Mailbox Msg cap) (m : Msg) : Sent → Option (Mailbox Msg cap)
  | .noMemory | .refused => some b
  | .posted => b.post m

def State.step (s : State cap) : Action → Option (State cap)
  | .call flag sent =>
    if s.caller = none then
      (sendAudioMsg s.mailbox ⟨.play, flag⟩ sent).map fun b =>
        { s with mailbox := b, caller := some flag }
    else none
  | .second flag sent =>
    if s.caller = some flag then
      (sendAudioMsg s.mailbox ⟨.record, flag⟩ sent).map fun b =>
        { s with mailbox := b, caller := none }
    else none
  | .pend => s.mailbox.pend.map fun b => { s with mailbox := b }
  | .pendFails => if s.mailbox.handling = none then some s else none
  | .receive err =>
    s.mailbox.handling.map fun m =>
      { s with mailbox := s.mailbox.done, handle := s.handle.receive err m }

/-- `queue_size` of `_audio_soft_init`, where a pointer has 4 bytes and a `WORD` has 2. -/
def queueSize : Nat := (4 * 20 + 2 - 1) / 2

/-- The caller and `__audio_task`, from the end of a successful initialisation. -/
def control (cap : Nat) : Machine (State cap) Action := ⟨{}, State.step⟩

/-! ### What a run asks for -/

def Action.post : Action → Option Msg
  | .call flag .posted => some ⟨.play, flag⟩
  | .second flag .posted => some ⟨.record, flag⟩
  | _ => none

def apply (flags : Stream → Bool) (m : Msg) : Stream → Bool :=
  Function.update flags m.stream m.start

def posting (flags : Stream → Bool) (a : Action) : Stream → Bool := a.post.elim flags (apply flags)

def requesting (flag : Bool) : Action → Bool
  | .call flag _ => flag
  | _ => flag

/-- For each stream the last message that a run puts into the queue; FALSE if there is none. -/
def lastPosted (as : List Action) : Stream → Bool := as.foldl posting fun _ => false

/-- The last request of a run: TRUE for a start, FALSE for a stop or if there is none. -/
def lastRequest (as : List Action) : Bool := as.foldl requesting false

/-! ### The flags that the queue leads to -/

theorem isOpen_setOpen (h : Handle) (flag : Bool) (stream : Stream) :
    (h.setOpen flag stream).isOpen = Function.update h.isOpen stream flag := by
  funext other
  cases stream <;> cases other <;> rfl

@[simp] theorem isOpen_request (err : Cmd → Int) (h : Handle) (c : Cmd) :
    (h.request err c).isOpen = h.isOpen := by
  funext stream
  cases stream <;> rfl

theorem isOpen_playerNetInit (err : Cmd → Int) (h : Handle) :
    (h.playerNetInit err).isOpen = h.isOpen := by
  unfold Handle.playerNetInit
  split <;> simp

/-- Whatever the server answers, a message leaves its own flag behind. -/
theorem isOpen_receive (err : Cmd → Int) (h : Handle) (m : Msg) :
    (h.receive err m).isOpen = apply h.isOpen m := by
  obtain ⟨stream, start⟩ := m
  cases start with
  | false =>
    show ((h.setOpen false stream).request err (.stop stream)).isOpen = _
    rw [isOpen_request, isOpen_setOpen]
    rfl
  | true =>
    have hstop : (if h.isOpen stream then h.stop err stream else h).isOpen = h.isOpen := by
      split
      · exact isOpen_request ..
      · rfl
    cases stream with
    | play =>
      show (((if h.isOpen .play then h.stop err .play else h).setOpen true .play).playerNetInit
        err).isOpen = _
      rw [isOpen_playerNetInit, isOpen_setOpen, hstop]
      rfl
    | record =>
      show (((if h.isOpen .record then h.stop err .record else h).setOpen true .record).request err
        (.open .record)).isOpen = _
      rw [isOpen_request, isOpen_setOpen, hstop]
      rfl

/-- The flags once the queue has been drained. -/
def State.flags (s : State cap) : Stream → Bool := s.mailbox.settled apply s.handle.isOpen

theorem settled_sendAudioMsg {flags : Stream → Bool} {b b' : Mailbox Msg cap} {m : Msg}
    {sent : Sent} (h : sendAudioMsg b m sent = some b') :
    b'.settled apply flags =
      if sent = .posted then apply (b.settled apply flags) m else b.settled apply flags := by
  cases sent with
  | noMemory | refused =>
    cases h
    rfl
  | posted => exact Mailbox.settled_post h

theorem step_flags (s : State cap) (a : Action) (t : State cap)
    (h : (control cap).step s a = some t) : t.flags = posting s.flags a := by
  cases a with
  | call flag sent | second flag sent =>
    simp only [control, State.step] at h
    split at h
    · obtain ⟨b, hb, rfl⟩ := Option.map_eq_some_iff.mp h
      rw [State.flags, settled_sendAudioMsg hb]
      cases sent <;> rfl
    · cases h
  | pend =>
    obtain ⟨b, hb, rfl⟩ := Option.map_eq_some_iff.mp h
    exact Mailbox.settled_pend hb
  | pendFails =>
    simp only [control, State.step] at h
    split at h <;> cases h
    rfl
  | receive err =>
    obtain ⟨m, hm, rfl⟩ := Option.map_eq_some_iff.mp h
    rw [State.flags, isOpen_receive]
    exact Mailbox.settled_done hm

/-- An idle task has set the flags to the last messages that were posted. -/
theorem isOpen_of_idle {as : List Action} {s : State cap}
    (hr : (control cap).run (control cap).init as = some s) (hidle : s.mailbox.Idle) :
    s.handle.isOpen = lastPosted as := by
  have hfold := Machine.run_foldl step_flags hr
  have hinit : ((control cap).init).flags = fun _ => false := by
    funext stream
    cases stream <;> rfl
  rw [hinit, State.flags, Mailbox.settled_idle hidle] at hfold
  exact hfold

/-! ### The last request -/

/-- The streams follow the last request. -/
def FollowsLast (s : State cap) (as : List Action) : Prop :=
  s.handle.isAudioPlayOpen = s.handle.isAudioRecordOpen ∧
    s.handle.isAudioPlayOpen = lastRequest as ∧ s.handle.isAudioRecordOpen = lastRequest as

/-- Whenever the queue is empty and `__audio_task` waits, the streams follow the last request if and
only if the last message that was posted to each of them did. -/
theorem follows_last_iff {as : List Action} {s : State cap}
    (hr : (control cap).run (control cap).init as = some s) (hidle : s.mailbox.Idle) :
    FollowsLast s as ↔ ∀ stream, lastPosted as stream = lastRequest as := by
  have hopen := isOpen_of_idle hr hidle
  have hplay : s.handle.isAudioPlayOpen = lastPosted as .play := congrFun hopen .play
  have hrecord : s.handle.isAudioRecordOpen = lastPosted as .record := congrFun hopen .record
  rw [FollowsLast, hplay, hrecord]
  constructor
  · rintro ⟨-, hp, hrec⟩ stream
    cases stream with
    | play => exact hp
    | record => exact hrec
  · intro h
    exact ⟨(h .play).trans (h .record).symm, h .play, h .record⟩

theorem start_follows : ∃ s : State queueSize,
    (control queueSize).run (control queueSize).init
      [.call true .posted, .second true .posted, .pend, .receive fun _ => 0, .pend,
        .receive fun _ => 0] = some s ∧
    FollowsLast s
      [.call true .posted, .second true .posted, .pend, .receive fun _ => 0, .pend,
        .receive fun _ => 0] :=
  ⟨_, rfl, (follows_last_iff rfl ⟨rfl, rfl⟩).mpr fun stream => by cases stream <;> rfl⟩

/-- A start whose first `malloc` fails opens the recorder alone. -/
theorem start_half_lost : ¬ ∀ (as : List Action) (s : State queueSize),
    (control queueSize).run (control queueSize).init as = some s → s.mailbox.Idle →
    s.caller = none → FollowsLast s as := by
  intro h
  have hf := h [.call true .noMemory, .second true .posted, .pend, .receive fun _ => 0] _ rfl
    ⟨rfl, rfl⟩ rfl
  exact absurd hf.1 (by decide)

/-! ### Runs that lose no message -/

/-- A post of the action does not fail. -/
def Delivered (_ : State cap) : Action → Prop
  | .call _ sent | .second _ sent => sent = .posted
  | _ => True

/-- The last messages agree with the last request, as far as the caller has posted them. -/
def Agree (flags : Stream → Bool) (request : Bool) : Option Bool → Prop
  | none => ∀ stream, flags stream = request
  | some flag => flag = request ∧ flags .play = request

theorem step_agree {s t : State cap} {a : Action} {flags : Stream → Bool} {request : Bool}
    (h : Agree flags request s.caller) (hd : Delivered s a) (hs : (control cap).step s a = some t) :
    Agree (posting flags a) (requesting request a) t.caller := by
  cases a with
  | call flag sent =>
    obtain rfl : sent = .posted := hd
    simp only [control, State.step] at hs
    split at hs
    · obtain ⟨b, -, rfl⟩ := Option.map_eq_some_iff.mp hs
      exact ⟨rfl, rfl⟩
    · cases hs
  | second flag sent =>
    obtain rfl : sent = .posted := hd
    simp only [control, State.step] at hs
    split at hs
    · rename_i hc
      rw [hc] at h
      obtain ⟨b, -, rfl⟩ := Option.map_eq_some_iff.mp hs
      intro stream
      cases stream with
      | play => exact h.2
      | record => exact h.1
    · cases hs
  | pend =>
    obtain ⟨b, -, rfl⟩ := Option.map_eq_some_iff.mp hs
    exact h
  | pendFails =>
    simp only [control, State.step] at hs
    split at hs <;> cases hs
    exact h
  | receive err =>
    obtain ⟨m, -, rfl⟩ := Option.map_eq_some_iff.mp hs
    exact h

theorem run_agree {s t : State cap} {as : List Action} {flags : Stream → Bool} {request : Bool}
    (h : Agree flags request s.caller) (hd : (control cap).Along Delivered s as)
    (hr : (control cap).run s as = some t) :
    Agree (as.foldl posting flags) (as.foldl requesting request) t.caller := by
  induction as generalizing s flags request with
  | nil =>
    obtain rfl : s = t := by simpa using hr
    exact h
  | cons a as ih =>
    obtain ⟨u, hu, hr⟩ := Machine.run_cons.mp hr
    rw [Machine.along_cons hu] at hd
    exact ih (step_agree h hd.1 hu) hd.2 hr

/-- Without failures the streams follow the last request, once it has been made in full. -/
theorem follows_last {as : List Action} {s : State cap}
    (hr : (control cap).run (control cap).init as = some s)
    (hd : (control cap).Along Delivered (control cap).init as) (hidle : s.mailbox.Idle)
    (hcaller : s.caller = none) : FollowsLast s as := by
  have hinit : Agree (fun _ => false) false (control cap).init.caller := fun _ => rfl
  have h := run_agree hinit hd hr
  rw [hcaller] at h
  have hopen := isOpen_of_idle hr hidle
  have hplay := (congrFun hopen .play).trans (h .play)
  have hrecord := (congrFun hopen .record).trans (h .record)
  exact ⟨hplay.trans hrecord.symm, hplay, hrecord⟩

end AiCall.Jl.AudioControl
