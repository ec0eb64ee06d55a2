import AiCall.Jl.AudioControl

/-! The audio server behind `__audio_task` in `jl-ac791/audio_input2.c`.  The task sets its flags
before the server answers and looks at no answer but that of `AUDIO_DEC_OPEN`, so its flags tell
what is open only as long as the requests that matter succeed. -/

namespace AiCall.Jl.AudioControl

open Kit

/-- Whether requests, the last one first, leave the decoder or the encoder open.  A request takes
effect when its result is 0. -/
def serverOpen (stream : Stream) : List (Cmd × Int) → Bool
  | [] => false
  | (c, err) :: requests =>
    if err = 0 ∧ c = .open stream then true
    else if err = 0 ∧ c = .stop stream then false
    else serverOpen stream requests

/-- No request has opened what was open. -/
def OpensClosed : List (Cmd × Int) → Prop
  | [] => True
  | (c, _) :: requests =>
    (∀ stream, c = .open stream → serverOpen stream requests = false) ∧ OpensClosed requests

/-- The flags of the task tell what is open, and nothing has been opened twice. -/
structure Truthful (h : Handle) : Prop where
  flags : ∀ stream, h.isOpen stream = serverOpen stream h.requests
  opens : OpensClosed h.requests

/-- `__audio_task` with the messages that it handles and the results of their requests. -/
def audioTask : Machine Handle (Msg × (Cmd → Int)) := ⟨{}, fun h a => some (h.receive a.2 a.1)⟩

/-- The requests that matter succeed: `OPEN`, and `STOP` of a stream that is flagged open. -/
structure Answered (h : Handle) (a : Msg × (Cmd → Int)) : Prop where
  opened : a.1.start → a.2 (.open a.1.stream) = 0
  stopped : h.isOpen a.1.stream → a.2 (.stop a.1.stream) = 0

/-- The flags and requests of a run with the queue are those of the messages that the task handles
in it. -/
theorem run_handle {cap : Nat} {as : List Action} {s t : State cap}
    (hr : (control cap).run s as = some t) : ∃ ms, audioTask.run s.handle ms = some t.handle := by
  induction as generalizing s with
  | nil =>
    obtain rfl : s = t := by simpa using hr
    exact ⟨[], rfl⟩
  | cons a as ih =>
    obtain ⟨u, hu, hr⟩ := Machine.run_cons.mp hr
    obtain ⟨ms, hms⟩ := ih hr
    cases a with
    | call flag sent | second flag sent =>
      simp only [control, State.step] at hu
      split at hu
      · obtain ⟨b, -, rfl⟩ := Option.map_eq_some_iff.mp hu
        exact ⟨ms, hms⟩
      · cases hu
    | pend =>
      obtain ⟨b, -, rfl⟩ := Option.map_eq_some_iff.mp hu
      exact ⟨ms, hms⟩
    | pendFails =>
      simp only [control, State.step] at hu
      split at hu <;> cases hu
      exact ⟨ms, hms⟩
    | receive err =>
      obtain ⟨m, -, rfl⟩ := Option.map_eq_some_iff.mp hu
      exact ⟨(m, err) :: ms, hms⟩

/-! ### The server after one message -/

theorem serverOpen_open (stream other : Stream) (err : Int) (requests : List (Cmd × Int)) :
    serverOpen other ((.open stream, err) :: requests) =
      if err = 0 ∧ stream = other then true else serverOpen other requests := by
  simp [serverOpen]

theorem serverOpen_stop (stream other : Stream) (err : Int) (requests : List (Cmd × Int)) :
    serverOpen other ((.stop stream, err) :: requests) =
      if err = 0 ∧ stream = other then false else serverOpen other requests := by
  simp [serverOpen]

theorem serverOpen_decStart (other : Stream) (err : Int) (requests : List (Cmd × Int)) :
    serverOpen other ((.decStart, err) :: requests) = serverOpen other requests := by
  simp [serverOpen]

theorem opensClosed_open (stream : Stream) (err : Int) (requests : List (Cmd × Int)) :
    OpensClosed ((.open stream, err) :: requests) ↔
      serverOpen stream requests = false ∧ OpensClosed requests := by
  simp [OpensClosed]

theorem opensClosed_stop (stream : Stream) (err : Int) (requests : List (Cmd × Int)) :
    OpensClosed ((.stop stream, err) :: requests) ↔ OpensClosed requests := by
  simp [OpensClosed]

theorem opensClosed_decStart (err : Int) (requests : List (Cmd × Int)) :
    OpensClosed ((.decStart, err) :: requests) ↔ OpensClosed requests := by
  simp [OpensClosed]

section Receive

variable (err : Cmd → Int) (h : Handle) (stream : Stream)

/-- The requests up to the `OPEN` of a start. -/
def beforeOpen : List (Cmd × Int) :=
  if h.isOpen stream then (.stop stream, err (.stop stream)) :: h.requests else h.requests

theorem requests_stop : (h.receive err ⟨stream, false⟩).requests =
    (.stop stream, err (.stop stream)) :: h.requests := by
  cases stream <;> rfl

/-- A start stops a stream that is flagged open and opens it; `AUDIO_DEC_START` may follow. -/
theorem requests_start : ∃ rest, (h.receive err ⟨stream, true⟩).requests =
      rest ++ (.open stream, err (.open stream)) :: beforeOpen err h stream ∧
    (rest = [] ∨ rest = [(.decStart, err .decStart)]) := by
  have hset : ((if h.isOpen stream then h.stop err stream else h).setOpen true stream).requests =
      beforeOpen err h stream := by
    rw [beforeOpen]
    cases stream <;> split <;> rfl
  cases stream with
  | record => exact ⟨[], congrArg (_ :: ·) hset, Or.inl rfl⟩
  | play =>
    show ∃ rest, (((if h.isOpen .play then h.stop err .play else h).setOpen true
      .play).playerNetInit err).requests = _ ∧ _
    rw [Handle.playerNetInit]
    split
    · exact ⟨[], congrArg (_ :: ·) hset, Or.inl rfl⟩
    · exact ⟨[(.decStart, err .decStart)], congrArg ((Cmd.decStart, err .decStart) ::
        (Cmd.open .play, err (.open .play)) :: ·) hset, Or.inr rfl⟩

/-- `AUDIO_DEC_START` changes nothing. -/
theorem server_start :
    (∀ other, serverOpen other (h.receive err ⟨stream, true⟩).requests =
      serverOpen other ((.open stream, err (.open stream)) :: beforeOpen err h stream)) ∧
    (OpensClosed (h.receive err ⟨stream, true⟩).requests ↔
      OpensClosed ((.open stream, err (.open stream)) :: beforeOpen err h stream)) := by
  obtain ⟨rest, hrest, rfl | rfl⟩ := requests_start err h stream
  · rw [hrest]
    exact ⟨fun _ => rfl, Iff.rfl⟩
  · rw [hrest]
    exact ⟨fun other => serverOpen_decStart .., opensClosed_decStart ..⟩

end Receive

section Message

variable {err : Cmd → Int} {h : Handle} (ht : Truthful h) (stream : Stream)
include ht

theorem Truthful.beforeOpen :
    OpensClosed (beforeOpen err h stream) ∧
    (∀ other, other ≠ stream →
      serverOpen other (AudioControl.beforeOpen err h stream) = h.isOpen other) ∧
    (serverOpen stream (AudioControl.beforeOpen err h stream) = false ↔
      (h.isOpen stream → err (.stop stream) = 0)) := by
  have hflag := ht.flags stream
  rw [AudioControl.beforeOpen]
  split
  · rename_i hopen
    refine ⟨(opensClosed_stop ..).mpr ht.opens, fun other hne => ?_, ?_⟩
    · rw [serverOpen_stop, if_neg fun hs => hne hs.2.symm, ht.flags]
    · rw [serverOpen_stop, ← hflag, hopen]
      simp
  · rename_i hclosed
    refine ⟨ht.opens, fun other _ => (ht.flags other).symm, ?_⟩
    rw [← hflag]
    simp [hclosed]

theorem truthful_start_iff : Truthful (h.receive err ⟨stream, true⟩) ↔
    Answered h (⟨stream, true⟩, err) := by
  obtain ⟨hopens, hother, hstopped⟩ := @Truthful.beforeOpen err h ht stream
  obtain ⟨hserver, hclosed⟩ := server_start err h stream
  constructor
  · intro hnew
    obtain ⟨hbefore, -⟩ := (opensClosed_open ..).mp (hclosed.mp hnew.opens)
    refine ⟨fun _ => ?_, hstopped.mp hbefore⟩
    by_contra hfail
    have hflag := hnew.flags stream
    rw [isOpen_receive, hserver, serverOpen_open, if_neg fun ho => hfail ho.1, hbefore] at hflag
    simp [apply] at hflag
  · intro ha
    have hbefore := hstopped.mpr ha.stopped
    refine ⟨fun other => ?_, hclosed.mpr ((opensClosed_open ..).mpr ⟨hbefore, hopens⟩)⟩
    rw [isOpen_receive, hserver, serverOpen_open]
    by_cases hs : stream = other
    · subst hs
      rw [if_pos ⟨ha.opened rfl, rfl⟩]
      exact Function.update_self ..
    · rw [if_neg fun ho => hs ho.2, hother other (Ne.symm hs)]
      exact Function.update_of_ne (Ne.symm hs) _ _

theorem truthful_stop_iff : Truthful (h.receive err ⟨stream, false⟩) ↔
    Answered h (⟨stream, false⟩, err) := by
  have hrequests := requests_stop err h stream
  constructor
  · intro hnew
    refine ⟨nofun, fun hopen => ?_⟩
    by_contra hfail
    have hflag := hnew.flags stream
    rw [isOpen_receive, hrequests, serverOpen_stop, if_neg fun hs => hfail hs.1, ← ht.flags]
      at hflag
    simp [apply, hopen] at hflag
  · intro ha
    refine ⟨fun other => ?_, hrequests ▸ (opensClosed_stop ..).mpr ht.opens⟩
    rw [isOpen_receive, hrequests, serverOpen_stop]
    by_cases hs : stream = other
    · subst hs
      have hleft : apply h.isOpen ⟨stream, false⟩ stream = false := Function.update_self ..
      rw [hleft, ← ht.flags]
      split
      · rfl
      · rename_i hfail
        exact (eq_false_of_ne_true fun hopen => hfail ⟨ha.stopped hopen, rfl⟩).symm
    · rw [if_neg fun hs' => hs hs'.2, ← ht.flags]
      exact Function.update_of_ne (Ne.symm hs) _ _

theorem truthful_receive_iff (m : Msg) : Truthful (h.receive err m) ↔ Answered h (m, err) := by
  obtain ⟨stream, start⟩ := m
  cases start with
  | true => exact truthful_start_iff ht stream
  | false => exact truthful_stop_iff ht stream

end Message

/-- After each message the flags tell what is open at the server, and nothing has been opened twice,
if and only if the requests that matter succeed. -/
theorem truthful_iff (as : List (Msg × (Cmd → Int))) :
    audioTask.Always Truthful audioTask.init as ↔ audioTask.Along Answered audioTask.init as := by
  refine Machine.always_iff_along (I := Truthful) (Q := fun _ _ => True) ?_ (fun _ h => h) ?_ ?_
    (Machine.along_true _ _)
  · rintro s ⟨m, err⟩ t h - ha hs
    obtain rfl := Option.some.inj hs
    exact (truthful_receive_iff h m).mpr ha
  · rintro s ⟨m, err⟩ t h - hs ht
    obtain rfl := Option.some.inj hs
    exact (truthful_receive_iff h m).mp ht
  · exact ⟨fun stream => by cases stream <;> rfl, trivial⟩

/-- A decoder that cannot be opened leaves the flag set. -/
theorem failedOpen_flagged : ¬ ∀ as, audioTask.Always Truthful audioTask.init as := by
  intro h
  have hflags := (h [(⟨.play, true⟩, fun _ => 1)]).2.flags .play
  exact absurd hflags (by decide)

end AiCall.Jl.AudioControl
