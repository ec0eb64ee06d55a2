import AiCall.Jl.AudioServer
import AiCall.Jl.Progress

/-! The JL demo with the control of its audio streams: `jl-ac791/artc_aicall_demo.c` on top of
`jl-ac791/audio_input2.c`.  The audio task posts the start messages on its first line and the stop
messages on its last one, and `__audio_task` handles them whenever it gets to run.  The queue and
`__audio_task` exist: `audio_stream_init2`, which the audio task calls first, has set them up. -/

namespace AiCall.Jl

open Kit

namespace Phone

/-- The demo, the queue with its task, and the number of posts that the audio task has made on its
line. -/
structure State (cap : Nat) where
  call : Jl.State := {}
  audio : AudioControl.State cap := {}
  posts : Nat := 0

inductive Action where
  | call (a : Jl.Action)  -- a step of the demo
  | first (i : Nat) (sent : AudioControl.Sent)  -- audio task `i` makes its first post
  | second (i : Nat) (sent : AudioControl.Sent)
  | pend
  | pendFails
  | receive (err : AudioControl.Cmd → Int)

variable {cap : Nat}

/-- What an audio task asks for on its line: `start_audio_stream2` or `stop_audio_stream2`. -/
def request : AudioLine → Option Bool
  | .start => some true
  | .stop => some false
  | _ => none

namespace State

/-- The line of audio task `i`, and the line of the last task that was forked. -/
def lineOf (s : State cap) (i : Nat) : AudioLine := (s.call.tasks i).thread.line

def line (s : State cap) : AudioLine := s.lineOf (s.call.taskCount - 1)

/-- A step of the queue or its task. -/
def serve (s : State cap) (a : AudioControl.Action) : Option (State cap) :=
  (s.audio.step a).map fun u => { s with audio := u }

/-- A step of the demo.  An audio task leaves the lines with posts after its second post. -/
def callStep (s : State cap) (a : Jl.Action) : Option (State cap) :=
  match a with
  | .audio i _ =>
    if (request (s.lineOf i)).isSome then
      if s.posts = 2 then (s.call.step a).map fun c => { s with call := c, posts := 0 } else none
    else (s.call.step a).map fun c => { s with call := c }
  | _ => (s.call.step a).map fun c => { s with call := c }

def step (s : State cap) : Action → Option (State cap)
  | .call a => s.callStep a
  | .first i sent =>
    match request (s.lineOf i) with
    | none => none
    | some flag =>
      if s.posts = 0 then
        (s.audio.step (.call flag sent)).map fun u => { s with audio := u, posts := 1 }
      else none
  | .second i sent =>
    match request (s.lineOf i) with
    | none => none
    | some flag =>
      if s.posts = 1 then
        (s.audio.step (.second flag sent)).map fun u => { s with audio := u, posts := 2 }
      else none
  | .pend => s.serve .pend
  | .pendFails => s.serve .pendFails
  | .receive err => s.serve (.receive err)

end State

def phone (cap : Nat) : Machine (State cap) Action := ⟨{}, State.step⟩

/-! ### The demo in the phone -/

/-- A step of the demo alone. -/
theorem callStep_cases {s t : State cap} {a : Jl.Action} (hs : s.callStep a = some t) :
    s.call.step a = some t.call ∧ t.audio = s.audio ∧
      ((∀ i ok, a ≠ .audio i ok) ∧ t.posts = s.posts ∨
        ∃ i ok, a = .audio i ok ∧
          (request (s.lineOf i) = none ∧ t.posts = s.posts ∨
            (request (s.lineOf i)).isSome ∧ s.posts = 2 ∧ t.posts = 0)) := by
  unfold State.callStep at hs
  cases a with
  | audio i ok =>
    simp only at hs
    split at hs
    · rename_i hreq
      split at hs
      · obtain ⟨c, hc, rfl⟩ := Option.map_eq_some_iff.mp hs
        exact ⟨hc, rfl, Or.inr ⟨i, ok, rfl, Or.inr ⟨hreq, ‹_›, rfl⟩⟩⟩
      · cases hs
    · rename_i hreq
      obtain ⟨c, hc, rfl⟩ := Option.map_eq_some_iff.mp hs
      exact ⟨hc, rfl, Or.inr ⟨i, ok, rfl, Or.inl ⟨by simpa using hreq, rfl⟩⟩⟩
  | press | key | error =>
    obtain ⟨c, hc, rfl⟩ := Option.map_eq_some_iff.mp hs
    exact ⟨hc, rfl, Or.inl ⟨by simp, rfl⟩⟩

/-- The running audio task is the last one that was forked. -/
theorem lineOf_eq {s : State cap} (h : Inv s.call) {i : Nat} (hi : (s.call.tasks i).running) :
    s.lineOf i = s.line := by
  have hlast := (h.running i hi).last
  have heq : s.call.taskCount - 1 = i := by omega
  rw [State.line, heq]

/-- Where no audio task runs, the last one has returned. -/
theorem line_eq_returned {s : State cap} (h : ∀ i, (s.call.tasks i).running = false) :
    s.line = .returned := by
  have hlast := h (s.call.taskCount - 1)
  simpa [AudioTask.running, State.line, State.lineOf] using hlast

/-- Whether the streams are to be open before the posts of a line. -/
def before : AudioLine → Bool
  | .start | .returned => false
  | _ => true

/-- What the posts of a line leave behind is what the next line finds. -/
theorem before_access {line : AudioLine} {f : Aicall → Aicall × AudioLine}
    (hf : line.access = some f) (r : Aicall) :
    request line = none ∧ before (f r).2 = before line := by
  cases line <;> simp only [AudioLine.access, Option.some.injEq, reduceCtorEq] at hf <;>
    subst hf <;> dsimp only <;> (try split) <;> exact ⟨rfl, rfl⟩

theorem before_audioStep {c d : Jl.State} {i : Nat} {ok : Bool} (hn : d.fault = none)
    (hs : c.audioStep i ok = some d) :
    before (d.tasks i).thread.line =
      (request (c.tasks i).thread.line).getD (before (c.tasks i).thread.line) := by
  unfold Jl.State.audioStep at hs
  split at hs
  · unfold Jl.State.audioLine at hs
    cases hl : (c.tasks i).thread.line <;>
      simp only [hl, reduceCtorEq, Option.some.injEq] at hs <;> subst hs
    case read | send =>
      split at hn
      · simp [*, Jl.State.audioGoto, Jl.State.setTask, before, request]
      · simp [Jl.State.fail] at hn
    all_goals
      simp only [Jl.State.audioGoto, Jl.State.setTask, Function.update_self]
      (try split) <;> rfl
  · rename_i k hk
    cases hs
    obtain ⟨_, hsome, rfl⟩ := Thread.access_load hk
    obtain ⟨f, hf⟩ := Option.isSome_iff_exists.mp hsome
    simp [Jl.State.setTask, (before_access hf {}).1]
  · cases hs
    simp [Jl.State.fail] at hn
  · rename_i h' k hk
    cases hs
    obtain ⟨f, j, q, hf, _, _, rfl, rfl⟩ := Thread.access_done hk
    simp [Jl.State.setTask, (before_access hf q).1, (before_access hf q).2]

/-! ### The task that `app_core` forks -/

/-- What a step of `app_core` does to the audio tasks: nothing, or it forks one where none runs. -/
def Forks (c d : Jl.State) : Prop :=
  d.tasks = c.tasks ∧ d.taskCount = c.taskCount ∨
    c.key.line.mayRun = false ∧ d.taskCount = c.taskCount + 1 ∧
      (d.tasks c.taskCount).thread.line = .start

theorem startLine_forks {c d : Jl.State} {ok : Bool} {pid : Int} {junk : Aicall} {l : StartLine}
    (hl : c.key.line = .start l) (hs : c.startLine ok pid junk l = some d) : Forks c d := by
  cases l <;> simp only [Jl.State.startLine, reduceCtorEq, Option.some.injEq] at hs
  case fork p =>
    split at hs
    · split at hs <;> cases hs
      refine Or.inr ⟨by rw [hl]; rfl, rfl, ?_⟩
      simp [Jl.State.goto, Jl.State.setTask]
    · split at hs <;> cases hs <;> exact Or.inl ⟨rfl, rfl⟩
  case call e k =>
    split at hs
    · cases hs
      exact Or.inl ⟨rfl, rfl⟩
    · obtain rfl := Option.some.inj hs
      unfold Jl.State.sdkCall
      split <;> exact Or.inl ⟨rfl, rfl⟩
  case clearConfig | fillConfig | storePid | init =>
    split at hs <;> cases hs <;> exact Or.inl ⟨rfl, rfl⟩
  all_goals
    subst hs
    exact Or.inl ⟨rfl, rfl⟩

theorem handupLine_forks {c d : Jl.State} {k : Caller} {l : HandupLine}
    (hs : c.handupLine k l = some d) : Forks c d := by
  cases l <;> simp only [Jl.State.handupLine, reduceCtorEq, Option.some.injEq] at hs
  case kill =>
    split at hs
    · cases hs
      exact Or.inl ⟨rfl, rfl⟩
    · split at hs <;> cases hs
      exact Or.inl ⟨rfl, rfl⟩
  case handup =>
    subst hs
    unfold Jl.State.sdkCall
    split <;> exact Or.inl ⟨rfl, rfl⟩
  all_goals
    subst hs
    exact Or.inl ⟨rfl, rfl⟩

theorem destroyLine_forks {c d : Jl.State} {k : Caller} {l : DestroyLine}
    (hs : c.destroyLine k l = some d) : Forks c d := by
  cases l <;> simp only [Jl.State.destroyLine, reduceCtorEq, Option.some.injEq] at hs
  case testCurr | loadCurr | clearCurr =>
    subst hs
    exact Or.inl ⟨rfl, rfl⟩
  all_goals
    split at hs <;> cases hs <;> exact Or.inl ⟨rfl, rfl⟩

theorem useLine_forks {c d : Jl.State} {f : Fn} {l : UseLine} (hs : c.useLine f l = some d) :
    Forks c d := by
  cases l <;> simp only [Jl.State.useLine, reduceCtorEq, Option.some.injEq] at hs
  case testCurr =>
    subst hs
    exact Or.inl ⟨rfl, rfl⟩
  case callSdk =>
    subst hs
    unfold Jl.State.sdkCall
    split <;> exact Or.inl ⟨rfl, rfl⟩

theorem keyStep_forks {c d : Jl.State} {ok : Bool} {pid : Int} {junk : Aicall}
    (hs : c.keyStep ok pid junk = some d) : Forks c d := by
  unfold Jl.State.keyStep at hs
  split at hs
  · unfold Jl.State.keyLine at hs
    split at hs
    · cases hs
    · exact startLine_forks ‹_› hs
    · exact handupLine_forks hs
    · exact destroyLine_forks hs
    · exact useLine_forks hs
  all_goals
    cases hs
    exact Or.inl ⟨rfl, rfl⟩

/-! ### The streams follow the call -/

/-- How the posts of the audio task stand to what its line asks for.  `flags` is what the pending
messages lead to. -/
def Posted (line : AudioLine) (caller : Option Bool) (flags : AudioControl.Stream → Bool) :
    Nat → Prop
  | 0 => caller = none ∧ ∀ stream, flags stream = before line
  | 1 => ∃ flag, request line = some flag ∧ caller = some flag ∧ flags .play = flag
  | 2 => ∃ flag, request line = some flag ∧ caller = none ∧ ∀ stream, flags stream = flag
  | _ => False

/-- What holds between any two steps of the phone. -/
structure Synced (s : State cap) : Prop where
  inv : Inv s.call
  posted : Posted s.line s.audio.caller s.audio.flags s.posts
  truthful : AudioControl.Truthful s.audio.handle

/-- No post fails, and the server answers the requests that matter. -/
def Served (s : State cap) : Action → Prop
  | .first _ sent | .second _ sent => sent = .posted
  | .receive err => ∀ m, s.audio.mailbox.handling = some m →
    AudioControl.Answered s.audio.handle (m, err)
  | _ => True

instance (h : AudioControl.Handle) (a : AudioControl.Msg × (AudioControl.Cmd → Int)) :
    Decidable (AudioControl.Answered h a) :=
  decidable_of_iff ((a.1.start → a.2 (.open a.1.stream) = 0) ∧
    (h.isOpen a.1.stream → a.2 (.stop a.1.stream) = 0))
    ⟨fun h => ⟨h.1, h.2⟩, fun h => ⟨h.opened, h.stopped⟩⟩

instance (s : State cap) : ∀ a, Decidable (Served s a)
  | .first _ sent | .second _ sent => inferInstanceAs (Decidable (sent = .posted))
  | .call _ | .pend | .pendFails => isTrue trivial
  | .receive err =>
    decidable_of_iff (∀ m ∈ s.audio.mailbox.handling,
      AudioControl.Answered s.audio.handle (m, err)) Iff.rfl

theorem synced_init : Synced (phone cap).init where
  inv := inv_init
  posted := ⟨rfl, fun stream => by cases stream <;> rfl⟩
  truthful := ⟨fun stream => by cases stream <;> rfl, trivial⟩

theorem posted_zero {line : AudioLine} {caller : Option Bool}
    {flags : AudioControl.Stream → Bool} {n : Nat} (hreq : request line = none)
    (h : Posted line caller flags n) : n = 0 := by
  match n, h with
  | 0, _ => rfl
  | 1, ⟨flag, hflag, _⟩ => simp [hreq] at hflag
  | 2, ⟨flag, hflag, _⟩ => simp [hreq] at hflag

theorem callStep_posted {s t : State cap} {a : Jl.Action} (h : Synced s)
    (hs : s.callStep a = some t) : Posted t.line s.audio.caller s.audio.flags t.posts := by
  obtain ⟨hc, _, hposts⟩ := callStep_cases hs
  have hinv' : Inv t.call := step_inv h.inv hc
  have hposted := h.posted
  simp only [Jl.State.step, h.inv.noFault, Option.isSome_none, Bool.false_eq_true, if_false] at hc
  have hsame (ht : t.call.tasks = s.call.tasks) (hcount : t.call.taskCount = s.call.taskCount) :
      t.line = s.line := by
    rw [State.line, State.lineOf, ht, hcount]
    rfl
  cases a with
  | press k =>
    obtain hp : t.posts = s.posts := by simpa using hposts
    simp only at hc
    split at hc
    · have hcall := Option.some.inj hc
      rw [hp, hsame (by rw [← hcall]; rfl) (by rw [← hcall]; rfl)]
      exact hposted
    · cases hc
  | error e code =>
    obtain hp : t.posts = s.posts := by simpa using hposts
    simp only at hc
    split at hc
    · have hcall := Option.some.inj hc
      rw [hp, hsame (by rw [← hcall]) (by rw [← hcall])]
      exact hposted
    · cases hc
  | key ok pid junk =>
    obtain hp : t.posts = s.posts := by simpa using hposts
    rw [hp]
    rcases keyStep_forks hc with ⟨ht, hcount⟩ | ⟨hm, hcount, hline⟩
    · rw [hsame ht hcount]
      exact hposted
    · -- a task is forked only where the one before it has returned
      have hret : s.line = .returned := line_eq_returned fun i => by
        by_contra hi
        exact not_running hm i (h.inv.running i (by simpa using hi))
      have hstart : t.line = .start := by rw [State.line, hcount]; exact hline
      rw [hret] at hposted
      have hzero := posted_zero rfl hposted
      rw [hzero] at hposted ⊢
      rw [hstart]
      exact hposted
  | audio i ok =>
    have hi := audioStep_running hc
    obtain ⟨_, _, hcount⟩ := audioStep_record hc
    have hlast := (h.inv.running i hi).last
    have heq : s.call.taskCount - 1 = i := by omega
    have hline : t.line = t.lineOf i := by rw [State.line, hcount, heq]
    have hold := lineOf_eq h.inv hi
    have hbefore : before (t.lineOf i) = (request s.line).getD (before s.line) := by
      rw [← hold]
      exact before_audioStep hinv'.noFault hc
    rw [hline]
    rcases hposts with ⟨hne, _⟩ | ⟨j, ok', ha, hpost⟩
    · exact absurd rfl (hne i ok)
    · obtain ⟨rfl, rfl⟩ : i = j ∧ ok = ok' := by simpa using ha
      rw [hold] at hpost
      rcases hpost with ⟨hreq, hp⟩ | ⟨hreq, htwo, hp⟩
      · have hzero := posted_zero hreq hposted
        rw [hzero] at hposted
        rw [hp, hzero]
        refine ⟨hposted.1, fun stream => ?_⟩
        rw [hposted.2 stream, hbefore, hreq]
        rfl
      · rw [htwo] at hposted
        obtain ⟨flag, hflag, hcaller, hflags⟩ := hposted
        rw [hp]
        refine ⟨hcaller, fun stream => ?_⟩
        rw [hflags stream, hbefore, hflag]
        rfl

theorem audio_flags {u v : AudioControl.State cap} {a : AudioControl.Action}
    (h : u.step a = some v) : v.flags = AudioControl.posting u.flags a :=
  AudioControl.step_flags u a v h

/-- The first post of a line, and the second one. -/
theorem first_posted {s t : State cap} {i : Nat} (h : Synced s)
    (hs : (phone cap).step s (.first i .posted) = some t) :
    t.call = s.call ∧ t.audio.handle = s.audio.handle ∧
      Posted t.line t.audio.caller t.audio.flags t.posts := by
  simp only [phone, State.step] at hs
  split at hs
  · cases hs
  · rename_i flag hreq
    have hi : (s.call.tasks i).running := by
      simp only [AudioTask.running, decide_eq_true_eq]
      intro hret
      simp [State.lineOf, hret, request] at hreq
    rw [lineOf_eq h.inv hi] at hreq
    split at hs
    · obtain ⟨u, hu, rfl⟩ := Option.map_eq_some_iff.mp hs
      have hflags := audio_flags hu
      simp only [AudioControl.State.step] at hu
      split at hu
      · obtain ⟨b, hb, rfl⟩ := Option.map_eq_some_iff.mp hu
        exact ⟨rfl, rfl, flag, hreq, rfl, by rw [hflags]; rfl⟩
      · cases hu
    · cases hs

theorem second_posted {s t : State cap} {i : Nat} (h : Synced s)
    (hs : (phone cap).step s (.second i .posted) = some t) :
    t.call = s.call ∧ t.audio.handle = s.audio.handle ∧
      Posted t.line t.audio.caller t.audio.flags t.posts := by
  have hposted := h.posted
  simp only [phone, State.step] at hs
  split at hs
  · cases hs
  · rename_i flag hreq
    have hi : (s.call.tasks i).running := by
      simp only [AudioTask.running, decide_eq_true_eq]
      intro hret
      simp [State.lineOf, hret, request] at hreq
    rw [lineOf_eq h.inv hi] at hreq
    split at hs
    · rename_i hone
      rw [hone] at hposted
      obtain ⟨flag', hreq', hcaller, hplay⟩ := hposted
      obtain rfl : flag = flag' := Option.some.inj (hreq.symm.trans hreq')
      obtain ⟨u, hu, rfl⟩ := Option.map_eq_some_iff.mp hs
      have hflags := audio_flags hu
      rw [AudioControl.State.step, if_pos hcaller] at hu
      obtain ⟨b, hb, rfl⟩ := Option.map_eq_some_iff.mp hu
      refine ⟨rfl, rfl, flag, hreq, rfl, fun stream => ?_⟩
      rw [hflags]
      cases stream with
      | play => exact hplay
      | record => rfl
    · cases hs

theorem step_synced {s t : State cap} {a : Action} (h : Synced s) (hP : Served s a)
    (hs : (phone cap).step s a = some t) : Synced t := by
  cases a with
  | call a =>
    obtain ⟨hc, haudio, _⟩ := callStep_cases hs
    refine ⟨step_inv h.inv hc, ?_, haudio ▸ h.truthful⟩
    rw [haudio]
    exact callStep_posted h hs
  | first i sent =>
    obtain rfl : sent = .posted := hP
    obtain ⟨hcall, hhandle, hposted⟩ := first_posted h hs
    exact ⟨hcall ▸ h.inv, hposted, hhandle ▸ h.truthful⟩
  | second i sent =>
    obtain rfl : sent = .posted := hP
    obtain ⟨hcall, hhandle, hposted⟩ := second_posted h hs
    exact ⟨hcall ▸ h.inv, hposted, hhandle ▸ h.truthful⟩
  | pend =>
    obtain ⟨u, hu, rfl⟩ := Option.map_eq_some_iff.mp hs
    have hflags := audio_flags hu
    obtain ⟨b, -, rfl⟩ := Option.map_eq_some_iff.mp hu
    refine ⟨h.inv, ?_, h.truthful⟩
    rw [hflags]
    exact h.posted
  | pendFails =>
    obtain ⟨u, hu, rfl⟩ := Option.map_eq_some_iff.mp hs
    simp only [AudioControl.State.step] at hu
    split at hu <;> cases hu
    exact ⟨h.inv, h.posted, h.truthful⟩
  | receive err =>
    obtain ⟨u, hu, rfl⟩ := Option.map_eq_some_iff.mp hs
    have hflags := audio_flags hu
    obtain ⟨m, hm, rfl⟩ := Option.map_eq_some_iff.mp hu
    refine ⟨h.inv, ?_, (AudioControl.truthful_receive_iff h.truthful m).mpr (hP m hm)⟩
    rw [hflags]
    exact h.posted

/-- What the streams are for the call, once no message is pending. -/
structure FollowsCall (s : State cap) : Prop where
  pending : (∀ i, (s.call.tasks i).running = false) → ∀ stream, s.audio.flags stream = false
  closed : (∀ i, (s.call.tasks i).running = false) → s.audio.mailbox.Idle →
    ∀ stream, AudioControl.serverOpen stream s.audio.handle.requests = false
  opened : ∀ i, (s.call.tasks i).running → request (s.lineOf i) = none → s.audio.mailbox.Idle →
    ∀ stream, AudioControl.serverOpen stream s.audio.handle.requests = true

theorem Synced.server {s : State cap} (h : Synced s) (hidle : s.audio.mailbox.Idle)
    (stream : AudioControl.Stream) :
    AudioControl.serverOpen stream s.audio.handle.requests = s.audio.flags stream := by
  rw [← h.truthful.flags, AudioControl.State.flags, Mailbox.settled_idle hidle]

theorem Synced.flags {s : State cap} (h : Synced s) (hreq : request s.line = none)
    (stream : AudioControl.Stream) : s.audio.flags stream = before s.line := by
  have hposted := h.posted
  rw [posted_zero hreq hposted] at hposted
  exact hposted.2 stream

/-- The microphone and the speaker follow the call.  In every run in which no post fails and the
server answers, they are closed when no audio task runs, as soon as the pending messages are
handled, and these messages have been posted before; and they are open while an audio task is in its
loop. -/
theorem streams_follow_call {as : List Action} {s : State cap}
    (hr : (phone cap).run (phone cap).init as = some s)
    (hP : (phone cap).Along Served (phone cap).init as) : FollowsCall s := by
  have h : Synced s :=
    Machine.run_invariant (fun _ _ _ h hP hs => step_synced h hP hs) synced_init hP hr
  have hpending (hret : ∀ i, (s.call.tasks i).running = false) (stream : AudioControl.Stream) :
      s.audio.flags stream = false := by
    have hline := line_eq_returned hret
    rw [h.flags (by rw [hline]; rfl), hline]
    rfl
  refine ⟨hpending, fun hret hidle stream => ?_, fun i hi hreq hidle stream => ?_⟩
  · rw [h.server hidle]
    exact hpending hret stream
  · have hline := lineOf_eq h.inv hi
    rw [h.server hidle, h.flags (hline ▸ hreq), ← hline]
    have hret : s.lineOf i ≠ .returned := by simpa [AudioTask.running, State.lineOf] using hi
    generalize s.lineOf i = line at hreq hret ⊢
    cases line <;> simp_all [before, request]

/-- `__audio_task` handles two messages. -/
def handled : List Action := [.pend, .receive fun _ => 0, .pend, .receive fun _ => 0]

/-- A call, until the streams are open. -/
def openedCall : List Action :=
  .call (.press .k1) :: List.replicate 46 (.call (.key true 5 {})) ++
    [.first 0 .posted, .second 0 .posted, .call (.audio 0 true)] ++ handled

/-- The hang-up after it. -/
def closedCall : List Action :=
  .call (.press .k2) :: List.replicate 12 (.call (.key true 0 {})) ++
    List.replicate 3 (.call (.audio 0 true)) ++
    [.first 0 .posted, .second 0 .posted, .call (.audio 0 true)] ++
    List.replicate 25 (.call (.key true 0 {})) ++ handled

theorem closedCall_followed : ∃ s t : State AudioControl.queueSize,
    (phone AudioControl.queueSize).run (phone AudioControl.queueSize).init openedCall = some s ∧
    AudioControl.serverOpen .record s.audio.handle.requests = true ∧
    (phone AudioControl.queueSize).run (phone AudioControl.queueSize).init
      (openedCall ++ closedCall) = some t ∧
    AudioControl.serverOpen .record t.audio.handle.requests = false :=
  ⟨_, _, rfl,
    (@streams_follow_call _ openedCall _ rfl (by decide +kernel)).opened 0 rfl rfl ⟨rfl, rfl⟩
      .record, rfl,
    (@streams_follow_call _ (openedCall ++ closedCall) _ rfl (by decide +kernel)).closed
      (fun i => by cases i <;> rfl) ⟨rfl, rfl⟩ .record⟩

end Phone

end AiCall.Jl
