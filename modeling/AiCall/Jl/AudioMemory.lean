import AiCall.Jl.AudioControl
import AiCall.Jl.Messages

/-! The audio streams of `jl-ac791/audio_input2.c` with their messages in memory: one caller of
`_device_net_audio2`, whose two calls of `_send_audio_msg` allocate, fill and post a record each,
and `__audio_task`, which switches on the command of the record that it finds.  Every run of it is a
run of `control`, where a message is sent in one step and has no address. -/

namespace AiCall.Jl.AudioMemory

open Kit AudioControl Messages

/-- `MSG_START_NET_AUDIO_PLAY`, `MSG_STOP_NET_AUDIO_PLAY`, `MSG_START_AUDIO_RECORDER` and
`MSG_STOP_AUDIO_RECORDER`. -/
def msgid : Msg → Nat
  | ⟨.play, true⟩ => 1
  | ⟨.play, false⟩ => 3
  | ⟨.record, true⟩ => 5
  | ⟨.record, false⟩ => 6

/-- The case of the switch in `__audio_task`. -/
def ofCmd : Nat → Option Msg
  | 1 => some ⟨.play, true⟩
  | 3 => some ⟨.play, false⟩
  | 5 => some ⟨.record, true⟩
  | 6 => some ⟨.record, false⟩
  | _ => none

theorem ofCmd_msgid (m : Msg) : ofCmd (msgid m) = some m := by
  obtain ⟨stream, start⟩ := m
  cases stream <;> cases start <;> rfl

theorem noData_whole : ∀ bytes ∈ (none : Option (List UInt8)), bytes.length = 0 := by
  intro bytes hb
  cases hb

theorem noData_room : 0 + 1 < 2 ^ 32 := by decide

/-- `_send_audio_msg(msgid, 0, NULL)`. -/
def args (m : Msg) : Args := ⟨msgid m, none, 0, noData_whole, noData_room⟩

/-- The lines of `_device_net_audio2(flag)`. -/
inductive CallLine where
  | idle  -- no call is under way
  | first (flag : Bool)  -- in its first `_send_audio_msg`
  | second (flag : Bool)
deriving DecidableEq, Repr

structure State where
  memory : Messages.State := {}
  handle : Handle := {}
  line : CallLine := .idle

inductive Action where
  | call (flag : Bool)  -- a call of `_device_net_audio2`
  | send (ret : Int) (junk : Block)  -- the next step of its `_send_audio_msg`
  | next  -- `_send_audio_msg` has returned, and its result is not looked at
  | task (ret : Int) (err : Cmd → Int)  -- the next step of `__audio_task`

namespace State

/-- The switch on `msg_data->cmd`, when the task is at it. -/
def received (s : State) (err : Cmd → Int) : Handle :=
  match s.memory.task with
  | .handle m =>
    match (s.memory.msgAt m).bind fun r => ofCmd r.cmd with
    | some msg => s.handle.receive err msg
    | none => s.handle
  | _ => s.handle

def step (cap : Nat) (s : State) : Action → Option State
  | .call flag =>
    if s.line = .idle then
      ((messages cap).step s.memory (.call 0 (args ⟨.play, flag⟩))).map fun memory =>
        { s with memory, line := .first flag }
    else none
  | .send ret junk =>
    ((messages cap).step s.memory (.send 0 ret junk)).map fun memory => { s with memory }
  | .next =>
    match s.line, s.memory.senders 0 with
    | .first flag, .returned _ =>
      ((messages cap).step s.memory (.call 0 (args ⟨.record, flag⟩))).map fun memory =>
        { s with memory, line := .second flag }
    | .second _, .returned _ => some { s with line := .idle }
    | _, _ => none
  | .task ret err =>
    ((messages cap).step s.memory (.task ret)).map fun memory =>
      { s with memory, handle := s.received err }

end State

def device (cap : Nat) : Machine State Action := ⟨{}, State.step cap⟩

/-! ### The actions of `control` that a step stands for -/

/-- How a step of `_send_audio_msg` decides the outcome of the call, if it does. -/
def outcome (line : SendLine) (ret : Int) : Option Sent :=
  match line with
  | .mallocMsg _ | .mallocData _ _ => if ret = 0 then none else some .noMemory
  | .post _ _ => if ret = 0 then some .posted else some .refused
  | _ => none

def CallLine.action : CallLine → Sent → Option AudioControl.Action
  | .idle, _ => none
  | .first flag, sent => some (.call flag sent)
  | .second flag, sent => some (.second flag sent)

def actions (s : State) : Action → List AudioControl.Action
  | .send ret _ => ((outcome (s.memory.senders 0) ret).bind s.line.action).toList
  | .task ret err =>
    match s.memory.task with
    | .pend => if ret = 0 then [.pend] else [.pendFails]
    | .handle _ => [.receive err]
    | _ => []
  | _ => []

/-- The arguments of a call whose outcome is still open. -/
def openArgs : SendLine → Option Args
  | .mallocMsg a | .clearMsg a _ | .mallocData a _ | .fillData a _ | .clearData a _ | .post a _ =>
    some a
  | _ => none

/-! ### One step of `_send_audio_msg` -/

section Send

variable {cap : Nat} {s s' : Messages.State} {i m : Nat} {l : SendLine}

@[simp] theorem goto_senders (s : Messages.State) : (s.goto i l).senders i = l :=
  Function.update_self ..

/-- A step through a message fails, or it is the step on the record of the message. -/
theorem through_cases (s : Messages.State) (m : Nat) (f : CtrlMsg → Messages.State) :
    s.through m f = s.fail ∨ ∃ r, s.through m f = f r := by
  unfold Messages.State.through
  cases s.msgAt m with
  | none => exact Or.inl rfl
  | some r => exact Or.inr ⟨r, rfl⟩

/-- `freeDataOf` changes nothing but the heap, unless it fails. -/
theorem freeDataOf_cases (s : Messages.State) (m : Nat) (f : Messages.State → Messages.State) :
    s.freeDataOf m f = s.fail ∨ ∃ h, s.freeDataOf m f = f { s with heap := h } := by
  rw [Messages.State.freeDataOf]
  obtain hfail | ⟨r, hr⟩ := through_cases s m _
  · exact Or.inl hfail
  rw [hr]
  cases r.data with
  | none => exact Or.inr ⟨s.heap, rfl⟩
  | some d =>
    dsimp only
    cases s.dataAt d with
    | none => exact Or.inl rfl
    | some bytes => exact Or.inr ⟨_, rfl⟩

theorem fill_cases (s : Messages.State) (d : Nat) (bytes : List UInt8)
    (f : Messages.State → Messages.State) :
    s.fill d bytes f = s.fail ∨ ∃ h, s.fill d bytes f = f { s with heap := h } := by
  unfold Messages.State.fill
  cases s.dataAt d with
  | none => exact Or.inl rfl
  | some old =>
    dsimp only
    split
    · exact Or.inl rfl
    · exact Or.inr ⟨_, rfl⟩

theorem through_eq {f : CtrlMsg → Messages.State} (hf : (s.through m f).fault = false) :
    ∃ r, s.through m f = f r := by
  refine (through_cases s m f).resolve_left fun hfail => ?_
  rw [hfail] at hf
  cases hf

theorem through_goto {f : CtrlMsg → Messages.State}
    (hf : (s.through m fun r => (f r).goto i l).fault = false) :
    (s.through m fun r => (f r).goto i l).senders i = l := by
  obtain ⟨r, hr⟩ := through_eq hf
  rw [hr]
  exact goto_senders ..

theorem freeDataOf_goto (hf : (s.freeDataOf m fun u => u.goto i l).fault = false) :
    (s.freeDataOf m fun u => u.goto i l).senders i = l := by
  obtain hfail | ⟨h, heq⟩ := freeDataOf_cases s m fun u => u.goto i l
  · rw [hfail] at hf
    cases hf
  · rw [heq]
    exact goto_senders ..

theorem fill_goto {d : Nat} {bytes : List UInt8} {f : Messages.State → Messages.State}
    (hf : (s.fill d bytes fun u => (f u).goto i l).fault = false) :
    (s.fill d bytes fun u => (f u).goto i l).senders i = l := by
  obtain hfail | ⟨h, heq⟩ := fill_cases s d bytes fun u => (f u).goto i l
  · rw [hfail] at hf
    cases hf
  · rw [heq]
    exact goto_senders ..

/-- A step of a call keeps its arguments open until it decides the outcome. -/
theorem openArgs_send {ret : Int} {junk : Block} (hs : s.sendStep cap i ret junk = some s')
    (hf : s'.fault = false) :
    openArgs (s'.senders i) =
      if outcome (s.senders i) ret = none then openArgs (s.senders i) else none := by
  unfold Messages.State.sendStep at hs
  cases hl : s.senders i with
  | returned e =>
    rw [hl] at hs
    cases hs
  | mallocMsg a =>
    simp only [hl] at hs
    by_cases hret : ret = 0
    · cases junk with
      | data old =>
        rw [if_pos hret] at hs
        cases hs
      | msg r =>
        rw [if_pos hret] at hs
        cases hs
        rw [goto_senders]
        simp [outcome, openArgs, hret]
    · rw [if_neg hret] at hs
      cases hs
      rw [goto_senders]
      simp [outcome, openArgs, hret]
  | clearMsg a m =>
    simp only [hl] at hs
    cases hs
    rw [through_goto hf]
    cases a.copies <;> rfl
  | mallocData a m =>
    simp only [hl] at hs
    by_cases hret : ret = 0
    · cases junk with
      | msg r =>
        rw [if_pos hret] at hs
        cases hs
      | data old =>
        rw [if_pos hret] at hs
        dsimp only at hs
        split at hs <;> cases hs
        rw [through_goto hf]
        simp [outcome, openArgs, hret]
    · rw [if_neg hret] at hs
      cases hs
      rw [through_goto hf]
      simp [outcome, openArgs, hret]
  | fillData a m =>
    simp only [hl] at hs
    cases hs
    obtain ⟨r, hr⟩ := through_eq hf
    rw [hr] at hf ⊢
    cases hd : r.data with
    | none =>
      simp only [hd] at hf
      cases hf
    | some d =>
      simp only [hd] at hf ⊢
      rw [fill_goto hf]
      rfl
  | freeMsgAlone m | clearData a m | freeMsg m err =>
    simp only [hl] at hs
    cases hs
    rw [through_goto hf]
    rfl
  | post a m =>
    simp only [hl] at hs
    by_cases hret : ret = 0
    · rw [if_pos hret] at hs
      split at hs <;> cases hs
      rw [goto_senders]
      simp [outcome, openArgs, hret]
    · rw [if_neg hret] at hs
      cases hs
      rw [goto_senders]
      simp [outcome, openArgs, hret]
  | freeData m err =>
    simp only [hl] at hs
    cases hs
    rw [freeDataOf_goto hf]
    rfl

end Send

/-! ### The refinement -/

/-- Where the caller is: the first call of `_send_audio_msg` counts once its outcome is decided. -/
def Calling (openArgs : Option Args) (caller : Option Bool) : CallLine → Prop
  | .idle => openArgs = none ∧ caller = none
  | .first flag =>
    openArgs = none ∧ caller = some flag ∨ openArgs = some (args ⟨.play, flag⟩) ∧ caller = none
  | .second flag =>
    openArgs = none ∧ caller = none ∨ openArgs = some (args ⟨.record, flag⟩) ∧ caller = some flag

def content (m : Msg) : Content := (args m).content

/-- The messages in memory are those of `control`, and the rest is the same. -/
structure Refines {cap : Nat} (s : State) (c : AudioControl.State cap) : Prop where
  memory : ∃ b own, Holding s.memory b own ∧ Mailbox.Image content b c.mailbox
  handle : c.handle = s.handle
  calling : Calling (openArgs (s.memory.senders 0)) c.caller s.line

theorem content_eq (m : Msg) : content m = ⟨msgid m, none, 0⟩ := rfl

section Step

variable {cap : Nat} {s : State} {c : AudioControl.State cap} {memory : Messages.State}

theorem senders_call {s s' : Messages.State} {i : Nat} {a : Args}
    (hs : (messages cap).step s (.call i a) = some s') :
    openArgs (s.senders i) = none ∧ s'.senders i = .mallocMsg a := by
  simp only [messages, Messages.State.step] at hs
  split at hs
  · cases hs
  · cases hl : s.senders i with
    | returned e =>
      simp only [hl] at hs
      cases hs
      exact ⟨rfl, goto_senders ..⟩
    | _ =>
      simp only [hl] at hs
      cases hs

theorem senders_through {s : Messages.State} {m : Nat} {f : CtrlMsg → Messages.State}
    (hf : ∀ r, (f r).senders = s.senders) : (s.through m f).senders = s.senders := by
  obtain hfail | ⟨r, hr⟩ := through_cases s m f
  · rw [hfail]
    rfl
  · rw [hr]
    exact hf r

theorem senders_freeDataOf {s : Messages.State} {m : Nat} {line : TaskLine} :
    (s.freeDataOf m fun u => { u with task := line }).senders = s.senders := by
  obtain hfail | ⟨h, heq⟩ := freeDataOf_cases s m fun u => { u with task := line }
  · rw [hfail]
    rfl
  · rw [heq]

theorem senders_task {s s' : Messages.State} {ret : Int} (hs : s.taskStep ret = some s') :
    s'.senders = s.senders := by
  unfold Messages.State.taskStep at hs
  cases hl : s.task with
  | pend =>
    simp only [hl] at hs
    split at hs
    · cases hq : s.queue with
      | nil =>
        rw [hq] at hs
        cases hs
      | cons m queue =>
        simp only [hq] at hs
        cases hs
        rfl
    · cases hs
      rfl
  | handle m | freeMsg m =>
    simp only [hl] at hs
    cases hs
    exact senders_through fun _ => rfl
  | freeData m =>
    simp only [hl] at hs
    cases hs
    exact senders_freeDataOf

/-- A call that decides its outcome has its arguments open, and posts them if it succeeds. -/
theorem events_of_outcome (junk : Block) {s : Messages.State} {i : Nat} {ret : Int} {sent : Sent}
    (h : outcome (s.senders i) ret = some sent) :
    ∃ a, openArgs (s.senders i) = some a ∧
      events s (.send i ret junk) = if sent = .posted then [.post a.content] else [] := by
  cases hl : s.senders i with
  | mallocMsg a | mallocData a m =>
    rw [hl, outcome] at h
    split at h <;> cases h
    exact ⟨a, rfl, by simp [events, hl]⟩
  | post a m =>
    refine ⟨a, rfl, ?_⟩
    simp only [events, hl]
    rw [hl, outcome] at h
    by_cases hret : ret = 0
    · rw [if_pos hret] at h
      cases h
      exact if_pos hret
    · rw [if_neg hret] at h
      cases h
      exact if_neg hret
  | _ =>
    rw [hl] at h
    cases h

theorem events_of_open {s : Messages.State} {i : Nat} {ret : Int} {junk : Block}
    (h : outcome (s.senders i) ret = none) : events s (.send i ret junk) = [] := by
  cases hl : s.senders i with
  | post a m =>
    rw [hl, outcome] at h
    split at h <;> cases h
  | _ => simp only [events, hl]

/-- What `control` makes of a step. -/
def Matched (cap : Nat) (c : AudioControl.State cap) (as : List AudioControl.Action) (s' : State) :
    Prop :=
  ∃ c', (control cap).run c as = some c' ∧ Refines s' c'

theorem call_matched {flag : Bool} (h : Refines s c) (hl : s.line = .idle)
    (hs : (messages cap).step s.memory (.call 0 (args ⟨.play, flag⟩)) = some memory) :
    Matched cap c [] { s with memory, line := .first flag } := by
  obtain ⟨b, own, H, himage⟩ := h.memory
  obtain ⟨b', own', hb, H'⟩ := H.step hs
  cases hb
  have hcall := h.calling
  rw [hl] at hcall
  have hline := (senders_call hs).2
  refine ⟨c, rfl, ⟨_, _, H', himage⟩, h.handle, .inr ⟨?_, hcall.2⟩⟩
  rw [hline]
  rfl

theorem next_matched {flag : Bool} (h : Refines s c) (hl : s.line = .first flag)
    (hs : (messages cap).step s.memory (.call 0 (args ⟨.record, flag⟩)) = some memory) :
    Matched cap c [] { s with memory, line := .second flag } := by
  obtain ⟨b, own, H, himage⟩ := h.memory
  obtain ⟨b', own', hb, H'⟩ := H.step hs
  cases hb
  have hcall := h.calling
  rw [hl, (senders_call hs).1] at hcall
  have hcaller : c.caller = some flag := by
    rcases hcall with ⟨-, hc⟩ | ⟨ho, -⟩
    · exact hc
    · cases ho
  refine ⟨c, rfl, ⟨_, _, H', himage⟩, h.handle, .inr ⟨?_, hcaller⟩⟩
  rw [(senders_call hs).2]
  rfl

/-- `control` sends a message with the outcome that it has in memory. -/
theorem sent_alike {b b' : Mailbox Content cap} {d : Mailbox Msg cap} {m : Msg} {sent : Sent}
    (himage : Mailbox.Image content b d)
    (hb : (Mailbox.machine Content cap).run b
      (if sent = .posted then [.post (args m).content] else []) = some b') :
    ∃ e, sendAudioMsg d m sent = some e ∧ Mailbox.Image content b' e := by
  cases sent with
  | posted =>
    rw [if_pos rfl, Machine.run_singleton] at hb
    exact himage.post hb
  | noMemory | refused =>
    cases hb
    exact ⟨_, rfl, himage⟩

theorem send_matched {ret : Int} {junk : Block} (h : Refines s c)
    (hs : (messages cap).step s.memory (.send 0 ret junk) = some memory) :
    Matched cap c (actions s (.send ret junk)) { s with memory } := by
  obtain ⟨b, own, H, himage⟩ := h.memory
  obtain ⟨b', own', hb, H'⟩ := H.step hs
  have hsend : s.memory.sendStep cap 0 ret junk = some memory := by
    simp only [messages, Messages.State.step, H.noFault] at hs
    exact hs
  have hopen := openArgs_send hsend H'.noFault
  have hcall := h.calling
  cases ho : outcome (s.memory.senders 0) ret with
  | none =>
    rw [events_of_open ho] at hb
    cases hb
    rw [if_pos ho] at hopen
    simp only [actions, ho]
    exact ⟨c, rfl, ⟨_, _, H', himage⟩, h.handle, hopen ▸ hcall⟩
  | some sent =>
    obtain ⟨a, ha, hevents⟩ := events_of_outcome junk ho
    rw [hevents] at hb
    rw [ho, if_neg (Option.some_ne_none _)] at hopen
    simp only [actions, ho]
    cases hl : s.line with
    | idle =>
      rw [hl, ha] at hcall
      cases hcall.1
    | first flag =>
      rw [hl, ha] at hcall
      obtain ⟨hnone, -⟩ | ⟨hargs, hcaller⟩ := hcall
      · cases hnone
      obtain rfl := Option.some.inj hargs
      obtain ⟨d, hd, himage'⟩ := sent_alike himage hb
      refine ⟨{ c with mailbox := d, caller := some flag }, ?_, ⟨_, _, H', himage'⟩, h.handle, ?_⟩
      · simp only [CallLine.action, Option.bind, Option.toList, Machine.run_singleton]
        show (if c.caller = none then _ else _) = _
        rw [if_pos hcaller, hd]
        rfl
      · rw [hopen]
        exact .inl ⟨rfl, rfl⟩
    | second flag =>
      rw [hl, ha] at hcall
      obtain ⟨hnone, -⟩ | ⟨hargs, hcaller⟩ := hcall
      · cases hnone
      obtain rfl := Option.some.inj hargs
      obtain ⟨d, hd, himage'⟩ := sent_alike himage hb
      refine ⟨{ c with mailbox := d, caller := none }, ?_, ⟨_, _, H', himage'⟩, h.handle, ?_⟩
      · simp only [CallLine.action, Option.bind, Option.toList, Machine.run_singleton]
        show (if c.caller = some flag then _ else _) = _
        rw [if_pos hcaller, hd]
        rfl
      · rw [hopen]
        exact .inl ⟨rfl, rfl⟩

theorem pend_matched {ret : Int} {err : Cmd → Int} (h : Refines s c)
    (hs : (messages cap).step s.memory (.task ret) = some memory) (hl : s.memory.task = .pend)
    (hsenders : memory.senders = s.memory.senders) :
    Matched cap c (if ret = 0 then [.pend] else [.pendFails])
      { s with memory, handle := s.received err } := by
  obtain ⟨b, own, H, himage⟩ := h.memory
  obtain ⟨b', own', hb, H'⟩ := H.step hs
  have hhandle : c.handle = s.received err := by
    simp only [State.received, hl]
    exact h.handle
  have hcall := hsenders ▸ h.calling
  simp only [events, hl] at hb
  by_cases hret : ret = 0
  · rw [if_pos hret, Machine.run_singleton] at hb
    obtain ⟨d, hd, himage'⟩ := himage.pend hb
    rw [if_pos hret]
    refine ⟨{ c with mailbox := d }, ?_, ⟨_, _, H', himage'⟩, hhandle, hcall⟩
    rw [Machine.run_singleton]
    show c.mailbox.pend.map _ = _
    rw [hd]
    rfl
  · rw [if_neg hret] at hb
    cases hb
    have hnone : c.mailbox.handling = none := by
      have ht := H.task
      rw [hl] at ht
      exact Option.map_eq_none_iff.mp (himage.handling.symm.trans ht.1)
    rw [if_neg hret]
    refine ⟨c, ?_, ⟨_, _, H', himage⟩, hhandle, hcall⟩
    rw [Machine.run_singleton]
    exact if_pos hnone

theorem handle_matched {ret : Int} {err : Cmd → Int} {m : Nat} (h : Refines s c)
    (hs : (messages cap).step s.memory (.task ret) = some memory) (hl : s.memory.task = .handle m)
    (hsenders : memory.senders = s.memory.senders) :
    Matched cap c [.receive err] { s with memory, handle := s.received err } := by
  obtain ⟨b, own, H, himage⟩ := h.memory
  obtain ⟨b', own', hb, H'⟩ := H.step hs
  have ht := H.task
  rw [hl] at ht
  obtain ⟨k, hk, hstored⟩ := ht
  -- the message that `control` handles is the one in memory
  obtain ⟨msg, hmsg, rfl⟩ : ∃ msg, c.mailbox.handling = some msg ∧ content msg = k :=
    Option.map_eq_some_iff.mp (himage.handling.symm.trans hk)
  rw [content_eq] at hk hstored
  have hmsgAt : s.memory.msgAt m = some ⟨msgid msg, none, 0⟩ := by
    simp only [Messages.State.msgAt, hstored.alone_inv.1]
  have hreceived : s.received err = s.handle.receive err msg := by
    simp only [State.received, hl, hmsgAt, Option.bind, ofCmd_msgid]
  have hdone : b' = b.done := by
    simp only [events, hl, hstored.contentAt, Option.toList, List.map_cons, List.map_nil,
      Machine.run_singleton] at hb
    have hstep : (if b.handling = some ⟨msgid msg, none, 0⟩ then some b.done else none) =
      some b' := hb
    rw [if_pos hk] at hstep
    exact (Option.some.inj hstep).symm
  subst hdone
  refine ⟨{ c with mailbox := c.mailbox.done, handle := c.handle.receive err msg }, ?_,
    ⟨_, _, H', himage.done⟩, ?_, hsenders ▸ h.calling⟩
  · rw [Machine.run_singleton]
    show c.mailbox.handling.map _ = _
    rw [hmsg]
    rfl
  · show c.handle.receive err msg = s.received err
    rw [hreceived, h.handle]

theorem free_matched {ret : Int} {err : Cmd → Int} (h : Refines s c)
    (hs : (messages cap).step s.memory (.task ret) = some memory)
    (hquiet : events s.memory (.task ret) = []) (hreceived : s.received err = s.handle)
    (hsenders : memory.senders = s.memory.senders) :
    Matched cap c [] { s with memory, handle := s.received err } := by
  obtain ⟨b, own, H, himage⟩ := h.memory
  obtain ⟨b', own', hb, H'⟩ := H.step hs
  rw [hquiet] at hb
  cases hb
  exact ⟨c, rfl, ⟨_, _, H', himage⟩, h.handle.trans hreceived.symm, hsenders ▸ h.calling⟩

theorem task_matched {ret : Int} {err : Cmd → Int} (h : Refines s c)
    (hs : (messages cap).step s.memory (.task ret) = some memory) :
    Matched cap c (actions s (.task ret err)) { s with memory, handle := s.received err } := by
  have hsenders : memory.senders = s.memory.senders := by
    obtain ⟨b, own, H, -⟩ := h.memory
    have htask := hs
    simp only [messages, Messages.State.step, H.noFault] at htask
    exact senders_task htask
  cases hl : s.memory.task with
  | pend =>
    simp only [actions, hl]
    exact pend_matched h hs hl hsenders
  | handle m =>
    simp only [actions, hl]
    exact handle_matched h hs hl hsenders
  | freeData m | freeMsg m =>
    simp only [actions, hl]
    refine free_matched h hs ?_ ?_ hsenders
    · simp only [events, hl]
    · simp only [State.received, hl]

theorem step_matched {s' : State} {a : Action} (h : Refines s c)
    (hs : (device cap).step s a = some s') : Matched cap c (actions s a) s' := by
  cases a with
  | call flag =>
    simp only [device, State.step] at hs
    split at hs
    · obtain ⟨memory, hm, rfl⟩ := Option.map_eq_some_iff.mp hs
      exact call_matched h ‹_› hm
    · cases hs
  | send ret junk =>
    obtain ⟨memory, hm, rfl⟩ := Option.map_eq_some_iff.mp hs
    exact send_matched h hm
  | next =>
    have hcall := h.calling
    simp only [device, State.step] at hs
    split at hs
    · rename_i flag e hl hret
      obtain ⟨memory, hm, rfl⟩ := Option.map_eq_some_iff.mp hs
      exact next_matched h hl hm
    · rename_i flag e hl hret
      cases hs
      rw [hl, hret] at hcall
      have hcaller : c.caller = none := by
        rcases hcall with ⟨-, hc⟩ | ⟨ho, -⟩
        · exact hc
        · cases ho
      refine ⟨c, rfl, h.memory, h.handle, ?_, hcaller⟩
      rw [hret]
      rfl
    · cases hs
  | task ret err =>
    obtain ⟨memory, hm, rfl⟩ := Option.map_eq_some_iff.mp hs
    exact task_matched h hm

end Step

theorem control_simulated (cap : Nat) : Machine.Simulation (device cap) (control cap) actions
    (fun _ _ => True) Refines where
  init := ⟨⟨_, _, Holding.init, .empty⟩, rfl, rfl, rfl⟩
  step _ _ _ _ h _ hs := step_matched h hs

/-- Every run with the messages in memory is a run of `control`, with the same requests to the audio
server; and where the caller and `__audio_task` rest, the streams are open as the last messages say
that have been posted. -/
theorem memory_refines_control {cap : Nat} {as : List Action} {s : State}
    (hr : (device cap).run (device cap).init as = some s) :
    ∃ c, (control cap).run (control cap).init ((device cap).trace actions (device cap).init as) =
        some c ∧ c.handle = s.handle ∧
      (s.memory.Idle → s.line = .idle → c.caller = none ∧ c.mailbox.Idle ∧
        s.handle.isOpen = lastPosted ((device cap).trace actions (device cap).init as)) := by
  obtain ⟨c, hc, h⟩ := (control_simulated cap).run (Machine.along_true _ _) hr
  refine ⟨c, hc, h.handle, fun hidle hline => ?_⟩
  obtain ⟨b, own, H, himage⟩ := h.memory
  have hcall := h.calling
  rw [hline] at hcall
  have hbidle : b.Idle := by
    have hpending := H.length_pending
    have hnil : b.pending = [] := by
      apply List.eq_nil_of_length_eq_zero
      rw [hpending, Messages.State.unhandled, hidle.2.1, hidle.2.2]
      rfl
    obtain ⟨hhandling, hqueue⟩ := List.append_eq_nil_iff.mp hnil
    exact ⟨hqueue, Option.toList_eq_nil_iff.mp hhandling⟩
  have hmail := himage.idle hbidle
  refine ⟨hcall.2, hmail, ?_⟩
  rw [← h.handle]
  exact isOpen_of_idle hc hmail

/-- A start whose second `_send_audio_msg` gets no memory, and the message of the first one. -/
def halfStart : List Action :=
  .call true :: List.replicate 4 (.send 0 (.msg {})) ++
    [.next, .send 1 (.msg {}), .next] ++ List.replicate 4 (.task 0 fun _ => 0)

theorem halfStart_refines : ∃ s c, (device 2).run (device 2).init halfStart = some s ∧
    (control 2).run (control 2).init
      [.call true .posted, .second true .noMemory, .pend, .receive fun _ => 0] = some c ∧
    c.handle = s.handle ∧ s.handle.isAudioPlayOpen = true ∧ s.handle.isAudioRecordOpen = false := by
  obtain ⟨c, hc, hhandle, -⟩ := @memory_refines_control 2 halfStart _ rfl
  exact ⟨_, c, rfl, hc, hhandle, rfl, rfl⟩

end AiCall.Jl.AudioMemory
