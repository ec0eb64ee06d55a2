import AiCall.Kit.Machine
import AiCall.Kit.Heap

/-! The call session of the JL demo, `jl-ac791/artc_aicall_demo.c`, as a machine whose actions
interleave the task `app_core`, which handles the keys one at a time, the audio tasks that
`start_audio_task` forks, and the error callbacks of the SDK.  Each read of `g_curr_aicall`, each
access to one of its fields, and each call of the SDK or of the system is a step of its own.

The record, the config and the engine of the `n`-th session have address `n`.  `malloc` succeeds and
returns memory with arbitrary values, a successful `thread_fork` stores a positive pid before it
returns, and `thread_kill` with `KILL_WAIT` returns when the task has. -/

namespace AiCall.Jl

open Kit

/-- `aicall_t`: the handle and the config are pointers, `none` for `NULL`. -/
structure Aicall where
  engine : Option Nat := none
  config : Option Nat := none
  recordTaskPid : Int := 0
  canAudioTaskRunning : Bool := false
  canGetVoiceData : Bool := false
  canWriteVoiceData : Bool := false
deriving DecidableEq, Repr

/-- The keys that `on_artc_aicall_ad_key_click` handles. -/
inductive Key where
  | k1
  | k2
  | k3
  | k4
  | k5
deriving DecidableEq, Repr

/-- The functions of K3, K4 and K5. -/
inductive Fn where
  | interruptSpeaking
  | muteLocalAudio
  | unmuteLocalAudio
deriving DecidableEq, Repr

/-- Where `artc_aicall_demo_handup` and `destroy_aicall` are called. -/
inductive Caller where
  | key  -- K2
  | restart  -- `artc_aicall_demo_start_call`, when it finds an error
  | initFailed  -- the same, when `artc_aicall_init` fails
  | callFailed  -- the same, when `artc_aicall_call` fails
deriving DecidableEq, Repr

/-- The lines of `artc_aicall_demo_start_call` and, from `taskTestCurr` on, of its call of
`start_audio_task`. -/
inductive StartLine where
  | testError  -- `g_error_code != 0`
  | resetError  -- `g_error_code = 0`
  | testCurr  -- `g_curr_aicall`, a session that is running
  | testWifi  -- `ARTCIsWifiConnected`
  | mallocAicall
  | clearAicall  -- `memset(g_curr_aicall, ..)`
  | mallocConfig
  | storeConfig (config : Nat)
  | loadClearConfig  -- `memset(g_curr_aicall->config, ..)`, its argument and the call
  | clearConfig (config : Option Nat)
  | clearPid
  | clearRunning
  | clearGet
  | clearWrite
  | takeConfig
  | fillConfig (config : Option Nat)  -- lines 260 to 290, through the local `call_config`
  | init
  | storeEngine (engine : Nat)
  | loadCallEngine
  | loadCallConfig (engine : Option Nat)
  | call (engine config : Option Nat)  -- `artc_aicall_call`: its entry and its return
  | calling
  | setRunning
  | setGet
  | setWrite
  | taskTestCurr
  | taskTestEngine
  | loadPid  -- the argument `&g_curr_aicall->record_task_pid`
  | fork (curr : Option Nat)  -- `thread_fork` creates the task, or fails
  | storePid (curr : Option Nat) (pid : Int)  -- it stores the pid and returns
  | logPid
deriving DecidableEq, Repr

/-- The lines of `artc_aicall_demo_handup` before its call of `destroy_aicall`. -/
inductive HandupLine where
  | testCurr
  | testEngine
  | clearGet
  | clearWrite
  | clearRunning
  | testPid
  | loadPid  -- the argument `&g_curr_aicall->record_task_pid`
  | kill (curr : Option Nat)  -- `thread_kill`
  | clearPid
  | loadEngine
  | handup (engine : Option Nat)  -- `artc_aicall_handup`
deriving DecidableEq, Repr

/-- The lines of `destroy_aicall`. -/
inductive DestroyLine where
  | testCurr
  | testEngine
  | loadEngine
  | destroy (engine : Option Nat)  -- `artc_aicall_destroy`: its entry and its return
  | destroying (engine : Option Nat)
  | clearEngine
  | testConfig
  | loadConfig
  | freeConfig (config : Option Nat)
  | clearConfig
  | loadCurr  -- `free(g_curr_aicall)`, its argument and the call
  | freeCurr (curr : Option Nat)
  | clearCurr  -- `g_curr_aicall = NULL`
deriving DecidableEq, Repr

/-- The lines of the functions of K3, K4 and K5. -/
inductive UseLine where
  | testCurr
  | testEngine
  | loadEngine
  | callSdk (engine : Option Nat)
deriving DecidableEq, Repr

/-- The lines of `app_core` in the handler of a key. -/
inductive KeyLine where
  | idle  -- between key events
  | start (line : StartLine)
  | handup (caller : Caller) (line : HandupLine)
  | destroy (caller : Caller) (line : DestroyLine)
  | use (f : Fn) (line : UseLine)
deriving DecidableEq, Repr

/-- The lines of `on_audio_running`. -/
inductive AudioLine where
  | start  -- `audio_stream_init2`, `start_audio_stream2` and `malloc`
  | testError  -- the three tests of the loop
  | testRunning
  | testEngine
  | pace  -- `os_time_get` and `os_time_dly`
  | testWrite
  | loadReadEngine
  | read (engine : Option Nat)  -- `artc_aicall_read_agent_audio_data`
  | testGet
  | getVoiceData  -- `_device_get_voice_data2`
  | testStillGet
  | testSendEngine
  | loadSendEngine
  | send (engine : Option Nat)  -- `artc_aicall_send_audio_data`
  | stop  -- `free` and `stop_audio_stream2`, after the loop
  | returned
deriving DecidableEq, Repr

/-- An audio task, and the session that it is forked for. -/
structure AudioTask where
  session : Nat := 0
  pid : Int := 0
  thread : Thread AudioLine := { line := .returned }
deriving DecidableEq, Repr

def AudioTask.running (a : AudioTask) : Bool := a.thread.line ≠ .returned

/-- What the C code leaves undefined; a run ends there. -/
inductive Fault where
  | field  -- a field read or written through a null or freed `g_curr_aicall`
  | engine  -- a pointer passed to the SDK that is not an engine, or one that is destroyed
  | config  -- a config used or freed when it is not allocated
  | free  -- a record freed twice
deriving DecidableEq, Repr

/-- The globals, the heap, the engines, and every task.  `fired` records the engines for which
`on_error_occurs` has been called. -/
structure State where
  gErrorCode : Int := 0
  gCurrAicall : Option Nat := none
  session : Nat := 0
  aicalls : Heap Aicall := fun _ => .fresh
  configs : Heap Unit := fun _ => .fresh
  engines : Nat → Life := fun _ => .absent
  key : Thread KeyLine := { line := .idle }
  taskCount : Nat := 0
  tasks : Nat → AudioTask := fun _ => {}
  fired : Nat → Bool := fun _ => false
  fault : Option Fault := none

/-- One step of one task.  `ok` is the outcome of the call that the step makes, `pid` what
`thread_fork` stores, and `junk` what the memory that `malloc` returns holds. -/
inductive Action where
  | press (key : Key)
  | key (ok : Bool) (pid : Int) (junk : Aicall)  -- the next step of the key's handler
  | audio (i : Nat) (ok : Bool)  -- the next step of audio task `i`
  | error (e : Nat) (code : Int)  -- the SDK calls `on_error_occurs` for engine `e`

/-- What follows the call of `artc_aicall_demo_handup` or `destroy_aicall`. -/
def Caller.returns : Caller → KeyLine
  | .restart => .start .resetError
  | _ => .idle

/-- The function that a key calls. -/
def Key.handler : Key → KeyLine
  | .k1 => .start .testError
  | .k2 => .handup .key .testCurr
  | .k3 => .use .interruptSpeaking .testCurr
  | .k4 => .use .muteLocalAudio .testCurr
  | .k5 => .use .unmuteLocalAudio .testCurr

/-! ### The lines that go through `g_curr_aicall` -/

def StartLine.access : StartLine → Option (Aicall → Aicall × KeyLine)
  | .clearAicall => some fun _ => ({}, .start .mallocConfig)
  | .storeConfig c => some fun r => ({ r with config := some c }, .start .loadClearConfig)
  | .loadClearConfig => some fun r => (r, .start (.clearConfig r.config))
  | .clearPid => some fun r => ({ r with recordTaskPid := 0 }, .start .clearRunning)
  | .clearRunning => some fun r => ({ r with canAudioTaskRunning := false }, .start .clearGet)
  | .clearGet => some fun r => ({ r with canGetVoiceData := false }, .start .clearWrite)
  | .clearWrite => some fun r => ({ r with canWriteVoiceData := false }, .start .takeConfig)
  | .takeConfig => some fun r => (r, .start (.fillConfig r.config))
  | .storeEngine e => some fun r => ({ r with engine := some e }, .start .loadCallEngine)
  | .loadCallEngine => some fun r => (r, .start (.loadCallConfig r.engine))
  | .loadCallConfig e => some fun r => (r, .start (.call e r.config))
  | .setRunning => some fun r => ({ r with canAudioTaskRunning := true }, .start .setGet)
  | .setGet => some fun r => ({ r with canGetVoiceData := true }, .start .setWrite)
  | .setWrite => some fun r => ({ r with canWriteVoiceData := true }, .start .taskTestCurr)
  | .taskTestEngine => some fun r => (r, if r.engine.isSome then .start .loadPid else .idle)
  | .logPid => some fun r => (r, .idle)
  | _ => none

def HandupLine.access (k : Caller) : HandupLine → Option (Aicall → Aicall × KeyLine)
  | .testEngine => some fun r =>
    (r, if r.engine.isSome then .handup k .clearGet else k.returns)
  | .clearGet => some fun r => ({ r with canGetVoiceData := false }, .handup k .clearWrite)
  | .clearWrite => some fun r => ({ r with canWriteVoiceData := false }, .handup k .clearRunning)
  | .clearRunning => some fun r => ({ r with canAudioTaskRunning := false }, .handup k .testPid)
  | .testPid => some fun r =>
    (r, if 0 < r.recordTaskPid then .handup k .loadPid else .handup k .loadEngine)
  | .clearPid => some fun r => ({ r with recordTaskPid := 0 }, .handup k .loadEngine)
  | .loadEngine => some fun r => (r, .handup k (.handup r.engine))
  | _ => none

def DestroyLine.access (k : Caller) : DestroyLine → Option (Aicall → Aicall × KeyLine)
  | .testEngine => some fun r =>
    (r, if r.engine.isSome then .destroy k .loadEngine else .destroy k .testConfig)
  | .loadEngine => some fun r => (r, .destroy k (.destroy r.engine))
  | .clearEngine => some fun r => ({ r with engine := none }, .destroy k .testConfig)
  | .testConfig => some fun r =>
    (r, if r.config.isSome then .destroy k .loadConfig else .destroy k .loadCurr)
  | .loadConfig => some fun r => (r, .destroy k (.freeConfig r.config))
  | .clearConfig => some fun r => ({ r with config := none }, .destroy k .loadCurr)
  | _ => none

def UseLine.access (f : Fn) : UseLine → Option (Aicall → Aicall × KeyLine)
  | .testEngine => some fun r => (r, if r.engine.isSome then .use f .loadEngine else .idle)
  | .loadEngine => some fun r => (r, .use f (.callSdk r.engine))
  | _ => none

def KeyLine.access : KeyLine → Option (Aicall → Aicall × KeyLine)
  | .idle => none
  | .start l => l.access
  | .handup k l => l.access k
  | .destroy k l => l.access k
  | .use f l => l.access f

def AudioLine.access : AudioLine → Option (Aicall → Aicall × AudioLine)
  | .testRunning => some fun r => (r, if r.canAudioTaskRunning then .testEngine else .stop)
  | .testEngine => some fun r => (r, if r.engine.isSome then .pace else .stop)
  | .testWrite => some fun r => (r, if r.canWriteVoiceData then .loadReadEngine else .testGet)
  | .loadReadEngine => some fun r => (r, .read r.engine)
  | .testGet => some fun r => (r, if r.canGetVoiceData then .getVoiceData else .testError)
  | .testStillGet => some fun r => (r, if r.canGetVoiceData then .testSendEngine else .testError)
  | .testSendEngine => some fun r =>
    (r, if r.engine.isSome then .loadSendEngine else .testError)
  | .loadSendEngine => some fun r => (r, .send r.engine)
  | _ => none

/-! ### The other lines -/

namespace State

def goto (s : State) (line : KeyLine) : State := { s with key := { line } }

def setTask (s : State) (i : Nat) (a : AudioTask) : State :=
  { s with tasks := Function.update s.tasks i a }

def fail (s : State) (f : Fault) : State := { s with fault := some f }

def liveEngine (s : State) : Option Nat → Bool
  | none => false
  | some e => s.engines e = .live

/-- A call of the SDK with `engine`, after which `app_core` is at `line`. -/
def sdkCall (s : State) (engine : Option Nat) (line : KeyLine) : State :=
  if s.liveEngine engine then s.goto line else s.fail .engine

/-- Every task with this pid has returned. -/
def quiet (s : State) (pid : Int) : Prop :=
  ∀ i < s.taskCount, (s.tasks i).pid = pid → (s.tasks i).thread.line = .returned

instance (s : State) (pid : Int) : Decidable (s.quiet pid) := by
  unfold quiet
  infer_instance

def startLine (s : State) (ok : Bool) (pid : Int) (junk : Aicall) : StartLine → Option State
  | .testError =>
    some (s.goto (if s.gErrorCode ≠ 0 then .handup .restart .testCurr else .start .testCurr))
  | .resetError => some ({ s with gErrorCode := 0 }.goto (.start .testCurr))
  | .testCurr => some (s.goto (if s.gCurrAicall.isSome then .idle else .start .testWifi))
  | .testWifi => some (s.goto (if ok then .start .mallocAicall else .idle))
  | .mallocAicall =>
    some ({ s with
      session := s.session + 1
      gCurrAicall := some (s.session + 1)
      aicalls := Function.update s.aicalls (s.session + 1) (.held junk) }.goto
        (.start .clearAicall))
  | .mallocConfig =>
    some ({ s with
      configs := Function.update s.configs s.session (.held ()) }.goto
        (.start (.storeConfig s.session)))
  | .clearConfig c =>
    match s.configs.deref c with
    | none => some (s.fail .config)
    | some _ => some (s.goto (.start .clearPid))
  | .fillConfig c =>
    match s.configs.deref c with
    | none => some (s.fail .config)
    | some _ => some (s.goto (.start .init))
  | .init =>
    if ok then
      some ({ s with
        engines := Function.update s.engines s.session .live }.goto
          (.start (.storeEngine s.session)))
    else some (s.goto (.destroy .initFailed .testCurr))
  | .call e c =>
    match s.configs.deref c with
    | none => some (s.fail .config)
    | some _ => some (s.sdkCall e (.start .calling))
  | .calling =>
    some (s.goto (if ok then .start .setRunning else .handup .callFailed .testCurr))
  | .taskTestCurr =>
    some (s.goto (if s.gCurrAicall.isSome then .start .taskTestEngine else .idle))
  | .loadPid => some (s.goto (.start (.fork s.gCurrAicall)))
  | .fork c =>
    if ok then
      if 0 < pid then
        some ({ (s.setTask s.taskCount { session := s.session, pid, thread := { line := .start } })
          with taskCount := s.taskCount + 1 }.goto (.start (.storePid c pid)))
      else none
    else
      match s.aicalls.deref c with
      | none => some (s.fail .field)
      | some r =>
        -- what a failing `thread_fork` leaves in the pid is not known
        some ({ s with aicalls := s.aicalls.write c { r with recordTaskPid := pid } }.goto .idle)
  | .storePid c pid =>
    match s.aicalls.deref c with
    | none => some (s.fail .field)
    | some r =>
      some ({ s with
        aicalls := s.aicalls.write c { r with recordTaskPid := pid } }.goto (.start .logPid))
  | _ => none

def handupLine (s : State) (k : Caller) : HandupLine → Option State
  | .testCurr => some (s.goto (if s.gCurrAicall.isSome then .handup k .testEngine else k.returns))
  | .loadPid => some (s.goto (.handup k (.kill s.gCurrAicall)))
  | .kill c =>
    match s.aicalls.deref c with
    | none => some (s.fail .field)
    | some r => if s.quiet r.recordTaskPid then some (s.goto (.handup k .clearPid)) else none
  | .handup e => some (s.sdkCall e (.destroy k .testCurr))
  | _ => none

def destroyLine (s : State) (k : Caller) : DestroyLine → Option State
  | .testCurr => some (s.goto (if s.gCurrAicall.isSome then .destroy k .testEngine else k.returns))
  | .destroy e =>
    match s.liveEngine e, e with
    | true, some i =>
      some ({ s with
        engines := Function.update s.engines i .destroying }.goto (.destroy k (.destroying e)))
    | _, _ => some (s.fail .engine)
  | .destroying e =>
    match e with
    | some i =>
      some ({ s with
        engines := Function.update s.engines i .destroyed }.goto (.destroy k .clearEngine))
    | none => some (s.fail .engine)
  | .freeConfig c =>
    match s.configs.deref c, c with
    | some _, some i =>
      some ({ s with
        configs := Function.update s.configs i .freed }.goto (.destroy k .clearConfig))
    | _, _ => some (s.fail .config)
  | .loadCurr => some (s.goto (.destroy k (.freeCurr s.gCurrAicall)))
  | .freeCurr c =>
    match s.aicalls.deref c, c with
    | some _, some i =>
      some ({ s with
        aicalls := Function.update s.aicalls i .freed }.goto (.destroy k .clearCurr))
    | _, _ => some (s.fail .free)
  | .clearCurr => some ({ s with gCurrAicall := none }.goto k.returns)
  | _ => none

def useLine (s : State) (f : Fn) : UseLine → Option State
  | .testCurr => some (s.goto (if s.gCurrAicall.isSome then .use f .testEngine else .idle))
  | .callSdk e => some (s.sdkCall e .idle)
  | _ => none

def keyLine (s : State) (ok : Bool) (pid : Int) (junk : Aicall) : Option State :=
  match s.key.line with
  | .idle => none
  | .start l => s.startLine ok pid junk l
  | .handup k l => s.handupLine k l
  | .destroy k l => s.destroyLine k l
  | .use f l => s.useLine f l

def keyStep (s : State) (ok : Bool) (pid : Int) (junk : Aicall) : Option State :=
  match s.key.access KeyLine.access s.gCurrAicall s.aicalls with
  | .pass => s.keyLine ok pid junk
  | .load k => some { s with key := k }
  | .fault => some (s.fail .field)
  | .done h k => some { s with aicalls := h, key := k }

def audioGoto (s : State) (i : Nat) (line : AudioLine) : State :=
  s.setTask i { s.tasks i with thread := { line } }

/-- The lines of audio task `i` that do not go through `g_curr_aicall`. -/
def audioLine (s : State) (i : Nat) (ok : Bool) : Option State :=
  match (s.tasks i).thread.line with
  | .start => some (s.audioGoto i .testError)
  | .testError => some (s.audioGoto i (if s.gErrorCode = 0 then .testRunning else .stop))
  | .pace => some (s.audioGoto i .testWrite)
  | .read e => some (if s.liveEngine e then s.audioGoto i .testGet else s.fail .engine)
  | .getVoiceData => some (s.audioGoto i (if ok then .testStillGet else .testError))
  | .send e => some (if s.liveEngine e then s.audioGoto i .testError else s.fail .engine)
  | .stop => some (s.audioGoto i .returned)
  | _ => none

def audioStep (s : State) (i : Nat) (ok : Bool) : Option State :=
  match (s.tasks i).thread.access AudioLine.access s.gCurrAicall s.aicalls with
  | .pass => s.audioLine i ok
  | .load k => some (s.setTask i { s.tasks i with thread := k })
  | .fault => some (s.fail .field)
  | .done h k => some ({ s with aicalls := h }.setTask i { s.tasks i with thread := k })

def step (s : State) (a : Action) : Option State :=
  if s.fault.isSome then none
  else
    match a with
    | .press k => if s.key.line = .idle then some (s.goto k.handler) else none
    | .key ok pid junk => s.keyStep ok pid junk
    | .audio i ok => s.audioStep i ok
    | .error e code =>
      if (s.engines e).held then
        some { s with gErrorCode := code, fired := Function.update s.fired e true }
      else none

end State

def demo : Machine State Action := ⟨{}, State.step⟩

end AiCall.Jl
