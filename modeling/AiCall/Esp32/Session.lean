import AiCall.Kit.Machine
import AiCall.Kit.Heap

/-! The call session of the ESP32 demo, `esp32-s3/main/artc_aicall_demo.c`, as a machine whose
actions interleave the key task, the tasks that `artc_aicall_demo_start_call` creates, and the
callbacks of the SDK.  Each read of `g_curr_aicall`, each access to one of its fields, and each
call of the SDK or the audio player is a step of its own.

The task created `t`-th allocates the record, the call config, the engine and the player with
address `t`.  `malloc` of a record or a config succeeds (the code does not test it), and what it
returns holds arbitrary values. -/

namespace AiCall.Esp32

open Kit

/-- `aicall_t`: the two handles and the config are pointers, `none` for `NULL`. -/
structure Aicall where
  engine : Option Nat := none
  config : Option Nat := none
  canAudioTaskRunning : Bool := false
  audioPlayer : Option Nat := none
deriving DecidableEq, Repr

/-- The functions that other tasks call. -/
inductive Fn where
  | startCall
  | handup
  | interruptSpeaking
  | muteLocalAudio
  | unmuteLocalAudio
deriving DecidableEq, Repr

/-- The lines of the key task: `artc_aicall_demo_start_call`, which calls
`artc_aicall_demo_handup` first, and the functions that share the test of `handup`. -/
inductive KeyLine where
  | idle
  | testCurr (f : Fn)  -- `!g_curr_aicall`
  | testEngine (f : Fn)  -- `!g_curr_aicall->engine`
  | clearRunning (f : Fn)  -- `g_curr_aicall->can_audio_task_running = false`
  | delay (f : Fn)  -- `vTaskDelay`, which returns at any time
  | loadEngine (f : Fn)  -- the argument `g_curr_aicall->engine` of the SDK call
  | callSdk (f : Fn) (engine : Option Nat)  -- interrupt, mute or unmute in the SDK
  | createTask  -- `xTaskCreate`
deriving DecidableEq, Repr

/-- The lines of `artc_aicall_demo_start_call_impl` and, from `destroyTestCurr` to
`destroyClearCurr`, of its calls of `destroy_aicall`. -/
inductive ImplLine where
  | uncreated  -- the task does not exist yet
  | resetErrorCode
  | mallocAicall  -- `g_curr_aicall = malloc(..)`
  | clearAicall  -- `memset(g_curr_aicall, ..)`
  | mallocConfig
  | storeConfig
  | loadClearConfig  -- `memset(g_curr_aicall->config, ..)`, its argument and the call
  | clearConfig (config : Option Nat)
  | takeConfig
  | fillConfig (config : Option Nat)  -- lines 110 to 139, through the local `call_config`
  | init
  | storeEngine (engine : Nat)
  | loadCallEngine
  | loadCallConfig (engine : Option Nat)
  | call (engine config : Option Nat)  -- `artc_aicall_call`: its entry and its return
  | calling
  | setRunning  -- `g_curr_aicall->can_audio_task_running = true`
  | mallocBuffer
  | createRecorder
  | createPlayer
  | runRecorder
  | runPlayer
  | storePlayer
  | testError  -- the three tests of the loop
  | testRunning
  | testEngine
  | readMic  -- `audio_recorder_read`, the first line of the loop's body
  | testCurr
  | testStillRunning
  | loadSendEngine
  | send (engine : Option Nat)
  | clearPlayer  -- `g_curr_aicall->audio_player = NULL`
  | destroyRecorder
  | destroyPlayer  -- `audio_player_destroy`: its entry and its return
  | destroyingPlayer
  | freeBuffer
  | clearRunning  -- `g_curr_aicall->can_audio_task_running = false`, after `__err1`
  | loadHandupEngine
  | handup (engine : Option Nat)
  | destroyTestCurr
  | destroyTestEngine
  | destroyLoadEngine
  | destroyEngine (engine : Option Nat)  -- `artc_aicall_destroy`: its entry and its return
  | destroyingEngine (engine : Option Nat)
  | destroyClearEngine
  | destroyTestConfig
  | destroyLoadConfig
  | destroyFreeConfig (config : Option Nat)
  | destroyClearConfig
  | destroyLoadCurr  -- `free(g_curr_aicall)`, its argument and the call
  | destroyFreeCurr (curr : Option Nat)
  | destroyClearCurr  -- `g_curr_aicall = NULL`
  | deleteTask  -- `vTaskDelete`
  | deleted
deriving DecidableEq, Repr

/-- The lines of `on_received_agent_audio_data`. -/
inductive CallbackLine where
  | testCurr  -- `g_curr_aicall`
  | testPlayer  -- `g_curr_aicall->audio_player`
  | loadPlayer  -- the argument `g_curr_aicall->audio_player`
  | write (player : Option Nat)  -- `audio_player_write`: its entry and its return
  | writing (player : Nat)
  | returned
deriving DecidableEq, Repr

/-- A call of `on_received_agent_audio_data` that the SDK makes for an engine. -/
structure Callback where
  engine : Nat
  thread : Thread CallbackLine
deriving DecidableEq, Repr

/-- What the C code leaves undefined; a run ends there. -/
inductive Fault where
  | field  -- a field read or written through a null or freed `g_curr_aicall`
  | engine  -- an engine passed to the SDK after `artc_aicall_destroy` of it
  | wildEngine  -- a pointer passed to the SDK as an engine that never was one
  | player  -- `audio_player_write` on a player that `audio_player_destroy` has begun to free
  | nullPlayer  -- `audio_player_write` on `NULL`
  | config  -- a config used or freed when it is not allocated
  | free  -- a record freed twice
deriving DecidableEq, Repr

/-- The globals, the heap, the objects of the SDK and the audio pipeline, and every task.
`freedBy` and `destroyedBy` record each `free` of a record and each `artc_aicall_destroy` of an
engine with the task that called it. -/
structure State where
  gErrorCode : Int := 0
  gCurrAicall : Option Nat := none
  aicalls : Heap Aicall := fun _ => .fresh
  configs : Heap Unit := fun _ => .fresh
  engines : Nat → Life := fun _ => .absent
  players : Nat → Life := fun _ => .absent
  key : Thread KeyLine := { line := .idle }
  tasks : Nat := 0
  impls : Nat → Thread ImplLine := fun _ => { line := .uncreated }
  callbackCount : Nat := 0
  callbacks : Nat → Callback := fun _ => ⟨0, { line := .returned }⟩
  freedBy : List (Nat × Nat) := []
  destroyedBy : List (Nat × Nat) := []
  fault : Option Fault := none

/-- One step of one task.  `ok` is the outcome of the call that the step makes, and `junk` what the
memory that `malloc` returns holds. -/
inductive Action where
  | call (f : Fn)  -- the key task calls a function
  | key (ok : Bool)  -- the key task's next step
  | impl (t : Nat) (ok : Bool) (junk : Aicall)  -- task `t`'s next step
  | agentAudio (e : Nat)  -- the SDK calls `on_received_agent_audio_data` for engine `e`
  | callback (i : Nat)  -- the next step of that call
  | error (e : Nat) (code : Int)  -- the SDK calls `on_error_occurs` for engine `e`

namespace State

def setImpl (s : State) (t : Nat) (k : Thread ImplLine) : State :=
  { s with impls := Function.update s.impls t k }

def setCallback (s : State) (i : Nat) (c : Callback) : State :=
  { s with callbacks := Function.update s.callbacks i c }

def goto (s : State) (t : Nat) (line : ImplLine) : State := s.setImpl t { line }

def fail (s : State) (f : Fault) : State := { s with fault := some f }

/-- What goes wrong when a pointer is passed to the SDK as an engine. -/
def passEngine (s : State) : Option Nat → Option Fault
  | none => none
  | some e =>
    match s.engines e with
    | .live => none
    | .absent => some .wildEngine
    | .destroying | .destroyed => some .engine

end State

/-- After `handup`: back in `start_call`, or in the caller. -/
def Fn.afterHandup : Fn → KeyLine
  | .startCall => .createTask
  | _ => .idle

def Fn.afterTest : Fn → KeyLine
  | .startCall => .clearRunning .startCall
  | .handup => .clearRunning .handup
  | f => .loadEngine f

/-- The lines of the key task that go through `g_curr_aicall`. -/
def KeyLine.access : KeyLine → Option (Aicall → Aicall × KeyLine)
  | .testEngine f => some fun r => (r, if r.engine.isSome then f.afterTest else f.afterHandup)
  | .clearRunning f => some fun r => ({ r with canAudioTaskRunning := false }, .delay f)
  | .loadEngine f => some fun r => (r, .callSdk f r.engine)
  | _ => none

def ImplLine.access (t : Nat) : ImplLine → Option (Aicall → Aicall × ImplLine)
  | .clearAicall => some fun _ => ({}, .mallocConfig)
  | .storeConfig => some fun r => ({ r with config := some t }, .loadClearConfig)
  | .loadClearConfig => some fun r => (r, .clearConfig r.config)
  | .takeConfig => some fun r => (r, .fillConfig r.config)
  | .storeEngine e => some fun r => ({ r with engine := some e }, .loadCallEngine)
  | .loadCallEngine => some fun r => (r, .loadCallConfig r.engine)
  | .loadCallConfig e => some fun r => (r, .call e r.config)
  | .setRunning => some fun r => ({ r with canAudioTaskRunning := true }, .mallocBuffer)
  | .storePlayer => some fun r => ({ r with audioPlayer := some t }, .testError)
  | .testRunning => some fun r =>
    (r, if r.canAudioTaskRunning then .testEngine else .clearPlayer)
  | .testEngine => some fun r => (r, if r.engine.isSome then .readMic else .clearPlayer)
  | .testStillRunning => some fun r =>
    (r, if r.canAudioTaskRunning then .loadSendEngine else .testError)
  | .loadSendEngine => some fun r => (r, .send r.engine)
  | .clearPlayer => some fun r => ({ r with audioPlayer := none }, .destroyRecorder)
  | .clearRunning => some fun r => ({ r with canAudioTaskRunning := false }, .loadHandupEngine)
  | .loadHandupEngine => some fun r => (r, .handup r.engine)
  | .destroyTestEngine => some fun r =>
    (r, if r.engine.isSome then .destroyLoadEngine else .destroyTestConfig)
  | .destroyLoadEngine => some fun r => (r, .destroyEngine r.engine)
  | .destroyClearEngine => some fun r => ({ r with engine := none }, .destroyTestConfig)
  | .destroyTestConfig => some fun r =>
    (r, if r.config.isSome then .destroyLoadConfig else .destroyLoadCurr)
  | .destroyLoadConfig => some fun r => (r, .destroyFreeConfig r.config)
  | .destroyClearConfig => some fun r => ({ r with config := none }, .destroyLoadCurr)
  | _ => none

def CallbackLine.access : CallbackLine → Option (Aicall → Aicall × CallbackLine)
  | .testPlayer => some fun r => (r, if r.audioPlayer.isSome then .loadPlayer else .returned)
  | .loadPlayer => some fun r => (r, .write r.audioPlayer)
  | _ => none

namespace State

/-- The lines of the key task that do not go through `g_curr_aicall`. -/
def keyLine (s : State) (ok : Bool) : Option State :=
  match s.key.line with
  | .testCurr f =>
    some { s with key := { line := if s.gCurrAicall.isSome then .testEngine f else f.afterHandup } }
  | .delay f => some { s with key := { line := f.afterHandup } }
  | .callSdk _ e =>
    match s.passEngine e with
    | some f => some (s.fail f)
    | none => some { s with key := { line := .idle } }
  | .createTask =>
    if ok then
      some { (s.goto s.tasks .resetErrorCode) with
        key := { line := .idle }, tasks := s.tasks + 1 }
    else some { s with key := { line := .idle } }
  | _ => none

def keyStep (s : State) (ok : Bool) : Option State :=
  match s.key.access KeyLine.access s.gCurrAicall s.aicalls with
  | .pass => s.keyLine ok
  | .load k => some { s with key := k }
  | .fault => some (s.fail .field)
  | .done h k => some { s with aicalls := h, key := k }

/-- An SDK call of task `t` with `engine`, which goes on at `line`. -/
def sdkCall (s : State) (t : Nat) (engine : Option Nat) (line : ImplLine) : State :=
  match s.passEngine engine with
  | some f => s.fail f
  | none => s.goto t line

/-- `artc_aicall_destroy` returns when no callback of the engine is running. -/
def quiet (s : State) (e : Nat) : Prop :=
  ∀ i < s.callbackCount, (s.callbacks i).engine = e → (s.callbacks i).thread.line = .returned

instance (s : State) (e : Nat) : Decidable (s.quiet e) := by
  unfold quiet
  infer_instance

def implLine (s : State) (t : Nat) (ok : Bool) (junk : Aicall) : Option State :=
  match (s.impls t).line with
  | .resetErrorCode => some ({ s with gErrorCode := 0 }.goto t .mallocAicall)
  | .mallocAicall =>
    some ({ s with
      gCurrAicall := some t
      aicalls := Function.update s.aicalls t (.held junk) }.goto t .clearAicall)
  | .mallocConfig =>
    some ({ s with configs := Function.update s.configs t (.held ()) }.goto t .storeConfig)
  | .clearConfig c =>
    match s.configs.deref c with
    | none => some (s.fail .config)
    | some _ => some (s.goto t .takeConfig)
  | .fillConfig c =>
    match s.configs.deref c with
    | none => some (s.fail .config)
    | some _ => some (s.goto t .init)
  | .init =>
    if ok then
      some ({ s with engines := Function.update s.engines t .live }.goto t (.storeEngine t))
    else some (s.goto t .destroyTestCurr)
  | .call e c =>
    match s.configs.deref c with
    | none => some (s.fail .config)
    | some _ => some (s.sdkCall t e .calling)
  | .calling => some (s.goto t (if ok then .setRunning else .clearRunning))
  | .mallocBuffer => some (s.goto t (if ok then .createRecorder else .clearRunning))
  | .createRecorder => some (s.goto t .createPlayer)
  | .createPlayer =>
    some ({ s with players := Function.update s.players t .live }.goto t .runRecorder)
  | .runRecorder => some (s.goto t .runPlayer)
  | .runPlayer => some (s.goto t .storePlayer)
  | .testError => some (s.goto t (if s.gErrorCode = 0 then .testRunning else .clearPlayer))
  | .readMic => some (s.goto t (if ok then .testCurr else .testError))
  | .testCurr =>
    some (s.goto t (if s.gCurrAicall.isSome then .testStillRunning else .testError))
  | .send e => some (s.sdkCall t e .testError)
  | .destroyRecorder => some (s.goto t .destroyPlayer)
  | .destroyPlayer =>
    if ∃ i < s.callbackCount, (s.callbacks i).thread.line = .writing t then some (s.fail .player)
    else
      some ({ s with players := Function.update s.players t .destroying }.goto t .destroyingPlayer)
  | .destroyingPlayer =>
    some ({ s with players := Function.update s.players t .destroyed }.goto t .freeBuffer)
  | .freeBuffer => some (s.goto t .clearRunning)
  | .handup e => some (s.sdkCall t e .destroyTestCurr)
  | .destroyTestCurr =>
    some (s.goto t (if s.gCurrAicall.isSome then .destroyTestEngine else .deleteTask))
  | .destroyEngine e =>
    match s.passEngine e, e with
    | some f, _ => some (s.fail f)
    | none, none => some (s.goto t .destroyClearEngine)
    | none, some i =>
      some ({ s with
        engines := Function.update s.engines i .destroying
        destroyedBy := (t, i) :: s.destroyedBy }.goto t (.destroyingEngine e))
  | .destroyingEngine e =>
    match e with
    | none => some (s.goto t .destroyClearEngine)
    | some i =>
      if s.quiet i then
        some ({ s with
          engines := Function.update s.engines i .destroyed }.goto t .destroyClearEngine)
      else none
  | .destroyFreeConfig c =>
    match s.configs.deref c, c with
    | some _, some i =>
      some ({ s with configs := Function.update s.configs i .freed }.goto t .destroyClearConfig)
    | _, _ => some (s.fail .config)
  | .destroyLoadCurr => some (s.goto t (.destroyFreeCurr s.gCurrAicall))
  | .destroyFreeCurr c =>
    match s.aicalls.deref c, c with
    | some _, some i =>
      some ({ s with
        aicalls := Function.update s.aicalls i .freed
        freedBy := (t, i) :: s.freedBy }.goto t .destroyClearCurr)
    | _, _ => some (s.fail .free)
  | .destroyClearCurr => some ({ s with gCurrAicall := none }.goto t .deleteTask)
  | .deleteTask => some (s.goto t .deleted)
  | _ => none

def implStep (s : State) (t : Nat) (ok : Bool) (junk : Aicall) : Option State :=
  match (s.impls t).access (ImplLine.access t) s.gCurrAicall s.aicalls with
  | .pass => s.implLine t ok junk
  | .load k => some (s.setImpl t k)
  | .fault => some (s.fail .field)
  | .done h k => some ({ s with aicalls := h }.setImpl t k)

def callbackLine (s : State) (i : Nat) : Option State :=
  let c := s.callbacks i
  let goto line := s.setCallback i { c with thread := { line } }
  match c.thread.line with
  | .testCurr => some (goto (if s.gCurrAicall.isSome then .testPlayer else .returned))
  | .write none => some (s.fail .nullPlayer)
  | .write (some p) =>
    if s.players p = .live then some (goto (.writing p)) else some (s.fail .player)
  | .writing _ => some (goto .returned)
  | _ => none

def callbackStep (s : State) (i : Nat) : Option State :=
  let c := s.callbacks i
  match c.thread.access CallbackLine.access s.gCurrAicall s.aicalls with
  | .pass => s.callbackLine i
  | .load k => some (s.setCallback i { c with thread := k })
  | .fault => some (s.fail .field)
  | .done h k => some ({ s with aicalls := h }.setCallback i { c with thread := k })

def step (s : State) (a : Action) : Option State :=
  if s.fault.isSome then none
  else
    match a with
    | .call f => if s.key.line = .idle then some { s with key := { line := .testCurr f } } else none
    | .key ok => s.keyStep ok
    | .impl t ok junk => s.implStep t ok junk
    | .agentAudio e =>
      if (s.engines e).held then
        some { (s.setCallback s.callbackCount ⟨e, { line := .testCurr }⟩) with
          callbackCount := s.callbackCount + 1 }
      else none
    | .callback i => s.callbackStep i
    | .error e code => if (s.engines e).held then some { s with gErrorCode := code } else none

end State

def demo : Machine State Action := ⟨{}, State.step⟩

end AiCall.Esp32
