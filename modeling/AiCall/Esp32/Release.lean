import AiCall.Esp32.Exclusion
import AiCall.Kit.Ledger

/-! What the tasks of the ESP32 demo acquire they release: the record, the config, the engine and
the audio buffer, and the pipelines of `esp32-s3/main/audio_pipeline2.c` with their elements.  Each
is entered in a ledger when it is made and when it is given back, on the way through the loop as on
the ways out that skip it. -/

namespace AiCall.Esp32

open Kit

/-- What `audio_recorder_create` makes. -/
inductive RecorderPart where
  | handle
  | pipeline
  | i2sStream
  | algoStream
  | rawStream
deriving DecidableEq, Repr

/-- What `audio_player_create` makes. -/
inductive PlayerPart where
  | handle
  | pipeline
  | rawStream
  | i2sStream
deriving DecidableEq, Repr

inductive Kind where
  | aicall
  | config
  | engine
  | audioBuffer
  | recorder (p : RecorderPart)
  | player (p : PlayerPart)
deriving DecidableEq, Repr

/-- A resource, and the task that makes it. -/
structure Resource where
  kind : Kind
  task : Nat
deriving DecidableEq, Repr

/-- The build option `CONFIG_AUDIO_RECORDER_AEC_ENABLE` adds the algorithm stream. -/
def audioRecorderCreate (aec : Bool) : List RecorderPart :=
  [.handle, .pipeline, .i2sStream] ++ (if aec then [.algoStream] else []) ++ [.rawStream]

/-- `audio_recorder_destroy`, which tests `recorder->algo_stream`; `audio_calloc` has left `NULL`
there if the stream is not created. -/
def audioRecorderDestroy (algoStream : Bool) : List RecorderPart :=
  (if algoStream then [.algoStream] else []) ++ [.i2sStream, .rawStream, .pipeline, .handle]

def audioPlayerCreate : List PlayerPart := [.handle, .pipeline, .rawStream, .i2sStream]

def audioPlayerDestroy : List PlayerPart := [.rawStream, .i2sStream, .pipeline, .handle]

def owned (t : Nat) (ks : List Kind) : List Resource := ks.map (⟨·, t⟩)

def acquires (t : Nat) (ks : List Kind) : List (Transfer Resource) := (owned t ks).map .acquire

def releases (t : Nat) (ks : List Kind) : List (Transfer Resource) := (owned t ks).map .release

/-- The transfers in the next step of task `t`. -/
def ImplLine.transfers (aec : Bool) (t : Nat) (ok : Bool) : ImplLine → List (Transfer Resource)
  | .mallocAicall => acquires t [.aicall]
  | .mallocConfig => acquires t [.config]
  | .init => if ok then acquires t [.engine] else []
  | .mallocBuffer => if ok then acquires t [.audioBuffer] else []
  | .createRecorder => acquires t ((audioRecorderCreate aec).map .recorder)
  | .createPlayer => acquires t (audioPlayerCreate.map .player)
  | .destroyRecorder => releases t ((audioRecorderDestroy aec).map .recorder)
  | .destroyingPlayer => releases t (audioPlayerDestroy.map .player)
  | .freeBuffer => releases t [.audioBuffer]
  | .destroyingEngine (some e) => releases e [.engine]
  | .destroyFreeConfig (some c) => releases c [.config]
  | .destroyFreeCurr (some c) => releases c [.aicall]
  | _ => []

def State.transfers (aec : Bool) (s : State) : Action → List (Transfer Resource)
  | .impl t ok _ => (s.impls t).line.transfers aec t ok
  | _ => []

/-! ### The config and the audio of a task -/

/-- How far a task has come with its config. -/
inductive Supply where
  | none  -- it is not allocated
  | given  -- it is allocated
  | stored
  | returned  -- it is freed
deriving DecidableEq, Repr

def ImplLine.supply : ImplLine → Supply
  | .uncreated | .resetErrorCode | .mallocAicall | .clearAicall | .mallocConfig => .none
  | .storeConfig => .given
  | .destroyClearConfig | .destroyLoadCurr | .destroyFreeCurr _ | .destroyClearCurr | .deleteTask
  | .deleted => .returned
  | _ => .stored

def Supply.Holds (t : Nat) (c : Cell Aicall) (k : Cell Unit) : Supply → Prop
  | .none => k = .fresh
  | .given => k = .held ()
  | .stored => k = .held () ∧ ∃ r, c = .held r ∧ r.config = some t
  | .returned => k = .freed

/-- The config that a task has read at a line is its own. -/
def ImplLine.OwnConfig (t : Nat) : ImplLine → Prop
  | .clearConfig p | .fillConfig p | .call _ p | .destroyFreeConfig p => p = some t
  | _ => True

/-- How far a task has come with its audio buffer, its recorder and its player. -/
inductive Audio where
  | before
  | buffered
  | recording
  | playing
  | unrecorded  -- the recorder is destroyed
  | stopping  -- in `audio_player_destroy`
  | silent  -- the player is destroyed
  | after
deriving DecidableEq, Repr

def ImplLine.audio : ImplLine → Audio
  | .createRecorder => .buffered
  | .createPlayer => .recording
  | .runRecorder | .runPlayer | .storePlayer | .testError | .testRunning | .testEngine | .readMic
  | .testCurr | .testStillRunning | .loadSendEngine | .send _ | .clearPlayer
  | .destroyRecorder => .playing
  | .destroyPlayer => .unrecorded
  | .destroyingPlayer => .stopping
  | .freeBuffer => .silent
  | .clearRunning | .loadHandupEngine | .handup _ | .destroyTestCurr | .destroyTestEngine
  | .destroyLoadEngine | .destroyEngine _ | .destroyingEngine _ | .destroyClearEngine
  | .destroyTestConfig | .destroyLoadConfig | .destroyFreeConfig _ | .destroyClearConfig
  | .destroyLoadCurr | .destroyFreeCurr _ | .destroyClearCurr | .deleteTask | .deleted => .after
  | _ => .before

/-- The parts of a recorder are entered as `a`, and no others. -/
def RecorderIs (aec : Bool) (a : Holding) (recorder : RecorderPart → Holding) : Prop :=
  ∀ p, recorder p = if p ∈ audioRecorderCreate aec then a else .unused

def Audio.Holds (aec : Bool) (player : Life) (buffer : Holding)
    (recorder : RecorderPart → Holding) : Audio → Prop
  | .before => player = .absent ∧ buffer = .unused ∧ RecorderIs aec .unused recorder
  | .buffered => player = .absent ∧ buffer = .held ∧ RecorderIs aec .unused recorder
  | .recording => player = .absent ∧ buffer = .held ∧ RecorderIs aec .held recorder
  | .playing => player = .live ∧ buffer = .held ∧ RecorderIs aec .held recorder
  | .unrecorded => player = .live ∧ buffer = .held ∧ RecorderIs aec .released recorder
  | .stopping => player = .destroying ∧ buffer = .held ∧ RecorderIs aec .released recorder
  | .silent => player = .destroyed ∧ buffer = .held ∧ RecorderIs aec .released recorder
  | .after => (player = .absent ∨ player = .destroyed) ∧ buffer ≠ .held ∧ ∀ p, recorder p ≠ .held

theorem RecorderIs.ne_held {aec : Bool} {a : Holding} {recorder : RecorderPart → Holding}
    (h : RecorderIs aec a recorder) (ha : a ≠ .held) (p : RecorderPart) : recorder p ≠ .held := by
  rw [h p]
  split
  · exact ha
  · exact Holding.noConfusion

/-- What the ledger holds for a task is what the task has. -/
structure Supplied (aec : Bool) (s : State) (l : Resource → Holding) (t : Nat) : Prop where
  supply : (s.impls t).line.supply.Holds t (s.aicalls t) (s.configs t)
  own : (s.impls t).line.OwnConfig t
  audio : (s.impls t).line.audio.Holds aec (s.players t) (l ⟨.audioBuffer, t⟩)
    fun p => l ⟨.recorder p, t⟩
  aicall : l ⟨.aicall, t⟩ = (s.aicalls t).holding
  config : l ⟨.config, t⟩ = (s.configs t).holding
  engine : l ⟨.engine, t⟩ = (s.engines t).holding
  player : ∀ p, l ⟨.player p, t⟩ = (s.players t).holding

/-- The ledger reads the transfers of a step of task `t`, and keeps up with that task. -/
def Transferred (aec : Bool) (l : Resource → Holding) (w : List (Transfer Resource)) (t : Nat)
    (s' : State) : Prop :=
  ∃ l', (Ledger.ledger Resource).run l w = some l' ∧ (∀ r, r.task ≠ t → l' r = l r) ∧
    Supplied aec s' l' t

section Enter

variable {aec : Bool} {l : Resource → Holding} {t : Nat} {ks : List Kind} {s' : State}

@[simp] theorem enter_owned (k : Kind) (a : Holding) :
    Ledger.enter l (owned t ks) a ⟨k, t⟩ = if k ∈ ks then a else l ⟨k, t⟩ := by
  simp [Ledger.enter, owned]

theorem enter_other {r : Resource} (hr : r.task ≠ t) (a : Holding) :
    Ledger.enter l (owned t ks) a r = l r := by
  refine if_neg fun hm => ?_
  obtain ⟨k, -, rfl⟩ := List.mem_map.mp hm
  exact hr rfl

theorem nodup_owned (hn : ks.Nodup) : (owned t ks).Nodup :=
  hn.map fun _ _ h => congrArg Resource.kind h

theorem Transferred.silent (h : Supplied aec s' l t) : Transferred aec l [] t s' :=
  ⟨l, rfl, fun _ _ => rfl, h⟩

theorem Transferred.acquires (hn : ks.Nodup) (hk : ∀ k ∈ ks, l ⟨k, t⟩ = .unused)
    (h : Supplied aec s' (Ledger.enter l (owned t ks) .held) t) :
    Transferred aec l (acquires t ks) t s' := by
  refine ⟨_, Ledger.run_acquireAll (nodup_owned hn) fun r hr => ?_, fun _ hr => enter_other hr _, h⟩
  obtain ⟨k, hm, rfl⟩ := List.mem_map.mp hr
  exact hk k hm

theorem Transferred.releases (hn : ks.Nodup) (hk : ∀ k ∈ ks, l ⟨k, t⟩ = .held)
    (h : Supplied aec s' (Ledger.enter l (owned t ks) .released) t) :
    Transferred aec l (releases t ks) t s' := by
  refine ⟨_, Ledger.run_releaseAll (nodup_owned hn) fun r hr => ?_, fun _ hr => enter_other hr _, h⟩
  obtain ⟨k, hm, rfl⟩ := List.mem_map.mp hr
  exact hk k hm

theorem Transferred.acquire {k : Kind} (hk : l ⟨k, t⟩ = .unused)
    (h : Supplied aec s' (Ledger.enter l (owned t [k]) .held) t) :
    Transferred aec l (Esp32.acquires t [k]) t s' := by
  refine .acquires (List.nodup_singleton k) (fun q hq => ?_) h
  rwa [List.mem_singleton.mp hq]

theorem Transferred.release {k : Kind} (hk : l ⟨k, t⟩ = .held)
    (h : Supplied aec s' (Ledger.enter l (owned t [k]) .released) t) :
    Transferred aec l (Esp32.releases t [k]) t s' := by
  refine .releases (List.nodup_singleton k) (fun q hq => ?_) h
  rwa [List.mem_singleton.mp hq]

end Enter

/-! ### The steps of a task -/

/-- A task that leaves before its loop has no audio to give back. -/
theorem Audio.Holds.skip {aec : Bool} {p : Life} {b : Holding} {r : RecorderPart → Holding}
    (h : Audio.before.Holds aec p b r) : Audio.after.Holds aec p b r :=
  ⟨Or.inl h.1, by rw [h.2.1]; exact Holding.noConfusion, h.2.2.ne_held Holding.noConfusion⟩

section Steps

variable {aec : Bool} {s s' : State} {l : Resource → Holding} {t : Nat}

theorem Supplied.fail (h : Supplied aec s l t) (f : Fault) : Supplied aec (s.fail f) l t :=
  ⟨h.supply, h.own, h.audio, h.aicall, h.config, h.engine, h.player⟩

theorem Supplied.goto {line : ImplLine} (h : Supplied aec s l t)
    (hp : line.supply = (s.impls t).line.supply) (ho : line.OwnConfig t)
    (ha : line.audio = (s.impls t).line.audio ∨
      (s.impls t).line.audio = .before ∧ line.audio = .after)
    (hai : s'.aicalls = s.aicalls := by rfl) (hc : s'.configs = s.configs := by rfl)
    (he : s'.engines = s.engines := by rfl) (hpl : s'.players = s.players := by rfl) :
    Supplied aec (s'.goto t line) l t := by
  have hline : ((s'.goto t line).impls t).line = line := by simp [State.goto, State.setImpl]
  have haicalls : (s'.goto t line).aicalls = s.aicalls := hai
  have hconfigs : (s'.goto t line).configs = s.configs := hc
  have hengines : (s'.goto t line).engines = s.engines := he
  have hplayers : (s'.goto t line).players = s.players := hpl
  refine ⟨?_, by rw [hline]; exact ho, ?_, haicalls ▸ h.aicall, hconfigs ▸ h.config,
    hengines ▸ h.engine, hplayers ▸ h.player⟩
  · rw [hline, hp, haicalls, hconfigs]
    exact h.supply
  · rw [hline, hplayers]
    have haudio := h.audio
    rcases ha with ha | ⟨hb, ha⟩
    · rwa [ha]
    · rw [hb] at haudio
      rw [ha]
      exact haudio.skip

theorem Supplied.sdkCall {p : Option Nat} {line : ImplLine} (h : Supplied aec s l t)
    (hp : line.supply = (s.impls t).line.supply) (ho : line.OwnConfig t)
    (ha : line.audio = (s.impls t).line.audio) : Supplied aec (s.sdkCall t p line) l t := by
  unfold State.sdkCall
  split
  · exact h.fail _
  · exact h.goto hp ho (Or.inl ha)

theorem nodup_recorder (aec : Bool) : ((audioRecorderCreate aec).map Kind.recorder).Nodup ∧
    ((audioRecorderDestroy aec).map Kind.recorder).Nodup := by
  cases aec <;> decide

theorem mem_recorderDestroy (aec : Bool) (p : RecorderPart) :
    p ∈ audioRecorderDestroy aec ↔ p ∈ audioRecorderCreate aec := by
  cases aec <;> cases p <;> decide

theorem mem_player (p : PlayerPart) : p ∈ audioPlayerCreate ∧ p ∈ audioPlayerDestroy := by
  cases p <;> decide

theorem implLine_transferred {ok : Bool} {junk : Aicall} (hi : Inv s) (h : Supplied aec s l t)
    (hs : s.implLine t ok junk = some s') :
    Transferred aec l ((s.impls t).line.transfers aec t ok) t s' := by
  have hsupply := h.supply
  have haudio := h.audio
  have howns := h.own
  have hstage := hi.stage t
  have hplayer (p : PlayerPart) : l ⟨.player p, t⟩ = (s.players t).holding := h.player p
  cases hl : (s.impls t).line <;>
    simp only [State.implLine, hl, reduceCtorEq, Option.some.injEq] at hs <;>
    rw [hl] at hsupply haudio howns hstage
  case mallocAicall =>
    subst hs
    refine .acquire ?_ ⟨?_, ?_, ?_, ?_, ?_, ?_, ?_⟩
    · rw [h.aicall, hstage.1]
      rfl
    all_goals
      simp_all [State.goto, State.setImpl, ImplLine.supply, Supply.Holds, ImplLine.OwnConfig,
        ImplLine.audio, Audio.Holds, h.config, h.engine, Cell.holding]
  case mallocConfig =>
    subst hs
    refine .acquire ?_ ⟨?_, ?_, ?_, ?_, ?_, ?_, ?_⟩
    · have hnone : s.configs t = .fresh := hsupply
      rw [h.config, hnone]
      rfl
    all_goals
      simp_all [State.goto, State.setImpl, ImplLine.supply, Supply.Holds, ImplLine.OwnConfig,
        ImplLine.audio, Audio.Holds, h.aicall, h.engine, Cell.holding]
  case init =>
    split at hs <;> cases hs
    · rename_i hok
      subst hok
      refine .acquire ?_ ⟨?_, ?_, ?_, ?_, ?_, ?_, ?_⟩
      · rw [h.engine, hstage.2]
        rfl
      all_goals
        simp_all [State.goto, State.setImpl, ImplLine.supply, Supply.Holds, ImplLine.OwnConfig,
          ImplLine.audio, Audio.Holds, h.aicall, h.config, Life.holding]
    · rename_i hok
      rw [Bool.not_eq_true] at hok
      subst hok
      exact .silent (h.goto (by rw [hl]; rfl) trivial (Or.inr (by rw [hl]; exact ⟨rfl, rfl⟩)))
  case calling =>
    subst hs
    cases ok with
    | true => exact .silent (h.goto (by rw [hl]; rfl) trivial (Or.inl (by rw [hl]; rfl)))
    | false =>
      exact .silent (h.goto (by rw [hl]; rfl) trivial (Or.inr (by rw [hl]; exact ⟨rfl, rfl⟩)))
  case mallocBuffer =>
    subst hs
    cases ok with
    | true =>
      refine .acquire ?_ ⟨?_, ?_, ?_, ?_, ?_, ?_, ?_⟩
      · exact haudio.2.1
      all_goals
        simp_all [State.goto, State.setImpl, ImplLine.supply, Supply.Holds, ImplLine.OwnConfig,
          ImplLine.audio, Audio.Holds, h.aicall, h.config, h.engine]
    | false =>
      exact .silent (h.goto (by rw [hl]; rfl) trivial (Or.inr (by rw [hl]; exact ⟨rfl, rfl⟩)))
  case createRecorder =>
    subst hs
    refine .acquires (nodup_recorder aec).1 (fun k hk => ?_) ⟨?_, ?_, ?_, ?_, ?_, ?_, ?_⟩
    · obtain ⟨p, -, rfl⟩ := List.mem_map.mp hk
      simpa using haudio.2.2 p
    all_goals
      simp_all [State.goto, State.setImpl, ImplLine.supply, Supply.Holds, ImplLine.OwnConfig,
        ImplLine.audio, Audio.Holds, RecorderIs, h.aicall, h.config, h.engine]
  case createPlayer =>
    subst hs
    refine .acquires (by decide) (fun k hk => ?_) ⟨?_, ?_, ?_, ?_, ?_, ?_, ?_⟩
    · obtain ⟨p, -, rfl⟩ := List.mem_map.mp hk
      rw [hplayer, haudio.1]
      rfl
    all_goals
      simp_all [State.goto, State.setImpl, ImplLine.supply, Supply.Holds, ImplLine.OwnConfig,
        ImplLine.audio, Audio.Holds, RecorderIs, h.aicall, h.config, h.engine, Life.holding,
        mem_player]
  case destroyRecorder =>
    subst hs
    refine .releases (nodup_recorder aec).2 (fun k hk => ?_) ⟨?_, ?_, ?_, ?_, ?_, ?_, ?_⟩
    · obtain ⟨p, hp, rfl⟩ := List.mem_map.mp hk
      exact (haudio.2.2 p).trans (if_pos ((mem_recorderDestroy aec p).mp hp))
    all_goals
      simp_all [State.goto, State.setImpl, ImplLine.supply, Supply.Holds, ImplLine.OwnConfig,
        ImplLine.audio, Audio.Holds, RecorderIs, h.aicall, h.config, h.engine, mem_recorderDestroy]
  case destroyPlayer =>
    split at hs <;> cases hs
    · exact .silent (h.fail _)
    · refine .silent ⟨?_, ?_, ?_, h.aicall, h.config, h.engine, ?_⟩ <;>
        simp_all [State.goto, State.setImpl, ImplLine.supply, Supply.Holds, ImplLine.OwnConfig,
          ImplLine.audio, Audio.Holds, RecorderIs, Life.holding]
  case destroyingPlayer =>
    subst hs
    refine .releases (by decide) (fun k hk => ?_) ⟨?_, ?_, ?_, ?_, ?_, ?_, ?_⟩
    · obtain ⟨p, -, rfl⟩ := List.mem_map.mp hk
      rw [hplayer, haudio.1]
      rfl
    all_goals
      simp_all [State.goto, State.setImpl, ImplLine.supply, Supply.Holds, ImplLine.OwnConfig,
        ImplLine.audio, Audio.Holds, RecorderIs, h.aicall, h.config, h.engine, Life.holding,
        mem_player]
  case freeBuffer =>
    subst hs
    have hsilent : s.players t = .destroyed := haudio.1
    have hrecorder (p : RecorderPart) : l ⟨.recorder p, t⟩ ≠ .held :=
      haudio.2.2.ne_held Holding.noConfusion p
    refine .release ?_ ⟨?_, ?_, ?_, ?_, ?_, ?_, ?_⟩
    · exact haudio.2.1
    all_goals
      simp_all [State.goto, State.setImpl, ImplLine.supply, Supply.Holds, ImplLine.OwnConfig,
        ImplLine.audio, Audio.Holds, h.aicall, h.config, h.engine]
  case destroyTestCurr =>
    rw [hi.curr_eq hl rfl] at hs
    subst hs
    exact .silent (h.goto (by rw [hl]; rfl) trivial (Or.inl (by rw [hl]; rfl)))
  case destroyEngine p =>
    obtain rfl : p = some t := hi.own_eq hl
    have hlive : s.engines t = .live := hstage.2
    simp only [State.passEngine, hlive, Option.some.injEq] at hs
    subst hs
    refine .silent ⟨?_, ?_, ?_, h.aicall, h.config, ?_, h.player⟩ <;>
      simp_all [State.goto, State.setImpl, ImplLine.supply, Supply.Holds, ImplLine.OwnConfig,
        ImplLine.audio, Audio.Holds, h.engine, Life.holding]
  case destroyingEngine p =>
    obtain rfl : p = some t := hi.own_eq hl
    simp only at hs
    split at hs <;> cases hs
    refine .release ?_ ⟨?_, ?_, ?_, ?_, ?_, ?_, ?_⟩
    · rw [h.engine, hstage.2]
      rfl
    all_goals
      simp_all [State.goto, State.setImpl, ImplLine.supply, Supply.Holds, ImplLine.OwnConfig,
        ImplLine.audio, Audio.Holds, h.aicall, h.config, Life.holding]
  case destroyFreeConfig c =>
    obtain rfl : c = some t := howns
    rw [Heap.deref_of_held hsupply.1] at hs
    obtain rfl := Option.some.inj hs
    refine .release ?_ ⟨?_, ?_, ?_, ?_, ?_, ?_, ?_⟩
    · rw [h.config, hsupply.1]
      rfl
    all_goals
      simp_all [State.goto, State.setImpl, ImplLine.supply, Supply.Holds, ImplLine.OwnConfig,
        ImplLine.audio, Audio.Holds, h.aicall, h.engine, Cell.holding]
  case destroyFreeCurr p =>
    obtain rfl : p = some t := hi.own_eq hl
    obtain ⟨⟨r, hr, -⟩, -⟩ := hstage
    rw [Heap.deref_of_held hr] at hs
    obtain rfl := Option.some.inj hs
    refine .release ?_ ⟨?_, ?_, ?_, ?_, ?_, ?_, ?_⟩
    · rw [h.aicall, hr]
      rfl
    all_goals
      simp_all [State.goto, State.setImpl, ImplLine.supply, Supply.Holds, ImplLine.OwnConfig,
        ImplLine.audio, Audio.Holds, h.config, h.engine, Cell.holding]
  case destroyClearCurr =>
    subst hs
    exact .silent (h.goto (by rw [hl]; rfl) trivial (Or.inl (by rw [hl]; rfl)))
  -- the lines left allocate and free nothing
  all_goals
    try split at hs
    all_goals
      cases hs
      first
        | exact .silent (h.fail _)
        | exact .silent (h.sdkCall (by rw [hl]; rfl) trivial (by rw [hl]; rfl))
        | exact .silent (h.goto (by rw [hl]; rfl) trivial (Or.inl (by rw [hl]; rfl)))

/-- A line that goes through `g_curr_aicall` keeps the config in step with the line it leads to. -/
theorem access_supply {line : ImplLine} {f : Aicall → Aicall × ImplLine} {r : Aicall}
    {k : Cell Unit} (hf : line.access t = some f) (h : line.supply.Holds t (.held r) k) :
    (f r).2.supply.Holds t (.held (f r).1) k ∧ (f r).2.OwnConfig t := by
  cases line <;> simp only [ImplLine.access, Option.some.injEq, reduceCtorEq] at hf <;> subst hf <;>
    dsimp only <;> (try split) <;>
    simp_all [ImplLine.supply, Supply.Holds, ImplLine.OwnConfig]

theorem access_audio {line : ImplLine} {f : Aicall → Aicall × ImplLine}
    (hf : line.access t = some f) (r : Aicall) (ok : Bool) :
    (f r).2.audio = line.audio ∧ line.transfers aec t ok = [] := by
  cases line <;> simp only [ImplLine.access, Option.some.injEq, reduceCtorEq] at hf <;> subst hf <;>
    dsimp only <;> (try split) <;> exact ⟨rfl, rfl⟩

theorem implStep_transferred {ok : Bool} {junk : Aicall} (hi : Inv s) (h : Supplied aec s l t)
    (hs : s.implStep t ok junk = some s') :
    Transferred aec l ((s.impls t).line.transfers aec t ok) t s' := by
  unfold State.implStep at hs
  split at hs
  · exact implLine_transferred hi h hs
  · rename_i k ha
    cases hs
    obtain ⟨_, hsome, rfl⟩ := Thread.access_load ha
    obtain ⟨f, hf⟩ := Option.isSome_iff_exists.mp hsome
    rw [(access_audio hf {} ok).2]
    refine .silent ⟨?_, ?_, ?_, h.aicall, h.config, h.engine, h.player⟩
    · simpa [State.setImpl] using h.supply
    · simpa [State.setImpl] using h.own
    · simpa [State.setImpl] using h.audio
  · cases hs
    obtain ⟨_, _, hsome, _⟩ := Thread.access_fault ‹_›
    obtain ⟨f, hf⟩ := Option.isSome_iff_exists.mp hsome
    rw [(access_audio hf {} ok).2]
    exact .silent (h.fail _)
  · rename_i h' k ha
    cases hs
    obtain ⟨f, i, r, hf, hp, hr, rfl, rfl⟩ := Thread.access_done ha
    obtain rfl : i = t := Option.some.inj (hi.ptr t _ hp)
    obtain ⟨haudio, htransfers⟩ := @access_audio aec i _ _ hf r ok
    obtain ⟨hsupply, hown⟩ := access_supply hf (hr ▸ h.supply)
    rw [htransfers]
    refine .silent ⟨?_, ?_, ?_, ?_, h.config, h.engine, h.player⟩
    · simpa [State.setImpl] using hsupply
    · simpa [State.setImpl] using hown
    · have := h.audio
      simpa [State.setImpl, haudio] using this
    · have := h.aicall
      simpa [State.setImpl, hr, Cell.holding] using this

end Steps

/-- A step of one task leaves the others alone, and what they have. -/
structure Alone (s s' : State) (t : Nat) : Prop where
  impls : ∀ u, u ≠ t → s'.impls u = s.impls u
  aicalls : ∀ u, u ≠ t → s'.aicalls u = s.aicalls u
  configs : ∀ u, u ≠ t → s'.configs u = s.configs u
  engines : ∀ u, u ≠ t → s'.engines u = s.engines u
  players : ∀ u, u ≠ t → s'.players u = s.players u

section Others

variable {aec : Bool} {s s' : State} {l l' : Resource → Holding} {t : Nat}

theorem Alone.fail (f : Fault) : Alone s (s.fail f) t :=
  ⟨fun _ _ => rfl, fun _ _ => rfl, fun _ _ => rfl, fun _ _ => rfl, fun _ _ => rfl⟩

theorem Alone.goto {line : ImplLine} (hi : s'.impls = s.impls := by rfl)
    (ha : ∀ u, u ≠ t → s'.aicalls u = s.aicalls u := by exact fun _ _ => rfl)
    (hc : ∀ u, u ≠ t → s'.configs u = s.configs u := by exact fun _ _ => rfl)
    (he : ∀ u, u ≠ t → s'.engines u = s.engines u := by exact fun _ _ => rfl)
    (hp : ∀ u, u ≠ t → s'.players u = s.players u := by exact fun _ _ => rfl) :
    Alone s (s'.goto t line) t :=
  ⟨fun u hu => by simp [State.goto, State.setImpl, hu, hi], ha, hc, he, hp⟩

theorem Alone.sdkCall (s : State) (t : Nat) (p : Option Nat) (line : ImplLine) :
    Alone s (s.sdkCall t p line) t := by
  unfold State.sdkCall
  split
  · exact .fail _
  · exact .goto

theorem implLine_alone {ok : Bool} {junk : Aicall} (hi : Inv s) (h : Supplied aec s l t)
    (hs : s.implLine t ok junk = some s') : Alone s s' t := by
  have howns := h.own
  cases hl : (s.impls t).line <;>
    simp only [State.implLine, hl, reduceCtorEq, Option.some.injEq] at hs <;> rw [hl] at howns
  case mallocAicall =>
    subst hs
    exact .goto rfl fun u hu => Function.update_of_ne hu _ _
  case mallocConfig =>
    subst hs
    exact .goto rfl (fun _ _ => rfl) fun u hu => Function.update_of_ne hu _ _
  case init =>
    split at hs <;> cases hs
    · exact .goto rfl (fun _ _ => rfl) (fun _ _ => rfl) fun u hu => Function.update_of_ne hu _ _
    · exact .goto
  case createPlayer | destroyingPlayer =>
    subst hs
    exact .goto rfl (fun _ _ => rfl) (fun _ _ => rfl) (fun _ _ => rfl)
      fun u hu => Function.update_of_ne hu _ _
  case destroyPlayer =>
    split at hs <;> cases hs
    · exact .fail _
    · exact .goto rfl (fun _ _ => rfl) (fun _ _ => rfl) (fun _ _ => rfl)
        fun u hu => Function.update_of_ne hu _ _
  case destroyEngine p =>
    obtain rfl : p = some t := hi.own_eq hl
    split at hs
    · cases hs
      exact .fail _
    · contradiction
    · rename_i e _ he
      obtain rfl : t = e := by simpa using he
      cases hs
      exact .goto rfl (fun _ _ => rfl) (fun _ _ => rfl) fun u hu => Function.update_of_ne hu _ _
  case destroyingEngine p =>
    obtain rfl : p = some t := hi.own_eq hl
    simp only at hs
    split at hs <;> cases hs
    exact .goto rfl (fun _ _ => rfl) (fun _ _ => rfl) fun u hu => Function.update_of_ne hu _ _
  case destroyFreeConfig c =>
    obtain rfl : c = some t := howns
    split at hs
    · rename_i i _ hc
      obtain rfl : t = i := by simpa using hc
      cases hs
      exact .goto rfl (fun _ _ => rfl) fun u hu => Function.update_of_ne hu _ _
    · cases hs
      exact .fail _
  case destroyFreeCurr p =>
    obtain rfl : p = some t := hi.own_eq hl
    split at hs
    · rename_i i _ hc
      obtain rfl : t = i := by simpa using hc
      cases hs
      exact .goto rfl fun u hu => Function.update_of_ne hu _ _
    · cases hs
      exact .fail _
  all_goals
    try split at hs
    all_goals
      cases hs
      first
        | exact .fail _
        | exact .sdkCall ..
        | exact .goto

theorem implStep_alone {ok : Bool} {junk : Aicall} (hi : Inv s) (h : Supplied aec s l t)
    (hs : s.implStep t ok junk = some s') : Alone s s' t := by
  unfold State.implStep at hs
  split at hs
  · exact implLine_alone hi h hs
  · cases hs
    exact ⟨fun u hu => Function.update_of_ne hu _ _, fun _ _ => rfl, fun _ _ => rfl, fun _ _ => rfl,
      fun _ _ => rfl⟩
  · cases hs
    exact .fail _
  · rename_i h' k ha
    cases hs
    obtain ⟨f, i, r, hf, hp, hr, rfl, rfl⟩ := Thread.access_done ha
    obtain rfl : i = t := Option.some.inj (hi.ptr t _ hp)
    exact ⟨fun u hu => Function.update_of_ne hu _ _, fun u hu => Function.update_of_ne hu _ _,
      fun _ _ => rfl, fun _ _ => rfl, fun _ _ => rfl⟩

/-- What a task has stays in step with the ledger when neither changes. -/
theorem Supplied.congr {u : Nat} (h : Supplied aec s l u) (hi : s'.impls u = s.impls u)
    (ha : (s'.aicalls u).holding = (s.aicalls u).holding ∧ ∀ g : Supply,
      g.Holds u (s.aicalls u) (s.configs u) → g.Holds u (s'.aicalls u) (s.configs u))
    (hc : s'.configs u = s.configs u) (he : s'.engines u = s.engines u)
    (hp : s'.players u = s.players u) (hl : ∀ k, l' ⟨k, u⟩ = l ⟨k, u⟩) :
    Supplied aec s' l' u := by
  refine ⟨?_, hi ▸ h.own, ?_, ?_, ?_, ?_, fun p => ?_⟩
  · rw [hi, hc]
    exact ha.2 _ h.supply
  · have := h.audio
    simpa [hi, hp, hl] using this
  · rw [hl, ha.1]
    exact h.aicall
  · rw [hl, hc]
    exact h.config
  · rw [hl, he]
    exact h.engine
  · rw [hl, hp]
    exact h.player p

theorem Supplied.alone {u : Nat} (h : Supplied aec s l u) (ha : Alone s s' t) (hu : u ≠ t)
    (hl : ∀ r, r.task ≠ t → l' r = l r) : Supplied aec s' l' u :=
  h.congr (ha.impls u hu) (by rw [ha.aicalls u hu]; exact ⟨rfl, fun _ => id⟩) (ha.configs u hu)
    (ha.engines u hu) (ha.players u hu) fun _ => hl _ hu

end Others

/-! ### The steps beside the tasks -/

/-- A step of the key task or of a callback allocates and frees nothing. -/
structure Beside (s s' : State) : Prop where
  configs : s'.configs = s.configs
  players : s'.players = s.players
  aicalls : ∀ u, (s'.aicalls u).holding = (s.aicalls u).holding ∧
    ∀ (g : Supply) k, g.Holds u (s.aicalls u) k → g.Holds u (s'.aicalls u) k

theorem Beside.of_eq {s s' : State} (ha : s'.aicalls = s.aicalls := by rfl)
    (hc : s'.configs = s.configs := by rfl) (hp : s'.players = s.players := by rfl) :
    Beside s s' :=
  ⟨hc, hp, fun u => by rw [ha]; exact ⟨rfl, fun _ _ => id⟩⟩

theorem KeyLine.access_config {line : KeyLine} {f : Aicall → Aicall × KeyLine}
    (hf : line.access = some f) (r : Aicall) : (f r).1.config = r.config := by
  cases line <;> simp only [KeyLine.access, Option.some.injEq, reduceCtorEq] at hf <;>
    subst hf <;> rfl

theorem keyStep_beside {s s' : State} {ok : Bool} (h : s.keyStep ok = some s') : Beside s s' := by
  unfold State.keyStep at h
  split at h
  · cases hl : s.key.line <;>
      simp only [State.keyLine, hl, reduceCtorEq, Option.some.injEq] at h <;>
      (try split at h) <;> cases h <;> exact .of_eq
  · cases h
    exact .of_eq
  · cases h
    exact .of_eq
  · rename_i h' k ha
    cases h
    obtain ⟨f, i, r, hf, _, hi, rfl, _⟩ := Thread.access_done ha
    refine ⟨rfl, rfl, fun u => ?_⟩
    by_cases hu : u = i
    · subst hu
      refine ⟨by simp [hi, Cell.holding], fun g k hg => ?_⟩
      cases g with
      | stored =>
        obtain ⟨hk, q, hq, hc⟩ := hg
        obtain rfl : r = q := Cell.held.inj (hi.symm.trans hq)
        exact ⟨hk, _, Function.update_self .., (KeyLine.access_config hf r).trans hc⟩
      | none | given | returned => exact hg
    · have hsame : Function.update s.aicalls i (.held (f r).1) u = s.aicalls u :=
        Function.update_of_ne hu _ _
      exact ⟨congrArg Cell.holding hsame, fun g k => (congrArg (g.Holds u · k) hsame).mpr⟩

theorem callbackStep_beside {s s' : State} {i : Nat} (h : s.callbackStep i = some s') :
    Beside s s' := by
  unfold State.callbackStep at h
  simp only at h
  split at h
  · unfold State.callbackLine at h
    simp only at h
    split at h <;> (try split at h) <;> cases h <;> exact .of_eq
  · cases h
    exact .of_eq
  · cases h
    exact .of_eq
  · rename_i h' k ha
    cases h
    obtain ⟨f, i, r, hf, _, hi, rfl, _⟩ := Thread.access_done ha
    refine .of_eq ?_
    rw [CallbackLine.access_record hf, ← hi]
    exact Function.update_eq_self i s.aicalls

theorem Supplied.beside {aec : Bool} {s s' : State} {l : Resource → Holding} {u : Nat}
    (h : Supplied aec s l u) (hi : Inv s) (hf : Frame s s') (hb : Beside s s') :
    Supplied aec s' l u := by
  have hkeep (him : s'.impls u = s.impls u) : Supplied aec s' l u :=
    h.congr him ⟨(hb.aicalls u).1, fun g => (hb.aicalls u).2 g _⟩ (congrFun hb.configs u)
      (congrFun hf.engines u) (congrFun hb.players u) fun _ => rfl
  rcases hf.impls with ⟨him, -⟩ | ⟨him, -⟩
  · exact hkeep (congrFun him u)
  · by_cases hu : u = s.tasks
    · -- the task that is created has nothing yet
      subst hu
      have hold := hi.created _ (Nat.le_refl _)
      have hnew : s'.impls s.tasks = { line := .resetErrorCode } := by simp [him]
      obtain ⟨hsupply, -, haudio, haicall, hconfig, hengine, hplayer⟩ := h
      rw [hold] at hsupply haudio
      refine ⟨?_, by rw [hnew]; trivial, ?_, ?_, ?_, ?_, fun p => ?_⟩
      · rw [hnew, hb.configs]
        exact (hb.aicalls _).2 _ _ hsupply
      · rw [hnew, hb.players]
        exact haudio
      · rw [(hb.aicalls _).1]
        exact haicall
      · rw [hb.configs]
        exact hconfig
      · rw [hf.engines]
        exact hengine
      · rw [hb.players]
        exact hplayer p
    · exact hkeep (by simp [him, hu])

/-! ### The ledger of a run -/

theorem Supplied.init (aec : Bool) (t : Nat) :
    Supplied aec demo.init (Ledger.ledger Resource).init t where
  supply := rfl
  own := trivial
  audio := ⟨rfl, rfl, fun p => by simp [Ledger.ledger]⟩
  aicall := rfl
  config := rfl
  engine := rfl
  player _ := rfl

theorem ledger_simulated (aec : Bool) :
    demo.Simulation (Ledger.ledger Resource) (State.transfers aec) AllocatesVacant
      fun s l => Inv s ∧ ∀ t, Supplied aec s l t where
  init := ⟨inv_init, Supplied.init aec⟩
  step s l a s' h hv hs := by
    obtain ⟨hi, h⟩ := h
    have hi' := step_inv hi hv hs
    have hbeside (hf : Frame s s') (hb : Beside s s') :
        ∃ l', (Ledger.ledger Resource).run l [] = some l' ∧ Inv s' ∧
          ∀ t, Supplied aec s' l' t :=
      ⟨l, rfl, hi', fun t => (h t).beside hi hf hb⟩
    simp only [demo, State.step] at hs
    split at hs
    · cases hs
    cases a with
    | call f =>
      simp only at hs
      split at hs <;> cases hs
      exact hbeside .of_eq .of_eq
    | key ok => exact hbeside (keyStep_frame hs) (keyStep_beside hs)
    | impl t ok junk =>
      obtain ⟨l', hl, hother, ht⟩ := implStep_transferred hi (h t) hs
      refine ⟨l', hl, hi', fun u => ?_⟩
      by_cases hu : u = t
      · exact hu ▸ ht
      · exact (h u).alone (implStep_alone hi (h t) hs) hu hother
    | agentAudio e =>
      simp only at hs
      split at hs <;> cases hs
      exact hbeside .of_eq .of_eq
    | callback i => exact hbeside (callbackStep_frame hs) (callbackStep_beside hs)
    | error e code =>
      simp only at hs
      split at hs <;> cases hs
      exact hbeside .of_eq .of_eq

/-- Nothing is acquired twice or released without being held, and a task that has ended has released
all that it acquired. -/
structure Accounted (s : State) (w : List (Transfer Resource)) : Prop where
  once : ∀ r, w.count (.acquire r) ≤ 1 ∧ w.count (.release r) ≤ w.count (.acquire r)
  ended : ∀ t, (s.impls t).line.ended → ∀ k,
    w.count (.release ⟨k, t⟩) = w.count (.acquire ⟨k, t⟩)

theorem ImplLine.ended_cases {line : ImplLine} (h : line.ended) :
    line = .deleteTask ∨ line = .deleted := by
  cases line <;> simp_all [ImplLine.ended, ImplLine.stage]

theorem Supplied.ended {aec : Bool} {s : State} {l : Resource → Holding} {t : Nat}
    (h : Supplied aec s l t) (hi : Inv s) (ht : (s.impls t).line.ended) (k : Kind) :
    l ⟨k, t⟩ ≠ .held := by
  obtain ⟨hrecord, hengine⟩ := hi.ended ht
  have hsupply := h.supply
  have haudio := h.audio
  have hclosed : (s.impls t).line.supply = .returned ∧ (s.impls t).line.audio = .after := by
    rcases ImplLine.ended_cases ht with hl | hl <;> rw [hl] <;> exact ⟨rfl, rfl⟩
  rw [hclosed.1] at hsupply
  rw [hclosed.2] at haudio
  obtain ⟨hplayer, hbuffer, hrecorder⟩ := haudio
  cases k with
  | aicall =>
    rw [h.aicall, hrecord]
    exact Holding.noConfusion
  | config =>
    have hfreed : s.configs t = .freed := hsupply
    rw [h.config, hfreed]
    exact Holding.noConfusion
  | engine =>
    rw [h.engine]
    rcases hengine with he | he <;> rw [he] <;> exact Holding.noConfusion
  | audioBuffer => exact hbuffer
  | recorder p => exact hrecorder p
  | player p =>
    rw [h.player p]
    rcases hplayer with he | he <;> rw [he] <;> exact Holding.noConfusion

/-- In every run of the ESP32 demo in which no session is allocated over another, what a task
acquires it releases once, whichever way it ends. -/
theorem task_resources_released (aec : Bool) {as : List Action} {s : State}
    (hv : demo.Along AllocatesVacant demo.init as) (hr : demo.run demo.init as = some s) :
    Accounted s (demo.trace (State.transfers aec) demo.init as) := by
  obtain ⟨l, hl, hi, h⟩ := (ledger_simulated aec).run hv hr
  refine ⟨Ledger.run_once hl, fun t ht k => ?_⟩
  by_contra hne
  exact (h t).ended hi ht k (Ledger.held_of_ne hl _ hne)

instance (s : State) : ∀ a, Decidable (AllocatesVacant s a)
  | .impl t ok junk =>
    decidable_of_iff ((s.impls t).line = .mallocAicall → s.gCurrAicall = none)
      ⟨fun h _ _ _ ha hl => h (by cases ha; exact hl), fun h hl => h t ok junk rfl hl⟩
  | .call _ | .key _ | .agentAudio _ | .callback _ | .error _ _ => isTrue fun _ _ _ h => by cases h

/-- A call whose engine fails while it is up, and the end of its task. -/
def failedCall : List Action :=
  .call .startCall :: List.replicate 2 (.key true) ++ List.replicate 36 (.impl 0 true {}) ++
    .error 0 7 :: List.replicate 39 (.impl 0 true {})

theorem failedCall_released : ∃ s, demo.run demo.init failedCall = some s ∧
    (s.impls 0).line = .deleted ∧
      Accounted s (demo.trace (State.transfers true) demo.init failedCall) :=
  ⟨_, rfl, rfl, @task_resources_released true failedCall _ (by decide +kernel) rfl⟩

end AiCall.Esp32
