import AiCall.Esp32.Single

/-! Use after destruction in a session of the ESP32 demo.  Every user of `g_curr_aicall` tests and
then uses it, and the session's task takes the session apart without asking the users.  A run is
safe if no step of the teardown falls between a test and the use that relies on it. -/

namespace AiCall.Esp32

open Kit

/-- A use of what has been freed or destroyed. -/
def Fault.useAfter : Fault → Bool
  | .field | .engine | .player => true
  | .wildEngine | .nullPlayer | .config | .free => false

def NoUseAfter (s : State) : Prop := ∀ f, s.fault = some f → f.useAfter = false

/-- The engine that the key task has read and passes to the SDK next. -/
def KeyLine.passes : KeyLine → Option Nat
  | .callSdk _ e => e
  | _ => none

/-- The player that a callback has read and writes to next, or is writing to. -/
def CallbackLine.player : CallbackLine → Option Nat
  | .write p => p
  | .writing p => some p
  | _ => none

/-- No step of the teardown falls between a test and the use that relies on it: the player is not
destroyed while a callback has it, the engine not while the key task passes it to the SDK, and the
record not while the key task is past its test of `g_curr_aicall`; and the key task does not start
out from a record that is freed and still published, or from an engine that is destroyed and still
stored. -/
def NoOverlap (s : State) : Action → Prop
  | .impl t _ _ =>
    match (s.impls t).line with
    | .destroyPlayer => ∀ i < s.callbackCount, (s.callbacks i).thread.line.player ≠ some t
    | .destroyEngine (some e) => s.key.line.passes ≠ some e
    | .destroyFreeCurr _ => (s.key.line.access).isNone
    | _ => True
  | .key _ =>
    match s.key.line with
    | .testCurr _ => ∀ t < s.tasks, (s.impls t).line.stage ≠ .freed
    | .loadEngine _ =>
      ∀ t < s.tasks, (s.impls t).line.stage ≠ .stopping ∧ (s.impls t).line.stage ≠ .stopped
    | _ => True
  | _ => True

instance (s : State) (a : Action) : Decidable (NoOverlap s a) := by
  unfold NoOverlap
  repeat' split
  all_goals infer_instance

/-- The record is allocated at these lines of its task. -/
def ImplLine.allocated (line : ImplLine) : Bool := line.inSession && line.stage ≠ .freed

/-- The player is stored in the record. -/
def ImplLine.playing : ImplLine → Bool
  | .testError | .testRunning | .testEngine | .readMic | .testCurr | .testStillRunning
  | .loadSendEngine | .send _ | .clearPlayer => true
  | _ => false

/-- The player is created and not destroyed. -/
def ImplLine.hasPlayer : ImplLine → Bool
  | .runRecorder | .runPlayer | .storePlayer | .destroyRecorder | .destroyPlayer => true
  | line => line.playing

/-- The session's player and the record's pointer to it. -/
structure Playing (s : State) : Prop where
  live : (s.impls 0).line.hasPlayer → s.players 0 = .live
  stored : (s.impls 0).line ≠ .clearAicall → ∀ r p, s.aicalls 0 = .held r →
    r.audioPlayer = some p → p = 0 ∧ (s.impls 0).line.playing

/-- Every task that is past a test still has what it has tested. -/
structure Guarded (s : State) : Prop where
  single : Single s
  safe : NoUseAfter s
  playing : Playing s
  window : (s.key.line.access).isSome → (s.impls 0).line.allocated
  keyPtr : ∀ p, s.key.ptr = some p → p = some 0
  passes : ∀ e, s.key.line.passes = some e → ¬ Ended (s.engines e)
  running : ∀ i, (s.callbacks i).thread.line ≠ .returned →
    i < s.callbackCount ∧ (s.engines (s.callbacks i).engine).held
  callbackPtr : ∀ i p, (s.callbacks i).thread.ptr = some p → p = some 0
  writes : ∀ i p, (s.callbacks i).thread.line.player = some p →
    p = 0 ∧ (s.impls 0).line.hasPlayer

theorem Inv.sdkCall_eq {s : State} (h : Inv s) {t : Nat} {l : ImplLine} (hl : (s.impls t).line = l)
    (hs : l.stage = .up) (line : ImplLine) : s.sdkCall t (some t) line = s.goto t line := by
  have he := h.stage_eq hl
  rw [hs] at he
  simp [State.sdkCall, State.passEngine, he.2]

/-! ### The steps of the session's task -/

section Impl

variable {s s' : State} {ok : Bool} {junk : Aicall}

/-- The lines of the session's task fail only where the run is unsafe, or in other ways. -/
theorem implLine_fault (h : Inv s) (hs : s.implLine 0 ok junk = some s')
    (hp : (s.impls 0).line = .destroyPlayer →
      ∀ i < s.callbackCount, (s.callbacks i).thread.line.player ≠ some 0) :
    s'.fault = s.fault ∨ ∃ f, s'.fault = some f ∧ f.useAfter = false := by
  cases hl : (s.impls 0).line <;>
    simp only [State.implLine, hl, reduceCtorEq, Option.some.injEq] at hs <;>
    (try obtain rfl : _ = some 0 := h.own_eq hl) <;> (try rw [h.sdkCall_eq hl rfl] at hs)
  case destroyPlayer =>
    split at hs
    · rename_i hw
      obtain ⟨i, hi, hw⟩ := hw
      exact absurd (by rw [hw]; rfl) (hp hl i hi)
    · cases hs
      exact Or.inl rfl
  case destroyEngine =>
    have he := (h.stage_eq hl).2
    simp only [State.passEngine, he, Option.some.injEq] at hs
    subst hs
    exact Or.inl rfl
  all_goals
    (try split at hs) <;> (try split at hs) <;> cases hs <;>
      first
        | exact Or.inl rfl
        | exact Or.inr ⟨_, rfl, rfl⟩

/-- An engine changes in its creation, and in the two steps of `artc_aicall_destroy`. -/
theorem implLine_engines (h : Inv s) (hs : s.implLine 0 ok junk = some s') :
    s'.engines = s.engines ∨
      s.engines 0 = .absent ∧ s'.engines = Function.update s.engines 0 .live ∨
      (s.impls 0).line = .destroyEngine (some 0) ∧
        s'.engines = Function.update s.engines 0 .destroying ∨
      s.engines 0 = .destroying ∧ s.quiet 0 ∧
        s'.engines = Function.update s.engines 0 .destroyed := by
  cases hl : (s.impls 0).line <;>
    simp only [State.implLine, hl, reduceCtorEq, Option.some.injEq] at hs <;>
    (try obtain rfl : _ = some 0 := h.own_eq hl) <;> (try rw [h.sdkCall_eq hl rfl] at hs)
  case init =>
    split at hs <;> cases hs
    · exact Or.inr (Or.inl ⟨(h.stage_eq hl).2, rfl⟩)
    · exact Or.inl rfl
  case destroyEngine =>
    have he := (h.stage_eq hl).2
    simp only [State.passEngine, he, Option.some.injEq] at hs
    subst hs
    exact Or.inr (Or.inr (Or.inl ⟨rfl, rfl⟩))
  case destroyingEngine =>
    simp only at hs
    split at hs <;> cases hs
    exact Or.inr (Or.inr (Or.inr ⟨(h.stage_eq hl).2, ‹_›, rfl⟩))
  all_goals (try split at hs) <;> cases hs <;> exact Or.inl rfl

/-- The record stays allocated up to the `free` of it, and the player up to its destruction. -/
theorem implLine_keeps (h : Inv s) (hs : s.implLine 0 ok junk = some s') :
    ((s.impls 0).line.allocated → (s'.impls 0).line.allocated ∨
        ∃ c, (s.impls 0).line = .destroyFreeCurr c) ∧
      ((s.impls 0).line.hasPlayer → (s'.impls 0).line.hasPlayer ∨
        (s.impls 0).line = .destroyPlayer) := by
  cases hl : (s.impls 0).line <;>
    simp only [State.implLine, hl, reduceCtorEq, Option.some.injEq] at hs <;>
    (try obtain rfl : _ = some 0 := h.own_eq hl) <;> (try rw [h.sdkCall_eq hl rfl] at hs)
  case destroyTestCurr =>
    rw [h.curr_eq hl rfl] at hs
    subst hs
    simp [State.goto, State.setImpl, ImplLine.allocated, ImplLine.hasPlayer, ImplLine.playing,
      ImplLine.inSession, ImplLine.stage]
  all_goals
    (try split at hs) <;> (try split at hs) <;> cases hs <;>
      simp_all [State.goto, State.setImpl, State.fail, ImplLine.allocated, ImplLine.inSession,
        ImplLine.stage, ImplLine.hasPlayer, ImplLine.playing]

theorem implLine_playing (h : Inv s) (hp : Playing s) (hs : s.implLine 0 ok junk = some s') :
    Playing s' := by
  obtain ⟨hlive, hstored⟩ := hp
  cases hl : (s.impls 0).line <;>
    simp only [State.implLine, hl, reduceCtorEq, Option.some.injEq] at hs <;>
    (try obtain rfl : _ = some 0 := h.own_eq hl) <;> (try rw [h.sdkCall_eq hl rfl] at hs)
  case destroyEngine =>
    have he := (h.stage_eq hl).2
    simp only [State.passEngine, he, Option.some.injEq] at hs
    subst hs
    constructor <;>
      simp_all [State.goto, State.setImpl, ImplLine.hasPlayer, ImplLine.playing]
  case destroyFreeCurr =>
    obtain ⟨⟨r, hr, _⟩, _⟩ := h.stage_eq hl
    simp only [Heap.deref_of_held hr, Option.some.injEq] at hs
    subst hs
    constructor <;> simp [State.goto, State.setImpl, ImplLine.hasPlayer, ImplLine.playing]
  all_goals
    (try split at hs) <;> (try split at hs) <;> cases hs <;> constructor <;>
      simp_all [State.goto, State.setImpl, State.fail, ImplLine.hasPlayer, ImplLine.playing]

end Impl

/-- The lines that go through `g_curr_aicall` keep the record, and store no player but the one just
created. -/
theorem ImplLine.access_playing {line : ImplLine} {f : Aicall → Aicall × ImplLine}
    (hf : line.access 0 = some f) (r : Aicall) :
    (f r).2.allocated ∧ (f r).2.hasPlayer = line.hasPlayer ∧
      ((f r).1.audioPlayer = none ∨ (f r).1.audioPlayer = some 0 ∧ (f r).2.playing ∨
        (f r).1.audioPlayer = r.audioPlayer ∧ line ≠ .clearAicall ∧
          (line.playing → (f r).2.playing)) := by
  cases line <;> simp only [ImplLine.access, Option.some.injEq, reduceCtorEq] at hf <;> subst hf <;>
    dsimp only <;> (try split) <;>
    simp [ImplLine.allocated, ImplLine.inSession, ImplLine.stage, ImplLine.hasPlayer,
      ImplLine.playing]

theorem ImplLine.access_allocated {t : Nat} {line : ImplLine} (h : (line.access t).isSome) :
    line.allocated := by
  cases line <;> simp_all [ImplLine.access, ImplLine.allocated, ImplLine.inSession, ImplLine.stage]

theorem Inv.held {s : State} (h : Inv s) {t : Nat} (ha : (s.impls t).line.allocated) :
    s.gCurrAicall = some t ∧ ∃ r, s.aicalls t = .held r := by
  obtain ⟨hin, hne⟩ : (s.impls t).line.inSession ∧ (s.impls t).line.stage ≠ .freed := by
    simpa [ImplLine.allocated] using ha
  have hs := h.stage t
  refine ⟨h.curr hin, ?_⟩
  cases hg : (s.impls t).line.stage <;> rw [hg] at hs <;>
    first
      | exact ⟨_, hs.1.choose_spec.1⟩
      | exact ⟨_, hs.1.choose_spec⟩
      | exact ⟨_, hs.choose_spec.1⟩
      | simp [ImplLine.inSession, hg] at hin hne

/-- An engine that a record leads to is not destroyed, outside of `artc_aicall_destroy` and before
the record is cleared of it. -/
theorem Single.not_ended {s : State} (h : Single s) {r : Aicall} {e : Nat}
    (hr : s.aicalls 0 = .held r) (he : r.engine = some e)
    (hs : (s.impls 0).line.stage ≠ .stopping ∧ (s.impls 0).line.stage ≠ .stopped) :
    ¬ Ended (s.engines e) := by
  by_cases h0 : e = 0
  · subst h0
    have hst := h.inv.stage 0
    cases hg : (s.impls 0).line.stage <;> simp_all [Stage.Holds, Ended]
  · intro hend
    refine h0 (h.engine_zero fun ha => ?_)
    simp [Ended, ha] at hend

theorem Single.implStep_zero {s s' : State} (h : Single s) {t : Nat} {ok : Bool} {junk : Aicall}
    (hs : s.implStep t ok junk = some s') : t = 0 := by
  by_contra ht
  simp [State.implStep, Thread.access, ImplLine.access, State.implLine, h.line_ne ht] at hs

namespace Guarded

variable {s s' : State} (h : Guarded s)
include h

theorem of_impl (hf : ImplFrame s s') (hs : Single s') (hu : NoUseAfter s') (hp : Playing s')
    (hw : (s.key.line.access).isSome → (s'.impls 0).line.allocated)
    (he : ∀ e, s.key.line.passes = some e → ¬ Ended (s'.engines e))
    (hr : ∀ i, (s.callbacks i).thread.line ≠ .returned →
      (s'.engines (s.callbacks i).engine).held)
    (hpl : ∀ i, (s.callbacks i).thread.line.player = some 0 → (s'.impls 0).line.hasPlayer) :
    Guarded s' where
  single := hs
  safe := hu
  playing := hp
  window := hf.key ▸ hw
  keyPtr := hf.key ▸ h.keyPtr
  passes := hf.key ▸ he
  running i hi := by
    rw [hf.callbacks] at hi ⊢
    rw [hf.callbackCount]
    exact ⟨(h.running i hi).1, hr i hi⟩
  callbackPtr := hf.callbacks ▸ h.callbackPtr
  writes i p hi := by
    rw [hf.callbacks] at hi
    obtain ⟨rfl, _⟩ := h.writes i p hi
    exact ⟨rfl, hpl i hi⟩

theorem noUseAfter_of (hf : s'.fault = s.fault ∨ ∃ f, s'.fault = some f ∧ f.useAfter = false) :
    NoUseAfter s' := by
  intro f hf'
  rcases hf with he | ⟨g, hg, hu⟩
  · exact h.safe f (he ▸ hf')
  · obtain rfl : f = g := Option.some.inj (hf'.symm.trans hg)
    exact hu

theorem fail {f : Fault} (hs : Single (s.fail f)) (hf : f.useAfter = false) :
    Guarded (s.fail f) where
  single := hs
  safe := h.noUseAfter_of (Or.inr ⟨f, rfl, hf⟩)
  playing := ⟨h.playing.live, h.playing.stored⟩
  window := h.window
  keyPtr := h.keyPtr
  passes := h.passes
  running := h.running
  callbackPtr := h.callbackPtr
  writes := h.writes

theorem implLine {ok : Bool} {junk : Aicall} (hn : NoOverlap s (.impl 0 ok junk))
    (hpass : (s.impls 0).access (ImplLine.access 0) s.gCurrAicall s.aicalls = .pass)
    (hline : s.implLine 0 ok junk = some s') (hs : Single s') : Guarded s' := by
  have hstep : s.implStep 0 ok junk = some s' := by rw [State.implStep, hpass]; exact hline
  have hinv := h.single.inv
  have hdestroy : (s.impls 0).line = .destroyPlayer →
      ∀ i < s.callbackCount, (s.callbacks i).thread.line.player ≠ some 0 :=
    fun hl => by simpa [NoOverlap, hl] using hn
  obtain ⟨hal, hpl⟩ := implLine_keeps hinv hline
  refine h.of_impl (implStep_frame hstep) hs (h.noUseAfter_of (implLine_fault hinv hline hdestroy))
    (implLine_playing hinv h.playing hline) (fun hk => ?_) (fun e hk => ?_) (fun i hi => ?_)
    (fun i hi => ?_)
  · refine (hal (h.window hk)).resolve_right fun ⟨c, hc⟩ => ?_
    simp only [NoOverlap, hc, Option.isNone_iff_eq_none] at hn
    simp [hn] at hk
  · have hold := h.passes e hk
    rcases implLine_engines hinv hline with he | ⟨_, he⟩ | ⟨hl, he⟩ | ⟨hd, hq, he⟩
    · rwa [he]
    · by_cases h0 : e = 0
      · simp [he, h0, Ended]
      · simpa [he, h0] using hold
    · have hne : s.key.line.passes ≠ some 0 := by simpa [NoOverlap, hl] using hn
      have h0 : e ≠ 0 := fun h0 => hne (h0 ▸ hk)
      simpa [he, h0] using hold
    · have h0 : e ≠ 0 := fun h0 => hold (h0 ▸ Or.inl hd)
      simpa [he, h0] using hold
  · obtain ⟨hlt, hheld⟩ := h.running i hi
    have h0 : (s.callbacks i).engine = 0 :=
      h.single.engine_zero fun ha => by simp [ha, Life.held] at hheld
    rcases implLine_engines hinv hline with he | ⟨_, he⟩ | ⟨hl, he⟩ | ⟨hd, hq, he⟩
    · rwa [he]
    · simp [he, h0, Life.held]
    · simp [he, h0, Life.held]
    · exact absurd (hq i hlt h0) hi
  · refine (hpl (h.writes i 0 hi).2).resolve_right fun hl => ?_
    have hlt := (h.running i fun hr => by simp [hr, CallbackLine.player] at hi).1
    exact hdestroy hl i hlt hi

theorem impl {t : Nat} {ok : Bool} {junk : Aicall} (hn : NoOverlap s (.impl t ok junk))
    (hs : s.implStep t ok junk = some s') (hsingle : Single s') : Guarded s' := by
  obtain rfl : t = 0 := h.single.implStep_zero hs
  have hinv := h.single.inv
  have hframe := implStep_frame hs
  have hstep := hs
  unfold State.implStep at hs
  split at hs
  · exact h.implLine hn ‹_› hs hsingle
  · rename_i k ha
    cases hs
    obtain ⟨_, _, rfl⟩ := Thread.access_load ha
    refine h.of_impl hframe hsingle h.safe ⟨?_, ?_⟩ ?_ h.passes (fun i hi => (h.running i hi).2) ?_
    · simpa [State.setImpl] using h.playing.live
    · simpa [State.setImpl] using h.playing.stored
    · simpa [State.setImpl] using h.window
    · exact fun i hi => by simpa [State.setImpl] using (h.writes i 0 hi).2
  · -- the record is allocated at the lines that go through the pointer
    rename_i ha
    obtain ⟨p, hp, hsome, hd⟩ := Thread.access_fault ha
    obtain rfl : p = some 0 := hinv.ptr 0 p hp
    obtain ⟨_, r, hr⟩ := hinv.held (ImplLine.access_allocated hsome)
    simp [Heap.deref_of_held hr] at hd
  · rename_i h' k ha
    cases hs
    obtain ⟨f, i, r, hf, hp, hi, rfl, rfl⟩ := Thread.access_done ha
    obtain rfl : i = 0 := h.single.held_zero hi
    obtain ⟨hal, hpl, hplayer⟩ := ImplLine.access_playing hf r
    refine h.of_impl hframe hsingle h.safe ⟨?_, ?_⟩ (fun _ => ?_) h.passes
      (fun i hi => (h.running i hi).2) (fun i hi => ?_)
    · simpa [State.setImpl, hpl] using h.playing.live
    · simp only [State.setImpl, Function.update_self, Cell.held.injEq]
      rintro _ _ p rfl hp
      rcases hplayer with hn | ⟨hsome, hpl⟩ | ⟨hsame, hne, hpl⟩
      · simp [hn] at hp
      · exact ⟨Option.some.inj (hp.symm.trans hsome), hpl⟩
      · obtain ⟨rfl, hold⟩ := h.playing.stored hne r p hi (hsame ▸ hp)
        exact ⟨rfl, hpl hold⟩
    · simpa [State.setImpl] using hal
    · simpa [State.setImpl, hpl] using (h.writes i 0 hi).2

theorem of_key (hf : KeyFrame s s') (hs : Single s') (he : s'.engines = s.engines)
    (hu : NoUseAfter s') (hp : Playing s')
    (hi : (s'.impls 0).line = (s.impls 0).line ∨ (s.impls 0).line = .uncreated)
    (hw : (s'.key.line.access).isSome → (s'.impls 0).line.allocated)
    (hk : ∀ p, s'.key.ptr = some p → p = some 0)
    (hpass : ∀ e, s'.key.line.passes = some e → ¬ Ended (s.engines e)) : Guarded s' where
  single := hs
  safe := hu
  playing := hp
  window := hw
  keyPtr := hk
  passes := he ▸ hpass
  running := by
    rw [hf.callbacks, hf.callbackCount, he]
    exact h.running
  callbackPtr := hf.callbacks ▸ h.callbackPtr
  writes i p hw := by
    rw [hf.callbacks] at hw
    obtain ⟨rfl, hpl⟩ := h.writes i p hw
    rcases hi with hi | hi
    · exact ⟨rfl, hi ▸ hpl⟩
    · simp [hi, ImplLine.hasPlayer, ImplLine.playing] at hpl

theorem keyGoto {k : Thread KeyLine} (hs : Single { s with key := k })
    (hw : (k.line.access).isSome → (s.impls 0).line.allocated)
    (hk : ∀ p, k.ptr = some p → p = some 0)
    (hpass : ∀ e, k.line.passes = some e → ¬ Ended (s.engines e)) : Guarded { s with key := k } :=
  h.of_key ⟨rfl, rfl, rfl⟩ hs rfl h.safe ⟨h.playing.live, h.playing.stored⟩ (Or.inl rfl) hw hk hpass

end Guarded

/-- The key task's accesses store no player, and read an engine in the argument of an SDK call
only. -/
theorem KeyLine.access_reads {line : KeyLine} {f : Aicall → Aicall × KeyLine}
    (hf : line.access = some f) (r : Aicall) :
    (f r).1.audioPlayer = r.audioPlayer ∧
      ∀ e, (f r).2.passes = some e → (∃ fn, line = .loadEngine fn) ∧ r.engine = some e := by
  cases line <;> simp only [KeyLine.access, Option.some.injEq, reduceCtorEq] at hf <;> subst hf <;>
    dsimp only <;> (try split) <;> (try rename Fn => f; cases f) <;>
    simp [KeyLine.passes, Fn.afterTest, Fn.afterHandup]

/-- A callback reads the player in the argument of `audio_player_write` only. -/
theorem CallbackLine.access_player {line : CallbackLine} {f : Aicall → Aicall × CallbackLine}
    (hf : line.access = some f) {r : Aicall} {p : Nat} (hp : (f r).2.player = some p) :
    r.audioPlayer = some p := by
  cases line <;> simp only [CallbackLine.access, Option.some.injEq, reduceCtorEq] at hf <;>
    subst hf
  · dsimp only at hp
    split at hp <;> simp [CallbackLine.player] at hp
  · exact hp

theorem ImplLine.playing_hasPlayer {line : ImplLine} (h : line.playing) : line.hasPlayer := by
  cases line <;> simp_all [ImplLine.hasPlayer, ImplLine.playing]

theorem Fn.afterHandup_idle (f : Fn) :
    f.afterHandup.access = none ∧ f.afterHandup.passes = none := by
  cases f <;> exact ⟨rfl, rfl⟩

namespace Guarded

variable {s s' : State} (h : Guarded s)
include h

theorem keyLine {ok : Bool} (ha : SingleStart s (.key ok)) (hn : NoOverlap s (.key ok))
    (hs : s.keyLine ok = some s') (hframe : KeyFrame s s') (hsingle : Single s') : Guarded s' := by
  cases hl : s.key.line <;>
    simp only [State.keyLine, hl, reduceCtorEq, Option.some.injEq] at hs
  case testCurr f =>
    subst hs
    refine h.keyGoto hsingle ?_ (by simp) ?_
    · dsimp only
      cases hc : s.gCurrAicall with
      | none => simp [(Fn.afterHandup_idle f).1]
      | some i =>
        intro _
        obtain rfl : i = 0 := h.single.curr_zero hc
        have hin := (h.single.inv.owner 0).mp hc
        have hlt := h.single.inv.lt_tasks (ImplLine.ne_uncreated hin)
        simp only [NoOverlap, hl] at hn
        simpa [ImplLine.allocated, hin] using hn 0 hlt
    · dsimp only
      split
      · simp [KeyLine.passes]
      · simp [(Fn.afterHandup_idle f).2]
  case delay f =>
    subst hs
    exact h.keyGoto hsingle (by simp [(Fn.afterHandup_idle f).1]) (by simp)
      (by simp [(Fn.afterHandup_idle f).2])
  case callSdk f e =>
    split at hs <;> cases hs
    · rename_i g hg
      refine h.fail hsingle ?_
      -- an engine that the SDK refuses here never was one
      cases e with
      | none => simp [State.passEngine] at hg
      | some e =>
        have hend := h.passes e (by simp [hl, KeyLine.passes])
        cases he : s.engines e <;> simp [State.passEngine, he, Ended] at hg hend
        subst hg
        rfl
    · exact h.keyGoto hsingle (by simp [KeyLine.access]) (by simp) (by simp [KeyLine.passes])
  case createTask =>
    split at hs <;> cases hs
    · rename_i hok
      subst hok
      have h0 : s.tasks = 0 := ha hl
      have hun : s.impls 0 = { line := .uncreated } := h.single.inv.created 0 (by omega)
      have hline : (s.impls 0).line = .uncreated := by rw [hun]
      have hfresh := (h.single.inv.stage_eq hline).1
      refine h.of_key hframe hsingle rfl h.safe ⟨?_, ?_⟩ (Or.inr hline)
        (by simp [KeyLine.access]) (by simp) (by simp [KeyLine.passes])
      · simp [State.goto, State.setImpl, h0, ImplLine.hasPlayer, ImplLine.playing]
      · simp [State.goto, State.setImpl, hfresh]
    · exact h.keyGoto hsingle (by simp [KeyLine.access]) (by simp) (by simp [KeyLine.passes])

theorem key {ok : Bool} (ha : SingleStart s (.key ok)) (hn : NoOverlap s (.key ok))
    (hs : s.keyStep ok = some s') (hsingle : Single s') : Guarded s' := by
  have hframe := keyStep_keyFrame hs
  have hinv := h.single.inv
  unfold State.keyStep at hs
  split at hs
  · exact h.keyLine ha hn hs hframe hsingle
  · rename_i k hk
    cases hs
    obtain ⟨_, hsome, rfl⟩ := Thread.access_load hk
    refine h.keyGoto hsingle h.window (fun p hp => ?_) h.passes
    rw [(hinv.held (h.window hsome)).1] at hp
    exact (Option.some.inj hp).symm
  · -- past its test of `g_curr_aicall`, the key task finds the record it has tested
    rename_i hk
    obtain ⟨p, hp, hsome, hd⟩ := Thread.access_fault hk
    obtain rfl : p = some 0 := h.keyPtr p hp
    obtain ⟨_, r, hr⟩ := hinv.held (h.window hsome)
    simp [Heap.deref_of_held hr] at hd
  · rename_i h' k hk
    cases hs
    obtain ⟨f, i, r, hf, hp, hi, rfl, rfl⟩ := Thread.access_done hk
    obtain rfl : i = 0 := h.single.held_zero hi
    obtain ⟨hplayer, hpass⟩ := KeyLine.access_reads hf r
    have hal := h.window (by rw [hf]; rfl)
    refine h.of_key hframe hsingle rfl h.safe ⟨h.playing.live, fun hne q p hq hp => ?_⟩ (Or.inl rfl)
      (fun _ => hal) (by simp) (fun e he => ?_)
    · simp only [Function.update_self, Cell.held.injEq] at hq
      exact h.playing.stored hne r p hi (hplayer ▸ hq ▸ hp)
    · obtain ⟨⟨fn, hl⟩, heng⟩ := hpass e he
      have hin : (s.impls 0).line ≠ .uncreated := fun hu => by
        simp [hu, ImplLine.allocated, ImplLine.inSession, ImplLine.stage] at hal
      simp only [NoOverlap, hl] at hn
      exact h.single.not_ended hi heng (hn 0 (hinv.lt_tasks hin))

/-- While a callback runs, its engine and with it the record are there. -/
theorem callback_held {i : Nat} (hi : (s.callbacks i).thread.line ≠ .returned) :
    s.gCurrAicall = some 0 ∧ (∃ r, s.aicalls 0 = .held r) ∧ (s.impls 0).line ≠ .clearAicall := by
  have hheld := (h.running i hi).2
  have h0 : (s.callbacks i).engine = 0 :=
    h.single.engine_zero fun ha => by simp [ha, Life.held] at hheld
  rw [h0] at hheld
  have hlive : s.engines 0 ≠ .absent ∧ s.engines 0 ≠ .destroyed := by
    cases he : s.engines 0 <;> simp [he, Life.held] at hheld ⊢
  have hst := h.single.inv.stage 0
  have hal : (s.impls 0).line.allocated := by
    cases hg : (s.impls 0).line.stage <;>
      simp_all [ImplLine.allocated, ImplLine.inSession, Stage.Holds]
  refine ⟨(h.single.inv.held hal).1, (h.single.inv.held hal).2, fun hl => hlive.1 ?_⟩
  rw [hl] at hst
  exact hst.2

theorem of_callback {i : Nat} {c : Callback} (hs : Single s')
    (hc : s'.callbacks = Function.update s.callbacks i c)
    (hn : s.callbackCount ≤ s'.callbackCount) (hlt : i < s'.callbackCount)
    (hheld : (s.engines c.engine).held) (hptr : ∀ p, c.thread.ptr = some p → p = some 0)
    (hw : ∀ p, c.thread.line.player = some p → p = 0 ∧ (s.impls 0).line.hasPlayer)
    (ha : s'.aicalls = s.aicalls := by rfl) (hk : s'.key = s.key := by rfl)
    (hi : s'.impls = s.impls := by rfl) (he : s'.engines = s.engines := by rfl)
    (hp : s'.players = s.players := by rfl) (hf : s'.fault = s.fault := by rfl) :
    Guarded s' where
  single := hs
  safe f hf' := h.safe f (hf ▸ hf')
  playing := ⟨by rw [hi, hp]; exact h.playing.live, by rw [hi, ha]; exact h.playing.stored⟩
  window := by rw [hk, hi]; exact h.window
  keyPtr := hk ▸ h.keyPtr
  passes := by rw [hk, he]; exact h.passes
  running j hj := by
    rw [he]
    by_cases hji : j = i
    · subst hji
      rw [hc, Function.update_self]
      exact ⟨hlt, hheld⟩
    · rw [hc, Function.update_of_ne hji] at hj ⊢
      exact ⟨Nat.lt_of_lt_of_le (h.running j hj).1 hn, (h.running j hj).2⟩
  callbackPtr j p hj := by
    by_cases hji : j = i
    · subst hji
      rw [hc, Function.update_self] at hj
      exact hptr p hj
    · rw [hc, Function.update_of_ne hji] at hj
      exact h.callbackPtr j p hj
  writes j p hj := by
    rw [hi]
    by_cases hji : j = i
    · subst hji
      rw [hc, Function.update_self] at hj
      exact hw p hj
    · rw [hc, Function.update_of_ne hji] at hj
      exact h.writes j p hj

theorem callbackGoto {i : Nat} {line : CallbackLine}
    (hs : Single (s.setCallback i { s.callbacks i with thread := { line } }))
    (hlt : i < s.callbackCount) (hheld : (s.engines (s.callbacks i).engine).held)
    (hw : ∀ p, line.player = some p → p = 0 ∧ (s.impls 0).line.hasPlayer) :
    Guarded (s.setCallback i { s.callbacks i with thread := { line } }) :=
  h.of_callback hs rfl (Nat.le_refl _) hlt hheld (by simp) hw

theorem callback {i : Nat} (hs : s.callbackStep i = some s') (hsingle : Single s') :
    Guarded s' := by
  have hframe := callbackStep_callbackFrame hs
  have hrun : (s.callbacks i).thread.line ≠ .returned := fun hr => by
    simp [State.callbackStep, Thread.access, CallbackLine.access, hr, State.callbackLine] at hs
  obtain ⟨hlt, hheld⟩ := h.running i hrun
  obtain ⟨hcurr, ⟨r, hr⟩, hne⟩ := h.callback_held hrun
  unfold State.callbackStep at hs
  simp only at hs
  split at hs
  · unfold State.callbackLine at hs
    simp only at hs
    cases hl : (s.callbacks i).thread.line with
    | testCurr =>
      simp only [hl, hcurr, Option.isSome_some, if_true, Option.some.injEq] at hs
      subst hs
      exact h.callbackGoto hsingle hlt hheld (by simp [CallbackLine.player])
    | write p =>
      cases p with
      | none =>
        simp only [hl, Option.some.injEq] at hs
        subst hs
        exact h.fail hsingle rfl
      | some p =>
        obtain ⟨rfl, hpl⟩ := h.writes i p (by rw [hl]; rfl)
        simp only [hl, h.playing.live hpl, if_true, Option.some.injEq] at hs
        subst hs
        exact h.callbackGoto hsingle hlt hheld (by simp [CallbackLine.player, hpl])
    | writing p =>
      simp only [hl, Option.some.injEq] at hs
      subst hs
      exact h.callbackGoto hsingle hlt hheld (by simp [CallbackLine.player])
    | testPlayer | loadPlayer | returned => simp [hl] at hs
  · rename_i k hk
    cases hs
    obtain ⟨_, _, rfl⟩ := Thread.access_load hk
    exact h.of_callback hsingle rfl (Nat.le_refl _) hlt hheld
      (by simp [hcurr]) (fun p hp => h.writes i p hp)
  · rename_i hk
    obtain ⟨p, hp, _, hd⟩ := Thread.access_fault hk
    obtain rfl : p = some 0 := h.callbackPtr i p hp
    simp [Heap.deref_of_held hr] at hd
  · rename_i h' k hk
    have ha := hframe.aicalls
    cases hs
    obtain ⟨f, j, q, hf, _, hj, rfl, rfl⟩ := Thread.access_done hk
    obtain rfl : j = 0 := h.single.held_zero hj
    refine h.of_callback hsingle rfl (Nat.le_refl _) hlt hheld (by simp) (fun p hp => ?_) ha
    obtain ⟨rfl, hplaying⟩ := h.playing.stored hne q p hj (CallbackLine.access_player hf hp)
    exact ⟨rfl, ImplLine.playing_hasPlayer hplaying⟩

theorem step {a : Action} (ha : SingleStart s a) (hn : NoOverlap s a)
    (hs : demo.step s a = some s') : Guarded s' := by
  have hsingle := h.single.step ha hs
  simp only [demo, State.step] at hs
  split at hs
  · cases hs
  cases a with
  | key ok => exact h.key ha hn hs hsingle
  | impl t ok junk => exact h.impl hn hs hsingle
  | callback i => exact h.callback hs hsingle
  | call f =>
    simp only at hs
    split at hs <;> cases hs
    exact h.keyGoto hsingle (by simp [KeyLine.access]) (by simp) (by simp [KeyLine.passes])
  | agentAudio e =>
    simp only at hs
    split at hs <;> cases hs
    exact h.of_callback hsingle rfl (Nat.le_succ _) (Nat.lt_succ_self _)
      ‹_› (by simp) (by simp [CallbackLine.player])
  | error e code =>
    simp only at hs
    split at hs <;> cases hs
    exact ⟨hsingle, h.safe, ⟨h.playing.live, h.playing.stored⟩, h.window, h.keyPtr, h.passes,
      h.running, h.callbackPtr, h.writes⟩

end Guarded

theorem Guarded.init : Guarded demo.init where
  single := Single.init
  safe := by simp [NoUseAfter, demo]
  playing := ⟨by simp [demo, ImplLine.hasPlayer, ImplLine.playing], by simp [demo]⟩
  window := by simp [demo, KeyLine.access]
  keyPtr := by simp [demo]
  passes := by simp [demo, KeyLine.passes]
  running := by simp [demo]
  callbackPtr := by simp [demo]
  writes := by simp [demo, CallbackLine.player]

/-- With one session, nothing is used after it has been freed or destroyed, in any run in which no
step of the teardown falls between a test and the use that relies on it. -/
theorem no_use_after {as : List Action}
    (h : demo.Along (fun s a => SingleStart s a ∧ NoOverlap s a) demo.init as) :
    demo.Always NoUseAfter demo.init as :=
  (Machine.always_invariant (fun _ _ _ h hP hs => h.step hP.1 hP.2 hs) Guarded.init h).imp
    fun _ h => h.safe

/-- A call that the SDK is setting up. -/
def calling : List Action :=
  [.call .startCall, .key true, .key true] ++ List.replicate 21 (.impl 0 true {})

/-- An interruption while the call is set up; the call then fails, and its task ends. -/
theorem interrupted_safe : demo.Always NoUseAfter demo.init
    (calling ++ .call .interruptSpeaking :: List.replicate 6 (.key true) ++
      List.replicate 26 (.impl 0 false {})) :=
  no_use_after (by decide +kernel)

/-- Each kind of use after destruction is reached: a write to a player that is being destroyed, an
access to the record after its `free`, and an interruption through a destroyed engine. -/
theorem use_after_reached : ∀ f ∈ [Fault.player, .field, .engine], ∃ as,
    demo.Along SingleStart demo.init as ∧ (demo.run demo.init as).bind State.fault = some f := by
  intro f hf
  simp only [List.mem_cons, List.not_mem_nil, or_false] at hf
  rcases hf with rfl | rfl | rfl
  · -- an error ends the loop while a callback is about to write
    exact ⟨calling ++ List.replicate 10 (.impl 0 true {}) ++ .agentAudio 0 ::
      List.replicate 5 (.callback 0) ++ .error 0 1 :: List.replicate 5 (.impl 0 true {}) ++
      [.callback 0], by decide +kernel, by decide +kernel⟩
  · -- the call fails, and the record is freed, between an interruption's test and its use of it
    exact ⟨calling ++ [.call .interruptSpeaking, .key true] ++
      List.replicate 24 (.impl 0 false {}) ++ [.key true, .key true],
      by decide +kernel, by decide +kernel⟩
  · -- the call fails between an interruption's read of the engine and its call of the SDK
    exact ⟨calling ++ .call .interruptSpeaking :: List.replicate 5 (.key true) ++
      List.replicate 12 (.impl 0 false {}) ++ [.key true], by decide +kernel, by decide +kernel⟩

theorem teardown_not_safe : ¬ ∀ as, demo.Along SingleStart demo.init as →
    demo.Always NoUseAfter demo.init as := by
  intro h
  obtain ⟨as, hone, hr⟩ := use_after_reached .player (by simp)
  obtain ⟨s, hs, hf⟩ := Option.bind_eq_some_iff.mp hr
  exact absurd ((h as hone).last hs .player hf) (by decide)

end AiCall.Esp32
