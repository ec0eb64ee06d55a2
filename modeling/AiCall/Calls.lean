import AiCall.Channels
import AiCall.Esp32.Session
import AiCall.Jl.Ownership

/-! The channel ids that the two devices pass to `artc_aicall_call`. -/

namespace AiCall

open Kit

/-! ### The two devices -/

namespace Esp32

def effect (s : State) : Action → Effect
  | .impl t _ _ =>
    match (s.impls t).line with
    | .clearConfig p => .through s.configs p .clear
    | .takeConfig => if (s.impls t).ptr = none then .take t else .other
    | .fillConfig p => .through s.configs p (.fill t)
    | .call _ p => .through s.configs p (.call t)
    | _ => .other
  | _ => .other

def device : Device State Action where
  machine := demo
  generates s t := (s.impls t).line = .takeConfig ∧ (s.impls t).ptr = none
  effect := effect

end Esp32

namespace Jl

def effect (s : State) : Action → Effect
  | .key _ _ _ =>
    match s.key.line with
    | .start (.clearConfig p) => .through s.configs p .clear
    | .start .takeConfig => if s.key.ptr = none then .take s.session else .other
    | .start (.fillConfig p) => .through s.configs p (.fill s.session)
    | .start (.call _ p) => .through s.configs p (.call s.session)
    | _ => .other
  | _ => .other

def device : Device State Action where
  machine := demo
  generates s t := t = s.session ∧ s.key.line = .start .takeConfig ∧ s.key.ptr = none
  effect := effect

/-! ### The config of the session on the JL device -/

/-- From the last assignment to `call_config` to the call of `artc_aicall_call`. -/
def StartLine.filled : StartLine → Bool
  | .init | .storeEngine _ | .loadCallEngine | .loadCallConfig _ | .call _ _ => true
  | _ => false

def KeyLine.filled : KeyLine → Bool
  | .start l => l.filled
  | _ => false

theorem Caller.returns_unfilled (k : Caller) : k.returns.filled = false := by
  cases k <;> rfl

section Lines

variable {s s' : State} {ok : Bool} {pid : Int} {junk : Aicall}

theorem sdkCall_unfilled {e : Option Nat} {line : KeyLine} (hn : (s.sdkCall e line).fault = none)
    (hl : line.filled = false) : (s.sdkCall e line).key.line.filled = false := by
  unfold State.sdkCall at hn ⊢
  split
  · exact hl
  · rename_i hlive
    rw [if_neg hlive] at hn
    exact absurd hn (Option.some_ne_none _)

theorem startLine_filled {l : StartLine} (hs : s.startLine ok pid junk l = some s')
    (hn : s'.fault = none) (hf : s'.key.line.filled) :
    s'.session = s.session ∧ (l = .init ∨ ∃ c, l = .fillConfig c) := by
  cases l <;> simp only [State.startLine, reduceCtorEq, Option.some.injEq] at hs
  case init =>
    split at hs <;> cases hs
    · exact ⟨rfl, .inl rfl⟩
    · exact absurd hf Bool.false_ne_true
  case fillConfig c =>
    split at hs <;> cases hs <;> exact ⟨rfl, .inr ⟨c, rfl⟩⟩
  case call e c =>
    split at hs <;> cases hs
    · exact absurd hn (Option.some_ne_none _)
    · exact absurd (hf.symm.trans (sdkCall_unfilled hn rfl)) Bool.noConfusion
  case fork p =>
    split at hs
    · split at hs <;> cases hs
      exact absurd hf Bool.false_ne_true
    · split at hs <;> cases hs
      · exact absurd hn (Option.some_ne_none _)
      · exact absurd hf Bool.false_ne_true
  case clearConfig | storePid =>
    split at hs <;> cases hs
    · exact absurd hn (Option.some_ne_none _)
    · exact absurd hf Bool.false_ne_true
  case testError | testCurr | testWifi | calling | taskTestCurr =>
    subst hs
    simp only [State.goto] at hf
    split at hf <;> exact absurd hf Bool.false_ne_true
  case resetError | mallocAicall | mallocConfig | loadPid =>
    subst hs
    exact absurd hf Bool.false_ne_true

theorem handupLine_unfilled {k : Caller} {l : HandupLine} (hs : s.handupLine k l = some s')
    (hn : s'.fault = none) : s'.key.line.filled = false := by
  cases l <;> simp only [State.handupLine, reduceCtorEq, Option.some.injEq] at hs
  case testCurr =>
    subst hs
    simp only [State.goto]
    split
    · rfl
    · exact k.returns_unfilled
  case loadPid =>
    subst hs
    rfl
  case kill =>
    split at hs
    · cases hs
      exact absurd hn (Option.some_ne_none _)
    · split at hs <;> cases hs
      rfl
  case handup =>
    subst hs
    exact sdkCall_unfilled hn rfl

theorem destroyLine_unfilled {k : Caller} {l : DestroyLine} (hs : s.destroyLine k l = some s')
    (hn : s'.fault = none) : s'.key.line.filled = false := by
  cases l <;> simp only [State.destroyLine, reduceCtorEq, Option.some.injEq] at hs
  case testCurr =>
    subst hs
    simp only [State.goto]
    split
    · rfl
    · exact k.returns_unfilled
  case destroy | destroying | freeConfig | freeCurr =>
    split at hs <;> cases hs
    · rfl
    · exact absurd hn (Option.some_ne_none _)
  case loadCurr =>
    subst hs
    rfl
  case clearCurr =>
    subst hs
    exact k.returns_unfilled

theorem useLine_unfilled {f : Fn} {l : UseLine} (hs : s.useLine f l = some s')
    (hn : s'.fault = none) : s'.key.line.filled = false := by
  cases l <;> simp only [State.useLine, reduceCtorEq, Option.some.injEq] at hs
  case testCurr =>
    subst hs
    simp only [State.goto]
    split <;> rfl
  case callSdk =>
    subst hs
    exact sdkCall_unfilled hn rfl

theorem KeyLine.access_filled {line : KeyLine} {f : Aicall → Aicall × KeyLine}
    (ha : line.access = some f) (r : Aicall) (hf : (f r).2.filled) : line.filled := by
  cases line with
  | idle => simp [KeyLine.access] at ha
  | start l =>
    cases l <;>
      simp only [KeyLine.access, StartLine.access, Option.some.injEq, reduceCtorEq] at ha <;>
      subst ha <;> dsimp only at hf <;> (try split at hf) <;> first
        | rfl
        | exact absurd hf Bool.false_ne_true
  | handup c l =>
    cases l <;>
      simp only [KeyLine.access, HandupLine.access, Option.some.injEq, reduceCtorEq] at ha <;>
      subst ha <;> dsimp only at hf <;> (try split at hf) <;> cases c <;>
      exact absurd hf Bool.false_ne_true
  | destroy c l =>
    cases l <;>
      simp only [KeyLine.access, DestroyLine.access, Option.some.injEq, reduceCtorEq] at ha <;>
      subst ha <;> dsimp only at hf <;> (try split at hf) <;> exact absurd hf Bool.false_ne_true
  | use c l =>
    cases l <;>
      simp only [KeyLine.access, UseLine.access, Option.some.injEq, reduceCtorEq] at ha <;>
      subst ha <;> dsimp only at hf <;> (try split at hf) <;> exact absurd hf Bool.false_ne_true

/-- A step that stays between the assignments and the call has no effect on channel ids. -/
theorem effect_filled (hf : s.key.line.filled) (hc : s.key.line = .start .init ∨
    s.key.line.access.isSome) : effect s (.key ok pid junk) = .other := by
  cases hl : s.key.line with
  | start l =>
    rw [hl] at hf hc
    cases l <;> simp only [effect, hl] <;> first
      | rfl
      | exact absurd hf Bool.false_ne_true
      | simp [KeyLine.access, StartLine.access] at hc
  | _ =>
    rw [hl] at hf
    exact absurd hf Bool.false_ne_true

end Lines

theorem audioStep_session {s s' : State} {i : Nat} {ok : Bool}
    (hs : s.audioStep i ok = some s') : s'.key = s.key ∧ s'.session = s.session := by
  unfold State.audioStep at hs
  split at hs
  · unfold State.audioLine at hs
    split at hs <;> (try cases hs) <;> (try split) <;> exact ⟨rfl, rfl⟩
  all_goals
    cases hs
    exact ⟨rfl, rfl⟩

section Steps

variable {s s' : State} (h : Inv s)
include h

/-- The assignments to `call_config` are made to the config of the session. -/
theorem Inv.effect_fillConfig {p : Option Nat} {ok : Bool} {pid : Int} {junk : Aicall}
    (hl : s.key.line = .start (.fillConfig p)) :
    effect s (.key ok pid junk) = .fill s.session s.session := by
  have hst := h.stage_eq hl
  obtain rfl : p = some s.session := h.own_eq hl
  simp only [effect, hl]
  exact Effect.through_held hst.2.2.1 _

/-- A call passes the config of the session. -/
theorem Inv.effect_call {a : Action} {t c : Nat} (he : effect s a = .call t c) :
    c = s.session ∧ s.key.line.filled := by
  cases a with
  | key ok pid junk =>
    simp only [effect] at he
    split at he
    · rename_i p _
      unfold Effect.through at he
      split at he <;> cases he
    · split at he <;> cases he
    · rename_i p _
      unfold Effect.through at he
      split at he <;> cases he
    · rename_i e p hl
      obtain ⟨_, rfl⟩ : e = some s.session ∧ p = some s.session := h.own_eq hl
      rw [Effect.through_held (h.stage_eq hl).2.2.1] at he
      cases he
      exact ⟨rfl, by rw [hl]; rfl⟩
    · cases he
  | _ => cases he

theorem Inv.keyStep_filled {ok : Bool} {pid : Int} {junk : Aicall}
    (hs : s.keyStep ok pid junk = some s') (hn : s'.fault = none) (hf : s'.key.line.filled) :
    s'.session = s.session ∧ (effect s (.key ok pid junk) = .fill s.session s.session ∨
      s.key.line.filled ∧ effect s (.key ok pid junk) = .other) := by
  unfold State.keyStep at hs
  split at hs
  · unfold State.keyLine at hs
    split at hs
    · cases hs
    · rename_i l hl
      obtain ⟨hsession, rfl | ⟨c, rfl⟩⟩ := startLine_filled hs hn hf
      · have hline : s.key.line.filled := by rw [hl]; rfl
        exact ⟨hsession, .inr ⟨hline, effect_filled hline (.inl hl)⟩⟩
      · exact ⟨hsession, .inl (h.effect_fillConfig hl)⟩
    · exact absurd (hf.symm.trans (handupLine_unfilled hs hn)) Bool.noConfusion
    · exact absurd (hf.symm.trans (destroyLine_unfilled hs hn)) Bool.noConfusion
    · exact absurd (hf.symm.trans (useLine_unfilled hs hn)) Bool.noConfusion
  · rename_i k hk
    cases hs
    obtain ⟨_, hsome, rfl⟩ := Thread.access_load hk
    exact ⟨rfl, .inr ⟨hf, effect_filled hf (.inr hsome)⟩⟩
  · cases hs
    exact absurd hn (Option.some_ne_none _)
  · rename_i h' k hk
    cases hs
    obtain ⟨f, i, r, ha, _, _, _, rfl⟩ := Thread.access_done hk
    have hline := KeyLine.access_filled ha r hf
    have hsome : s.key.line.access.isSome := by rw [ha]; rfl
    exact ⟨rfl, .inr ⟨hline, effect_filled hline (.inr hsome)⟩⟩

/-- The lines between the assignments and the call are reached from the assignments only. -/
theorem Inv.step_filled {a : Action} (hs : demo.step s a = some s') (hf : s'.key.line.filled) :
    s'.session = s.session ∧ (effect s a = .fill s.session s.session ∨
      s.key.line.filled ∧ effect s a = .other) := by
  have hn := (step_inv h hs).noFault
  simp only [demo, State.step] at hs
  split at hs
  · cases hs
  cases a with
  | press k =>
    simp only at hs
    split at hs <;> cases hs
    cases k <;> exact absurd hf Bool.false_ne_true
  | key ok pid junk => exact h.keyStep_filled hs hn hf
  | audio i ok =>
    obtain ⟨hkey, hsession⟩ := audioStep_session hs
    exact ⟨hsession, .inr ⟨hkey ▸ hf, rfl⟩⟩
  | error e code =>
    simp only at hs
    split at hs <;> cases hs
    exact ⟨rfl, .inr ⟨hf, rfl⟩⟩

end Steps

/-- When the session has come to the lines between the assignments and the call, its config has been
filled in. -/
structure Provided (s : Clocked State) : Prop where
  inv : Inv s.device
  filled : s.device.key.line.filled → (s.channels.filled s.device.session).isSome

variable {rand : UInt32 → Nat → Nat} {junk : Nat → CharArray 65}

theorem Provided.init : Provided (device.clocked rand junk).init where
  inv := inv_init
  filled h := absurd h Bool.false_ne_true

theorem Provided.step {s s' : Clocked State} {a : ClockedAction Action} (h : Provided s)
    (hs : (device.clocked rand junk).step s a = some s') : Provided s' := by
  cases a with
  | tick seconds =>
    obtain ⟨hdevice, hchannels⟩ := clocked_tick hs
    refine ⟨hdevice ▸ h.inv, ?_⟩
    rw [hdevice, hchannels]
    exact h.filled
  | generate t =>
    obtain ⟨hdevice, hfilled⟩ := clocked_generate hs
    refine ⟨hdevice ▸ h.inv, ?_⟩
    rw [hdevice, hfilled]
    exact h.filled
  | act a =>
    obtain ⟨hdevice, happly⟩ := clocked_act hs
    refine ⟨step_inv h.inv hdevice, fun hf => ?_⟩
    have heffect : device.effect s.device a = effect s.device a := rfl
    obtain ⟨hsession, he | ⟨hline, he⟩⟩ := h.inv.step_filled hdevice hf
    · rw [heffect, he] at happly
      rw [hsession]
      exact filled_fill happly
    · rw [heffect, he] at happly
      rw [hsession, ← Option.some.inj happly]
      exact h.filled hline

/-- On the JL device every call passes a config that has been filled in. -/
theorem calls_filled (as : List (ClockedAction Action)) :
    (device.clocked rand junk).Along (FilledCall device) (device.clocked rand junk).init as := by
  refine Machine.along_invariant (P := fun _ _ => True) (fun _ _ _ h _ hs => Provided.step h hs)
    (fun s a _ h _ _ => ?_) Provided.init (Machine.along_true _ _)
  cases a with
  | act a =>
    show (Jl.effect s.device a).Filled s.channels
    cases he : Jl.effect s.device a with
    | call t c =>
      obtain ⟨rfl, hline⟩ := h.inv.effect_call he
      exact h.filled hline
    | _ => trivial
  | _ => trivial

end Jl

/-! ### Runs of a device -/

/-- The calls of two sessions carry two channel ids as long as every call passes a config that has
been filled in, with an id of a second of its own.  On the JL device that is exactly when they do,
and on the ESP32 it is where every call passes a config that has been filled in. -/
theorem calls_distinct {rand : UInt32 → Nat → Nat} (hrand : Function.Injective (simpleUuid rand))
    (junk : Nat → CharArray 65) :
    let esp := Esp32.device.clocked rand junk
    let jl := Jl.device.clocked rand junk
    (∀ as, esp.Along (FreshCall Esp32.device) esp.init as →
      esp.Always DistinctCalls esp.init as) ∧
    (∀ as, esp.Along (FilledCall Esp32.device) esp.init as →
      esp.Always DistinctCalls esp.init as → esp.Along (FreshCall Esp32.device) esp.init as) ∧
    ∀ as, jl.Always DistinctCalls jl.init as ↔ jl.Along (FreshCall Jl.device) jl.init as :=
  ⟨fun _ h => distinct_of_fresh hrand h, fun _ hf => (distinct_iff_fresh hrand hf).mp,
    fun as => distinct_iff_fresh hrand (Jl.calls_filled as)⟩

/-- A sequence for each seed, with the hexadecimal digits of the seed. -/
def nibbles (s : UInt32) (i : Nat) : Nat := s.toNat / 16 ^ i

theorem mod_eq_of_digits {m n k : Nat} (h : ∀ i < k, m / 16 ^ i % 16 = n / 16 ^ i % 16) :
    m % 16 ^ k = n % 16 ^ k := by
  induction k with
  | zero => rw [Nat.pow_zero, Nat.mod_one, Nat.mod_one]
  | succ k ih =>
    rw [Nat.mod_pow_succ, Nat.mod_pow_succ, ih fun i hi => h i (Nat.lt_succ_of_lt hi),
      h k (Nat.lt_succ_self k)]

theorem nibbles_injective : Function.Injective (simpleUuid nibbles) := by
  intro s t h
  have hchars : ∀ a < 16, ∀ b < 16, hexChars.getD a 0 = hexChars.getD b 0 → a = b := by decide
  have htext : (List.range 32).map (fun i => hexChars.getD (nibbles s i % 16) 0) =
      (List.range 32).map fun i => hexChars.getD (nibbles t i % 16) 0 := congrArg CString.bytes h
  have hdigit (i : Nat) (hi : i < 32) : s.toNat / 16 ^ i % 16 = t.toNat / 16 ^ i % 16 :=
    hchars _ (Nat.mod_lt _ (by decide)) _ (Nat.mod_lt _ (by decide))
      (List.map_inj_left.mp htext i (List.mem_range.mpr hi))
  have hmod : s.toNat % 2 ^ 32 = t.toNat % 2 ^ 32 :=
    mod_eq_of_digits fun i hi => hdigit i (Nat.lt_trans hi (show 8 < 32 by decide))
  rw [Nat.mod_eq_of_lt s.toNat_lt, Nat.mod_eq_of_lt t.toNat_lt] at hmod
  exact UInt32.toNat_inj.mp hmod

/-- A call that the SDK refuses, and the end of its task. -/
def Esp32.refusedCall (t : Nat) : List (ClockedAction Action) :=
  .act (.call .startCall) :: List.replicate 2 (.act (.key true)) ++
    List.replicate 10 (.act (.impl t true {})) ++ .generate t ::
    List.replicate 11 (.act (.impl t true {})) ++ List.replicate 26 (.act (.impl t false {}))

/-- The call of session `n` with audio task `i`, and its hang-up. -/
def Jl.hungUpCall (n i : Nat) : List (ClockedAction Action) :=
  .act (.press .k1) :: List.replicate 20 (.act (.key true 5 {})) ++ .generate n ::
    List.replicate 26 (.act (.key true 5 {})) ++ .act (.press .k2) ::
    List.replicate 12 (.act (.key true 5 {})) ++ List.replicate 5 (.act (.audio i true)) ++
    List.replicate 25 (.act (.key true 5 {}))

/-- Two calls on each device, a second apart. -/
theorem nextSecond_distinct :
    let esp := Esp32.device.clocked nibbles fun _ => .zero 65
    let jl := Jl.device.clocked nibbles fun _ => .zero 65
    esp.Always DistinctCalls esp.init
      (Esp32.refusedCall 0 ++ .tick 1 :: Esp32.refusedCall 1) ∧
    jl.Always DistinctCalls jl.init
      (Jl.hungUpCall 1 0 ++ .tick 1 :: Jl.hungUpCall 2 1) :=
  ⟨(calls_distinct nibbles_injective _).1 _ (by decide +kernel),
    ((calls_distinct nibbles_injective _).2.2 _).mpr (by decide +kernel)⟩

/-- Two calls in one second: on the ESP32 the first is refused, on the JL device it is hung up. -/
theorem sameSecond_not_distinct :
    (¬ ∀ (rand : UInt32 → Nat → Nat) (junk : Nat → CharArray 65) as,
      Function.Injective (simpleUuid rand) →
      (Esp32.device.clocked rand junk).Always DistinctCalls
        (Esp32.device.clocked rand junk).init as) ∧
    ¬ ∀ (rand : UInt32 → Nat → Nat) (junk : Nat → CharArray 65) as,
      Function.Injective (simpleUuid rand) →
      (Jl.device.clocked rand junk).Always DistinctCalls
        (Jl.device.clocked rand junk).init as := by
  constructor
  · intro h
    let esp := Esp32.device.clocked nibbles fun _ => .zero 65
    have hrun : (esp.run esp.init (Esp32.refusedCall 0 ++ Esp32.refusedCall 1)).map
        (fun s => decide (DistinctCalls s)) = some false := by decide +kernel
    obtain ⟨s, hs, hd⟩ := Option.map_eq_some_iff.mp hrun
    exact of_decide_eq_false hd ((h nibbles _ _ nibbles_injective).last hs)
  · intro h
    let jl := Jl.device.clocked nibbles fun _ => .zero 65
    have hrun : (jl.run jl.init (Jl.hungUpCall 1 0 ++ Jl.hungUpCall 2 1)).map
        (fun s => decide (DistinctCalls s)) = some false := by decide +kernel
    obtain ⟨s, hs, hd⟩ := Option.map_eq_some_iff.mp hrun
    exact of_decide_eq_false hd ((h nibbles _ _ nibbles_injective).last hs)

end AiCall
