import AiCall.CallConfig
import AiCall.ChannelId
import AiCall.Kit.Heap
import AiCall.Kit.Machine

/-! The channel ids of the calls that a device makes.  Each session makes its id from the second in
which it calls `generate_simple_uuid`, writes it to a config, and passes the config that it finds in
`g_curr_aicall` to `artc_aicall_call`.  A device with a clock is the machine of its sessions with
the seconds, the local `channel_id` of each session and the field `auth_info.channel_id` of each
config next to it. -/

namespace AiCall

open Kit

/-! ### Channel ids -/

/-- The id that a session writes to its config. -/
def madeId (rand : UInt32 → Nat → Nat) (time : Nat) : CString :=
  (generateSimpleUuid rand time (.zero 33)).str

theorem str_channelField (rand : UInt32 → Nat → Nat) (time : Nat) :
    (channelField (madeId rand time)).str = simpleUuid rand (seed time) := by
  have hl := length_simpleUuid rand (seed time)
  rw [channelField, madeId, str_generateSimpleUuid, CharArray.str_strncpy_zero _ (by decide),
    CString.take_of_le (by omega)]

/-- A call of `artc_aicall_call`, with the channel id that its config carries.  `second` is for the
proofs: the seed of that id, if the config has been filled in. -/
structure Call where
  session : Nat
  channelId : CString
  second : Option UInt32
deriving DecidableEq

/-- `made` is the time of a session's call of `generate_simple_uuid`, `channelIds` the field
`auth_info.channel_id` of each config, and `filled`, for the proofs, the seed of that field. -/
structure Channels where
  made : Nat → Option Nat := fun _ => none
  channelIds : Nat → CharArray 65
  filled : Nat → Option UInt32 := fun _ => none
  calls : List Call := []

/-- What a step does with the channel id of a session or a config. -/
inductive Effect where
  | other
  | make (session time : Nat)  -- `generate_simple_uuid`
  | take (session : Nat)  -- the line after it
  | clear (config : Nat)  -- `memset`
  | fill (session config : Nat)  -- the assignments to `call_config`
  | call (session config : Nat)  -- `artc_aicall_call`
deriving DecidableEq, Repr

/-- The effect of a step that goes through a pointer to a config. -/
def Effect.through (configs : Heap Unit) (p : Option Nat) (f : Nat → Effect) : Effect :=
  match p, configs.deref p with
  | some c, some _ => f c
  | _, _ => .other

theorem Effect.through_held {configs : Heap Unit} {c : Nat} (hc : configs c = .held ())
    (f : Nat → Effect) : Effect.through configs (some c) f = f c := by
  simp [Effect.through, Heap.deref_of_held hc]

def Channels.apply (rand : UInt32 → Nat → Nat) (s : Channels) : Effect → Option Channels
  | .other => some s
  | .make t time => if s.made t = none then
      some { s with made := Function.update s.made t (some time) }
    else none
  | .take t => if (s.made t).isSome then some s else none
  | .clear c =>
    some { s with
      channelIds := Function.update s.channelIds c (.zero 65)
      filled := Function.update s.filled c none }
  | .fill t c =>
    (s.made t).map fun time =>
      { s with
        channelIds := Function.update s.channelIds c (channelField (madeId rand time))
        filled := Function.update s.filled c (some (seed time)) }
  | .call t c => some { s with calls := ⟨t, (s.channelIds c).str, s.filled c⟩ :: s.calls }

/-- Two sessions that have reached `artc_aicall_call` carry two channel ids. -/
def Distinct (s : Channels) : Prop :=
  ∀ x ∈ s.calls, ∀ y ∈ s.calls, x.session ≠ y.session → x.channelId ≠ y.channelId

/-- A config that is passed to `artc_aicall_call` has been filled in. -/
def Effect.Filled (s : Channels) : Effect → Prop
  | .call _ c => (s.filled c).isSome
  | _ => True

/-- Besides, its id is of another second than those of the other sessions that have reached
`artc_aicall_call`. -/
def Effect.Fresh (s : Channels) : Effect → Prop
  | .call t c => (s.filled c).isSome ∧ ∀ x ∈ s.calls, x.session ≠ t → x.second ≠ s.filled c
  | _ => True

instance (s : Channels) (e : Effect) : Decidable (e.Fresh s) := by
  unfold Effect.Fresh
  split <;> infer_instance

theorem Effect.Fresh.filled {s : Channels} {e : Effect} (h : e.Fresh s) : e.Filled s := by
  cases e with
  | call t c => exact h.1
  | _ => trivial

/-- The text of a filled config, and of a call, is the id of its second. -/
structure Labelled (rand : UInt32 → Nat → Nat) (s : Channels) : Prop where
  configs : ∀ c k, s.filled c = some k → (s.channelIds c).str = simpleUuid rand k
  calls : ∀ x ∈ s.calls, ∃ k, x.second = some k ∧ x.channelId = simpleUuid rand k

/-- One more call keeps the ids distinct if and only if no other session carries its id. -/
theorem distinct_cons {s : Channels} {calls : List Call} {y : Call} (hc : s.calls = y :: calls)
    (hold : ∀ x ∈ calls, ∀ z ∈ calls, x.session ≠ z.session → x.channelId ≠ z.channelId) :
    Distinct s ↔ ∀ x ∈ calls, x.session ≠ y.session → x.channelId ≠ y.channelId := by
  rw [Distinct, hc]
  constructor
  · intro h x hx
    exact h x (List.mem_cons_of_mem y hx) y List.mem_cons_self
  · intro h x hx z hz hne
    rcases List.mem_cons.mp hx with rfl | hxs
    · rcases List.mem_cons.mp hz with rfl | hzs
      · exact absurd rfl hne
      · exact (h z hzs hne.symm).symm
    · rcases List.mem_cons.mp hz with rfl | hzs
      · exact h x hxs hne
      · exact hold x hxs z hzs hne

section Apply

variable {rand : UInt32 → Nat → Nat} {s s' : Channels} {e : Effect}

theorem Labelled.apply (h : Labelled rand s) (hf : e.Filled s) (hs : s.apply rand e = some s') :
    Labelled rand s' := by
  cases e with
  | other =>
    cases hs
    exact h
  | make t time | take t =>
    simp only [Channels.apply] at hs
    split at hs <;> cases hs
    exact ⟨h.configs, h.calls⟩
  | clear c =>
    cases hs
    refine ⟨fun d k hk => ?_, h.calls⟩
    by_cases hd : d = c
    · simp [hd] at hk
    · simp only [Function.update_of_ne hd] at hk ⊢
      exact h.configs d k hk
  | fill t c =>
    obtain ⟨time, _, rfl⟩ := Option.map_eq_some_iff.mp hs
    refine ⟨fun d k hk => ?_, h.calls⟩
    by_cases hd : d = c
    · obtain rfl : seed time = k := by simpa [hd] using hk
      simp only [hd, Function.update_self]
      exact str_channelField rand time
    · simp only [Function.update_of_ne hd] at hk ⊢
      exact h.configs d k hk
  | call t c =>
    cases hs
    obtain ⟨k, hk⟩ := Option.isSome_iff_exists.mp hf
    refine ⟨h.configs, fun x hx => ?_⟩
    rcases List.mem_cons.mp hx with rfl | hx
    · exact ⟨k, hk, h.configs c k hk⟩
    · exact h.calls x hx

/-- What a session leaves in its config is what the assignments to `call_config` leave in both its
fields `channel_id`. -/
theorem channelIds_fill {t c time : Nat} (hm : s.made t = some time)
    (hs : s.apply rand (.fill t c) = some s') (settings : Settings) (tsStr token : CString)
    (callback : Bool) (duration : Nat) :
    let config := fill settings (madeId rand time) tsStr token callback duration
    config.authInfo.channelId = s'.channelIds c ∧ config.agentInfo.channelId = s'.channelIds c := by
  intro config
  have hfield : s'.channelIds c = channelField (madeId rand time) := by
    simp only [Channels.apply, hm, Option.map_some, Option.some.injEq] at hs
    rw [← hs]
    exact Function.update_self ..
  rw [hfield]
  exact channelId_fill settings (madeId rand time) tsStr token callback duration

theorem calls_apply (he : ∀ t c, e ≠ .call t c) (hs : s.apply rand e = some s') :
    s'.calls = s.calls := by
  cases e with
  | call t c => exact absurd rfl (he t c)
  | make t time | take t =>
    simp only [Channels.apply] at hs
    split at hs <;> cases hs
    rfl
  | fill t c =>
    obtain ⟨time, _, rfl⟩ := Option.map_eq_some_iff.mp hs
    rfl
  | other | clear c =>
    cases hs
    rfl

theorem filled_make {t time : Nat} (hs : s.apply rand (.make t time) = some s') :
    s'.filled = s.filled := by
  simp only [Channels.apply] at hs
  split at hs <;> cases hs
  rfl

theorem filled_fill {t c : Nat} (hs : s.apply rand (.fill t c) = some s') :
    (s'.filled c).isSome := by
  obtain ⟨time, _, rfl⟩ := Option.map_eq_some_iff.mp hs
  simp

/-- A step keeps the ids distinct if and only if it does not call with a second that another
session has called with. -/
theorem distinct_apply_iff (hrand : Function.Injective (simpleUuid rand)) (h : Labelled rand s)
    (hd : Distinct s) (hf : e.Filled s) (hs : s.apply rand e = some s') :
    Distinct s' ↔ e.Fresh s := by
  cases e with
  | call t c =>
    obtain ⟨k, hk⟩ := Option.isSome_iff_exists.mp hf
    have hid := h.configs c k hk
    cases hs
    rw [distinct_cons rfl hd, Effect.Fresh, hk, hid]
    constructor
    · refine fun hne => ⟨rfl, fun x hx hsession hsecond => ?_⟩
      obtain ⟨l, hl, hx'⟩ := h.calls x hx
      obtain rfl : l = k := Option.some.inj (hl.symm.trans hsecond)
      exact hne x hx hsession hx'
    · rintro ⟨_, hne⟩ x hx hsession heq
      obtain ⟨l, hl, hx'⟩ := h.calls x hx
      obtain rfl : l = k := hrand (hx'.symm.trans heq)
      exact hne x hx hsession hl
  | _ =>
    have hc := calls_apply (fun _ _ h => Effect.noConfusion h) hs
    rw [Distinct, hc]
    exact iff_of_true hd trivial

end Apply

/-! ### A device with a clock -/

structure Device (σ α : Type*) where
  machine : Machine σ α
  generates : σ → Nat → Bool  -- the session is at its call of `generate_simple_uuid`
  effect : σ → α → Effect

structure Clocked (σ : Type*) where
  device : σ
  time : Nat := 0
  channels : Channels

inductive ClockedAction (α : Type*) where
  | tick (seconds : Nat)  -- time passes
  | generate (session : Nat)  -- the session calls `generate_simple_uuid`
  | act (a : α)

section Clock

variable {σ α : Type*}

def ClockedAction.effect (D : Device σ α) (s : Clocked σ) : ClockedAction α → Effect
  | .tick _ => .other
  | .generate t => .make t s.time
  | .act a => D.effect s.device a

/-- The device and the clock after an action. -/
def ClockedAction.device (D : Device σ α) (s : Clocked σ) : ClockedAction α → Option (σ × Nat)
  | .tick seconds => some (s.device, s.time + seconds)
  | .generate t => if D.generates s.device t then some (s.device, s.time) else none
  | .act a => (D.machine.step s.device a).map fun d => (d, s.time)

def Clocked.step (D : Device σ α) (rand : UInt32 → Nat → Nat) (s : Clocked σ)
    (a : ClockedAction α) : Option (Clocked σ) :=
  match a.device D s, s.channels.apply rand (a.effect D s) with
  | some (device, time), some channels => some { device, time, channels }
  | _, _ => none

/-- A device with a clock; `junk` is what the memory of the configs holds at first. -/
def Device.clocked (D : Device σ α) (rand : UInt32 → Nat → Nat) (junk : Nat → CharArray 65) :
    Machine (Clocked σ) (ClockedAction α) :=
  ⟨{ device := D.machine.init, channels := { channelIds := junk } }, Clocked.step D rand⟩

variable {D : Device σ α} {rand : UInt32 → Nat → Nat} {junk : Nat → CharArray 65}

theorem clocked_step {s s' : Clocked σ} {a : ClockedAction α}
    (hs : (D.clocked rand junk).step s a = some s') :
    a.device D s = some (s'.device, s'.time) ∧
      s.channels.apply rand (a.effect D s) = some s'.channels := by
  simp only [Device.clocked, Clocked.step] at hs
  split at hs <;> cases hs
  exact ⟨‹_›, ‹_›⟩

theorem clocked_tick {s s' : Clocked σ} {seconds : Nat}
    (hs : (D.clocked rand junk).step s (.tick seconds) = some s') :
    s'.device = s.device ∧ s'.channels = s.channels := by
  obtain ⟨hdevice, happly⟩ := clocked_step hs
  exact ⟨(Prod.mk.inj (Option.some.inj hdevice)).1.symm, (Option.some.inj happly).symm⟩

theorem clocked_generate {s s' : Clocked σ} {t : Nat}
    (hs : (D.clocked rand junk).step s (.generate t) = some s') :
    s'.device = s.device ∧ s'.channels.filled = s.channels.filled := by
  obtain ⟨hdevice, happly⟩ := clocked_step hs
  simp only [ClockedAction.device] at hdevice
  split at hdevice
  · exact ⟨(Prod.mk.inj (Option.some.inj hdevice)).1.symm, filled_make happly⟩
  · cases hdevice

theorem clocked_act {s s' : Clocked σ} {a : α}
    (hs : (D.clocked rand junk).step s (.act a) = some s') :
    D.machine.step s.device a = some s'.device ∧
      s.channels.apply rand (D.effect s.device a) = some s'.channels := by
  obtain ⟨hdevice, happly⟩ := clocked_step hs
  obtain ⟨d, hd, hpair⟩ := Option.map_eq_some_iff.mp hdevice
  exact ⟨hd.trans (congrArg some (Prod.mk.inj hpair).1), happly⟩

def DistinctCalls (s : Clocked σ) : Prop := Distinct s.channels

instance (s : Clocked σ) : Decidable (DistinctCalls s) :=
  inferInstanceAs (Decidable (∀ x ∈ s.channels.calls, ∀ y ∈ s.channels.calls, _ → _))

def FilledCall (D : Device σ α) (s : Clocked σ) (a : ClockedAction α) : Prop :=
  (a.effect D s).Filled s.channels

def FreshCall (D : Device σ α) (s : Clocked σ) (a : ClockedAction α) : Prop :=
  (a.effect D s).Fresh s.channels

instance (D : Device σ α) (s : Clocked σ) (a : ClockedAction α) : Decidable (FreshCall D s a) :=
  inferInstanceAs (Decidable (Effect.Fresh _ _))

/-- Where every call passes a config that has been filled in, the ids are distinct if and only if
every call comes with a second of its own. -/
theorem distinct_iff_fresh (hrand : Function.Injective (simpleUuid rand))
    {as : List (ClockedAction α)}
    (hf : (D.clocked rand junk).Along (FilledCall D) (D.clocked rand junk).init as) :
    (D.clocked rand junk).Always DistinctCalls (D.clocked rand junk).init as ↔
      (D.clocked rand junk).Along (FreshCall D) (D.clocked rand junk).init as := by
  have hnil : (D.clocked rand junk).init.channels.calls = [] := rfl
  refine Machine.always_iff_along (I := fun s => Labelled rand s.channels ∧ Distinct s.channels)
    (fun s a t h hf hfresh hs => ?_) (fun s h => h.2) (fun s a t h hf hs hd => ?_) ?_ hf
  · obtain ⟨_, happly⟩ := clocked_step hs
    exact ⟨h.1.apply hf happly, (distinct_apply_iff hrand h.1 h.2 hf happly).mpr hfresh⟩
  · obtain ⟨_, happly⟩ := clocked_step hs
    exact (distinct_apply_iff hrand h.1 h.2 hf happly).mp hd
  · refine ⟨⟨fun c k hk => (Option.some_ne_none k hk.symm).elim, fun x hx => ?_⟩, fun x hx => ?_⟩
    · rw [hnil] at hx
      exact absurd hx List.not_mem_nil
    · rw [hnil] at hx
      exact absurd hx List.not_mem_nil

theorem distinct_of_fresh (hrand : Function.Injective (simpleUuid rand))
    {as : List (ClockedAction α)}
    (hf : (D.clocked rand junk).Along (FreshCall D) (D.clocked rand junk).init as) :
    (D.clocked rand junk).Always DistinctCalls (D.clocked rand junk).init as :=
  (distinct_iff_fresh hrand (hf.imp fun _ _ h => Effect.Fresh.filled h)).mpr hf

end Clock

end AiCall
