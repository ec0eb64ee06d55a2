import AiCall.Kit.Simulation
import Mathlib.Data.List.Induction

/-! The protocol of the call SDK, `artc_aicall.h`, on the side of its caller.  An engine is created,
called, used while the call is up, hung up and destroyed, and the next engine is created after
that. -/

namespace AiCall.Sdk

open Kit

/-- The functions that use a call which is up. -/
inductive Use where
  | interruptSpeaking
  | muteLocalAudio (mute : Bool)
  | readAgentAudioData
  | sendAudioData
deriving DecidableEq, Repr

inductive Call where
  | init  -- `artc_aicall_init` returns an engine
  | call  -- `artc_aicall_call`: its entry and its return, with 0 or without
  | called (ok : Bool)
  | use (f : Use)
  | handup
  | destroy  -- `artc_aicall_destroy`: its entry and its return
  | destroyed
deriving DecidableEq, Repr

/-- A call of the SDK, and the pointer that is passed as the engine. -/
structure Event where
  engine : Option Nat
  call : Call
deriving DecidableEq, Repr

/-- What has been done with the last engine. -/
inductive Phase where
  | idle  -- there is none, or it is destroyed
  | created
  | calling
  | talking
  | refused
  | hungUp
  | destroying
deriving DecidableEq, Repr

/-- The phase after a call with the last engine, if the call is in place. -/
def Phase.next : Phase → Call → Option Phase
  | .created, .call => some .calling
  | .calling, .called ok => some (if ok then .talking else .refused)
  | .talking, .use _ => some .talking
  | .talking, .handup | .refused, .handup => some .hungUp
  | .hungUp, .destroy => some .destroying
  | .destroying, .destroyed => some .idle
  | _, _ => none

/-- The engines that have been created, the last one first, and the phase of that one. -/
structure State where
  made : List Nat := []
  phase : Phase := .idle
deriving DecidableEq, Repr

def State.step (s : State) : Event → Option State
  | ⟨none, _⟩ => none
  | ⟨some e, .init⟩ =>
    if s.phase = .idle ∧ e ∉ s.made then some ⟨e :: s.made, .created⟩ else none
  | ⟨some e, c⟩ =>
    if s.made.head? = some e then (s.phase.next c).map fun p => { s with phase := p } else none

def protocol : Machine State Event := ⟨{}, State.step⟩

theorem step_init {s : State} {e : Nat} (hp : s.phase = .idle) (he : e ∉ s.made) :
    protocol.step s ⟨some e, .init⟩ = some ⟨e :: s.made, .created⟩ := by
  simp [protocol, State.step, hp, he]

theorem step_next {s : State} {e : Nat} {c : Call} {p : Phase} (he : s.made.head? = some e)
    (hc : s.phase.next c = some p) :
    protocol.step s ⟨some e, c⟩ = some { s with phase := p } := by
  cases c <;> simp_all [protocol, State.step, Phase.next]

/-- A step creates an engine that is new, or goes on with the last one. -/
theorem step_cases {s t : State} {ev : Event} (h : protocol.step s ev = some t) :
    (∃ e, ev = ⟨some e, .init⟩ ∧ s.phase = .idle ∧ e ∉ s.made ∧ t = ⟨e :: s.made, .created⟩) ∨
      ∃ e c p, ev = ⟨some e, c⟩ ∧ s.made.head? = some e ∧ s.phase.next c = some p ∧
        t = { s with phase := p } := by
  obtain ⟨_ | e, c⟩ := ev
  · cases h
  cases c
  case init =>
    simp only [protocol, State.step] at h
    split at h <;> cases h
    rename_i hi
    exact Or.inl ⟨e, rfl, hi.1, hi.2, rfl⟩
  all_goals
    simp only [protocol, State.step] at h
    split at h
    · obtain ⟨p, hp, rfl⟩ := Option.map_eq_some_iff.mp h
      exact Or.inr ⟨e, _, p, rfl, by assumption, hp, rfl⟩
    · cases h

/-! ### The words of the protocol -/

/-- The calls with an engine that is up or has been. -/
def opening (e : Nat) : List Event := [⟨some e, .init⟩, ⟨some e, .call⟩, ⟨some e, .called true⟩]

def uses (e : Nat) (fs : List Use) : List Event := fs.map fun f => ⟨some e, .use f⟩

/-- The calls with an engine whose call is refused. -/
def refusal (e : Nat) : List Event := [⟨some e, .init⟩, ⟨some e, .call⟩, ⟨some e, .called false⟩]

/-- The calls that can precede the hang-up. -/
def Answered (e : Nat) (w : List Event) : Prop :=
  w = refusal e ∨ ∃ fs, w = opening e ++ uses e fs

/-- The calls with one engine, from its creation to its destruction. -/
def Dialog (e : Nat) (w : List Event) : Prop :=
  ∃ v, Answered e v ∧ w = v ++ [⟨some e, .handup⟩, ⟨some e, .destroy⟩, ⟨some e, .destroyed⟩]

/-- The calls with the last engine, at the phase that they lead to. -/
def Phase.Word (e : Nat) (w : List Event) : Phase → Prop
  | .idle => Dialog e w
  | .created => w = [⟨some e, .init⟩]
  | .calling => w = [⟨some e, .init⟩, ⟨some e, .call⟩]
  | .talking => ∃ fs, w = opening e ++ uses e fs
  | .refused => w = refusal e
  | .hungUp => ∃ v, Answered e v ∧ w = v ++ [⟨some e, .handup⟩]
  | .destroying => ∃ v, Answered e v ∧ w = v ++ [⟨some e, .handup⟩, ⟨some e, .destroy⟩]

/-- Dialogs with different engines, one after another. -/
inductive Dialogs : List Nat → List Event → Prop where
  | nil : Dialogs [] []
  | snoc {es : List Nat} {e : Nat} {w v : List Event} :
    Dialogs es w → e ∉ es → Dialog e v → Dialogs (e :: es) (w ++ v)

/-- The dialogs that are over, and then the calls with the engine `e` that is not destroyed. -/
def Open (es : List Nat) (e : Nat) (p : Phase) (w : List Event) : Prop :=
  ∃ w₁ w₂, w = w₁ ++ w₂ ∧ Dialogs es w₁ ∧ e ∉ es ∧ p.Word e w₂

/-- The words that lead the protocol to a state. -/
def State.Spoken (s : State) (w : List Event) : Prop :=
  s.phase = .idle ∧ Dialogs s.made w ∨
    s.phase ≠ .idle ∧ ∃ e es, s.made = e :: es ∧ Open es e s.phase w

/-- The word of one engine goes on with each call that is in place. -/
theorem Phase.Word.next {e : Nat} {w : List Event} {p q : Phase} {c : Call} (h : p.Word e w)
    (hp : p ≠ .idle) (hc : p.next c = some q) : q.Word e (w ++ [⟨some e, c⟩]) := by
  cases p <;> cases c <;> simp only [Phase.next, reduceCtorEq, Option.some.injEq] at hc <;>
    subst hc
  case created.call =>
    obtain rfl := h
    rfl
  case calling.called ok =>
    obtain rfl := h
    cases ok with
    | true => exact ⟨[], rfl⟩
    | false => rfl
  case talking.use f =>
    obtain ⟨fs, rfl⟩ := h
    exact ⟨fs ++ [f], by simp [uses]⟩
  case talking.handup =>
    obtain ⟨fs, rfl⟩ := h
    exact ⟨_, Or.inr ⟨fs, rfl⟩, rfl⟩
  case refused.handup =>
    obtain rfl := h
    exact ⟨_, Or.inl rfl, rfl⟩
  case hungUp.destroy =>
    obtain ⟨v, hv, rfl⟩ := h
    exact ⟨v, hv, by simp⟩
  case destroying.destroyed =>
    obtain ⟨v, hv, rfl⟩ := h
    exact ⟨v, hv, by simp⟩

theorem Spoken.step {s t : State} {w : List Event} {ev : Event} (h : s.Spoken w)
    (hs : protocol.step s ev = some t) : t.Spoken (w ++ [ev]) := by
  rcases step_cases hs with ⟨e, rfl, hp, he, rfl⟩ | ⟨e, c, p, rfl, he, hc, rfl⟩
  · rcases h with ⟨-, hd⟩ | ⟨hne, -⟩
    · exact Or.inr ⟨Phase.noConfusion, e, s.made, rfl, w, _, rfl, hd, he, rfl⟩
    · exact absurd hp hne
  · have hne : s.phase ≠ .idle := by
      intro hi
      rw [hi] at hc
      cases hc
    rcases h with ⟨hi, -⟩ | ⟨-, e', es, hm, w₁, w₂, rfl, hd, hfresh, hw⟩
    · exact absurd hi hne
    obtain rfl : e' = e := by simpa [hm] using he
    have hnext := hw.next hne hc
    by_cases hq : p = .idle
    · subst hq
      refine Or.inl ⟨rfl, ?_⟩
      show Dialogs s.made _
      rw [hm, List.append_assoc]
      exact .snoc hd hfresh hnext
    · exact Or.inr ⟨hq, e', es, hm, w₁, _, List.append_assoc .., hd, hfresh, hnext⟩

/-- What the protocol reads is a word of its grammar. -/
theorem run_spoken {s : State} {w : List Event} (h : protocol.run protocol.init w = some s) :
    s.Spoken w := by
  induction w using List.reverseRecOn generalizing s with
  | nil =>
    obtain rfl : protocol.init = s := by simpa using h
    exact Or.inl ⟨rfl, .nil⟩
  | append_singleton w ev ih =>
    rw [Machine.run_append, Option.bind_eq_some_iff] at h
    obtain ⟨t, ht, hs⟩ := h
    rw [Machine.run_singleton] at hs
    exact Spoken.step (ih ht) hs

/-! ### How often an engine occurs -/

theorem Answered.count {e : Nat} {w : List Event} (h : Answered e w) :
    w.count ⟨some e, .init⟩ = 1 ∧ w.count ⟨some e, .call⟩ = 1 ∧ w.count ⟨some e, .handup⟩ = 0 ∧
      w.count ⟨some e, .destroy⟩ = 0 := by
  rcases h with rfl | ⟨fs, rfl⟩
  · simp [refusal]
  · have huse (c : Call) (hc : ∀ f, c ≠ .use f) : (uses e fs).count ⟨some e, c⟩ = 0 := by
      refine List.count_eq_zero.mpr fun hm => ?_
      obtain ⟨f, -, hf⟩ := List.mem_map.mp hm
      exact hc f (Event.mk.inj hf).2.symm
    simp [opening, huse]

/-- An engine whose dialog is over was created, called, hung up and destroyed once each. -/
structure Once (e : Nat) (w : List Event) : Prop where
  init : w.count ⟨some e, .init⟩ = 1
  call : w.count ⟨some e, .call⟩ = 1
  handup : w.count ⟨some e, .handup⟩ = 1
  destroy : w.count ⟨some e, .destroy⟩ = 1

theorem Dialog.once {e : Nat} {w : List Event} (h : Dialog e w) : Once e w := by
  obtain ⟨v, hv, rfl⟩ := h
  obtain ⟨hinit, hcall, hhandup, hdestroy⟩ := hv.count
  constructor <;> simp [*]

theorem Answered.engine {e : Nat} {w : List Event} (h : Answered e w) :
    ∀ ev ∈ w, ev.engine = some e := by
  intro ev hev
  rcases h with rfl | ⟨fs, rfl⟩
  · simp only [refusal, List.mem_cons, List.not_mem_nil, or_false] at hev
    rcases hev with rfl | rfl | rfl <;> rfl
  · rcases List.mem_append.mp hev with hev | hev
    · simp only [opening, List.mem_cons, List.not_mem_nil, or_false] at hev
      rcases hev with rfl | rfl | rfl <;> rfl
    · obtain ⟨f, -, rfl⟩ := List.mem_map.mp hev
      rfl

/-- The calls of a word are made with its engine. -/
theorem Phase.Word.engine {e : Nat} {p : Phase} {w : List Event} (h : p.Word e w) :
    ∀ ev ∈ w, ev.engine = some e := by
  have hlast {v u : List Event} (hv : Answered e v) (hu : ∀ ev ∈ u, ev.engine = some e) :
      ∀ ev ∈ v ++ u, ev.engine = some e := by
    intro ev hev
    rcases List.mem_append.mp hev with hev | hev
    · exact hv.engine ev hev
    · exact hu ev hev
  cases p with
  | created | calling =>
    obtain rfl := h
    simp
  | talking => exact Answered.engine (Or.inr h)
  | refused => exact Answered.engine (Or.inl h)
  | hungUp | destroying | idle =>
    obtain ⟨v, hv, rfl⟩ := h
    exact hlast hv (by simp)

/-- The calls in dialogs are made with the engines of these dialogs. -/
theorem Dialogs.engine {es : List Nat} {w : List Event} (h : Dialogs es w) :
    ∀ ev ∈ w, ∃ e ∈ es, ev.engine = some e := by
  induction h with
  | nil => simp
  | snoc _ _ hd ih =>
    intro ev hev
    rcases List.mem_append.mp hev with hev | hev
    · obtain ⟨e, he, hev⟩ := ih ev hev
      exact ⟨e, List.mem_cons_of_mem _ he, hev⟩
    · exact ⟨_, List.mem_cons_self .., Phase.Word.engine (p := .idle) hd ev hev⟩

/-- Calls with other engines do not count. -/
theorem Once.append_left {e : Nat} {w v : List Event} (h : Once e v)
    (hw : ∀ ev ∈ w, ev.engine ≠ some e) : Once e (w ++ v) := by
  have hnone (c : Call) : w.count ⟨some e, c⟩ = 0 :=
    List.count_eq_zero.mpr fun hm => hw _ hm rfl
  constructor <;> simp [List.count_append, hnone, h.init, h.call, h.handup, h.destroy]

theorem Once.append_right {e : Nat} {w v : List Event} (h : Once e w)
    (hv : ∀ ev ∈ v, ev.engine ≠ some e) : Once e (w ++ v) := by
  have hnone (c : Call) : v.count ⟨some e, c⟩ = 0 :=
    List.count_eq_zero.mpr fun hm => hv _ hm rfl
  constructor <;> simp [List.count_append, hnone, h.init, h.call, h.handup, h.destroy]

theorem Dialogs.once {es : List Nat} {w : List Event} (h : Dialogs es w) :
    ∀ e ∈ es, Once e w := by
  induction h with
  | nil => simp
  | @snoc es e' w v hds hfresh hd ih =>
    intro e he
    rcases List.mem_cons.mp he with rfl | he
    · refine hd.once.append_left fun ev hev heq => ?_
      obtain ⟨d, hd, hev⟩ := hds.engine ev hev
      exact hfresh (Option.some.inj (heq.symm.trans hev) ▸ hd)
    · refine (ih e he).append_right fun ev hev heq => ?_
      have hev : ev.engine = some e' := Phase.Word.engine (p := .idle) hd ev hev
      have heq : e' = e := Option.some.inj (hev.symm.trans heq)
      exact hfresh (heq ▸ he)

end AiCall.Sdk
