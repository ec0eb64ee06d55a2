import AiCall.Jl.Protocol
import AiCall.Kit.Ledger

/-! What the JL demo acquires it releases.  Each record, config, engine, audio task and audio buffer
is entered in a ledger when it is made and when it is given back, and between key events the ledger
holds those of the published session and no others. -/

namespace AiCall.Jl

open Kit

inductive Resource where
  | aicall (n : Nat)
  | config (n : Nat)
  | engine (n : Nat)
  | task (i : Nat)  -- the audio task, from `thread_fork` to its return
  | writeAudioBuffer (i : Nat)  -- what that task allocates
deriving DecidableEq, Repr

/-- The transfers in the next step of `app_core`, where `n` is the session and `i` the number of
audio tasks so far. -/
def KeyLine.transfers (n i : Nat) (ok : Bool) : KeyLine → List (Transfer Resource)
  | .start .mallocAicall => [.acquire (.aicall (n + 1))]
  | .start .mallocConfig => [.acquire (.config n)]
  | .start .init => if ok then [.acquire (.engine n)] else []
  | .start (.fork _) => if ok then [.acquire (.task i)] else []
  | .destroy _ (.destroying (some e)) => [.release (.engine e)]
  | .destroy _ (.freeConfig (some c)) => [.release (.config c)]
  | .destroy _ (.freeCurr (some c)) => [.release (.aicall c)]
  | _ => []

/-- The transfers in the next step of audio task `i`. -/
def AudioLine.transfers (i : Nat) : AudioLine → List (Transfer Resource)
  | .start => [.acquire (.writeAudioBuffer i)]
  | .stop => [.release (.writeAudioBuffer i), .release (.task i)]
  | _ => []

def State.transfers (s : State) : Action → List (Transfer Resource)
  | .key ok _ _ => s.key.line.transfers s.session s.taskCount ok
  | .audio i _ => (s.tasks i).thread.line.transfers i
  | _ => []

/-! ### The ledger that a state stands for -/

def AudioLine.holding : AudioLine → Holding
  | .returned => .released
  | _ => .held

def AudioLine.bufferHolding : AudioLine → Holding
  | .start => .unused
  | .returned => .released
  | _ => .held

def State.holding (s : State) : Resource → Holding
  | .aicall n => (s.aicalls n).holding
  | .config n => (s.configs n).holding
  | .engine n => (s.engines n).holding
  | .task i => if i < s.taskCount then (s.tasks i).thread.line.holding else .unused
  | .writeAudioBuffer i =>
    if i < s.taskCount then (s.tasks i).thread.line.bufferHolding else .unused

/-- What `Inv` leaves open: the config of a session that has none, or none any more, and the record
when there is no session. -/
def Stage.Spent (g : Option Nat) (c : Cell Aicall) (k : Cell Unit) : Stage → Prop
  | .settled => g = none → c.holding ≠ .held ∧ k.holding ≠ .held
  | .vacant => c.holding ≠ .held ∧ k.holding ≠ .held
  | .raw | .bare => k = .fresh
  | .cleared | .freed => k.holding ≠ .held
  | _ => True

/-- Records and configs are those of the session, or freed, or not allocated yet. -/
structure Stocked (s : State) : Prop where
  inv : Inv s
  spent : s.key.line.stage.Spent s.gCurrAicall (s.aicalls s.session) (s.configs s.session)
  fresh : ∀ n, s.session < n → s.aicalls n = .fresh ∧ s.configs n = .fresh
  others : ∀ n, n ≠ s.session → (s.aicalls n).holding ≠ .held ∧
    (s.configs n).holding ≠ .held

theorem Stocked.init : Stocked demo.init where
  inv := inv_init
  spent _ := ⟨Holding.noConfusion, Holding.noConfusion⟩
  fresh _ _ := ⟨rfl, rfl⟩
  others _ _ := ⟨Holding.noConfusion, Holding.noConfusion⟩

/-- Two states with the same ledger. -/
theorem holding_congr {s s' : State}
    (ha : ∀ n, (s'.aicalls n).holding = (s.aicalls n).holding := by exact fun _ => rfl)
    (hc : ∀ n, (s'.configs n).holding = (s.configs n).holding := by exact fun _ => rfl)
    (he : s'.engines = s.engines := by rfl) (ht : s'.tasks = s.tasks := by rfl)
    (hn : s'.taskCount = s.taskCount := by rfl) : s'.holding = s.holding := by
  funext r
  cases r with
  | aicall n => exact ha n
  | config n => exact hc n
  | engine n => exact congrArg Life.holding (congrFun he n)
  | task i => simp only [State.holding, ht, hn]
  | writeAudioBuffer i => simp only [State.holding, ht, hn]

theorem holding_aicall {s : State} {n m : Nat} {g : Option Nat} {c : Cell Aicall}
    (line : KeyLine) :
    ({ s with
      session := m
      gCurrAicall := g
      aicalls := Function.update s.aicalls n c }.goto line).holding =
      Function.update s.holding (.aicall n) c.holding := by
  funext r
  cases r with
  | aicall m => by_cases hm : m = n <;> simp [State.goto, State.holding, hm]
  | _ => rfl

theorem holding_config {s : State} {n : Nat} {c : Cell Unit} (line : KeyLine) :
    ({ s with configs := Function.update s.configs n c }.goto line).holding =
      Function.update s.holding (.config n) c.holding := by
  funext r
  cases r with
  | config m => by_cases hm : m = n <;> simp [State.goto, State.holding, hm]
  | _ => rfl

theorem holding_engine {s : State} {n : Nat} {l : Life} (line : KeyLine) :
    ({ s with engines := Function.update s.engines n l }.goto line).holding =
      Function.update s.holding (.engine n) l.holding := by
  funext r
  cases r with
  | engine m => by_cases hm : m = n <;> simp [State.goto, State.holding, hm]
  | _ => rfl

/-- The ledger reads the transfers of a step, and keeps up with it. -/
def Transferred (s : State) (w : List (Transfer Resource)) (s' : State) : Prop :=
  (Ledger.ledger Resource).run s.holding w = some s'.holding ∧ Stocked s'

/-- A resource that is acquired or released changes alone. -/
theorem Transferred.of_update {s s' : State} {r : Resource} {a : Holding}
    {w : List (Transfer Resource)} (hi : Inv s')
    (hw : w = [.acquire r] ∧ s.holding r = .unused ∧ a = .held ∨
      w = [.release r] ∧ s.holding r = .held ∧ a = .released)
    (hh : s'.holding = Function.update s.holding r a)
    (hsp : s'.key.line.stage.Spent s'.gCurrAicall (s'.aicalls s'.session) (s'.configs s'.session))
    (hfresh : ∀ n, s'.session < n → s'.aicalls n = .fresh ∧ s'.configs n = .fresh)
    (hothers : ∀ n, n ≠ s'.session → (s'.aicalls n).holding ≠ .held ∧
      (s'.configs n).holding ≠ .held) : Transferred s w s' := by
  refine ⟨?_, hi, hsp, hfresh, hothers⟩
  rw [hh]
  rcases hw with ⟨rfl, hr, rfl⟩ | ⟨rfl, hr, rfl⟩
  · exact Ledger.run_acquire hr
  · exact Ledger.run_release hr

namespace Stocked

variable {s s' : State} (h : Stocked s)
include h

theorem spent_eq {line : KeyLine} (hl : s.key.line = line) :
    line.stage.Spent s.gCurrAicall (s.aicalls s.session) (s.configs s.session) :=
  hl ▸ h.spent

/-- A step that allocates and frees nothing. -/
theorem silent (hi : Inv s') (hsp : s'.key.line.stage.Spent s'.gCurrAicall
      (s'.aicalls s'.session) (s'.configs s'.session)) (ha : s'.aicalls = s.aicalls := by rfl)
    (hc : s'.configs = s.configs := by rfl) (hn : s'.session = s.session := by rfl)
    (he : s'.engines = s.engines := by rfl) (ht : s'.tasks = s.tasks := by rfl)
    (hk : s'.taskCount = s.taskCount := by rfl) : Transferred s [] s' := by
  refine ⟨?_, hi, hsp, by rw [ha, hc, hn]; exact h.fresh, by rw [ha, hc, hn]; exact h.others⟩
  exact congrArg some (holding_congr (fun n => by rw [ha]) (fun n => by rw [hc]) he ht hk).symm

/-- The record of the session is written, and stays allocated. -/
theorem write {r q : Aicall} {k : Thread KeyLine} (hr : s.aicalls s.session = .held r)
    (hi : Inv { s with aicalls := Function.update s.aicalls s.session (.held q), key := k })
    (hsp : k.line.stage.Spent s.gCurrAicall (.held q) (s.configs s.session)) :
    Transferred s []
      { s with aicalls := Function.update s.aicalls s.session (.held q), key := k } := by
  have hother {n : Nat} (hn : n ≠ s.session) :
      Function.update s.aicalls s.session (.held q) n = s.aicalls n :=
    Function.update_of_ne hn _ _
  refine ⟨congrArg some (holding_congr fun n => ?_).symm, hi, ?_, fun n hn => ?_, fun n hn => ?_⟩
  · by_cases hn : n = s.session
    · subst hn
      simp [hr, Cell.holding]
    · exact congrArg Cell.holding (hother hn)
  · simpa using hsp
  · exact ⟨(hother (Nat.ne_of_gt hn)).trans (h.fresh n hn).1, (h.fresh n hn).2⟩
  · refine ⟨?_, (h.others n hn).2⟩
    exact (congrArg Cell.holding (hother hn)).trans_ne (h.others n hn).1

theorem startLine {ok : Bool} {pid : Int} {junk : Aicall} {l : StartLine} (hi : Inv s')
    (hl : s.key.line = .start l) (hs : s.startLine ok pid junk l = some s') :
    Transferred s ((KeyLine.start l).transfers s.session s.taskCount ok) s' := by
  have hst := h.inv.stage_eq hl
  have hown := h.inv.own_eq hl
  have hsp := h.spent_eq hl
  cases l <;> simp only [State.startLine, reduceCtorEq, Option.some.injEq] at hs
  case testError =>
    subst hs
    refine h.silent hi ?_
    simp only [State.goto]
    split <;> exact hsp
  case resetError =>
    subst hs
    exact h.silent hi fun _ => hsp
  case testCurr =>
    subst hs
    refine h.silent hi ?_
    simp only [State.goto]
    split
    · exact hsp
    · rename_i hg
      exact hsp (by simpa using hg)
  case testWifi =>
    subst hs
    refine h.silent hi ?_
    simp only [State.goto]
    split
    · exact hsp
    · exact fun _ => hsp
  case mallocAicall =>
    subst hs
    obtain ⟨ha, hc⟩ := h.fresh _ (Nat.lt_succ_self s.session)
    refine Transferred.of_update (r := .aicall (s.session + 1)) hi (Or.inl ⟨rfl, ?_, rfl⟩) ?_ hc
      (fun n hn => ?_) fun n hn => ?_
    · simp only [State.holding, ha, Cell.holding]
    · exact holding_aicall ..
    · have hn : s.session + 1 < n := hn
      have hold := h.fresh n (Nat.lt_of_succ_lt hn)
      exact ⟨(Function.update_of_ne (Nat.ne_of_gt hn) _ _).trans hold.1, hold.2⟩
    · have hn : n ≠ s.session + 1 := hn
      simp only [State.goto, Function.update_of_ne hn]
      by_cases hold : n = s.session
      · subst hold
        exact hsp
      · exact h.others n hold
  case mallocConfig =>
    subst hs
    refine Transferred.of_update (r := .config s.session) hi (Or.inl ⟨rfl, ?_, rfl⟩) ?_ trivial
      (fun n hn => ?_) fun n hn => ?_
    · have hk : s.configs s.session = .fresh := hsp
      simp only [State.holding, hk, Cell.holding]
    · exact holding_config ..
    · have hold := h.fresh n hn
      exact ⟨hold.1, (Function.update_of_ne (Nat.ne_of_gt hn) _ _).trans hold.2⟩
    · have hn : n ≠ s.session := hn
      simp only [State.goto, Function.update_of_ne hn]
      exact h.others n hn
  case clearConfig | fillConfig =>
    split at hs <;> cases hs
    · exact absurd hi.noFault (by simp [State.fail])
    · exact h.silent hi trivial
  case init =>
    split at hs <;> cases hs
    · rename_i hok
      subst hok
      refine Transferred.of_update (r := .engine s.session) hi (Or.inl ⟨rfl, ?_, rfl⟩) ?_ trivial
        h.fresh h.others
      · simp only [State.holding, hst.2.2.2, Life.holding]
      · exact holding_engine ..
    · rename_i hok
      rw [Bool.not_eq_true] at hok
      subst hok
      exact h.silent hi trivial
  case call e c =>
    obtain ⟨rfl, rfl⟩ := hown
    rw [Heap.deref_of_held hst.2.2.1, sdkCall_eq hst] at hs
    obtain rfl := Option.some.inj hs
    exact h.silent hi trivial
  case calling =>
    subst hs
    refine h.silent hi ?_
    simp only [State.goto]
    split
    · trivial
    · intro hg
      rw [hst.1] at hg
      cases hg
  case taskTestCurr =>
    subst hs
    rw [hst.1] at hi ⊢
    exact h.silent hi trivial
  case loadPid =>
    subst hs
    exact h.silent hi trivial
  case fork p =>
    obtain rfl : p = some s.session := hown
    obtain ⟨hg, ⟨r, hr, -⟩, -⟩ := hst
    have hnone : ¬ s.gCurrAicall = none := by rw [hg]; exact Option.some_ne_none _
    split at hs
    · rename_i hok
      subst hok
      split at hs <;> cases hs
      refine Transferred.of_update (r := .task s.taskCount) hi (Or.inl ⟨rfl, ?_, rfl⟩) ?_ trivial
        h.fresh h.others
      · simp [State.holding]
      · funext r
        have hcount (i : Nat) : i < s.taskCount + 1 ↔ i = s.taskCount ∨ i < s.taskCount := by omega
        cases r with
        | task i | writeAudioBuffer i =>
          by_cases hi : i = s.taskCount <;>
            simp [State.goto, State.setTask, State.holding, AudioLine.holding,
              AudioLine.bufferHolding, hcount, hi]
        | _ => rfl
    · rename_i hok
      rw [Bool.not_eq_true] at hok
      subst hok
      rw [Heap.deref_of_held hr] at hs
      cases hs
      exact h.write hr hi fun hg' => absurd hg' hnone
  case storePid p pid' =>
    obtain ⟨rfl, -⟩ := hown
    obtain ⟨hg, ⟨r, hr, -⟩, -⟩ := hst
    rw [Heap.deref_of_held hr] at hs
    cases hs
    exact h.write hr hi trivial

theorem handupLine {ok : Bool} {k : Caller} {l : HandupLine} (hi : Inv s')
    (hl : s.key.line = .handup k l) (hs : s.handupLine k l = some s') :
    Transferred s ((KeyLine.handup k l).transfers s.session s.taskCount ok) s' := by
  have hst := h.inv.stage_eq hl
  have hown := h.inv.own_eq hl
  have hsp := h.spent_eq hl
  cases l <;> simp only [State.handupLine, reduceCtorEq, Option.some.injEq] at hs
  case testCurr =>
    subst hs
    refine h.silent hi ?_
    rcases hst.of_settled with ⟨hg, -⟩ | ⟨hg, -⟩
    · simp only [State.goto, hg]
      cases k
      case restart => exact hsp hg
      all_goals exact fun _ => hsp hg
    · simp only [State.goto, hg]
      trivial
  case loadPid =>
    subst hs
    exact h.silent hi trivial
  case kill p =>
    split at hs
    · cases hs
      exact absurd hi.noFault (by simp [State.fail])
    · split at hs <;> cases hs
      exact h.silent hi trivial
  case handup e =>
    obtain rfl : e = some s.session := hown
    rw [sdkCall_eq hst] at hs
    subst hs
    exact h.silent hi trivial

theorem destroyLine {ok : Bool} {k : Caller} {l : DestroyLine} (hi : Inv s')
    (hl : s.key.line = .destroy k l) (hs : s.destroyLine k l = some s') :
    Transferred s ((KeyLine.destroy k l).transfers s.session s.taskCount ok) s' := by
  have hst := h.inv.stage_eq hl
  have hown := h.inv.own_eq hl
  have hsp := h.spent_eq hl
  cases l <;> simp only [State.destroyLine, reduceCtorEq, Option.some.injEq] at hs
  case testCurr =>
    subst hs
    rw [hst.1] at hi ⊢
    exact h.silent hi trivial
  case destroy e =>
    obtain rfl : e = some s.session := hown
    have hlive := hst.2.2.2
    simp only [State.liveEngine, hlive, decide_true, Option.some.injEq] at hs
    subst hs
    refine ⟨congrArg some ?_, hi, trivial, h.fresh, h.others⟩
    -- an engine whose destruction has begun is still held
    funext r
    cases r with
    | engine n =>
      by_cases hn : n = s.session <;> simp [State.goto, State.holding, hn, hlive, Life.holding]
    | _ => rfl
  case destroying e =>
    obtain rfl : e = some s.session := hown
    obtain rfl := Option.some.inj hs
    refine Transferred.of_update (r := .engine s.session) hi (Or.inr ⟨rfl, ?_, rfl⟩) ?_ trivial
      h.fresh h.others
    · simp only [State.holding, hst.2.2.2, Life.holding]
    · exact holding_engine ..
  case freeConfig c =>
    obtain rfl : c = some s.session := hown
    rw [Heap.deref_of_held hst.2.2.1] at hs
    obtain rfl := Option.some.inj hs
    refine Transferred.of_update (r := .config s.session) hi (Or.inr ⟨rfl, ?_, rfl⟩) ?_ trivial
      (fun n hn => ?_) fun n hn => ?_
    · simp only [State.holding, hst.2.2.1, Cell.holding]
    · exact holding_config ..
    · have hold := h.fresh n hn
      exact ⟨hold.1, (Function.update_of_ne (Nat.ne_of_gt hn) _ _).trans hold.2⟩
    · have hn : n ≠ s.session := hn
      simp only [State.goto, Function.update_of_ne hn]
      exact h.others n hn
  case loadCurr =>
    subst hs
    exact h.silent hi hsp
  case freeCurr p =>
    obtain rfl : p = some s.session := hown
    obtain ⟨-, ⟨r, hr, -⟩, -⟩ := hst
    rw [Heap.deref_of_held hr] at hs
    obtain rfl := Option.some.inj hs
    refine Transferred.of_update (r := .aicall s.session) hi (Or.inr ⟨rfl, ?_, rfl⟩) ?_ hsp
      (fun n hn => ?_) fun n hn => ?_
    · simp only [State.holding, hr, Cell.holding]
    · exact holding_aicall ..
    · have hold := h.fresh n hn
      exact ⟨(Function.update_of_ne (Nat.ne_of_gt hn) _ _).trans hold.1, hold.2⟩
    · have hn : n ≠ s.session := hn
      simp only [State.goto, Function.update_of_ne hn]
      exact h.others n hn
  case clearCurr =>
    subst hs
    have hspent : (s.aicalls s.session).holding ≠ .held ∧
        (s.configs s.session).holding ≠ .held := by
      rw [hst.2.1]
      exact ⟨Holding.noConfusion, hsp⟩
    refine h.silent hi ?_
    cases k
    case restart => exact hspent
    all_goals exact fun _ => hspent

theorem useLine {ok : Bool} {f : Fn} {l : UseLine} (hi : Inv s')
    (hl : s.key.line = .use f l) (hs : s.useLine f l = some s') :
    Transferred s ((KeyLine.use f l).transfers s.session s.taskCount ok) s' := by
  have hst := h.inv.stage_eq hl
  have hown := h.inv.own_eq hl
  have hsp := h.spent_eq hl
  cases l <;> simp only [State.useLine, reduceCtorEq, Option.some.injEq] at hs
  case testCurr =>
    subst hs
    refine h.silent hi ?_
    simp only [State.goto]
    split
    · trivial
    · exact hsp
  case callSdk e =>
    obtain rfl : e = some s.session := hown
    rw [sdkCall_eq hst] at hs
    subst hs
    refine h.silent hi fun hg => ?_
    have hg : s.gCurrAicall = none := hg
    rw [hst.1] at hg
    cases hg

end Stocked

/-- A line that goes through `g_curr_aicall` allocates and frees nothing. -/
theorem KeyLine.access_transfers {line : KeyLine} (h : (line.access).isSome) (n i : Nat)
    (ok : Bool) : line.transfers n i ok = [] := by
  cases line with
  | idle => simp [KeyLine.access] at h
  | start l => cases l <;> simp_all [KeyLine.access, StartLine.access, KeyLine.transfers]
  | handup _ l => cases l <;> simp_all [KeyLine.access, HandupLine.access, KeyLine.transfers]
  | destroy _ l => cases l <;> simp_all [KeyLine.access, DestroyLine.access, KeyLine.transfers]
  | use _ l => cases l <;> simp_all [KeyLine.access, UseLine.access, KeyLine.transfers]

theorem KeyLine.access_spent {line : KeyLine} {f : Aicall → Aicall × KeyLine} {r : Aicall} {n : Nat}
    {g : Option Nat} {k : Cell Unit} {e : Life} (hf : line.access = some f)
    (hs : line.stage.Holds n g (.held r) k e) (hsp : line.stage.Spent g (.held r) k) :
    (f r).2.stage.Spent g (.held (f r).1) k := by
  cases line with
  | idle => simp [KeyLine.access] at hf
  | start l =>
    cases l <;>
      simp only [KeyLine.access, StartLine.access, Option.some.injEq, reduceCtorEq] at hf <;>
      subst hf <;> dsimp only <;> (try split) <;>
      simp_all [KeyLine.stage, StartLine.stage, Stage.Holds, Stage.Spent]
  | handup c l =>
    cases l <;>
      simp only [KeyLine.access, HandupLine.access, Option.some.injEq, reduceCtorEq] at hf <;>
      subst hf <;> dsimp only <;> (try split) <;>
      simp_all [KeyLine.stage, HandupLine.stage, Stage.Holds, Stage.Spent]
  | destroy c l =>
    cases l <;>
      simp only [KeyLine.access, DestroyLine.access, Option.some.injEq, reduceCtorEq] at hf <;>
      subst hf <;> dsimp only <;> (try split) <;>
      simp_all [KeyLine.stage, DestroyLine.stage, Stage.Holds, Stage.Spent, Cell.holding]
  | use c l =>
    cases l <;>
      simp only [KeyLine.access, UseLine.access, Option.some.injEq, reduceCtorEq] at hf <;>
      subst hf <;> dsimp only <;> (try split) <;>
      simp_all [KeyLine.stage, UseLine.stage, Stage.Holds, Stage.Spent]

theorem keyStep_transferred {s s' : State} {ok : Bool} {pid : Int} {junk : Aicall} (h : Stocked s)
    (hi : Inv s') (hs : s.keyStep ok pid junk = some s') :
    Transferred s (s.key.line.transfers s.session s.taskCount ok) s' := by
  unfold State.keyStep at hs
  split at hs
  · unfold State.keyLine at hs
    split at hs
    · cases hs
    all_goals
      rename_i hl
      rw [hl]
    · exact h.startLine hi hl hs
    · exact h.handupLine hi hl hs
    · exact h.destroyLine hi hl hs
    · exact h.useLine hi hl hs
  · rename_i k hk
    cases hs
    obtain ⟨_, hsome, rfl⟩ := Thread.access_load hk
    rw [KeyLine.access_transfers hsome]
    exact h.silent hi h.spent
  · cases hs
    exact absurd hi.noFault (by simp [State.fail])
  · rename_i h' k hk
    cases hs
    obtain ⟨f, i, r, hf, hp, hr, rfl, rfl⟩ := Thread.access_done hk
    obtain rfl : i = s.session := Option.some.inj (h.inv.ptr _ hp)
    rw [KeyLine.access_transfers (by rw [hf]; rfl)]
    exact h.write hr hi (KeyLine.access_spent hf (hr ▸ h.inv.stage) (hr ▸ h.spent))

/-! ### The audio task -/

theorem AudioLine.access_transfers {line : AudioLine} {f : Aicall → Aicall × AudioLine}
    (hf : line.access = some f) (r : Aicall) (i : Nat) :
    line.transfers i = [] ∧ (f r).2.holding = line.holding ∧
      (f r).2.bufferHolding = line.bufferHolding := by
  cases line <;> simp only [AudioLine.access, Option.some.injEq, reduceCtorEq] at hf <;>
    subst hf <;> dsimp only <;> (try split) <;> exact ⟨rfl, rfl, rfl⟩

/-- A step of an audio task changes its own holding and that of its buffer. -/
theorem holding_setThread {s : State} {i : Nat} (hi : i < s.taskCount) (k : Thread AudioLine) :
    (s.setTask i { s.tasks i with thread := k }).holding =
      Function.update (Function.update s.holding (.writeAudioBuffer i) k.line.bufferHolding)
        (.task i) k.line.holding := by
  funext r
  cases r with
  | task j | writeAudioBuffer j =>
    by_cases hj : j = i
    · subst hj
      simp [State.holding, State.setTask, hi]
    · simp [State.holding, State.setTask, hj]
  | _ => simp [State.holding, State.setTask]

section Audio

variable {s s' : State} (h : Stocked s) {i : Nat} {k : Thread AudioLine}
include h

theorem Stocked.setThread (hi' : Inv (s.setTask i { s.tasks i with thread := k })) :
    Stocked (s.setTask i { s.tasks i with thread := k }) :=
  ⟨hi', h.spent, h.fresh, h.others⟩

/-- A step of the audio task between its allocation and the end of its loop. -/
theorem Stocked.audio (hi : Running s i) (hi' : Inv (s.setTask i { s.tasks i with thread := k }))
    (ht : k.line.holding = (s.tasks i).thread.line.holding)
    (hb : k.line.bufferHolding = (s.tasks i).thread.line.bufferHolding) :
    Transferred s [] (s.setTask i { s.tasks i with thread := k }) := by
  have hlast := hi.last
  have hlt : i < s.taskCount := by omega
  refine ⟨congrArg some ?_, h.setThread hi'⟩
  have htask : s.holding (.task i) = k.line.holding := by simp [State.holding, hlt, ht]
  have hbuffer : s.holding (.writeAudioBuffer i) = k.line.bufferHolding := by
    simp [State.holding, hlt, hb]
  rw [holding_setThread hlt, ← htask, ← hbuffer, Function.update_eq_self, Function.update_eq_self]

theorem audioStep_transferred {ok : Bool} (hi' : Inv s') (hs : s.audioStep i ok = some s') :
    Transferred s ((s.tasks i).thread.line.transfers i) s' := by
  have hi : Running s i := h.inv.running i (audioStep_running hs)
  have hlast := hi.last
  have hlt : i < s.taskCount := by omega
  unfold State.audioStep at hs
  split at hs
  · unfold State.audioLine at hs
    cases hl : (s.tasks i).thread.line <;> simp only [hl, reduceCtorEq, Option.some.injEq] at hs <;>
      subst hs
    case start =>
      refine ⟨?_, h.setThread hi'⟩
      have hbuffer : s.holding (.writeAudioBuffer i) = .unused := by
        simp [State.holding, hlt, hl, AudioLine.bufferHolding]
      have htask : s.holding (.task i) = .held := by
        simp [State.holding, hlt, hl, AudioLine.holding]
      refine (Ledger.run_acquire hbuffer).trans (congrArg some ?_)
      rw [State.audioGoto, holding_setThread hlt]
      exact (Function.update_eq_self_iff.mpr (by simpa [AudioLine.holding] using htask.symm)).symm
    case stop =>
      refine ⟨?_, h.setThread hi'⟩
      have hbuffer : s.holding (.writeAudioBuffer i) = .held := by
        simp [State.holding, hlt, hl, AudioLine.bufferHolding]
      have htask : s.holding (.task i) = .held := by
        simp [State.holding, hlt, hl, AudioLine.holding]
      have hrest : Function.update s.holding (.writeAudioBuffer i) .released (.task i) = .held := by
        simpa using htask
      rw [AudioLine.transfers, ← List.singleton_append, Machine.run_append,
        Ledger.run_release hbuffer, Option.bind_some, Ledger.run_release hrest, State.audioGoto,
        holding_setThread hlt]
      rfl
    case read e | send e =>
      split at hi'
      · rename_i hlive
        rw [if_pos hlive]
        exact h.audio hi hi' (by rw [hl]; rfl) (by rw [hl]; rfl)
      · exact absurd hi'.noFault (by simp [State.fail])
    case testError | getVoiceData =>
      split at hi'
      · rename_i hc
        rw [if_pos hc]
        exact h.audio hi hi' (by rw [hl]; rfl) (by rw [hl]; rfl)
      · rename_i hc
        rw [if_neg hc]
        exact h.audio hi hi' (by rw [hl]; rfl) (by rw [hl]; rfl)
    case pace => exact h.audio hi hi' (by rw [hl]; rfl) (by rw [hl]; rfl)
  · rename_i k hk
    cases hs
    obtain ⟨_, hsome, rfl⟩ := Thread.access_load hk
    obtain ⟨f, hf⟩ := Option.isSome_iff_exists.mp hsome
    rw [(AudioLine.access_transfers hf {} i).1]
    exact h.audio hi hi' rfl rfl
  · cases hs
    exact absurd hi'.noFault (by simp [State.fail])
  · rename_i h' k hk
    cases hs
    obtain ⟨f, j, q, hf, hp, hj, rfl, rfl⟩ := Thread.access_done hk
    obtain ⟨htransfers, ht, hb⟩ := AudioLine.access_transfers hf q i
    rw [(AudioLine.access_own hf q).1, ← hj, Function.update_eq_self] at hi' ⊢
    rw [htransfers]
    exact h.audio hi hi' ht hb

end Audio

theorem step_transferred {s s' : State} {a : Action} (h : Stocked s)
    (hs : demo.step s a = some s') : Transferred s (s.transfers a) s' := by
  have hi := step_inv h.inv hs
  simp only [demo, State.step] at hs
  split at hs
  · cases hs
  cases a with
  | press k =>
    simp only at hs
    split at hs <;> cases hs
    rename_i hl
    have hsp := h.spent_eq hl
    cases k <;> exact h.silent hi hsp
  | key ok pid junk => exact keyStep_transferred h hi hs
  | audio i ok => exact audioStep_transferred h hi hs
  | error e code =>
    simp only at hs
    split at hs <;> cases hs
    exact h.silent hi h.spent

theorem ledger_simulated :
    demo.Simulation (Ledger.ledger Resource) State.transfers (fun _ _ => True)
      fun s l => Stocked s ∧ l = s.holding where
  init := ⟨.init, by funext r; cases r <;> rfl⟩
  step s l a s' h _ hs := by
    obtain ⟨h, rfl⟩ := h
    obtain ⟨hrun, h'⟩ := step_transferred h hs
    exact ⟨_, hrun, h', rfl⟩

/-! ### What is held between key events -/

/-- The resources of session `n`. -/
def State.OfSession (s : State) (n : Nat) : Resource → Prop
  | .aicall m | .config m | .engine m => m = n
  | .task i | .writeAudioBuffer i => (s.tasks i).session = n

/-- Nothing is acquired twice or released without being held.  Between key events the published
session has its record, config and engine, and all else that was acquired, but its audio task and
buffer, has been released. -/
structure Accounted (s : State) (w : List (Transfer Resource)) : Prop where
  once : ∀ r, w.count (.acquire r) ≤ 1 ∧ w.count (.release r) ≤ w.count (.acquire r)
  published : s.key.line = .idle → ∀ n, s.gCurrAicall = some n →
    ∀ r ∈ [Resource.aicall n, .config n, .engine n],
      w.count (.acquire r) = 1 ∧ w.count (.release r) = 0
  others : s.key.line = .idle → ∀ r, w.count (.release r) ≠ w.count (.acquire r) →
    ∃ n, s.gCurrAicall = some n ∧ s.OfSession n r

/-- What is held between key events belongs to the published session. -/
theorem Stocked.held {s : State} (h : Stocked s) (hl : s.key.line = .idle) {r : Resource}
    (hr : s.holding r = .held) : ∃ n, s.gCurrAicall = some n ∧ s.OfSession n r := by
  have hst := h.inv.stage_eq hl
  have hsp := h.spent_eq hl
  have hcell (hheld : (s.aicalls s.session).holding = .held ∨
      (s.configs s.session).holding = .held) : s.gCurrAicall = some s.session := by
    rcases hst.of_settled with ⟨hg, -⟩ | ⟨hg, -⟩
    · obtain ⟨ha, hc⟩ := hsp hg
      exact (hheld.elim ha hc).elim
    · exact hg
  have htask (i : Nat) (hi : (s.tasks i).thread.line ≠ .returned) :
      ∃ n, s.gCurrAicall = some n ∧ (s.tasks i).session = n := by
    have hrun := h.inv.running i (by simpa [AudioTask.running] using hi)
    exact ⟨_, hrun.curr, hrun.session⟩
  cases r with
  | aicall n =>
    obtain rfl : n = s.session := by
      by_contra hne
      exact (h.others n hne).1 hr
    exact ⟨_, hcell (Or.inl hr), rfl⟩
  | config n =>
    obtain rfl : n = s.session := by
      by_contra hne
      exact (h.others n hne).2 hr
    exact ⟨_, hcell (Or.inr hr), rfl⟩
  | engine n =>
    have hheld : (s.engines n).held := by
      simp only [State.holding] at hr
      cases he : s.engines n <;> simp_all [Life.holding, Life.held]
    obtain ⟨rfl, hg⟩ := h.inv.held_session hheld
    exact ⟨_, hg, rfl⟩
  | task i =>
    refine htask i fun hret => ?_
    simp only [State.holding, hret] at hr
    split at hr <;> cases hr
  | writeAudioBuffer i =>
    refine htask i fun hret => ?_
    simp only [State.holding, hret] at hr
    split at hr <;> cases hr

theorem Stocked.accounted {s : State} {w : List (Transfer Resource)} (h : Stocked s)
    (hw : (Ledger.ledger Resource).run (Ledger.ledger Resource).init w = some s.holding) :
    Accounted s w := by
  refine ⟨Ledger.run_once hw, fun hl n hg r hr => Ledger.run_held hw r ?_,
    fun hl r hne => h.held hl (Ledger.held_of_ne hw r hne)⟩
  have hst := h.inv.stage_eq hl
  rcases hst.of_settled with ⟨hg', -⟩ | ⟨hg', -, ⟨q, hq, -⟩, hk, he⟩
  · rw [hg] at hg'
    cases hg'
  obtain rfl : n = s.session := Option.some.inj (hg.symm.trans hg')
  simp only [List.mem_cons, List.not_mem_nil, or_false] at hr
  rcases hr with rfl | rfl | rfl
  · simp [State.holding, hq, Cell.holding]
  · simp [State.holding, hk, Cell.holding]
  · simp [State.holding, he, Life.holding]

/-- In every run of the JL demo, what is acquired is released once, and between key events nothing
is held but what belongs to the published session. -/
theorem resources_accounted {as : List Action} {s : State}
    (hr : demo.run demo.init as = some s) :
    Accounted s (demo.trace State.transfers demo.init as) := by
  obtain ⟨l, hl, h, rfl⟩ := ledger_simulated.run (Machine.along_true _ _) hr
  exact h.accounted hl

/-- A call that is hung up leaves nothing behind. -/
def endedCall : List Action :=
  .press .k1 :: List.replicate 46 (.key true 5 {}) ++ .audio 0 true :: .audio 0 true ::
    .press .k2 :: List.replicate 12 (.key true 0 {}) ++ List.replicate 3 (.audio 0 true) ++
    List.replicate 25 (.key true 0 {})

theorem endedCall_accounted : ∃ s, demo.run demo.init endedCall = some s ∧
    s.gCurrAicall = none ∧ Accounted s (demo.trace State.transfers demo.init endedCall) :=
  ⟨_, rfl, rfl, @resources_accounted endedCall _ rfl⟩

end AiCall.Jl
