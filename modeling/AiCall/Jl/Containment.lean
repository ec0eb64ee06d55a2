import AiCall.Jl.Liveness
import AiCall.Jl.Release

/-! Containment of errors in the JL demo: an error ends its own session and no other, and a press of
K1 after it tears that session down before it starts a new one. -/

namespace AiCall.Jl

open Kit

/-- Session `n` is torn down: its engine is destroyed, its record and config are freed, and it is
not published. -/
structure TornDown (n : Nat) (s : State) : Prop where
  engine : s.engines n = .destroyed
  record : s.aicalls n = .freed
  config : s.configs n = .freed
  curr : s.gCurrAicall ≠ some n

theorem Cell.freed_of_holding {ρ : Type*} {c : Cell ρ} (hu : c.holding ≠ .unused)
    (hh : c.holding ≠ .held) : c = .freed := by
  cases c with
  | freed => rfl
  | fresh => exact absurd rfl hu
  | held r => exact absurd rfl hh

/-- The records and configs of a session that is not published are freed, or not allocated yet. -/
theorem Stocked.not_held {s : State} (h : Stocked s) {n : Nat} (hg : s.gCurrAicall ≠ some n) :
    (s.aicalls n).holding ≠ .held ∧ (s.configs n).holding ≠ .held := by
  by_cases hn : n = s.session
  · subst hn
    have hst := h.inv.stage
    have hsp := h.spent
    cases hl : s.key.line.stage <;> rw [hl] at hst hsp
    case settled =>
      rcases hst with ⟨hnone, -⟩ | ⟨hsome, -⟩
      · exact hsp hnone
      · exact absurd hsome hg
    case vacant => exact hsp
    all_goals exact absurd hst.1 hg
  · exact h.others n hn

theorem step_fired {s s' : State} {a : Action} (hi : Inv s) (hs : demo.step s a = some s') {n : Nat}
    (hn : s.fired n) : s'.fired n := by
  simp only [demo, State.step] at hs
  split at hs
  · cases hs
  cases a with
  | press k =>
    simp only at hs
    split at hs <;> cases hs
    exact hn
  | key ok pid junk =>
    rw [(keyStep_move hi hs).fired]
    exact hn
  | audio i ok =>
    rw [(audioStep_frame hs).fired]
    exact hn
  | error e code =>
    simp only at hs
    split at hs <;> cases hs
    by_cases hne : n = e
    · simp [hne]
    · simpa [hne] using hn

/-- A session that has an engine is not published again: a new one gets an address of its own. -/
theorem step_unpublished {s s' : State} {a : Action} (hi : Inv s) (hs : demo.step s a = some s')
    {n : Nat} (hex : s.engines n ≠ .absent) (hg : s.gCurrAicall ≠ some n) :
    s'.gCurrAicall ≠ some n := by
  simp only [demo, State.step] at hs
  split at hs
  · cases hs
  cases a with
  | press k =>
    simp only at hs
    split at hs <;> cases hs
    exact hg
  | key ok pid junk =>
    rcases (keyStep_move hi hs).curr with hcurr | hcurr | hl
    · rwa [hcurr]
    · rw [hcurr]
      exact (Option.some_ne_none n).symm
    · have hk : s.keyLine ok pid junk = some s' := by
        simpa only [State.keyStep, Thread.access, KeyLine.access, StartLine.access, hl] using hs
      simp only [State.keyLine, hl, State.startLine, Option.some.injEq] at hk
      subst hk
      intro heq
      obtain rfl : s.session + 1 = n := Option.some.inj heq
      exact hex (hi.fresh _ (Nat.lt_succ_self _))
  | audio i ok =>
    rw [(audioStep_frame hs).curr]
    exact hg
  | error e code =>
    simp only at hs
    split at hs <;> cases hs
    exact hg

/-- An engine has failed whose session has been allocated. -/
structure Failed (n : Nat) (s : State) : Prop where
  stocked : Stocked s
  errors : Errors s
  fired : s.fired n
  record : s.holding (.aicall n) ≠ .unused
  config : s.holding (.config n) ≠ .unused

namespace Failed

variable {n : Nat} {s s' : State} (h : Failed n s)
include h

theorem tornDown (hg : s.gCurrAicall ≠ some n) : TornDown n s := by
  obtain ⟨hrecord, hconfig⟩ := h.stocked.not_held hg
  refine ⟨?_, Cell.freed_of_holding h.record hrecord, Cell.freed_of_holding h.config hconfig, hg⟩
  have hex := h.errors.existed n h.fired
  have hheld : (s.engines n).held = false := by
    by_contra he
    obtain ⟨rfl, hcurr⟩ := h.errors.inv.held_session (by simpa using he)
    exact hg hcurr
  cases he : s.engines n <;> simp_all [Life.held]

theorem step {a : Action} (ha : NonzeroCodes s a) (hs : demo.step s a = some s') :
    Failed n s' := by
  obtain ⟨hrun, hstocked⟩ := step_transferred h.stocked hs
  exact ⟨hstocked, h.errors.step ha hs, step_fired h.errors.inv hs h.fired,
    Ledger.run_ne_unused hrun h.record, Ledger.run_ne_unused hrun h.config⟩

end Failed

/-- A session that is torn down stays so. -/
theorem Failed.tornDown_step {n : Nat} {s s' : State} {a : Action}
    (h : Failed n s ∧ TornDown n s) (ha : NonzeroCodes s a) (hs : demo.step s a = some s') :
    Failed n s' ∧ TornDown n s' := by
  have hnext := h.1.step ha hs
  have hex := h.1.errors.existed n h.1.fired
  exact ⟨hnext, hnext.tornDown (step_unpublished h.1.errors.inv hs hex h.2.curr)⟩

/-- The handler of K1 is at its restart, or the failed session is torn down. -/
structure Contains (n : Nat) (s : State) : Prop where
  failed : Failed n s
  goal : Restarting s ∨ TornDown n s

namespace Contains

variable {n : Nat} {s s' : State}

theorem step {a : Action} (h : Contains n s) (ha : NonzeroCodes s a)
    (hs : demo.step s a = some s') : Contains n s' := by
  have hfailed := h.failed.step ha hs
  refine ⟨hfailed, ?_⟩
  rcases h.goal with hrestart | htorn
  · rcases hrestart.step h.failed.errors.inv ha hs with hrestart | ⟨-, -, hgone⟩
    · exact Or.inl hrestart
    · refine Or.inr (hfailed.tornDown ?_)
      rw [hgone.curr]
      exact (Option.some_ne_none n).symm
  · exact Or.inr (Failed.tornDown_step ⟨h.failed, htorn⟩ ha hs).2

/-- At the test of `g_error_code`, after the callback. -/
theorem of_testError (hstocked : Stocked s) (herrors : Errors s)
    (hl : s.key.line = .start .testError) (hf : s.fired n) (hd : s.engines n ≠ .destroyed) :
    Contains n s := by
  have hex := herrors.existed n hf
  have he : (s.engines n).held := by
    cases hlife : s.engines n <;> simp_all [Life.held]
  obtain ⟨rfl, hcurr⟩ := herrors.inv.held_session he
  have hst := herrors.inv.stage_eq hl
  rcases hst.of_settled with ⟨hnone, -⟩ | ⟨-, -, ⟨r, hr, -⟩, hk, -⟩
  · rw [hcurr] at hnone
    cases hnone
  · refine ⟨⟨hstocked, herrors, hf, ?_, ?_⟩, Or.inl ⟨Or.inl hl, herrors.kept _ hf he⟩⟩
    · simp [State.holding, hr, Cell.holding]
    · simp [State.holding, hk, Cell.holding]

/-- In a fair run the restart ends, and the session stays torn down. -/
theorem resets {p : demo.Path} (h : Contains n (p.state 0)) (hr : Restarting (p.state 0))
    (hp : ∀ i, Halted (p.state i)) (hfair : ∀ t : Task, p.Fair t.acts)
    (hcode : ∀ i, NonzeroCodes (p.state i) (p.action i)) :
    ∃ m, (∀ i, i < m → Restarting (p.state i)) ∧ Resets p m ∧
      ∀ i, m ≤ i → TornDown n (p.state i) := by
  obtain ⟨m, -, huntil, hresets⟩ := hr.resets hp hfair hcode
  have hm : Contains n (p.state m) := p.invariant (fun _ _ _ h ha hs => h.step ha hs) hcode h m
  have htorn : TornDown n (p.state m) := by
    refine hm.goal.resolve_left fun hrestart => ?_
    rcases hrestart.line with hl | hl <;> rw [hresets.before.1] at hl <;> cases hl
  refine ⟨m, fun i => huntil i (Nat.zero_le i), hresets, fun i hi => ?_⟩
  obtain ⟨k, rfl⟩ := Nat.exists_eq_add_of_le hi
  have hstay : ∀ k, Failed n ((p.drop m).state k) ∧ TornDown n ((p.drop m).state k) :=
    (p.drop m).invariant (I := fun s => Failed n s ∧ TornDown n s)
      (fun _ _ _ => Failed.tornDown_step) (fun k => hcode (m + k)) ⟨hm.failed, htorn⟩
  exact (hstay k).2

end Contains

/-- The errors of the JL demo are contained: a loop test fails on `g_error_code` if and only if the
engine of its own session has failed, and the code of a failed engine is kept until it is destroyed.
A K1 handler that has yet to test the code tears that session down before it does anything else; in
every fair run it comes to that, resets the code, and is not refused. -/
theorem errors_contained {as : List Action} (h : demo.Along NonzeroCodes demo.init as) :
    demo.Always Contained demo.init as ∧
      ∀ bs cs s n, as = bs ++ cs → demo.run demo.init bs = some s →
        s.key.line = .start .testError → s.fired n → s.engines n ≠ .destroyed →
        (∀ ds es t, cs = ds ++ es → demo.run s ds = some t → ¬ Restarting t →
          demo.Always (TornDown n) t es) ∧
        ∀ p : demo.Path, p.state 0 = s → (∀ t : Task, p.Fair t.acts) →
          (∀ i, NonzeroCodes (p.state i) (p.action i)) →
          ∃ m, (∀ i, i < m → Restarting (p.state i)) ∧ Resets p m ∧
            ∀ i, m ≤ i → TornDown n (p.state i) := by
  refine ⟨(Machine.always_invariant (fun _ _ _ h ha hs => h.step ha hs) Errors.init h).imp
    fun _ h => h.contained, ?_⟩
  rintro bs cs s n rfl hbs hl hf hd
  obtain ⟨hb, hc⟩ := (Machine.along_append hbs).mp h
  have herrors : Errors s :=
    Machine.run_invariant (fun _ _ _ h ha hs => h.step ha hs) Errors.init hb hbs
  obtain ⟨_, -, hstocked, -⟩ := ledger_simulated.run (Machine.along_true _ _) hbs
  have hcontains := Contains.of_testError hstocked herrors hl hf hd
  constructor
  · rintro ds es t rfl hds hleft
    obtain ⟨hd, he⟩ := (Machine.along_append hds).mp hc
    have ht : Contains n t :=
      Machine.run_invariant (fun _ _ _ h ha hs => h.step ha hs) hcontains hd hds
    exact (Machine.always_invariant (I := fun s => Failed n s ∧ TornDown n s)
      (fun _ _ _ => Failed.tornDown_step) ⟨ht.failed, ht.goal.resolve_left hleft⟩ he).imp
        fun _ h => h.2
  · rintro p rfl hfair hcode
    have hhalted : Halted (p.state 0) :=
      Machine.run_invariant (P := fun _ _ => True) (fun _ _ _ h _ hs => step_halted h hs)
        Halted.init (Machine.along_true _ _) hbs
    refine hcontains.resets ⟨Or.inl hl, ?_⟩ (Halted.path hhalted) hfair hcode
    exact herrors.contained.kept n hf hd

/-- A call whose engine fails, and K1 again. -/
def failedCall : List Action :=
  .press .k1 :: List.replicate 46 (.key true 5 {}) ++
    [.audio 0 true, .error 1 7, .audio 0 true, .audio 0 true, .press .k1]

/-- The handler of K1 up to its return, with no network. -/
def restart : List Action := List.replicate 40 (.key true 5 {}) ++ [.key false 0 {}]

theorem failedCall_tornDown : ∃ s s', demo.run demo.init failedCall = some s ∧
    demo.run s restart = some s' ∧ s'.key.line = .idle ∧ TornDown 1 s' :=
  ⟨_, _, rfl, rfl, rfl, ((errors_contained (by decide +kernel)).2 failedCall restart _ 1 rfl rfl rfl
    rfl (Life.ne_destroyed rfl)).1 restart [] _ (List.append_nil _).symm rfl
      fun h => h.ne_idle rfl⟩

end AiCall.Jl
