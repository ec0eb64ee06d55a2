import AiCall.Jl.AudioSetup

/-! The prefill of playback in `jl-ac791/audio_input2.c`.  `audio_play_net_vfs_fread` waits for a
number of bytes that follows from the format in force, in a ring that has the size of the format of
the first initialisation. -/

namespace AiCall.Jl.AudioSetup

open Kit

/-- A format that `audio_stream_init2` can be called with. -/
structure Usable (f : Format) : Prop where
  sampleRate : 100 ≤ f.sampleRate
  channel : 1 ≤ f.channel
  bitDep : 8 ≤ f.bitDep ∧ f.bitDep ≤ 32
  noWrap : 80 * f.sampleRate * f.channel * f.bitDep < 2 ^ 32

/-- The wait for the prefill asks for something, and for no more than the ring can hold. -/
structure Prefillable (s : State) : Prop where
  pos : 0 < s.format.initBufferSize
  fits : ∃ c, s.capacity = some c ∧ s.format.initBufferSize ≤ c

/-- Calls of `audio_stream_init2`, each with what its set-up manages to create. -/
def inits (cs : List (Format × (Resource → Bool))) : List Call :=
  cs.map fun c => .audioStreamInit2 c.1 c.2

section Threshold

variable {f : Format} (hf : Usable f)
include hf

/-- The prefill lasts for 80 ms: a hundredth of the bits of a second. -/
theorem Usable.initBufferSize_eq :
    f.initBufferSize = f.sampleRate * f.channel * f.bitDep / 100 := by
  have hassoc : 80 * f.sampleRate * f.channel * f.bitDep =
      80 * (f.sampleRate * f.channel * f.bitDep) := by
    simp only [Nat.mul_assoc]
  have hwrap := hf.noWrap
  show 80 * f.sampleRate * f.channel * f.bitDep % 2 ^ 32 / 8 / 1000 = _
  rw [Nat.mod_eq_of_lt hwrap, hassoc]
  omega

theorem Usable.initBufferSize_pos : 0 < f.initBufferSize := by
  have hbits : 100 * 1 * 8 ≤ f.sampleRate * f.channel * f.bitDep :=
    Nat.mul_le_mul (Nat.mul_le_mul hf.sampleRate hf.channel) hf.bitDep.1
  rw [hf.initBufferSize_eq]
  omega

theorem Usable.initBufferSize_le_iff (c : Nat) :
    f.initBufferSize ≤ c ↔ f.sampleRate * f.channel * f.bitDep < 100 * (c + 1) := by
  rw [hf.initBufferSize_eq]
  omega

/-- The ring of a format holds the prefill of that format. -/
theorem Usable.initBufferSize_le_capacity : f.initBufferSize ≤ f.capacity := by
  have hbits : f.sampleRate * f.channel * f.bitDep ≤ f.sampleRate * f.channel * 32 :=
    Nat.mul_le_mul_left _ hf.bitDep.2
  rw [hf.initBufferSize_le_iff, Format.capacity]
  omega

end Threshold

/-! ### The first call and the later ones -/

theorem capacity_audioSoftInit (ok : Resource → Bool) (s : State) :
    (s.audioSoftInit ok).1.capacity = some s.format.capacity ∧
      (s.audioSoftInit ok).1.format = s.format := by
  unfold State.audioSoftInit
  simp only
  split_ifs <;> exact ⟨rfl, rfl⟩

theorem first_capacity (ok : Resource → Bool) (f : Format) :
    (setup.init.audioInit2 ok f).capacity = some f.capacity ∧
      (setup.init.audioInit2 ok f).format = f :=
  capacity_audioSoftInit ok _

/-- A later call puts its format in force and leaves the ring as it is. -/
theorem later_step {s : State} {c : Nat} (hinit : s.init) (hcap : s.capacity = some c) (f : Format)
    (ok : Resource → Bool) : ∃ t, setup.step s (.audioStreamInit2 f ok) = some t ∧ t.init ∧
      t.capacity = some c ∧ t.format = f := by
  refine ⟨_, rfl, rfl, ?_, ?_⟩ <;> simp [State.call, State.audioInit2, hinit, hcap]

theorem later_prefillable_iff {s : State} {c : Nat} (hinit : s.init) (hcap : s.capacity = some c)
    (hs : Prefillable s) {cs : List (Format × (Resource → Bool))} (hcs : ∀ d ∈ cs, Usable d.1) :
    setup.Always Prefillable s (inits cs) ↔
      ∀ d ∈ cs, d.1.sampleRate * d.1.channel * d.1.bitDep < 100 * (c + 1) := by
  induction cs generalizing s with
  | nil => exact ⟨fun _ => nofun, fun _ => hs⟩
  | cons d cs ih =>
    obtain ⟨f, ok⟩ := d
    rw [List.forall_mem_cons] at hcs ⊢
    obtain ⟨t, ht, htinit, htcap, rfl⟩ := later_step hinit hcap f ok
    have hthreshold := hcs.1.initBufferSize_le_iff c
    rw [inits, List.map_cons, Machine.always_cons ht]
    constructor
    · rintro ⟨-, hrest⟩
      obtain ⟨c', hc', hle⟩ := hrest.head.fits
      obtain rfl : c = c' := Option.some.inj (htcap.symm.trans hc')
      exact ⟨hthreshold.mp hle, (ih htinit htcap hrest.head hcs.2).mp hrest⟩
    · rintro ⟨hd, hrest⟩
      have hpre : Prefillable t := ⟨hcs.1.initBufferSize_pos, c, htcap, hthreshold.mpr hd⟩
      exact ⟨hs, (ih htinit htcap hpre hcs.2).mpr hrest⟩

/-- After every call of `audio_stream_init2` the prefill can be had, if and only if no later format
asks for more of it than the ring of the first format holds. -/
theorem prefillable_iff {f : Format} (hf : Usable f) (ok : Resource → Bool)
    {cs : List (Format × (Resource → Bool))} (hcs : ∀ d ∈ cs, Usable d.1) :
    setup.Always Prefillable (setup.init.audioInit2 ok f) (inits cs) ↔
      ∀ d ∈ cs, d.1.sampleRate * d.1.channel * d.1.bitDep <
        100 * (f.sampleRate * f.channel + 1) := by
  obtain ⟨hcap, hformat⟩ := first_capacity ok f
  have hfirst : Prefillable (setup.init.audioInit2 ok f) := by
    refine ⟨?_, f.capacity, hcap, ?_⟩
    · rw [hformat]
      exact hf.initBufferSize_pos
    · rw [hformat]
      exact hf.initBufferSize_le_capacity
  have hinit : (setup.init.audioInit2 ok f).init := by simp [State.audioInit2]
  rw [later_prefillable_iff hinit hcap hfirst hcs, Format.capacity, Nat.mul_one]

theorem mono_usable : Usable (.mono 16000) ∧ Usable (.mono 8000) :=
  ⟨⟨by decide, by decide, by decide, by decide⟩, by decide, by decide, by decide, by decide⟩

/-- The call of `on_audio_running`, and another one at half its rate. -/
theorem prefillable_16000 : setup.Always Prefillable
    (setup.init.audioInit2 (fun _ => true) (.mono 16000)) (inits [(.mono 8000, fun _ => true)]) :=
  (prefillable_iff mono_usable.1 _ (by simpa using mono_usable.2)).mpr (by decide)

/-- A stereo format of 48000 samples after one of 8000 samples. -/
theorem largerFormat_not_prefillable : ¬ ∀ (f : Format) (ok : Resource → Bool)
    (cs : List (Format × (Resource → Bool))), Usable f → (∀ d ∈ cs, Usable d.1) →
    setup.Always Prefillable (setup.init.audioInit2 ok f) (inits cs) := by
  intro h
  have hlarge : Usable ⟨48000, 2, 16⟩ := ⟨by decide, by decide, by decide, by decide⟩
  have hpre := h (.mono 8000) (fun _ => true) [(⟨48000, 2, 16⟩, fun _ => true)] mono_usable.2
    (by simpa using hlarge)
  obtain ⟨c, hc, hle⟩ := hpre.2.fits
  obtain rfl : 8000 = c := Option.some.inj hc
  exact absurd hle (by decide)

end AiCall.Jl.AudioSetup
