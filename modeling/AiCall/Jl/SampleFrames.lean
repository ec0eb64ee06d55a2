import AiCall.Jl.Playback

/-! Whole samples in the play ring of the JL demo.  The network side writes whole samples and the
decoder asks for whole samples; a write that does not fit is cut where the ring is full, so it is
the capacity of the ring that decides whether samples stay whole. -/

namespace AiCall.Jl.Playback

open Kit

/-- The ring with one call of `audio_play_net_vfs_fread` after another, each for `len` bytes. -/
structure Calls (β : Type*) (f : Format) where
  playback : State β f := { reader := .returned 0 }
  len : Nat := 0

inductive CallAction (β : Type*) where
  | call (len : Nat)  -- the decoder calls `audio_play_net_vfs_fread`
  | act (a : Action β)

variable {β : Type*} {f : Format}

/-- A step, where `cbuf_write` stores as much as there is room for. -/
def Calls.step (readRule : Rule) (c : Calls β f) : CallAction β → Option (Calls β f)
  | .call len =>
    match c.playback.reader with
    | .returned _ => some { playback := { c.playback with reader := .testEmpty }, len }
    | _ => none
  | .act a => (c.playback.step .cut readRule c.len a).map fun s => { c with playback := s }

def calls (β : Type*) (f : Format) (readRule : Rule) : Machine (Calls β f) (CallAction β) :=
  ⟨{}, Calls.step readRule⟩

/-- What is written, and what is asked for, is a whole number of samples. -/
def FrameSized (_ : Calls β f) : CallAction β → Prop
  | .call len => f.pcmFrame ∣ len
  | .act (.write data) => f.pcmFrame ∣ data.length
  | .act _ => True

instance (c : Calls β f) (a : CallAction β) : Decidable (FrameSized c a) := by
  unfold FrameSized
  split <;> infer_instance

/-- The ring holds whole samples, and the decoder has been handed whole samples. -/
structure WholeFrames (c : Calls β f) : Prop where
  ring : f.pcmFrame ∣ c.playback.ring.size
  returned : ∀ n, c.playback.reader = .returned n → f.pcmFrame ∣ n

/-- Besides, a call asks for whole samples, and has sampled a whole number of them. -/
structure FrameInv (c : Calls β f) : Prop where
  whole : WholeFrames c
  len : f.pcmFrame ∣ c.len
  sampled : ∀ n, c.playback.reader.sampled = some n → f.pcmFrame ∣ n

namespace FrameInv

variable {c c' : Calls β f} (h : FrameInv c)
include h

/-- The ring has been cleared. -/
theorem clear (s : State β f) (hring : s.ring = .empty) (hr : s.reader = c.playback.reader) :
    FrameInv { c with playback := s } where
  whole := ⟨by rw [hring]; exact Nat.dvd_zero _, fun n hn => h.whole.returned n (hr ▸ hn)⟩
  len := h.len
  sampled n hn := h.sampled n (hr ▸ hn)

theorem toRead {n : Nat} (hn : f.pcmFrame ∣ n) (s : State β f) (hring : s.ring = c.playback.ring) :
    FrameInv { c with playback := s.toRead c.len n } := by
  have hring' : f.pcmFrame ∣ (s.toRead c.len n).ring.size := by
    show f.pcmFrame ∣ s.ring.size
    rw [hring]
    exact h.whole.ring
  have hrlen : f.pcmFrame ∣ if c.len < n then c.len else n := by
    split
    · exact h.len
    · exact hn
  by_cases hr : (if c.len < n then c.len else n) = 0
  · have hreader : (s.toRead c.len n).reader = .returned 0 := if_pos hr
    refine ⟨⟨hring', fun k hk => ?_⟩, h.len, fun k hk => ?_⟩
    · obtain rfl : 0 = k := ReadLine.returned.inj (hreader.symm.trans hk)
      exact Nat.dvd_zero _
    · rw [hreader] at hk
      exact absurd hk (by simp [ReadLine.sampled])
  · have hreader : (s.toRead c.len n).reader = .read (if c.len < n then c.len else n) := if_neg hr
    refine ⟨⟨hring', fun k hk => ?_⟩, h.len, fun k hk => ?_⟩
    · exact absurd (hreader.symm.trans hk) (by simp)
    · obtain rfl : _ = k := Option.some.inj ((congrArg ReadLine.sampled hreader).symm.trans hk)
      exact hrlen

theorem fread {readRule : Rule} {s : State β f}
    (hs : c.playback.freadStep readRule c.len = some s) : FrameInv { c with playback := s } := by
  cases hr : c.playback.reader with
  | testEmpty =>
    simp only [State.freadStep, hr, Option.some.injEq] at hs
    subst hs
    split
    · refine ⟨⟨h.whole.ring, fun _ hn => ReadLine.noConfusion hn⟩, h.len, fun n hn => ?_⟩
      obtain rfl : 0 = n := Option.some.inj hn
      exact Nat.dvd_zero _
    · exact h.toRead h.whole.ring _ rfl
  | testLoop n =>
    simp only [State.freadStep, hr, Option.some.injEq] at hs
    subst hs
    split
    · exact ⟨⟨h.whole.ring, fun _ hn => ReadLine.noConfusion hn⟩, h.len,
        fun n hn => (Option.some_ne_none n hn.symm).elim⟩
    · exact h.toRead (h.sampled n (by rw [hr]; rfl)) _ rfl
  | wait =>
    simp only [State.freadStep, hr, Option.some.injEq] at hs
    subst hs
    refine ⟨⟨h.whole.ring, fun _ hn => ReadLine.noConfusion hn⟩, h.len, fun n hn => ?_⟩
    obtain rfl : c.playback.ring.size = n := Option.some.inj hn
    exact h.whole.ring
  | read rlen =>
    have hlen := h.sampled rlen (by rw [hr]; rfl)
    simp only [State.freadStep, hr, Option.some.injEq] at hs
    subst hs
    refine ⟨⟨Ring.dvd_size_rest readRule h.whole.ring hlen, fun n hn => ?_⟩, h.len,
      fun n hn => (Option.some_ne_none n hn.symm).elim⟩
    obtain rfl : c.playback.ring.taken readRule rlen = n := ReadLine.returned.inj hn
    exact readRule.dvd_moved hlen h.whole.ring
  | returned n => simp [State.freadStep, hr] at hs

theorem step {readRule : Rule} {a : CallAction β} (hcap : f.pcmFrame ∣ f.capacity)
    (ha : FrameSized c a) (hs : (calls β f readRule).step c a = some c') : FrameInv c' := by
  cases a with
  | call len =>
    simp only [calls, Calls.step] at hs
    split at hs <;> cases hs
    exact ⟨⟨h.whole.ring, fun _ hn => ReadLine.noConfusion hn⟩, ha,
      fun n hn => (Option.some_ne_none n hn.symm).elim⟩
  | act a =>
    obtain ⟨s, hnext, rfl⟩ := Option.map_eq_some_iff.mp hs
    cases a with
    | fread => exact h.fread hnext
    | write data =>
      cases hnext
      exact ⟨⟨Ring.dvd_size_write .cut hcap h.whole.ring ha, h.whole.returned⟩, h.len, h.sampled⟩
    | clearFull =>
      simp only [State.step] at hnext
      split at hnext <;> cases hnext
      exact h.clear _ rfl rfl
    | start | stop =>
      cases hnext
      exact h.clear _ rfl rfl

end FrameInv

theorem FrameInv.init (readRule : Rule) : FrameInv (calls β f readRule).init where
  whole := ⟨Nat.dvd_zero _, fun n hn => by
    obtain rfl : 0 = n := ReadLine.returned.inj hn
    exact Nat.dvd_zero _⟩
  len := Nat.dvd_zero _
  sampled _ hn := nomatch hn

/-- The least whole number of samples that is larger than the ring. -/
def overfull (f : Format) : Nat := f.pcmFrame * (f.capacity / f.pcmFrame + 1)

/-- One write that is larger than the ring fills it to its capacity. -/
theorem size_write_overfull [Inhabited β] (hf : 0 < f.pcmFrame) :
    ((.empty : Ring β f.capacity).write .cut (List.replicate (overfull f) default)).size =
      f.capacity := by
  have hlt : f.capacity < overfull f := Nat.lt_mul_div_succ f.capacity hf
  have hfree : (.empty : Ring β f.capacity).free = f.capacity := Nat.sub_zero _
  rw [Ring.size_write, Ring.stored, hfree, List.length_replicate, Ring.size_empty, Nat.zero_add]
  exact Nat.min_eq_right (Nat.le_of_lt hlt)

/-- Samples stay whole in every run of writes, reads and clears of whole samples, if and only if the
capacity of the ring is a whole number of samples. -/
theorem whole_frames_iff [Inhabited β] (readRule : Rule) (hf : 0 < f.pcmFrame) :
    (∀ as, (calls β f readRule).Along FrameSized (calls β f readRule).init as →
      (calls β f readRule).Always WholeFrames (calls β f readRule).init as) ↔
        f.pcmFrame ∣ f.capacity := by
  constructor
  · intro h
    have hsized : f.pcmFrame ∣ (List.replicate (overfull f) (default : β)).length := by
      rw [List.length_replicate]
      exact Nat.dvd_mul_right ..
    have hwrite := h [.act (.write (List.replicate (overfull f) default))] ⟨hsized, trivial⟩
    have hring : f.pcmFrame ∣ ((.empty : Ring β f.capacity).write .cut
        (List.replicate (overfull f) default)).size := hwrite.2.ring
    rwa [size_write_overfull hf] at hring
  · intro hcap as ha
    have hinv := Machine.always_invariant (fun _ _ _ h ha hs => FrameInv.step h hcap ha hs)
      (FrameInv.init readRule) ha
    exact hinv.imp fun _ h => h.whole

/-- A write in the format of `on_audio_running`, and a call that is handed a part of it. -/
theorem mono_whole_frames :
    (calls UInt8 (.mono 16000) .cut).Always WholeFrames (calls UInt8 (.mono 16000) .cut).init
      [.act (.write [1, 2, 3, 4, 5, 6]), .call 4, .act .fread, .act .fread] :=
  (whole_frames_iff .cut (by decide)).mpr (by decide) _ (by decide)

end AiCall.Jl.Playback
