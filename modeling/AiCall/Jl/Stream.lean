import AiCall.Kit.Lossy
import AiCall.Jl.Capture
import AiCall.Jl.SampleFrames

/-! The bytes that the two rings of the JL demo carry.  Whatever their users do, and in whatever
order, the decoder gets bytes that the network has delivered, each one once and in their order, and
the SDK gets bytes that the encoder has delivered.  What is missing has been cut where a ring was
full, cleared, or read and not sent. -/

namespace AiCall.Jl

open Kit

namespace Playback

variable {β : Type*} {f : Format}

/-- The bytes that are given to `_device_write_voice_data2`. -/
def received (_ : Calls β f) : CallAction β → List β
  | .act (.write data) => data
  | _ => []

/-- The bytes that `audio_play_net_vfs_fread` copies to its caller. -/
def played (readRule : Rule) (c : Calls β f) : CallAction β → List β
  | .act .fread =>
    match c.playback.reader with
    | .read rlen => c.playback.ring.head readRule rlen
    | _ => []
  | _ => []

/-- The bytes that a full ring does not take, and those that a `cbuf_clear` drops. -/
def dropped (c : Calls β f) : CallAction β → List β
  | .act (.write data) => data.drop (c.playback.ring.stored .cut data.length)
  | .act .clearFull | .act .start | .act .stop => c.playback.ring.data
  | _ => []

theorem fread_passes {readRule : Rule} {c : Calls β f} {s : State β f}
    (hs : c.playback.freadStep readRule c.len = some s) :
    Passes c.playback.ring.data [] (played readRule c (.act .fread)) [] s.ring.data := by
  unfold State.freadStep at hs
  cases hr : c.playback.reader with
  | testEmpty =>
    simp only [hr, Option.some.injEq] at hs
    have hring : s.ring = c.playback.ring := by
      subst hs
      split <;> rfl
    rw [hring]
    simpa only [played, hr] using Passes.refl _
  | testLoop n =>
    simp only [hr, Option.some.injEq] at hs
    have hring : s.ring = c.playback.ring := by
      subst hs
      split <;> rfl
    rw [hring]
    simpa only [played, hr] using Passes.refl _
  | wait =>
    simp only [hr, Option.some.injEq] at hs
    subst hs
    simpa only [played, hr] using Passes.refl _
  | read rlen =>
    simp only [hr, Option.some.injEq] at hs
    subst hs
    have hgive := Passes.give (c.playback.ring.head readRule rlen)
      (c.playback.ring.rest readRule rlen).data
    rw [Ring.head_append_rest] at hgive
    simpa only [played, hr] using hgive
  | returned n => simp [hr] at hs

theorem call_passes {readRule : Rule} {c c' : Calls β f} {a : CallAction β}
    (hs : (calls β f readRule).step c a = some c') :
    Passes c.playback.ring.data (received c a) (played readRule c a) (dropped c a)
      c'.playback.ring.data := by
  cases a with
  | call len =>
    simp only [calls, Calls.step] at hs
    split at hs <;> cases hs
    exact .refl _
  | act a =>
    obtain ⟨s, hnext, rfl⟩ := Option.map_eq_some_iff.mp hs
    cases a with
    | fread => exact fread_passes hnext
    | write data =>
      cases hnext
      exact .put ..
    | clearFull =>
      simp only [State.step] at hnext
      split at hnext <;> cases hnext
      exact .clear _
    | start | stop =>
      cases hnext
      exact .clear _

/-- In every run the decoder has been given, in their order, bytes that the network side has
written; each byte written has been given to the decoder, is in the ring or has been dropped, and
where none has been dropped, the decoder and the ring have them all. -/
theorem playback_in_order {readRule : Rule} {as : List (CallAction β)} {c : Calls β f}
    (hr : (calls β f readRule).run (calls β f readRule).init as = some c) :
    let written := (calls β f readRule).trace received (calls β f readRule).init as
    let given := (calls β f readRule).trace (played readRule) (calls β f readRule).init as
    let lost := (calls β f readRule).trace dropped (calls β f readRule).init as
    (given ++ c.playback.ring.data).Sublist written ∧
      (given ++ c.playback.ring.data ++ lost).Perm written ∧
      (lost = [] → given ++ c.playback.ring.data = written) := by
  have h := Machine.run_passes (fun c : Calls β f => c.playback.ring.data)
    (fun _ _ _ hs => call_passes hs) hr
  refine ⟨h.order, h.account, fun hlost => ?_⟩
  rw [hlost] at h
  exact h.lossless

/-- A chunk of which the ring takes four bytes, and a call that reads two of them. -/
def shortRing : List (CallAction Nat) :=
  [.act (.write [1, 2, 3, 4, 5]), .call 2, .act .fread, .act .fread]

theorem shortRing_in_order :
    ∃ c, (calls Nat (.mono 4) .cut).run (calls Nat (.mono 4) .cut).init shortRing = some c ∧
      c.playback.ring.data = [3, 4] ∧ ([1, 2] ++ [3, 4] ++ [5]).Perm [1, 2, 3, 4, 5] := by
  refine ⟨_, rfl, rfl, ?_⟩
  exact (@playback_in_order _ (.mono 4) .cut shortRing _ rfl).2.1

end Playback

namespace Capture

variable {β : Type*} {f : Format}

/-- What a reader has taken from the ring, and what is still in it. -/
def State.carried (s : State β f) : List β := s.reader.data ++ s.ring.data

/-- The bytes that are given to `recorder_vfs_fwrite`. -/
def captured (_ : State β f) : Action β → List β
  | .write c => c
  | _ => []

/-- The bytes that are passed to `artc_aicall_send_audio_data`. -/
def uploaded (s : State β f) : Action β → List β
  | .send ok =>
    match s.reader with
    | .returned data => if data.length = f.writeSize ∧ ok then data else []
    | _ => []
  | _ => []

/-- The bytes that a full ring does not take, that a `cbuf_clear` drops, and that are read and not
sent. -/
def discarded (writeRule : Rule) (s : State β f) : Action β → List β
  | .write c => c.drop (s.ring.stored writeRule c.length)
  | .clearFull | .clear => s.ring.data
  | .send ok =>
    match s.reader with
    | .returned data => if data.length = f.writeSize ∧ ok then [] else data
    | _ => []
  | .read => []

theorem carried_write (rule : Rule) (s : State β f) (c : List β) :
    s.reader.data ++ (s.ring.write rule c).data =
      s.carried ++ c.take (s.ring.stored rule c.length) :=
  (List.append_assoc ..).symm

theorem carried_clear (s : State β f) :
    Passes s.carried [] [] s.ring.data s.reader.data where
  order := by
    rw [List.nil_append, List.append_nil]
    exact List.sublist_append_left ..
  account := by rw [List.nil_append, List.append_nil, State.carried]

theorem readStep_carried {rule : Rule} {s s' : State β f} (hs : s.readStep rule = some s') :
    s'.carried = s.carried := by
  unfold State.readStep at hs
  cases hr : s.reader with
  | testEmpty =>
    simp only [hr, Option.some.injEq] at hs
    subst hs
    simp only [State.carried, hr]
    split <;> rfl
  | testSize n =>
    simp only [hr, Option.some.injEq] at hs
    subst hs
    simp only [State.carried, hr]
    split <;> rfl
  | read rlen =>
    simp only [hr, Option.some.injEq] at hs
    subst hs
    simp only [State.carried, hr]
    exact Ring.head_append_rest rule s.ring rlen
  | returned data => simp [hr] at hs

theorem step_passes {writeRule readRule : Rule} {s s' : State β f} {a : Action β}
    (hs : (microphone β f writeRule readRule).step s a = some s') :
    Passes s.carried (captured s a) (uploaded s a) (discarded writeRule s a) s'.carried := by
  cases a with
  | write c =>
    simp only [microphone, State.step] at hs
    split at hs <;> cases hs
    have hput := Passes.put s.carried c (s.ring.stored writeRule c.length)
    rwa [← carried_write] at hput
  | clearFull =>
    simp only [microphone, State.step] at hs
    split at hs <;> cases hs
    show Passes s.carried [] [] s.ring.data (s.reader.data ++ [])
    rw [List.append_nil]
    exact carried_clear s
  | clear =>
    cases hs
    show Passes s.carried [] [] s.ring.data (s.reader.data ++ [])
    rw [List.append_nil]
    exact carried_clear s
  | read =>
    rw [readStep_carried hs]
    exact .refl _
  | send ok =>
    simp only [microphone, State.step] at hs
    cases hr : s.reader with
    | returned data =>
      simp only [hr] at hs
      cases hs
      have hcarried : s.carried = data ++ s.ring.data := by
        rw [State.carried, hr]
        rfl
      by_cases hsent : data.length = f.writeSize ∧ ok
      · simp only [hcarried, captured, uploaded, discarded, hr, if_pos hsent]
        exact .give data s.ring.data
      · simp only [hcarried, captured, uploaded, discarded, hr, if_neg hsent]
        exact .skip data s.ring.data
    | _ =>
      simp only [hr] at hs
      cases hs

/-- In every run, for every format, the SDK has been given, in their order, bytes that the encoder
has delivered; each byte delivered has been sent, is still carried or has been discarded, and where
none has been discarded, all of them have been sent or are carried. -/
theorem microphone_in_order {writeRule readRule : Rule} {as : List (Action β)} {s : State β f}
    (hr : (microphone β f writeRule readRule).run (microphone β f writeRule readRule).init as =
      some s) :
    let M := microphone β f writeRule readRule
    let delivered := M.trace captured M.init as
    let sent := M.trace uploaded M.init as
    let lost := M.trace (discarded writeRule) M.init as
    (sent ++ s.carried).Sublist delivered ∧ (sent ++ s.carried ++ lost).Perm delivered ∧
      (lost = [] → sent ++ s.carried = delivered) := by
  have h := Machine.run_passes State.carried (fun _ _ _ hs => step_passes hs) hr
  refine ⟨h.order, h.account, fun hlost => ?_⟩
  rw [hlost] at h
  exact h.lossless

/-- A chunk of two frames, of which a call reads one and sends it. -/
def oneFrame : List (Action Nat) :=
  [.write (List.replicate 320 7), .read, .read, .read, .send true]

set_option maxRecDepth 4000 in
theorem oneFrame_in_order : ∃ s, (microphone Nat (.mono 8000) .cut .cut).run {} oneFrame = some s ∧
    s.sent = [List.replicate 160 7] ∧ List.replicate 160 7 ++ s.carried = List.replicate 320 7 := by
  refine ⟨_, rfl, rfl, ?_⟩
  exact (@microphone_in_order _ (.mono 8000) .cut .cut oneFrame _ rfl).2.2 rfl

end Capture

end AiCall.Jl
