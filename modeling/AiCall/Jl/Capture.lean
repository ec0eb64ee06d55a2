import AiCall.Kit.Fairness
import AiCall.Kit.Ring
import AiCall.Kit.Frames
import AiCall.Jl.AudioFormat

/-! The microphone of the JL demo: the encoder writes chunks into the ring `pcm_cbuff_w`, the audio
task reads frames of `write_size` bytes from it and sends them, and `__audio_task` clears it.  Each
operation on the ring is a step of its own. -/

namespace AiCall.Jl.Capture

open Kit

/-- The lines of `_device_get_voice_data2`, and its return to `on_audio_running`. -/
inductive ReaderLine (β : Type*) where
  | testEmpty  -- the first `cbuf_get_data_size`
  | testSize (rlen : Nat)  -- the second one
  | read (rlen : Nat)  -- `cbuf_read`
  | returned (data : List β)

def ReaderLine.data {β : Type*} : ReaderLine β → List β
  | .returned data => data
  | _ => []

/-- The ring and its users.  `chunks` records what the encoder has handed over, `consumed` how many
bytes the last call of `_device_get_voice_data2` has taken from the ring, and `sent` what has been
passed to `artc_aicall_send_audio_data`. -/
structure State (β : Type*) (f : Format) where
  ring : Ring β f.capacity := .empty
  chunks : List (List β) := []
  full : Bool := false
  reader : ReaderLine β := .testEmpty
  consumed : Nat := 0
  sent : List (List β) := []

inductive Action (β : Type*) where
  | write (chunk : List β)  -- the `cbuf_write` of `recorder_vfs_fwrite`
  | clearFull  -- its `cbuf_clear`, after a result of 0
  | clear  -- `cbuf_clear` in `__audio_task`
  | read  -- the next step of `_device_get_voice_data2`
  | send (ok : Bool)  -- what `on_audio_running` does next; `ok` if the session is still up

variable {β : Type*} {f : Format}

def State.readStep (rule : Rule) (s : State β f) : Option (State β f) :=
  match s.reader with
  | .testEmpty =>
    some { s with
      reader := if s.ring.size = 0 then .returned [] else .testSize s.ring.size
      consumed := 0 }
  | .testSize rlen =>
    some { s with
      reader :=
        if voiceBufSize ≤ s.ring.size then .read (if f.writeSize < rlen then f.writeSize else rlen)
        else .returned [] }
  | .read rlen =>
    some { s with
      ring := s.ring.rest rule rlen
      reader := .returned (s.ring.head rule rlen)
      consumed := s.ring.size - (s.ring.rest rule rlen).size }
  | .returned _ => none

/-- The state after an action, where it is enabled.  The encoder hands over `frame_size` bytes. -/
def State.step (writeRule readRule : Rule) (s : State β f) : Action β → Option (State β f)
  | .write c =>
    if s.full = false ∧ c.length = f.frameSize then
      some { s with
        ring := s.ring.write writeRule c
        chunks := s.chunks ++ [c]
        full := s.ring.stored writeRule c.length = 0 }
    else none
  | .clearFull => if s.full then some { s with ring := .empty, full := false } else none
  | .clear => some { s with ring := .empty }
  | .read => s.readStep readRule
  | .send ok =>
    match s.reader with
    | .returned data =>
      some { s with
        reader := .testEmpty
        sent := if data.length = f.writeSize ∧ ok then s.sent ++ [data] else s.sent }
    | _ => none

def microphone (β : Type*) (f : Format) (writeRule readRule : Rule) :
    Machine (State β f) (Action β) := ⟨{}, State.step writeRule readRule⟩

/-- A call of `_device_get_voice_data2` returns nothing, and has taken nothing from the ring, or it
returns `write_size` bytes, and what is sent are frames of the captured chunks, two to a chunk, each
one once and in the order of their capture. -/
structure Framed (s : State β f) : Prop where
  whole : ∀ data, s.reader = .returned data →
    data.length = 0 ∧ s.consumed = 0 ∨ data.length = f.writeSize ∧ s.consumed = f.writeSize
  chunk : ∀ c ∈ s.chunks, c.length = 2 * f.writeSize
  sent : ∃ js : List Nat, js.Pairwise (· < ·) ∧ (∀ j ∈ js, j < s.chunks.length * 2) ∧
    s.sent = js.map (frame f.writeSize 2 s.chunks)

/-- The frames that have been sent, the one that has been read, and those in the ring follow each
other in the captured chunks. -/
structure Inv (s : State β f) : Prop where
  chunk : ∀ c ∈ s.chunks, c.length = 2 * f.writeSize
  frames : ∃ is ps js : List Nat, (is ++ (ps ++ js)).Pairwise (· < ·) ∧
    (∀ j ∈ is ++ (ps ++ js), j < s.chunks.length * 2) ∧ ps.length ≤ 1 ∧
    s.sent = is.map (frame f.writeSize 2 s.chunks) ∧
    s.reader.data = ps.flatMap (frame f.writeSize 2 s.chunks) ∧
    s.ring.data = js.flatMap (frame f.writeSize 2 s.chunks)
  testSize : ∀ rlen, s.reader = .testSize rlen → f.writeSize ≤ rlen
  read : ∀ rlen, s.reader = .read rlen → rlen = f.writeSize
  consumed : s.reader ≠ .testEmpty → s.consumed = s.reader.data.length

theorem inv_init : Inv ({} : State β f) where
  chunk := nofun
  frames := ⟨[], [], [], List.Pairwise.nil, nofun, Nat.zero_le 1, rfl, rfl, rfl⟩
  testSize := nofun
  read := nofun
  consumed hne := absurd rfl hne

theorem length_frames {chunks : List (List β)} (hc : ∀ c ∈ chunks, c.length = 2 * f.writeSize)
    {js : List Nat} (hjs : ∀ j ∈ js, j < chunks.length * 2) :
    (js.flatMap (frame f.writeSize 2 chunks)).length = js.length * f.writeSize := by
  induction js with
  | nil => simp
  | cons j js ih =>
    have hj := length_frame hc (hjs j List.mem_cons_self)
    have hjs' := ih fun i hi => hjs i (List.mem_cons_of_mem j hi)
    rw [List.flatMap_cons, List.length_append, hj, hjs', List.length_cons, Nat.succ_mul]
    omega

theorem Inv.framed {s : State β f} (h : Inv s) : Framed s := by
  obtain ⟨is, ps, js, hord, hlt, hone, hsent, hdata, _⟩ := h.frames
  refine ⟨fun data hr => ?_, h.chunk, is, ?_, fun j hj => hlt j (List.mem_append_left _ hj), hsent⟩
  · have hlen : data.length = ps.length * f.writeSize := by
      rw [hr] at hdata
      rw [show data = ps.flatMap (frame f.writeSize 2 s.chunks) from hdata]
      exact length_frames h.chunk fun j hj => hlt j (by simp [hj])
    have hcons : s.consumed = data.length := by
      have hc := h.consumed (by simp [hr])
      rwa [hr] at hc
    rw [hcons, hlen]
    obtain hp | hp : ps.length = 0 ∨ ps.length = 1 := by omega
    · left
      simp [hp]
    · right
      simp [hp]
  · exact hord.sublist (List.sublist_append_left ..)

theorem Inv.clear {s : State β f} (h : Inv s) (full : Bool) :
    Inv ({ s with ring := .empty, full := full } : State β f) := by
  obtain ⟨is, ps, js, hord, hlt, hone, hsent, hdata, _⟩ := h.frames
  have hsub : List.Sublist (is ++ (ps ++ [])) (is ++ (ps ++ js)) :=
    (List.Sublist.refl is).append ((List.Sublist.refl ps).append (List.nil_sublist js))
  exact ⟨h.chunk, ⟨is, ps, [], hord.sublist hsub, fun j hj => hlt j (hsub.subset hj), hone, hsent,
    hdata, rfl⟩, h.testSize, h.read, h.consumed⟩

theorem Inv.size {s : State β f} (h : Inv s) : ∃ n, s.ring.size = n * f.writeSize := by
  obtain ⟨is, ps, js, _, hlt, _, _, _, hring⟩ := h.frames
  refine ⟨js.length, ?_⟩
  rw [Ring.size, hring]
  exact length_frames h.chunk fun j hj => hlt j (by simp [hj])

/-- A read of `write_size` bytes takes the first frame of the ring, if there is one. -/
theorem frames_read (rule : Rule) {r : Ring β f.capacity} {chunks : List (List β)}
    (hc : ∀ c ∈ chunks, c.length = 2 * f.writeSize) {js : List Nat}
    (hjs : ∀ j ∈ js, j < chunks.length * 2)
    (hr : r.data = js.flatMap (frame f.writeSize 2 chunks)) :
    r.head rule f.writeSize = (js.take 1).flatMap (frame f.writeSize 2 chunks) ∧
      (r.rest rule f.writeSize).data = (js.drop 1).flatMap (frame f.writeSize 2 chunks) := by
  cases js with
  | nil => simp [Ring.head, Ring.rest, hr]
  | cons j js =>
    have hj := length_frame hc (hjs j List.mem_cons_self)
    have htaken : r.taken rule f.writeSize = f.writeSize := by
      refine rule.moved_of_le ?_
      rw [Ring.size, hr, List.flatMap_cons, List.length_append, hj]
      exact Nat.le_add_right ..
    simp [Ring.head, Ring.rest, htaken, hr, hj]

section Steps

variable {s s' : State β f} (h : Inv s)
include h

theorem Inv.write (hpos : 0 < f.writeSize) (hframe : f.frameSize = 2 * f.writeSize)
    (hcap : f.writeSize ∣ f.capacity) (rule : Rule) {c : List β} (hc : c.length = f.frameSize)
    (full : Bool) :
    Inv ({ s with ring := s.ring.write rule c, chunks := s.chunks ++ [c], full := full } :
      State β f) := by
  have hsize : f.writeSize ∣ s.ring.size := by
    obtain ⟨n, hn⟩ := h.size
    exact ⟨n, by rw [hn, Nat.mul_comm]⟩
  obtain ⟨is, ps, js, hord, hlt, hone, hsent, hdata, hring⟩ := h.frames
  -- the bytes stored are the first `t` frames of the chunk
  obtain ⟨t, ht⟩ : f.writeSize ∣ s.ring.stored rule c.length :=
    rule.dvd_moved (hc ▸ hframe ▸ Nat.dvd_mul_left ..) (Nat.dvd_sub hcap hsize)
  have ht2 : t ≤ 2 := by
    have hle : s.ring.stored rule c.length ≤ c.length := rule.moved_le_len
    rw [ht, hc, hframe, Nat.mul_comm 2] at hle
    exact Nat.le_of_mul_le_mul_left hle hpos
  have hnew : ∀ j ∈ List.range' (s.chunks.length * 2) t,
      s.chunks.length * 2 ≤ j ∧ j < (s.chunks ++ [c]).length * 2 := by
    intro j hj
    rw [List.mem_range'_1] at hj
    rw [List.length_append, List.length_singleton]
    omega
  have hmap : is.map (frame f.writeSize 2 (s.chunks ++ [c])) =
      is.map (frame f.writeSize 2 s.chunks) :=
    List.map_congr_left fun j hj => frame_append c (hlt j (by simp [hj]))
  refine ⟨fun d hd => ?_, ⟨is, ps, js ++ List.range' (s.chunks.length * 2) t, ?_, fun j hj => ?_,
    hone, hsent.trans hmap.symm, ?_, ?_⟩, h.testSize, h.read, h.consumed⟩
  · rcases List.mem_append.mp hd with hd | hd
    · exact h.chunk d hd
    · rw [List.mem_singleton.mp hd, hc, hframe]
  · rw [← List.append_assoc, ← List.append_assoc, List.append_assoc is, List.pairwise_append]
    refine ⟨hord, List.pairwise_lt_range', fun i hi j hj => ?_⟩
    exact Nat.lt_of_lt_of_le (hlt i hi) (hnew j hj).1
  · rw [← List.append_assoc, ← List.append_assoc, List.append_assoc is, List.mem_append] at hj
    rcases hj with hj | hj
    · have := hlt j hj
      rw [List.length_append]
      omega
    · exact (hnew j hj).2
  · rw [flatMap_frame_append c fun j hj => hlt j (by simp [hj])]
    exact hdata
  · change s.ring.data ++ c.take (s.ring.stored rule c.length) = _
    rw [List.flatMap_append, flatMap_frame_append c fun j hj => hlt j (by simp [hj]),
      flatMap_frame_last c ht2, hring, ht, Nat.mul_comm]

/-- A step of `_device_get_voice_data2`: it reads whole frames only, because the ring holds whole
frames only. -/
theorem Inv.readStep (rule : Rule) (hs : s.readStep rule = some s') : Inv s' := by
  have hframes := h.frames
  unfold State.readStep at hs
  cases hr : s.reader with
  | testEmpty =>
    simp only [hr, Option.some.injEq] at hs
    subst hs
    rw [hr] at hframes
    split
    · exact ⟨h.chunk, hframes, nofun, nofun, fun _ => rfl⟩
    · rename_i hne
      refine ⟨h.chunk, hframes, fun rlen hl => ?_, nofun, fun _ => rfl⟩
      obtain rfl : s.ring.size = rlen := by simpa using hl
      obtain ⟨n, hn⟩ := h.size
      rw [hn] at hne ⊢
      exact Nat.le_mul_of_pos_left _ (Nat.pos_of_ne_zero fun h0 => hne (by rw [h0, Nat.zero_mul]))
  | testSize rlen =>
    simp only [hr, Option.some.injEq] at hs
    subst hs
    rw [hr] at hframes
    have hle := h.testSize rlen hr
    have hnone : s.consumed = 0 := by
      have hc := h.consumed (by simp [hr])
      rwa [hr] at hc
    split
    · refine ⟨h.chunk, hframes, nofun, fun n hn => ?_, fun _ => hnone⟩
      obtain rfl : (if f.writeSize < rlen then f.writeSize else rlen) = n := by simpa using hn
      split <;> omega
    · exact ⟨h.chunk, hframes, nofun, nofun, fun _ => hnone⟩
  | read rlen =>
    obtain rfl : rlen = f.writeSize := h.read rlen hr
    simp only [hr, Option.some.injEq] at hs
    subst hs
    obtain ⟨is, ps, js, hord, hlt, _, hsent, _, hring⟩ := hframes
    obtain ⟨hhead, htail⟩ := frames_read rule h.chunk (fun j hj => hlt j (by simp [hj])) hring
    have hsub : List.Sublist (is ++ (js.take 1 ++ js.drop 1)) (is ++ (ps ++ js)) := by
      rw [List.take_append_drop]
      exact (List.Sublist.refl is).append (List.sublist_append_right ps js)
    refine ⟨h.chunk, ⟨is, js.take 1, js.drop 1, hord.sublist hsub,
      fun j hj => hlt j (hsub.subset hj), List.length_take_le 1 js, hsent, hhead, htail⟩,
      nofun, nofun, fun _ => ?_⟩
    have htaken : s.ring.taken rule f.writeSize ≤ s.ring.size := rule.moved_le_avail
    show s.ring.size - (s.ring.rest rule f.writeSize).size = (s.ring.head rule f.writeSize).length
    rw [Ring.size_rest, Ring.length_head]
    omega
  | returned data => simp [hr] at hs

theorem Inv.send (hpos : 0 < f.writeSize) {data : List β} (hr : s.reader = .returned data)
    (ok : Bool) :
    Inv ({ s with
      reader := .testEmpty
      sent := if data.length = f.writeSize ∧ ok then s.sent ++ [data] else s.sent } :
        State β f) := by
  obtain ⟨is, ps, js, hord, hlt, hone, hsent, hdata, hring⟩ := h.frames
  have hdata : data = ps.flatMap (frame f.writeSize 2 s.chunks) := by
    rw [← hdata, hr]
    rfl
  split
  · rename_i hlen
    -- a frame has been read, for `write_size` is not 0
    obtain ⟨p, rfl⟩ : ∃ p, ps = [p] := by
      cases ps with
      | nil => simp [hdata, Nat.ne_of_lt hpos] at hlen
      | cons p ps =>
        obtain rfl : ps = [] := by simpa using hone
        exact ⟨p, rfl⟩
    have hperm : is ++ [p] ++ ([] ++ js) = is ++ ([p] ++ js) := by simp
    refine ⟨h.chunk, ⟨is ++ [p], [], js, hperm ▸ hord, fun j hj => hlt j (hperm ▸ hj),
      Nat.zero_le 1, ?_, rfl, hring⟩, nofun, nofun, fun hne => absurd rfl hne⟩
    simp [hsent, hdata]
  · have hsub : List.Sublist (is ++ ([] ++ js)) (is ++ (ps ++ js)) :=
      (List.Sublist.refl is).append (List.sublist_append_right ps js)
    exact ⟨h.chunk, ⟨is, [], js, hord.sublist hsub, fun j hj => hlt j (hsub.subset hj),
      Nat.zero_le 1, hsent, rfl, hring⟩, nofun, nofun, fun hne => absurd rfl hne⟩

end Steps

theorem step_inv {writeRule readRule : Rule} {s s' : State β f} {a : Action β} (h : Inv s)
    (hpos : 0 < f.writeSize) (hframe : f.frameSize = 2 * f.writeSize)
    (hcap : f.writeSize ∣ f.capacity)
    (hs : (microphone β f writeRule readRule).step s a = some s') : Inv s' := by
  cases a with
  | write c =>
    simp only [microphone, State.step] at hs
    split at hs <;> cases hs
    rename_i hc
    exact h.write hpos hframe hcap writeRule hc.2 _
  | clearFull =>
    simp only [microphone, State.step] at hs
    split at hs <;> cases hs
    exact h.clear false
  | clear =>
    cases hs
    exact h.clear s.full
  | read => exact h.readStep readRule hs
  | send ok =>
    simp only [microphone, State.step] at hs
    split at hs <;> cases hs
    exact h.send hpos ‹_› ok

section Returns

variable {writeRule readRule : Rule} {s s' : State β f} {a : Action β}

/-- How many steps a call of `_device_get_voice_data2` has left at most. -/
def ReaderLine.left : ReaderLine β → Nat
  | .testEmpty => 3
  | .testSize _ => 2
  | .read _ => 1
  | .returned _ => 0

def Action.reads : Action β → Bool
  | .read => true
  | _ => false

/-- `_device_get_voice_data2` waits for nothing: until it has returned, its next step is enabled. -/
theorem read_enabled (hleft : s.reader.left ≠ 0) :
    ((microphone β f writeRule readRule).step s .read).isSome := by
  simp only [microphone, State.step, State.readStep]
  cases hr : s.reader with
  | returned data => simp [ReaderLine.left, hr] at hleft
  | _ => rfl

theorem readStep_left (hs : s.readStep readRule = some s') :
    s'.reader.left + 1 ≤ s.reader.left := by
  unfold State.readStep at hs
  cases hr : s.reader with
  | testEmpty =>
    simp only [hr, Option.some.injEq] at hs
    subst hs
    split <;> simp [ReaderLine.left]
  | testSize rlen =>
    simp only [hr, Option.some.injEq] at hs
    subst hs
    split <;> simp [ReaderLine.left]
  | read rlen =>
    simp only [hr, Option.some.injEq] at hs
    subst hs
    exact Nat.le_refl 1
  | returned data => simp [hr] at hs

/-- The other users of the ring leave the call where it is. -/
theorem step_left (ha : ∀ ok, a ≠ .send ok)
    (hs : (microphone β f writeRule readRule).step s a = some s') :
    s'.reader.left + (if a.reads then 1 else 0) ≤ s.reader.left := by
  cases a with
  | read => exact readStep_left hs
  | send ok => exact absurd rfl (ha ok)
  | clear =>
    cases hs
    exact Nat.le_refl _
  | write c | clearFull =>
    simp only [microphone, State.step] at hs
    split at hs <;> cases hs
    exact Nat.le_refl _

/-- A call of `_device_get_voice_data2` takes at most three steps, whatever the encoder and the
audio task do in between: it has returned, or it has fewer than three behind it and can take the
next one. -/
theorem reader_returns {as : List (Action β)} (hs : s.reader = .testEmpty)
    (hP : (microphone β f writeRule readRule).Along (fun _ a => ∀ ok, a ≠ .send ok) s as)
    (hr : (microphone β f writeRule readRule).run s as = some s') :
    as.countP Action.reads ≤ 3 ∧
      ((∃ data, s'.reader = .returned data) ∨ as.countP Action.reads < 3 ∧
        ((microphone β f writeRule readRule).step s' .read).isSome) := by
  have hcount := Machine.run_count (I := fun _ => True) (v := fun s => s.reader.left)
    (fun _ _ _ _ _ _ => trivial) (fun _ _ _ _ ha hs => step_left ha hs) trivial hP hr
  have hthree : s.reader.left = 3 := by
    rw [hs]
    rfl
  refine ⟨by omega, ?_⟩
  by_cases hleft : s'.reader.left = 0
  · left
    cases hd : s'.reader with
    | returned data => exact ⟨data, rfl⟩
    | _ => simp [ReaderLine.left, hd] at hleft
  · exact .inr ⟨by omega, read_enabled hleft⟩

end Returns

/-- The sizes of a format with one channel: the encoder's chunk is two frames, and the ring holds a
whole number of them. -/
theorem mono_sizes {rate : Nat} (hrate : 0 < rate) (hdvd : 100 ∣ rate) :
    0 < (Format.mono rate).writeSize ∧
      (Format.mono rate).frameSize = 2 * (Format.mono rate).writeSize ∧
      (Format.mono rate).writeSize ∣ (Format.mono rate).capacity := by
  obtain ⟨q, rfl⟩ := hdvd
  have hw : (Format.mono (100 * q)).writeSize = 2 * q := by
    simp only [Format.writeSize, Format.mono, pcmDuration, pcmNb]
    omega
  rw [hw]
  refine ⟨by omega, ?_, 50, ?_⟩
  · simp only [Format.frameSize, Format.mono]
    omega
  · simp only [Format.capacity, Format.mono]
    omega

/-- Microphone frames stay whole and in order, for every sample rate that is a multiple of 100. -/
theorem microphone_framed {rate : Nat} (hrate : 0 < rate) (hdvd : 100 ∣ rate)
    (writeRule readRule : Rule) (as : List (Action β)) :
    (microphone β (Format.mono rate) writeRule readRule).Always Framed
      (microphone β (Format.mono rate) writeRule readRule).init as := by
  obtain ⟨hpos, hframe, hcap⟩ := mono_sizes hrate hdvd
  exact (Machine.always_invariant (P := fun _ _ => True)
    (fun _ _ _ h _ hs => step_inv h hpos hframe hcap hs) inv_init
    (Machine.along_true _ _)).imp fun _ h => h.framed

/-- A chunk is written, and its first frame read and sent. -/
theorem microphone_framed_16000 :
    (microphone Nat (Format.mono 16000) .cut .cut).Always Framed {}
      [.write (List.range 640), .read, .read, .read, .send true] :=
  microphone_framed (by decide) (by decide) .cut .cut _

end AiCall.Jl.Capture
