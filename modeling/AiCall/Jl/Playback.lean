import AiCall.Kit.Machine
import AiCall.Kit.Ring
import AiCall.Jl.AudioFormat

/-! Playback in the JL demo: one call of `audio_play_net_vfs_fread`, which reads the ring
`pcm_cbuff_r`, while the network side writes to the ring and empties it on overflow, and
`__audio_task` empties it when playback starts or stops.  The call samples the size of the ring and
reads it later, so a clear between the two can leave it nothing to read. -/

namespace AiCall.Jl.Playback

open Kit

/-- The lines of `audio_play_net_vfs_fread`. -/
inductive ReadLine where
  | testEmpty  -- the first `cbuf_get_data_size`
  | testLoop (cbufLen : Nat)  -- the two tests of the loop
  | wait  -- `os_sem_pend`, which ends by a post or a timeout, and `cbuf_get_data_size`
  | read (rlen : Nat)  -- `cbuf_read`
  | returned (n : Nat)
deriving DecidableEq, Repr

/-- The last size that the call has sampled, or what it has made of it. -/
def ReadLine.sampled : ReadLine → Option Nat
  | .testLoop n | .read n => some n
  | _ => none

/-- The ring and its users.  `pending` counts the writers that have stored nothing and clear the
ring next.  `window` is for the proofs: if the ring has been cleared since the call last sampled its
size, what has been stored since the last clear. -/
structure State (β : Type*) (f : Format) where
  ring : Ring β f.capacity := .empty
  isAudioPlayOpen : Bool := true
  pending : Nat := 0
  reader : ReadLine := .testEmpty
  window : Option Nat := none

inductive Action (β : Type*) where
  | fread  -- the next step of the call
  | write (data : List β)  -- the `cbuf_write` of `_device_write_voice_data2`
  | clearFull  -- its `cbuf_clear`, after a result of 0
  | start  -- `__audio_task` handles `MSG_START_NET_AUDIO_PLAY`
  | stop  -- `__audio_task` handles `MSG_STOP_NET_AUDIO_PLAY`

variable {β : Type*} {f : Format}

namespace State

def clear (s : State β f) : State β f := { s with ring := .empty, window := some 0 }

def toRead (s : State β f) (len cbufLen : Nat) : State β f :=
  let rlen := if len < cbufLen then len else cbufLen
  { s with reader := if rlen = 0 then .returned 0 else .read rlen }

/-- The next step of `audio_play_net_vfs_fread` for `len` bytes. -/
def freadStep (readRule : Rule) (len : Nat) (s : State β f) : Option (State β f) :=
  match s.reader with
  | .testEmpty =>
    let cbufLen := s.ring.size
    let s := { s with window := none }
    some (if cbufLen = 0 then { s with reader := .testLoop 0 } else s.toRead len cbufLen)
  | .testLoop cbufLen =>
    some (if cbufLen < f.initBufferSize ∧ s.isAudioPlayOpen then { s with reader := .wait }
      else s.toRead len cbufLen)
  | .wait => some { s with reader := .testLoop s.ring.size, window := none }
  | .read rlen =>
    some { s with
      ring := s.ring.rest readRule rlen
      reader := .returned (s.ring.taken readRule rlen) }
  | .returned _ => none

def step (writeRule readRule : Rule) (len : Nat) (s : State β f) : Action β → Option (State β f)
  | .fread => s.freadStep readRule len
  | .write data =>
    let stored := s.ring.stored writeRule data.length
    some { s with
      ring := s.ring.write writeRule data
      window := s.window.map (· + stored)
      pending := if stored = 0 then s.pending + 1 else s.pending }
  | .clearFull => if 0 < s.pending then some { s.clear with pending := s.pending - 1 } else none
  | .start => some { s.clear with isAudioPlayOpen := true }
  | .stop => some { s.clear with isAudioPlayOpen := false }

end State

/-- One call of `audio_play_net_vfs_fread` for `len` bytes, and the other users of the ring. -/
def playback (β : Type*) (f : Format) (writeRule readRule : Rule) (len : Nat) :
    Machine (State β f) (Action β) := ⟨{}, State.step writeRule readRule len⟩

def StaysOpen (_ : State β f) : Action β → Prop
  | .stop => False
  | _ => True

instance (s : State β f) (a : Action β) : Decidable (StaysOpen s a) := by
  unfold StaysOpen
  split <;> infer_instance

/-- If the call has returned, it has returned bytes, and not more than asked for. -/
def ReturnsData (len : Nat) (s : State β f) : Prop :=
  ∀ n, s.reader = .returned n → 0 < n ∧ n ≤ len

/-- The call reads the ring, which has been cleared since its size was sampled, and not been filled
again far enough for a read to return something. -/
def Starved (readRule : Rule) (s : State β f) : Action β → Prop
  | .fread =>
    match s.reader, s.window with
    | .read rlen, some k => readRule.moved rlen k = 0
    | _, _ => False
  | _ => False

instance (readRule : Rule) (s : State β f) (a : Action β) : Decidable (Starved readRule s a) := by
  unfold Starved
  split
  · split <;> infer_instance
  · infer_instance

/-- The sampled size is in the ring, unless the ring has been cleared since. -/
structure Inv (len : Nat) (s : State β f) : Prop where
  open_ : s.isAudioPlayOpen
  kept : ∀ n, s.reader.sampled = some n → s.window = none → n ≤ s.ring.size
  refilled : ∀ n k, s.reader.sampled = some n → s.window = some k → s.ring.size = k
  read : ∀ n, s.reader = .read n → 0 < n ∧ n ≤ len
  returned : ReturnsData len s

section Steps

variable {len : Nat} {s s' : State β f} (h : Inv len s)
include h

theorem Inv.clear : Inv len s.clear where
  open_ := h.open_
  kept n _ hw := by simp [State.clear] at hw
  refilled n k _ hw := by
    obtain rfl : 0 = k := by simpa [State.clear] using hw
    rfl
  read := h.read
  returned := h.returned

theorem Inv.write (rule : Rule) (data : List β) (pending : Nat) :
    Inv len ({ s with
      ring := s.ring.write rule data
      window := s.window.map (· + s.ring.stored rule data.length)
      pending := pending } : State β f) where
  open_ := h.open_
  kept n hn hw := by
    have hold := h.kept n hn (by simpa using hw)
    rw [Ring.size_write]
    omega
  refilled n k hn hw := by
    obtain ⟨j, hj, rfl⟩ : ∃ j, s.window = some j ∧ j + s.ring.stored rule data.length = k := by
      simpa using hw
    rw [Ring.size_write, h.refilled n j hn hj]
  read := h.read
  returned := h.returned

theorem Inv.toRead (hlen : 0 < len) {n : Nat} (hn : 0 < n)
    (hkept : s.window = none → n ≤ s.ring.size)
    (hrefilled : ∀ k, s.window = some k → s.ring.size = k) : Inv len (s.toRead len n) := by
  have hpos : 0 < (if len < n then len else n) := by split <;> omega
  have hle : (if len < n then len else n) ≤ len ∧ (if len < n then len else n) ≤ n := by
    split <;> omega
  have hread : (s.toRead len n).reader = .read (if len < n then len else n) :=
    if_neg (Nat.ne_of_gt hpos)
  refine ⟨h.open_, fun i hi hw => ?_, fun i k _ hw => hrefilled k hw, fun i hi => ?_,
    fun i hi => ?_⟩
  · obtain rfl : _ = i := by simpa [hread, ReadLine.sampled] using hi
    exact Nat.le_trans hle.2 (hkept hw)
  · obtain rfl : _ = i := by simpa [hread] using hi
    exact ⟨hpos, hle.1⟩
  · simp [hread] at hi

theorem Inv.taken (readRule : Rule) {rlen : Nat} (hr : s.reader = .read rlen) :
    s.ring.taken readRule rlen =
      match s.window with
      | none => rlen
      | some k => readRule.moved rlen k := by
  have hsampled : s.reader.sampled = some rlen := by rw [hr]; rfl
  cases hw : s.window with
  | none => exact readRule.moved_of_le (h.kept rlen hsampled hw)
  | some k => rw [Ring.taken, h.refilled rlen k hsampled hw]

theorem Inv.freadStep (readRule : Rule) (hlen : 0 < len) (hfill : 0 < f.initBufferSize)
    (hstarved : ¬ Starved readRule s .fread) (hs : s.freadStep readRule len = some s') :
    Inv len s' := by
  cases hr : s.reader with
  | testEmpty =>
    have hwindow : Inv len ({ s with window := none } : State β f) :=
      ⟨h.open_, fun n hn => by simp [hr, ReadLine.sampled] at hn, nofun, h.read, h.returned⟩
    simp only [State.freadStep, hr, Option.some.injEq] at hs
    subst hs
    split
    · exact ⟨h.open_, fun n hn _ => by simp_all [ReadLine.sampled], nofun, nofun, nofun⟩
    · rename_i hne
      exact hwindow.toRead hlen (Nat.pos_of_ne_zero hne) (fun _ => Nat.le_refl _) nofun
  | testLoop n =>
    have hsampled : s.reader.sampled = some n := by rw [hr]; rfl
    simp only [State.freadStep, hr, Option.some.injEq] at hs
    subst hs
    split
    · exact ⟨h.open_, nofun, nofun, nofun, nofun⟩
    · rename_i hend
      have hge : ¬ n < f.initBufferSize := fun hlt => hend ⟨hlt, h.open_⟩
      exact h.toRead hlen (by omega) (h.kept n hsampled) fun k => h.refilled n k hsampled
  | wait =>
    simp only [State.freadStep, hr, Option.some.injEq] at hs
    subst hs
    refine ⟨h.open_, fun n hn _ => ?_, nofun, nofun, nofun⟩
    obtain rfl : s.ring.size = n := by simpa [ReadLine.sampled] using hn
    exact Nat.le_refl _
  | read rlen =>
    obtain ⟨hpos, hle⟩ := h.read rlen hr
    have htaken := h.taken readRule hr
    simp only [State.freadStep, hr, Option.some.injEq] at hs
    subst hs
    refine ⟨h.open_, nofun, nofun, nofun, fun n hn => ?_⟩
    obtain rfl : s.ring.taken readRule rlen = n := by simpa using hn
    have hbound : s.ring.taken readRule rlen ≤ rlen := readRule.moved_le_len
    refine ⟨?_, Nat.le_trans hbound hle⟩
    cases hw : s.window with
    | none => simpa [htaken, hw] using hpos
    | some k =>
      have hmoved : readRule.moved rlen k ≠ 0 := by simpa [Starved, hr, hw] using hstarved
      rw [htaken, hw]
      exact Nat.pos_of_ne_zero hmoved
  | returned n => simp [State.freadStep, hr] at hs

/-- A call that is starved returns 0. -/
theorem Inv.not_starved (readRule : Rule) (hs : s.freadStep readRule len = some s')
    (hret : ReturnsData len s') : ¬ Starved readRule s .fread := by
  intro hstarved
  simp only [Starved] at hstarved
  split at hstarved
  case h_2 => exact hstarved
  rename_i rlen k hr hw
  have htaken := h.taken readRule hr
  simp only [hw, hstarved] at htaken
  simp only [State.freadStep, hr, Option.some.injEq] at hs
  subst hs
  exact absurd (hret _ rfl).1 (by simp [htaken])

end Steps

theorem step_inv {writeRule readRule : Rule} {len : Nat} {s s' : State β f} {a : Action β}
    (h : Inv len s) (hlen : 0 < len) (hfill : 0 < f.initBufferSize) (ha : StaysOpen s a)
    (hstarved : ¬ Starved readRule s a)
    (hs : (playback β f writeRule readRule len).step s a = some s') : Inv len s' := by
  cases a with
  | fread => exact h.freadStep readRule hlen hfill hstarved hs
  | write data =>
    cases hs
    exact h.write writeRule data _
  | clearFull =>
    simp only [playback, State.step] at hs
    split at hs <;> cases hs
    have hc := h.clear
    exact ⟨hc.open_, hc.kept, hc.refilled, hc.read, hc.returned⟩
  | start =>
    cases hs
    have hc := h.clear
    exact ⟨rfl, hc.kept, hc.refilled, hc.read, hc.returned⟩
  | stop => exact ha.elim

/-- While playback stays open, a call of `audio_play_net_vfs_fread` returns data if and only if the
ring is not cleared, or is filled again, between the last sample of its size and the read. -/
theorem fread_returns_iff {writeRule readRule : Rule} {len : Nat} (hlen : 0 < len)
    (hfill : 0 < f.initBufferSize) {s : State β f} (hcall : s.reader = .testEmpty)
    (hopen : s.isAudioPlayOpen) {as : List (Action β)}
    (hstays : (playback β f writeRule readRule len).Along StaysOpen s as) :
    (playback β f writeRule readRule len).Always (ReturnsData len) s as ↔
      (playback β f writeRule readRule len).Along (fun s a => ¬ Starved readRule s a) s as := by
  refine Machine.always_iff_along
    (fun s a t h ha hstarved hs => step_inv h hlen hfill ha hstarved hs)
    (fun s h => h.returned) (fun s a t h _ hs hret => ?_) (I := Inv len) ?_ hstays
  · cases a with
    | fread => exact h.not_starved readRule hs hret
    | _ => exact id
  · exact ⟨hopen, fun n hn => by simp [hcall, ReadLine.sampled] at hn,
      fun n k hn => by simp [hcall, ReadLine.sampled] at hn, fun n hn => by simp [hcall] at hn,
      fun n hn => by simp [hcall] at hn⟩

def fullRing : State Unit (.mono 100) where
  ring := ⟨List.replicate 100 (), Nat.le_of_eq List.length_replicate⟩

/-- A call that reads while another writer finds the ring full. -/
theorem fullRing_returns : (playback Unit (.mono 100) .cut .cut 10).Always (ReturnsData 10) fullRing
    [.fread, .write [()], .fread] :=
  (fread_returns_iff (by decide) (by decide) rfl rfl (by decide)).mpr (by decide)

/-- The writer that finds the ring full clears it before the call reads. -/
theorem fread_ends_stream : ¬ ∀ (f : Format) (writeRule readRule : Rule) (len : Nat)
    (s : State Unit f) (as : List (Action Unit)), 0 < len → 0 < f.initBufferSize →
    s.reader = .testEmpty → s.isAudioPlayOpen →
    (playback Unit f writeRule readRule len).Along StaysOpen s as →
    (playback Unit f writeRule readRule len).Always (ReturnsData len) s as := by
  intro h
  have hret := h (.mono 100) .cut .cut 10 fullRing [.fread, .write [()], .clearFull, .fread]
    (by decide) (by decide) rfl rfl (by decide)
  exact absurd (hret.last rfl 0 rfl).1 (by decide)

end AiCall.Jl.Playback
