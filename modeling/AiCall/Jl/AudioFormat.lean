import Mathlib.Algebra.Group.Nat.Defs

/-! The audio format of `jl-ac791/audio_input2.c` and the sizes that follow from it. -/

namespace AiCall.Jl

/-- `SAMPLE_RATE`, `CHANNEL` and `BIT_DEP`, which `audio_cfg_init2` sets. -/
structure Format where
  sampleRate : Nat
  channel : Nat
  bitDep : Nat
deriving DecidableEq, Repr

/-- `PCM_DURATION`, in milliseconds. -/
def pcmDuration : Nat := 10

/-- `PCM_NB`, the bytes of a sample. -/
def pcmNb : Nat := 2

/-- What `on_audio_running` passes to `audio_stream_init2`, with one channel. -/
def Format.mono (sampleRate : Nat) : Format := ⟨sampleRate, 1, pcmNb * 8⟩

/-- `write_size` of `on_audio_running`: the bytes that one call of the SDK sends. -/
def Format.writeSize (f : Format) : Nat := pcmDuration * f.sampleRate * pcmNb / 1000

/-- `req.enc.frame_size`: the bytes that one call of `recorder_vfs_fwrite` gets. -/
def Format.frameSize (f : Format) : Nat := f.sampleRate / 100 * 4 * f.channel

/-- The bytes of a sample of every channel. -/
def Format.pcmFrame (f : Format) : Nat := f.channel * f.bitDep / 8

/-- The capacity that `_audio_soft_init` gives to each ring. -/
def Format.capacity (f : Format) : Nat := f.sampleRate * f.channel * 1

/-- `PLAY_BUFFER_DURATION` and `PLAY_BUFFER_REMAIN_DURATION`, in milliseconds. -/
def playBufferDuration : Nat := 40

def playBufferRemainDuration : Nat := 40

/-- `init_buffer_size`, the bytes that playback waits for, in arithmetic of 32 bits. -/
def Format.initBufferSize (f : Format) : Nat :=
  (playBufferDuration + playBufferRemainDuration) * f.sampleRate * f.channel * f.bitDep % 2 ^ 32 /
    8 / 1000

/-- `voice_buf_size`, the value of `AUDIO_RECORD_VOICE_UPLORD_LEN`. -/
def voiceBufSize : Nat := 320

end AiCall.Jl
