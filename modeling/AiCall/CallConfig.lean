import AiCall.Token

/-! The configuration of a call, from `ARTC/include/artc_aicall.h`, and the code of both devices
that fills it in before `artc_aicall_call`. -/

namespace AiCall

open Kit

/-- `artc_aicall_auth_info_t`. -/
structure AuthInfo where
  appId : CharArray 65
  userId : CharArray 65
  channelId : CharArray 65
  nonce : CharArray 65
  timestamp : CharArray 17
  token : CharArray 256

/-- `artc_aicall_audio_frame_t`. -/
structure AudioFrame where
  pcmSampleRate : Nat
  pcmChannelNum : Nat
  pcmNbSamples : Nat
  pcmDuration : Nat

/-- `artc_aicall_agent_type_e`. -/
inductive AgentType where
  | voiceAgent  -- its value is 0

/-- `artc_aicall_agent_info_t`. -/
structure AgentInfo where
  agentId : CharArray 65
  type : AgentType
  region : CharArray 17
  instanceId : CharArray 65
  channelId : CharArray 65
  uid : CharArray 65

/-- `artc_aicall_call_config_t`. -/
structure CallConfig where
  authInfo : AuthInfo
  audioFrame : AudioFrame
  agentInfo : AgentInfo
  enableCallbackAgentAudioData : Bool

/-- What `memset` leaves. -/
def CallConfig.zero : CallConfig where
  authInfo := ⟨.zero 65, .zero 65, .zero 65, .zero 65, .zero 17, .zero 256⟩
  audioFrame := ⟨0, 0, 0, 0⟩
  agentInfo := ⟨.zero 65, .voiceAgent, .zero 17, .zero 65, .zero 65, .zero 65⟩
  enableCallbackAgentAudioData := false

/-- The strings of the build's settings: `CONFIG_RTC_APP_ID` and its like on the ESP32, the macros
`RTC_APP_ID` and its like on the JL device. -/
structure Settings where
  appId : CString
  appKey : CString
  userId : CString
  region : CString
  agentId : CString

def tsStr (ts : Int32) : CharArray 17 := (CharArray.zero 17).snprintf (decimal ts.toInt)

/-- The assignments to `call_config`, which the two devices make with values of their own. -/
def fill (s : Settings) (channelId tsStr token : CString) (callback : Bool) (duration : Nat) :
    CallConfig :=
  let z := CallConfig.zero
  { enableCallbackAgentAudioData := callback
    authInfo :=
      { z.authInfo with
        appId := z.authInfo.appId.strncpy s.appId (65 - 1)
        channelId := z.authInfo.channelId.strncpy channelId (65 - 1)
        userId := z.authInfo.userId.strncpy s.userId (65 - 1)
        timestamp := z.authInfo.timestamp.strncpy tsStr (17 - 1)
        token := z.authInfo.token.strncpy token (256 - 1) }
    agentInfo :=
      { z.agentInfo with
        type := .voiceAgent
        region := z.agentInfo.region.strncpy s.region (17 - 1)
        agentId := z.agentInfo.agentId.strncpy s.agentId (65 - 1)
        channelId := z.agentInfo.channelId.strncpy channelId (65 - 1) }
    audioFrame :=
      { pcmChannelNum := 1
        pcmSampleRate := 16000
        pcmNbSamples := 2
        pcmDuration := duration } }

/-- What the assignments write to the two fields `channel_id`. -/
def channelField (channelId : CString) : CharArray 65 :=
  (CharArray.zero 65).strncpy channelId (65 - 1)

theorem channelId_fill (s : Settings) (channelId tsStr token : CString) (callback : Bool)
    (duration : Nat) :
    (fill s channelId tsStr token callback duration).authInfo.channelId = channelField channelId ∧
      (fill s channelId tsStr token callback duration).agentInfo.channelId =
        channelField channelId :=
  ⟨rfl, rfl⟩

/-- `artc_aicall_demo_start_call_impl` up to the last assignment to `call_config`; there is no
result where a NULL token would be copied. -/
def Esp32.callConfig (malloc : Nat → (n : Nat) → CharArray n) (signed : Bool)
    (sha256 : List UInt8 → CharArray 32) (s : Settings) (channelId : CString) (ts : Int32) :
    Option CallConfig := do
  let token ← artcGenerateToken malloc signed sha256 (some s.appId) (some s.appKey) (some channelId)
    (some s.userId) ts
  let token ← token
  return fill s channelId (tsStr ts).str token.str true 20

/-- `artc_aicall_demo_start_call` up to the last assignment to `call_config`. -/
def Jl.callConfig (malloc : (n : Nat) → CharArray n) (signed : Bool)
    (sha256 : List UInt8 → CharArray 32) (s : Settings) (channelId : CString) (ts : Int32) :
    Option CallConfig := do
  let token ← generateToken malloc signed sha256 (some s.appId) (some s.appKey) (some channelId)
    (some s.userId) ts (.zero 65)
  return fill s channelId (tsStr ts).str token.str false 10

/-- Every string field holds a NUL. -/
structure AuthInfo.Terminated (a : AuthInfo) : Prop where
  appId : a.appId.Terminated
  userId : a.userId.Terminated
  channelId : a.channelId.Terminated
  nonce : a.nonce.Terminated
  timestamp : a.timestamp.Terminated
  token : a.token.Terminated

/-- The bytes that the fields of the configuration sign, together with the key. -/
def AuthInfo.signed (a : AuthInfo) (appKey : CString) : CString :=
  a.appId.str ++ appKey ++ a.channelId.str ++ a.userId.str ++ a.timestamp.str

/-- The configuration carries what its token signs: `bytes` are hashed to a token of 64
characters. -/
structure Signs (sha256 : List UInt8 → CharArray 32) (s : Settings) (bytes : List UInt8)
    (c : CallConfig) : Prop where
  terminated : c.authInfo.Terminated
  channel : c.agentInfo.channelId = c.authInfo.channelId
  signed : bytes = (c.authInfo.signed s.appKey).bytes ↔ s.appId.length ≤ 64 ∧ s.userId.length ≤ 64
  token : c.authInfo.token.str = hexString (sha256 bytes)
  length : c.authInfo.token.str.length = 64

section Fill

variable {s : Settings} {channelId : CString} {ts : Int32}

theorem length_decimal (ht : 0 ≤ ts.toInt) : (decimal ts.toInt).length ≤ 10 := by
  have hb := ts.toInt_lt
  obtain ⟨k, hk⟩ := Int.eq_ofNat_of_zero_le ht
  rw [hk] at hb ⊢
  exact length_digits_le (by decide) (by omega)

theorem str_tsStr (ht : 0 ≤ ts.toInt) : (tsStr ts).str = decimal ts.toInt := by
  have hl := length_decimal ht
  exact CharArray.str_snprintf _ (by omega)

theorem fill_terminated (tsStr token : CString) (callback : Bool) (duration : Nat) :
    (fill s channelId tsStr token callback duration).authInfo.Terminated where
  appId := CharArray.terminated_strncpy_zero _ (by decide)
  userId := CharArray.terminated_strncpy_zero _ (by decide)
  channelId := CharArray.terminated_strncpy_zero _ (by decide)
  nonce := CharArray.terminated_zero (by decide)
  timestamp := CharArray.terminated_strncpy_zero _ (by decide)
  token := CharArray.terminated_strncpy_zero _ (by decide)

/-- The fields hold the first 64 bytes of the two ids and the rest in full. -/
theorem signed_fill (token : CString) (callback : Bool) (duration : Nat)
    (hc : channelId.length = 32) (ht : 0 ≤ ts.toInt) :
    (fill s channelId (tsStr ts).str token callback duration).authInfo.signed s.appKey =
      s.appId.take 64 ++ s.appKey ++ channelId ++ s.userId.take 64 ++ decimal ts.toInt := by
  have hl := length_decimal ht
  simp only [AuthInfo.signed, fill, CallConfig.zero, str_tsStr ht]
  rw [CharArray.str_strncpy_zero _ (by decide), CharArray.str_strncpy_zero _ (by decide),
    CharArray.str_strncpy_zero _ (by decide), CharArray.str_strncpy_zero _ (by decide),
    CString.take_of_le (s := channelId) (by omega),
    CString.take_of_le (s := decimal ts.toInt) (by omega)]

/-- What is hashed is longer than what the fields hold as soon as an id has been cut. -/
theorem content_eq_iff (s : Settings) (channelId : CString) (ts : Int32) :
    content s.appId s.appKey channelId s.userId ts =
        s.appId.take 64 ++ s.appKey ++ channelId ++ s.userId.take 64 ++ decimal ts.toInt ↔
      s.appId.length ≤ 64 ∧ s.userId.length ≤ 64 := by
  constructor
  · intro h
    have hl := congrArg CString.length h
    simp only [content, CString.length_append, CString.length_take] at hl
    omega
  · rintro ⟨ha, hu⟩
    rw [CString.take_of_le ha, CString.take_of_le hu, content]

theorem fill_signs (signed : Bool) (sha256 : List UInt8 → CharArray 32) (buffer : CharArray 65)
    (callback : Bool) (duration : Nat) (hc : channelId.length = 32) (ht : 0 ≤ ts.toInt) :
    let bytes := (content s.appId s.appKey channelId s.userId ts).bytes
    Signs sha256 s bytes (fill s channelId (tsStr ts).str (toHex signed (sha256 bytes) buffer).str
      callback duration) := by
  intro bytes
  have hlen : (hexString (sha256 bytes)).length = 64 := length_hexString _
  have htoken : (fill s channelId (tsStr ts).str (toHex signed (sha256 bytes) buffer).str
      callback duration).authInfo.token.str = hexString (sha256 bytes) := by
    rw [str_toHex]
    refine (CharArray.str_strncpy_zero _ (by decide)).trans (CString.take_of_le (by omega))
  obtain ⟨hauth, hagent⟩ := channelId_fill s channelId (tsStr ts).str
    (toHex signed (sha256 bytes) buffer).str callback duration
  refine ⟨fill_terminated .., hagent.trans hauth.symm, ?_, htoken, ?_⟩
  · rw [signed_fill _ callback duration hc ht, ← CString.ext_iff]
    exact content_eq_iff s channelId ts
  · rw [htoken, hlen]

end Fill

/-- What the token signs is what the configuration carries, on both devices. -/
theorem token_signs_config (malloc : Nat → (n : Nat) → CharArray n) (signed : Bool)
    (sha256 : List UInt8 → CharArray 32) (s : Settings) (channelId : CString) (ts : Int32)
    (hc : channelId.length = 32) (ht : 0 ≤ ts.toInt) :
    (∃ bytes c, hashed (malloc 0) s.appId s.appKey channelId s.userId ts = some bytes ∧
      Esp32.callConfig malloc signed sha256 s channelId ts = some c ∧ Signs sha256 s bytes c) ∧
    (∃ bytes c, hashed (malloc 0) s.appId s.appKey channelId s.userId ts = some bytes ∧
      Jl.callConfig (malloc 0) signed sha256 s channelId ts = some c ∧ Signs sha256 s bytes c) := by
  have hh := hashed_of_nonneg ht (malloc 0) s.appId s.appKey channelId s.userId
  refine ⟨⟨_, _, hh, ?_, fill_signs signed sha256 (malloc 1 65) true 20 hc ht⟩,
    ⟨_, _, hh, ?_, fill_signs signed sha256 (.zero 65) false 10 hc ht⟩⟩
  · rw [Esp32.callConfig, Esp32.artcGenerateToken, hh]
    rfl
  · rw [Jl.callConfig, Jl.generateToken, hh]
    rfl

def sampleSettings : Settings :=
  ⟨⟨[97], by decide⟩, ⟨[107], by decide⟩, ⟨[117], by decide⟩, ⟨[], by decide⟩, ⟨[], by decide⟩⟩

def sampleChannel : CString := ⟨List.replicate 32 48, by decide⟩

/-- The SHA-256 digest of what that call hashes at the time 1700000000. -/
def sampleDigest : CharArray 32 where
  bytes :=
    [216, 88, 17, 243, 198, 34, 135, 109, 24, 228, 128, 153, 119, 178, 19, 76, 36, 124, 224, 251,
      192, 231, 247, 26, 161, 39, 232, 225, 46, 18, 69, 110]
  size := rfl

theorem token_signs_sample :
    ∃ bytes c,
      Esp32.callConfig (fun _ n => .zero n) true (fun _ => sampleDigest) sampleSettings
        sampleChannel 1700000000 = some c ∧
      Signs (fun _ => sampleDigest) sampleSettings bytes c := by
  obtain ⟨⟨bytes, c, _, hc, hs⟩, _⟩ :=
    token_signs_config (fun _ n => .zero n) true (fun _ => sampleDigest) sampleSettings
      sampleChannel 1700000000 (by decide) (by decide)
  exact ⟨bytes, c, hc, hs⟩

end AiCall
