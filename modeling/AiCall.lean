import AiCall.Esp32.Exclusion
import AiCall.Esp32.Hangup
import AiCall.Esp32.Kept
import AiCall.Esp32.Teardown
import AiCall.Jl.Errors
import AiCall.Jl.Containment
import AiCall.Jl.Capture
import AiCall.Jl.Playback
import AiCall.Kit.CString
import AiCall.Token
import AiCall.CallConfig
import AiCall.Jl.AudioControl
import AiCall.Jl.AudioSetup
import AiCall.ChannelId
import AiCall.Jl.AudioServer
import AiCall.Jl.Prefill
import AiCall.Jl.SampleFrames
import AiCall.Jl.Pace
import AiCall.Channels
import AiCall.Calls
import AiCall.Jl.Protocol
import AiCall.Jl.Release
import AiCall.Esp32.Protocol
import AiCall.Esp32.Progress
import AiCall.Jl.Liveness
import AiCall.Jl.Phone
import AiCall.Jl.Messages
import AiCall.Jl.AudioMemory
import AiCall.Jl.Stream
