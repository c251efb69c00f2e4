import ImpossibleVoice.Audio.Encode
import ImpossibleVoice.Stt.Batch
import ImpossibleVoice.Server.DeclaredAudio
import ImpossibleVoice.Server.Shutdown
import ImpossibleVoice.Server.Transports
import ImpossibleVoice.Artifacts.Detection
import ImpossibleVoice.Artifacts.Atomicity
import ImpossibleVoice.Artifacts.Care
import ImpossibleVoice.Artifacts.Acceptance
import ImpossibleVoice.Audio.UtteranceBound
import ImpossibleVoice.Audio.ResampleExact
import ImpossibleVoice.Audio.Quantisation
import ImpossibleVoice.Audio.LimitExactness
import ImpossibleVoice.Server.SpeechErrors
import ImpossibleVoice.Server.SpeechDelivery
import ImpossibleVoice.Server.Multipart
import ImpossibleVoice.Server.BodyLimit
import ImpossibleVoice.Tts.Fencing
import ImpossibleVoice.Stt.Completion
import ImpossibleVoice.Server.Capacity
import ImpossibleVoice.Server.EngineCalls
import ImpossibleVoice.Server.Cleanup
import ImpossibleVoice.Server.Serving
import ImpossibleVoice.Server.McpRequests
import ImpossibleVoice.Server.BatchTransports
import ImpossibleVoice.Server.SpeechTransports
import ImpossibleVoice.Native.Lifecycle
import ImpossibleVoice.Server.Stopping
import ImpossibleVoice.Server.RequestIds
import ImpossibleVoice.Server.Startup
import ImpossibleVoice.Native.Guards
import ImpossibleVoice.Native.Progress
import ImpossibleVoice.Server.Limiter
import ImpossibleVoice.Server.Draining
