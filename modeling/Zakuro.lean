import Zakuro.VirtualClientClose
import Zakuro.WavInsert
import Zakuro.AudioPacing
import Zakuro.AudioSafety
import Zakuro.RecordingThread
import Zakuro.Y4MSafety
import Zakuro.ScenarioSilence
import Zakuro.ScenarioExit
import Zakuro.DataChannelErrors
import Zakuro.MessageCounters
import Zakuro.ChannelScenarios
import Zakuro.HttpExchange
import Zakuro.HttpAnswers
import Zakuro.JsonRpc
import Zakuro.ConfigOverride
import Zakuro.ProxyUrl
import Zakuro.AcceptedChannels
import Zakuro.OperationIndex
import Zakuro.ProgramLoop
import Zakuro.Sound
import Zakuro.PoolSlice
import Zakuro.ConnectionStats
import Zakuro.Resolution
import Zakuro.VirtualClientRetry
import Zakuro.VirtualClientReconnect
import Zakuro.FakeVideoPictures
import Zakuro.ClientSessions
import Zakuro.GameAudioTape
import Zakuro.ProgramShutdown
import Zakuro.FakeAudioKeyTrigger
import Zakuro.KeyStrokes
import Zakuro.KeyedWorld
import Zakuro.GameKeyCore
import Zakuro.HttpServer
import Zakuro.HttpRelay
import Zakuro.VoiceNumberReader
import Zakuro.TimedWorld
import Zakuro.TimedScenarios
import Zakuro.HatchQueue
import Zakuro.PromptScenarios
import Zakuro.VirtualClientTracks
import Zakuro.PromptExit
import Zakuro.TimedClient
