import QMdmm.Core.PerfectPartition
import QMdmm.Core.OrderRounds
import QMdmm.Core.Waiting
import QMdmm.Core.ArrivalOrder
import QMdmm.Core.Places
import QMdmm.Core.Overflow
import QMdmm.Bot.LegalReply
import QMdmm.Server.ConfigAccepted
import QMdmm.Core.Choices
import QMdmm.Core.GameOver
import QMdmm.Core.Delivery
import QMdmm.Core.Packet
import QMdmm.Networking.OneSeat
import QMdmm.Networking.Online
import QMdmm.Networking.ReplyFormat
import QMdmm.Networking.RequestTimer
import QMdmm.Networking.DefaultReply
import QMdmm.Networking.Client
import QMdmm.Networking.InStep
import QMdmm.Networking.Replay
import QMdmm.Networking.Reconnect
import QMdmm.Networking.RoundTrip
import QMdmm.Networking.Speech
import QMdmm.Networking.AgentStates
import QMdmm.Networking.Converge
import QMdmm.Networking.RepliesMatch
import QMdmm.Core.ActionFrame
import QMdmm.Core.Deserialize
import QMdmm.Networking.RoomRules
import QMdmm.Bot.Forecast
import QMdmm.Core.RpsJudging
import QMdmm.Gui.ActionMenu
import QMdmm.Networking.Framing
import QMdmm.Core.Schedule
import QMdmm.Server.SavedConfig
import QMdmm.Bot.Shopping
import QMdmm.Networking.Mirror
import QMdmm.Networking.MirroredRoom
import QMdmm.Networking.CatchUp
import QMdmm.Core.PunishHp
import QMdmm.Networking.GoesOn
import QMdmm.Networking.OneGame
import QMdmm.Networking.Silence
import QMdmm.Networking.GivenUp
import QMdmm.Ctl.Snapshot
