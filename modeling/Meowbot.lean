import Meowbot.Base64
import Meowbot.CmdTable
import Meowbot.ConnControl
import Meowbot.EventQueue
import Meowbot.ExactRead
import Meowbot.FloodLimit
import Meowbot.ForcedSplit
import Meowbot.Hangul
import Meowbot.Highlight
import Meowbot.HtmlEntities
import Meowbot.Injection
import Meowbot.IrcCase
import Meowbot.IrcString
import Meowbot.IrcUtils
import Meowbot.KeepsKeys
import Meowbot.Keyboard
import Meowbot.KillSendThread
import Meowbot.Lib.BinarySearch
import Meowbot.Lib.DeleteLoop
import Meowbot.Lib.Glob
import Meowbot.Lib.Pieces
import Meowbot.Lib.SeqPattern
import Meowbot.Lib.Transducer
import Meowbot.Lib.WordBreak
import Meowbot.LuaCmdMap
import Meowbot.LuaEventHandlers
import Meowbot.LuaText
import Meowbot.LuaTimers
import Meowbot.ModeAlign
import Meowbot.ModeSplit
import Meowbot.Modules
import Meowbot.MyAtoi
import Meowbot.NamesReply
import Meowbot.ParseTokens
import Meowbot.PauseReturn
import Meowbot.PauseThreads
import Meowbot.PingTimeout
import Meowbot.QwertyTo2bul
import Meowbot.ReadOrder
import Meowbot.Reconnect
import Meowbot.Relay
import Meowbot.Remember
import Meowbot.RenderLine
import Meowbot.Robustness
import Meowbot.RoundTrip
import Meowbot.TcpSock
import Meowbot.TimeStr
import Meowbot.Timers
import Meowbot.Tracking
import Meowbot.Truncation
import Meowbot.Unread
import Meowbot.UrlCoding
import Meowbot.UserIdent
import Meowbot.Utf8
import Meowbot.Utf8Cut
import Meowbot.Utf8Index
import Meowbot.Utf8Validate
import Meowbot.VarPacker
import Meowbot.Wildcard
import Meowbot.WordList
import Meowbot.HeadSound
import Meowbot.Josa
import Meowbot.Vsprintf
import Meowbot.Lib.Chains
import Meowbot.EncConv
import Meowbot.FindPages
import Meowbot.RememberLinks
import Meowbot.WordQuiz
import Meowbot.OnlyDots
import Meowbot.Lib.Blocks
import Meowbot.MergeName
import Meowbot.PobjVector
import Meowbot.PollList
import Meowbot.Pong
import Meowbot.QuitGrace
import Meowbot.Shutdown
import Meowbot.Dispatch
import Meowbot.Lib.BlockFold
import Meowbot.Md5
import Meowbot.Md5Digest
import Meowbot.RelayNetworks
import Meowbot.Alarm
import Meowbot.Conversation
import Meowbot.AutoMode
import Meowbot.Autojoin
import Meowbot.QuizGames
import Meowbot.GlobalReplace
import Meowbot.HttpClient
import Meowbot.HttpPage
