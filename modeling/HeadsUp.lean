import HeadsUp.Lib.Machine
import HeadsUp.Lib.Partial
import HeadsUp.Lib.Tally
import HeadsUp.Lib.Keys
import HeadsUp.Lib.Combinations
import HeadsUp.Lib.Pairing
import HeadsUp.Lib.Twin
import HeadsUp.Core.Card
import HeadsUp.Core.HandRanking
import HeadsUp.Core.Enumeration
import HeadsUp.Core.FiveCards
import HeadsUp.Core.BestHand
import HeadsUp.Core.PokerRules
import HeadsUp.Core.Models
import HeadsUp.Core.Pot
import HeadsUp.Core.Hand
import HeadsUp.Core.HandRuns
import HeadsUp.Core.HandReset
import HeadsUp.Core.Showdown
import HeadsUp.Core.BettingRules
import HeadsUp.Core.BettingRuns
import HeadsUp.Common.Json
import HeadsUp.Common.JsonSerialization
import HeadsUp.Client.Message
import HeadsUp.Client.RandomStrategy
import HeadsUp.Client.Client
import HeadsUp.Server.PlayerAction
import HeadsUp.Server.TableManager
import HeadsUp.Server.ConnectionManager
import HeadsUp.Server.Message
import HeadsUp.Server.GameSession
import HeadsUp.Server.WebSocketSession
import HeadsUp.Server.TableInvariant
import HeadsUp.Server.TableRuns
import HeadsUp.Server.Dealing
import HeadsUp.Server.Betting
import HeadsUp.Server.Sessions
import HeadsUp.Server.Accounting
import HeadsUp.Server.TableStakes
import HeadsUp.Server.Moves
import HeadsUp.Server.SessionMaps
import HeadsUp.Server.Sockets
import HeadsUp.Server.Presence
import HeadsUp.Server.Timers
import HeadsUp.Server.Absence
import HeadsUp.Game.Replies
import HeadsUp.Game.Bots
import HeadsUp.Core.HandBets
import HeadsUp.Core.HandChips
import HeadsUp.Server.Engines
import HeadsUp.Server.Replay
import HeadsUp.Server.Payout
import HeadsUp.Server.Errors
import HeadsUp.Server.Amounts
import HeadsUp.Server.Completion
import HeadsUp.Server.Waiting
import HeadsUp.Server.Redaction
import HeadsUp.Server.Privacy
import HeadsUp.Server.WriteQueue
import HeadsUp.Lib.Layers
import HeadsUp.Lib.FairSplit
import HeadsUp.Core.CoreDealing
import HeadsUp.Core.SidePots
import HeadsUp.Core.Distribution
import HeadsUp.Core.Evaluation
import HeadsUp.Core.Categories
import HeadsUp.Server.TimerTable
import HeadsUp.Core.SidePotOwners
import HeadsUp.Server.Announcements
import HeadsUp.Server.Requests
import HeadsUp.Server.Answers
import HeadsUp.Server.Handshake
import HeadsUp.Server.Main
import HeadsUp.Lib.Executor
import HeadsUp.Server.Heartbeat
import HeadsUp.Core.Settlement
import HeadsUp.Lib.Monitor
import HeadsUp.Server.OneHand
import HeadsUp.Lib.Simulation
import HeadsUp.Common.Reread
import HeadsUp.Common.JsonText
import HeadsUp.Game.Texts
import HeadsUp.Game.Network
import HeadsUp.Game.Joining
import HeadsUp.Game.Standstill
import HeadsUp.Server.Authority
import HeadsUp.Server.Stranded
import HeadsUp.Server.Exchange
import HeadsUp.Server.Decks
import HeadsUp.Core.Suits
import HeadsUp.Lib.Numerals
import HeadsUp.Common.Uuid
import HeadsUp.Game.Numbers
import HeadsUp.Game.Rules
import HeadsUp.Game.Refinement
import HeadsUp.Server.Spectators
import HeadsUp.Game.Absences
import HeadsUp.Client.Conversation
import HeadsUp.Server.Retries
import HeadsUp.Game.Books
