import SCLOrkTools.Library.GuardedRun
import SCLOrkTools.Library.Ring
import SCLOrkTools.Library.WrapInteger
import SCLOrkTools.Library.KeyedLog
import SCLOrkTools.Library.Schedule
import SCLOrkTools.Wire.Endpoint
import SCLOrkTools.Wire.Reaction
import SCLOrkTools.Wire.StateMachine
import SCLOrkTools.Wire.SendRetry
import SCLOrkTools.Wire.World
import SCLOrkTools.Wire.PeerBinding
import SCLOrkTools.Wire.DataPlane
import SCLOrkTools.Wire.Pair
import SCLOrkTools.Wire.Channel
import SCLOrkTools.Wire.SendWindow
import SCLOrkTools.Wire.SessionStart
import SCLOrkTools.Wire.Disconnect
import SCLOrkTools.Wire.SessionIsolation
import SCLOrkTools.Wire.RetryBudget
import SCLOrkTools.Wire.Lossless
import SCLOrkTools.Wire.Wraparound
import SCLOrkTools.Chat.Server
import SCLOrkTools.Chat.Log
import SCLOrkTools.Chat.Poll
import SCLOrkTools.Chat.Client
import SCLOrkTools.Chat.Replication
import SCLOrkTools.Chat.Membership
import SCLOrkTools.Chat.Snapshots
import SCLOrkTools.Chat.Ownership
import SCLOrkTools.Chat.Eviction
import SCLOrkTools.Chat.Reconnect
import SCLOrkTools.Chat.Delivery
import SCLOrkTools.Chat.Window
import SCLOrkTools.Chat.Selection
import SCLOrkTools.Chat.Audience
import SCLOrkTools.Clock.State
import SCLOrkTools.Clock.Server
import SCLOrkTools.Clock.Client
import SCLOrkTools.Clock.Agreement
import SCLOrkTools.Clock.Queries
import SCLOrkTools.Clock.Network
import SCLOrkTools.Clock.Join
import SCLOrkTools.Clock.BeatCount
import SCLOrkTools.Clock.Continuity
import SCLOrkTools.Clock.Order
import SCLOrkTools.Clock.Cohorts
import SCLOrkTools.Library.Bytes
import SCLOrkTools.Library.OrderedStore
import SCLOrkTools.Confab.AssetDatabase
import SCLOrkTools.Confab.Catalogue
import SCLOrkTools.Confab.Lookups
import SCLOrkTools.Confab.Misses
import SCLOrkTools.Confab.ListPaging
import SCLOrkTools.Confab.ListPolling
import SCLOrkTools.Confab.HttpClient
import SCLOrkTools.Confab.Keys
import SCLOrkTools.Confab.CacheManager
import SCLOrkTools.Confab.CacheBudget
import SCLOrkTools.Confab.PartialAssets
import SCLOrkTools.Confab.OscHandler
import SCLOrkTools.Confab.Metadata
import SCLOrkTools.Confab.Callbacks
import SCLOrkTools.Clock.Grooming
import SCLOrkTools.Clock.Regress
import SCLOrkTools.Clock.Sync
import SCLOrkTools.Confab.Deprecation
import SCLOrkTools.Confab.ListWalk
import SCLOrkTools.PD.Tokenizer
import SCLOrkTools.PD.BlockComment
import SCLOrkTools.PD.Voice
import SCLOrkTools.PD.Slices
import SCLOrkTools.PD.ParameterOrder
import SCLOrkTools.PD.Preset
import SCLOrkTools.PD.Reread
import SCLOrkTools.Emoji.Trie
import SCLOrkTools.Emoji.Index
import SCLOrkTools.Emoji.Pruning
import SCLOrkTools.Emoji.Offers
import SCLOrkTools.Library.Base64
import SCLOrkTools.Confab.Asset
import SCLOrkTools.Confab.DownloadIntegrity
import SCLOrkTools.Confab.Chunking
import SCLOrkTools.Confab.Eviction
import SCLOrkTools.Confab.CacheNames
import SCLOrkTools.Confab.CacheAccounting
import SCLOrkTools.Confab.CachePaths
import SCLOrkTools.Confab.HttpEndpoint
import SCLOrkTools.Confab.PageBudget
import SCLOrkTools.Confab.LoadAsset
import SCLOrkTools.Confab.ListIds
import SCLOrkTools.Confab.Commands
import SCLOrkTools.Confab.Session
import SCLOrkTools.Confab.ListItems
import SCLOrkTools.Confab.ClientCache
