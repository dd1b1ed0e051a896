import RetroConfig.App.BlockAssembly
import RetroConfig.App.BlockBookkeeping
import RetroConfig.App.BlockPlaces
import RetroConfig.App.BlockProgress
import RetroConfig.App.BlockRequests
import RetroConfig.App.CloneDialog
import RetroConfig.App.CloneRuns
import RetroConfig.App.Configs
import RetroConfig.App.DownloadManager
import RetroConfig.App.GitItem
import RetroConfig.App.HistoryList
import RetroConfig.App.HistoryLoad
import RetroConfig.App.HistoryManager
import RetroConfig.App.HistoryOrder
import RetroConfig.App.HistoryRuns
import RetroConfig.App.MultiDownloader
import RetroConfig.App.RetroArchConfig
import RetroConfig.App.RetroArchInstalls
import RetroConfig.App.RetroArchThumbnails
import RetroConfig.Core.Array
import RetroConfig.Core.Counting
import RetroConfig.Core.Data
import RetroConfig.Core.Event
import RetroConfig.Core.Method
import RetroConfig.Core.Reading
import RetroConfig.Core.StringName
import RetroConfig.Core.Weak
import RetroConfig.Dart.AutoRelease
import RetroConfig.Dart.Bridge
import RetroConfig.Dart.BridgeScalar
import RetroConfig.Dart.Browser
import RetroConfig.Dart.Crossings
import RetroConfig.Dart.Identity
import RetroConfig.Dart.Request
import RetroConfig.Dart.Transfer
import RetroConfig.Database.Cache
import RetroConfig.Database.Classes
import RetroConfig.Database.Effect
import RetroConfig.Database.Migration
import RetroConfig.Database.Mirror
import RetroConfig.Database.Model
import RetroConfig.Database.Open
import RetroConfig.Database.Persistence
import RetroConfig.Database.Queue
import RetroConfig.Database.Rendering
import RetroConfig.Database.SQLite
import RetroConfig.Database.Select
import RetroConfig.Database.Statement
import RetroConfig.Database.Upgrade
import RetroConfig.Html.Denotation
import RetroConfig.Html.NthChild
import RetroConfig.Html.Selection
import RetroConfig.Html.Selector
import RetroConfig.Html.SelectorBounds
import RetroConfig.Html.SelectorParser
import RetroConfig.Html.SelectorRoundTrip
import RetroConfig.Html.SelectorScan
import RetroConfig.Html.SelectorShape
import RetroConfig.Html.SelectorWords
import RetroConfig.Html.SelectorWriting
import RetroConfig.Html.Tags
import RetroConfig.Library.BitBuffer
import RetroConfig.Library.CString
import RetroConfig.Library.Decimal
import RetroConfig.Library.Journal
import RetroConfig.Library.Json
import RetroConfig.Library.JsonText
import RetroConfig.Library.OrderedMap
import RetroConfig.Library.Outcome
import RetroConfig.Library.Percent
import RetroConfig.Library.Quota
import RetroConfig.Library.Recent
import RetroConfig.Library.Rose
import RetroConfig.Library.Rounding
import RetroConfig.Library.Segments
import RetroConfig.Library.Sql
import RetroConfig.Library.SqlOrder
import RetroConfig.Library.Transition
import RetroConfig.Library.Tree
import RetroConfig.Library.Utf16
import RetroConfig.Library.Walk
import RetroConfig.Library.Words
import RetroConfig.Main.BookRecord
import RetroConfig.Main.Collection
import RetroConfig.Main.CollectionItems
import RetroConfig.Main.CollectionRuns
import RetroConfig.Main.CollectionSets
import RetroConfig.Main.Context
import RetroConfig.Main.DataItem
import RetroConfig.Main.LibraryContext
import RetroConfig.Main.LibraryRemoval
import RetroConfig.Main.Pages
import RetroConfig.Main.SearchKeys
import RetroConfig.Main.Settings
import RetroConfig.Main.SetupTarget
import RetroConfig.Models.BookData
import RetroConfig.Models.CollectionData
import RetroConfig.Models.GitLibrary
import RetroConfig.Models.KeyValue
import RetroConfig.Models.SearchData
import RetroConfig.Script.Conversion
import RetroConfig.Script.DynamicCall
import RetroConfig.Script.HasExport
import RetroConfig.Script.ModuleName
import RetroConfig.Script.PageURL
import RetroConfig.Script.TimerRuns
import RetroConfig.Script.TimerTables
import RetroConfig.Script.Timers
import RetroConfig.Utils.Bit64
import RetroConfig.Utils.DecodeBounds
import RetroConfig.Utils.EncodeData
import RetroConfig.Utils.Encoder
import RetroConfig.Utils.GumboParser
import RetroConfig.Utils.Json
import RetroConfig.Utils.Platform
import RetroConfig.Utils.SharedData
import RetroConfig.Utils.UrlEncode
import RetroConfig.Yaml.Denotation
import RetroConfig.Yaml.Parser
import RetroConfig.Yaml.Termination
