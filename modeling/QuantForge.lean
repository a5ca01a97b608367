import QuantForge.Framework.Machine
import QuantForge.Model.Futures.IntentEvidence
import QuantForge.Model.Futures.PositionProtection
import QuantForge.Model.Futures.PositionClosing
import QuantForge.Model.Futures.PositionPnl
import QuantForge.Protocol.Bundle.EntryModule
import QuantForge.Framework.Reader
import QuantForge.Math.LittleEndian
import QuantForge.Model.DecimalText
import QuantForge.Model.Candle
import QuantForge.Storage.Sqlite.Served
import QuantForge.Model.Futures.ClientOrderIdText
import QuantForge.Storage.Segments.DecimalReaders
import QuantForge.Storage.Postgres.Agreement
import QuantForge.Storage.Sqlite.MigrateMarks
import QuantForge.Protocol.Bundle.DirAgreement
import QuantForge.Engine.Backtest.Lookahead
import QuantForge.Engine.DataSync.Verdict
import QuantForge.Engine.Live.Dust
import QuantForge.Engine.Live.Once
import QuantForge.Engine.Live.Fresh
import QuantForge.Engine.Live.Conserved
import QuantForge.Storage.Segments.Grid
import QuantForge.Model.DecimalFloat
import QuantForge.Model.Futures.PositionEvidence
import QuantForge.Storage.Sqlite.Packing
import QuantForge.Storage.Sqlite.Complete
import QuantForge.Storage.Sqlite.Filled
import QuantForge.Framework.Crowd
import QuantForge.Storage.Adoption
import QuantForge.Cli.Identity
import QuantForge.Framework.Passes
import QuantForge.Storage.Migrate
import QuantForge.Storage.Migrated
import QuantForge.Framework.Remote
import QuantForge.Storage.Postgres.Bridge
import QuantForge.Storage.Postgres.Settled
import QuantForge.Model.StepRounding
import QuantForge.Model.Futures.Return
import QuantForge.Model.Futures.StoredRequests
import QuantForge.Exchange.Binance.FilterConflict
import QuantForge.Sdk.WindowAverage
import QuantForge.Sdk.SmaCross
import QuantForge.Model.Futures.NetSummary
import QuantForge.Engine.Backtest.Solvent
import QuantForge.Model.Futures.IntentReached
import QuantForge.Protocol.Bundle.CaseInsensitive
import QuantForge.Protocol.Bundle.RequirementGrammar
import QuantForge.Engine.DataSync.Complete
import QuantForge.Engine.Backtest.Drawdown
import QuantForge.Cli.CloseSale
import QuantForge.Framework.Meets
import QuantForge.Cli.SameClose
import QuantForge.Protocol.Bundle.PackageGrammar
import QuantForge.Protocol.Bundle.PackageNames
import QuantForge.Protocol.Bundle.ManifestFaults
import QuantForge.Framework.Sweep
import QuantForge.Model.JsonPath
import QuantForge.Model.OrderSerde
import QuantForge.Storage.Sqlite.LegacyIds
import QuantForge.Storage.Sqlite.LegacyOrders
import QuantForge.Storage.Sqlite.IdsMigrated
import QuantForge.Storage.Postgres.Writes
import QuantForge.Storage.Postgres.Acknowledged
import QuantForge.Storage.Postgres.Serial
import QuantForge.Storage.Postgres.Progress
import QuantForge.Storage.Postgres.Binding
import QuantForge.Storage.Postgres.Answered
import QuantForge.Protocol.Version


