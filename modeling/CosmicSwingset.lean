import CosmicSwingset.Solo.OutputCommit
import CosmicSwingset.Solo.DeliveryOrder
import CosmicSwingset.Solo.OutboundRuns
import CosmicSwingset.Solo.HelperQueueSafety
import CosmicSwingset.Solo.CheckpointOrder
import CosmicSwingset.Chain.KeeperRefinement
import CosmicSwingset.Chain.Attribution
import CosmicSwingset.Chain.CrashConsistency
import CosmicSwingset.Chain.DiscardedTransaction
import CosmicSwingset.Chain.Publication
import CosmicSwingset.Vats.PledgerConservation
import CosmicSwingset.Solo.Attenuation
import CosmicSwingset.Solo.SentCommit
import CosmicSwingset.Foundation.Decimal
import CosmicSwingset.Foundation.GoJson
import CosmicSwingset.Chain.Storage
import CosmicSwingset.Chain.UnmarshalMessages
import CosmicSwingset.Chain.Enumeration
import CosmicSwingset.Chain.MailboxStorage
import CosmicSwingset.Chain.DeliverEncoding
import CosmicSwingset.Chain.Querier
import CosmicSwingset.Solo.GetMailbox
import CosmicSwingset.Chain.StorageErrors
import CosmicSwingset.Chain.QueryRoutes
import CosmicSwingset.Solo.MailboxQueries
import CosmicSwingset.Solo.Startup
import CosmicSwingset.Solo.Isolation
import CosmicSwingset.Foundation.Numbered
import CosmicSwingset.Vats.Registry
import CosmicSwingset.Chain.AgCosmosDaemon
import CosmicSwingset.Chain.StoragePorts
import CosmicSwingset.Setup.Bootstrap
import CosmicSwingset.Solo.ConnectionTables
import CosmicSwingset.Foundation.Grouping
import CosmicSwingset.Solo.FileReplacement
import CosmicSwingset.Solo.OriginCheck
import CosmicSwingset.Solo.SetGciIngress
import CosmicSwingset.Foundation.ShellWords
import CosmicSwingset.Setup.ShellEscape
import CosmicSwingset.Foundation.Hcl
import CosmicSwingset.Setup.TfStringify
import CosmicSwingset.Setup.NodeNumbering
import CosmicSwingset.Provisioning.DoEnablePubkeys
import CosmicSwingset.Provisioning.EnablePubkey
import CosmicSwingset.Vats.Repl
import CosmicSwingset.Chain.SetMailbox
import CosmicSwingset.Vats.ReplStringify
import CosmicSwingset.Foundation.Ledger
import CosmicSwingset.Vats.Mint
import CosmicSwingset.Foundation.Coercion
import CosmicSwingset.Vats.ReplHistory
import CosmicSwingset.Foundation.JsonPath
import CosmicSwingset.Setup.SetJson
import CosmicSwingset.Solo.PledgerBridge
import CosmicSwingset.Vats.PledgerBalances
import CosmicSwingset.Foundation.Traversal
import CosmicSwingset.Captp.Cycles
import CosmicSwingset.Captp.Validation
import CosmicSwingset.Captp.Promises
import CosmicSwingset.Captp.Delivery
import CosmicSwingset.Chain.StoredNode
import CosmicSwingset.Chain.PublishedMaps
import CosmicSwingset.Solo.MailboxReads
import CosmicSwingset.Vats.Pubsub
import CosmicSwingset.Solo.CanvasPage
import CosmicSwingset.Solo.CanvasRuns
import CosmicSwingset.Foundation.Resending
import CosmicSwingset.Chain.GetCmdDeliver
import CosmicSwingset.Solo.Submissions
import CosmicSwingset.Solo.ReceivedOnce
import CosmicSwingset.Solo.BlockedDeliveries
import CosmicSwingset.Foundation.JsonOutline
import CosmicSwingset.Foundation.PythonJson
import CosmicSwingset.Provisioning.PubkeyDatabase
