import MoneroWalletCore.Address.AddressCheck
import MoneroWalletCore.Foundation.FixedWidth
import MoneroWalletCore.Address.Base58
import MoneroWalletCore.Address.Spelling
import MoneroWalletCore.Address.Misspelling
import MoneroWalletCore.Foundation.Program
import MoneroWalletCore.Runtime.Json
import MoneroWalletCore.Runtime.State
import MoneroWalletCore.Runtime.Actions
import MoneroWalletCore.Runtime.Jobs
import MoneroWalletCore.Runtime.Tickets
import MoneroWalletCore.Runtime.Turn
import MoneroWalletCore.Foundation.Thread
import MoneroWalletCore.Runtime.System
import MoneroWalletCore.Runtime.Rules
import MoneroWalletCore.Runtime.Histories
import MoneroWalletCore.Runtime.Frames
import MoneroWalletCore.Runtime.TurnInvariants
import MoneroWalletCore.Session.OpenStages
import MoneroWalletCore.Session.JobRules
import MoneroWalletCore.Session.DialTargets
import MoneroWalletCore.Runtime.Replay
import MoneroWalletCore.Session.ProxyPolicy
import MoneroWalletCore.Session.JobTurns
import MoneroWalletCore.Session.OpenAttempt
import MoneroWalletCore.Session.StateLabel
import MoneroWalletCore.Session.SendGate
import MoneroWalletCore.Session.DialAnswers
import MoneroWalletCore.Session.NoWayBack
import MoneroWalletCore.Session.WaitingRoute
import MoneroWalletCore.Session.SectionTurns
import MoneroWalletCore.Session.Progress
import MoneroWalletCore.Session.GiveUp
import MoneroWalletCore.Session.SettingsLock
import MoneroWalletCore.Tickets.Receipts
import MoneroWalletCore.Tickets.Attendance
import MoneroWalletCore.Tickets.Filing
import MoneroWalletCore.Tickets.Outcomes
import MoneroWalletCore.Address.Decoding
import MoneroWalletCore.Clients.Reads
import MoneroWalletCore.Foundation.KeccakSponge
import MoneroWalletCore.Foundation.Pool
import MoneroWalletCore.Foundation.ReadersWriter
import MoneroWalletCore.Transactions.Txids
import MoneroWalletCore.Address.Hashing
import MoneroWalletCore.Transactions.Relay
import MoneroWalletCore.Transactions.Building
import MoneroWalletCore.Session.FailedJobs
import MoneroWalletCore.Session.Trust
import MoneroWalletCore.Session.Refresh
import MoneroWalletCore.Clients.CoreImpl
import MoneroWalletCore.Clients.Indices
import MoneroWalletCore.Session.Naming
import MoneroWalletCore.Clients.Module
import MoneroWalletCore.Clients.HandleLock
import MoneroWalletCore.Clients.Sessions
import MoneroWalletCore.Clients.Schedules
import MoneroWalletCore.Address.VarintPrefix
import MoneroWalletCore.Clients.Sights
import MoneroWalletCore.Clients.FreshAddresses
import MoneroWalletCore.Clients.Probing
import MoneroWalletCore.Clients.KeyMaterial
import MoneroWalletCore.Clients.StatusSnapshot
import MoneroWalletCore.Clients.HistoryRows
import MoneroWalletCore.Transactions.TxBook
import MoneroWalletCore.Transactions.Handles
import MoneroWalletCore.Transactions.HandleJobs
import MoneroWalletCore.Clients.Custody
import MoneroWalletCore.Clients.Lifetimes
import MoneroWalletCore.Clients.Shutdown
import MoneroWalletCore.Clients.Confinement
import MoneroWalletCore.Clients.Deadlock
import MoneroWalletCore.Foundation.Twins
import MoneroWalletCore.Session.Announcements
import MoneroWalletCore.Session.Lifecycle
import MoneroWalletCore.Session.Secrets
