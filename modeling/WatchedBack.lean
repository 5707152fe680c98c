import WatchedBack.Library.AutoIncrement
import WatchedBack.Library.Defaults
import WatchedBack.Library.Fallible
import WatchedBack.Library.Grouping
import WatchedBack.Library.Growth
import WatchedBack.Library.Interleavings
import WatchedBack.Library.Iterators
import WatchedBack.Library.Joins
import WatchedBack.Library.Laminar
import WatchedBack.Library.Ledger
import WatchedBack.Library.Monitor
import WatchedBack.Library.NullAggregates
import WatchedBack.Library.Outputs
import WatchedBack.Library.Reconcile
import WatchedBack.Library.Reports
import WatchedBack.Library.Rounding
import WatchedBack.Library.Runs
import WatchedBack.Library.Shell
import WatchedBack.Library.Templates
import WatchedBack.Library.UniqueIndex
import WatchedBack.Library.Upserts
import WatchedBack.Library.Watermarks
import WatchedBack.Model.Aggregator
import WatchedBack.Model.Aggregators
import WatchedBack.Model.Alerter
import WatchedBack.Model.Api
import WatchedBack.Model.Backends
import WatchedBack.Model.Collect
import WatchedBack.Model.Configuration
import WatchedBack.Model.Counters
import WatchedBack.Model.Database
import WatchedBack.Model.Deletions
import WatchedBack.Model.EventClients
import WatchedBack.Model.FailingAlerts
import WatchedBack.Model.FailingLookups
import WatchedBack.Model.Groups
import WatchedBack.Model.InsertText
import WatchedBack.Model.Items
import WatchedBack.Model.Json
import WatchedBack.Model.Lookups
import WatchedBack.Model.Measurements
import WatchedBack.Model.Permissions
import WatchedBack.Model.Plugins
import WatchedBack.Model.Polls
import WatchedBack.Model.Pool
import WatchedBack.Model.Query
import WatchedBack.Model.Replies
import WatchedBack.Model.Ressource
import WatchedBack.Model.Ressources
import WatchedBack.Model.Rounds
import WatchedBack.Model.Services
import WatchedBack.Model.Settings
import WatchedBack.Model.Setup
import WatchedBack.Model.Startup
import WatchedBack.Model.Threads
import WatchedBack.Model.Views
import WatchedBack.Verification.Lookups
import WatchedBack.Verification.Lookups.Failures
import WatchedBack.Verification.Samples.Keys
import WatchedBack.Verification.Samples.Template
import WatchedBack.Verification.Samples.Measurements
import WatchedBack.Verification.Events.Agreement
import WatchedBack.Verification.Events.Failures
import WatchedBack.Verification.Events.Faults
import WatchedBack.Verification.Events.Lifecycle
import WatchedBack.Verification.Events.Restart
import WatchedBack.Verification.Events.Steps
import WatchedBack.Verification.Events.ClosingLoop
import WatchedBack.Verification.Collect.Logs
import WatchedBack.Verification.Collect.Reply
import WatchedBack.Verification.Collect.Services
import WatchedBack.Verification.Collect.Since
import WatchedBack.Verification.Rounds.Kept
import WatchedBack.Verification.Rounds.Missing
import WatchedBack.Verification.Rounds.Uninterrupted
import WatchedBack.Verification.Replies.Reports
import WatchedBack.Verification.Replies.Outcome
import WatchedBack.Verification.Replies.LogEntries
import WatchedBack.Verification.Replies.ServiceAlerts
import WatchedBack.Verification.Replies.Repeated
import WatchedBack.Verification.Replies.History
import WatchedBack.Verification.Replies.Views
import WatchedBack.Verification.Alerts.Mail
import WatchedBack.Verification.Alerts.Severity
import WatchedBack.Verification.Alerts.Failures
import WatchedBack.Verification.Alerts.Plugins
import WatchedBack.Verification.Permissions.Alerting
import WatchedBack.Verification.Permissions.Views
import WatchedBack.Verification.Permissions.Sight
import WatchedBack.Verification.Permissions.Addresses
import WatchedBack.Verification.Aggregates.Day
import WatchedBack.Verification.Aggregates.History
import WatchedBack.Verification.Aggregates.Hour
import WatchedBack.Verification.Aggregates.Minute
import WatchedBack.Verification.Aggregates.Passes
import WatchedBack.Verification.Aggregates.Selection
import WatchedBack.Verification.Aggregates.View
import WatchedBack.Verification.Aggregates.Texts
import WatchedBack.Verification.Aggregates.Purges
import WatchedBack.Verification.Aggregates.Setup
import WatchedBack.Verification.Aggregates.Settings
import WatchedBack.Verification.Aggregates.Schema
import WatchedBack.Verification.Aggregates.SetupSteps
import WatchedBack.Verification.Aggregates.Provenance
import WatchedBack.Verification.Aggregates.Shared
import WatchedBack.Verification.Aggregates.Alone
import WatchedBack.Verification.Pool.Accounting
import WatchedBack.Verification.Pool.Startup
import WatchedBack.Verification.Pool.Healing
import WatchedBack.Verification.Pool.Bound
import WatchedBack.Verification.Agents.Configured
import WatchedBack.Verification.Agents.Counters
import WatchedBack.Verification.Backends.Marking
import WatchedBack.Verification.Backends.Schedule
import WatchedBack.Verification.Backends.Groups
import WatchedBack.Verification.Startup
import WatchedBack.Verification.Api.Binding
import WatchedBack.Verification.Api.Catalog
import WatchedBack.Verification.Api.Columns
import WatchedBack.Verification.Api.DataTypes
import WatchedBack.Verification.Api.Rebuild
import WatchedBack.Verification.Api.Tables
import WatchedBack.Verification.Api.Update
import WatchedBack.Verification.Api.AnyPaths
import WatchedBack.Verification.Api.Items
import WatchedBack.Verification.Api.Deletions
import WatchedBack.Verification.Api.Paths
import WatchedBack.Verification.Concurrency.Names
import WatchedBack.Verification.Concurrency.Ressources
import WatchedBack.Verification.Concurrency.Events
