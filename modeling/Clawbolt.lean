import Clawbolt.Core.Runs
import Clawbolt.Core.Passes
import Clawbolt.Core.Schedule
import Clawbolt.Core.Deltas
import Clawbolt.Core.Text
import Clawbolt.Core.Register
import Clawbolt.Core.Groups
import Clawbolt.Core.Glob
import Clawbolt.Core.Json
import Clawbolt.Core.Fallible
import Clawbolt.Approval.Gate
import Clawbolt.Approval.OneRequest
import Clawbolt.Approval.Slot
import Clawbolt.Approval.Permissions
import Clawbolt.Approval.StoredPermissions
import Clawbolt.Ingestion.Batcher
import Clawbolt.Agent.ToolRound
import Clawbolt.Agent.RoundAnswers
import Clawbolt.Agent.RoundOrder
import Clawbolt.Agent.StreamedCalls
import Clawbolt.Agent.Reassembly
import Clawbolt.Session.Store
import Clawbolt.Session.Delete
import Clawbolt.Session.Watermark
import Clawbolt.Core.PosixPath
import Clawbolt.Workspace.Files
import Clawbolt.Workspace.Turn
import Clawbolt.Workspace.Chain
import Clawbolt.Memory.Documents
import Clawbolt.Memory.Updates
import Clawbolt.History.Message
import Clawbolt.History.Convert
import Clawbolt.History.Epoch
import Clawbolt.History.Rebuild
import Clawbolt.History.FixedPoint
import Clawbolt.History.WriteResults
import Clawbolt.History.CleanCut
import Clawbolt.History.Compaction
import Clawbolt.History.Trim
import Clawbolt.History.Window
import Clawbolt.History.Slices
import Clawbolt.History.Turn
import Clawbolt.History.Shed
import Clawbolt.History.RowRender
import Clawbolt.History.ProseLast
import Clawbolt.Core.Bisect
import Clawbolt.History.FewestTurns
import Clawbolt.QuickBooks.Merge
import Clawbolt.QuickBooks.Update
import Clawbolt.QuickBooks.Resend
import Clawbolt.QuickBooks.Prompt
import Clawbolt.QuickBooks.Repeat
import Clawbolt.Recovery.Rows
import Clawbolt.Recovery.Sweep
import Clawbolt.Core.AsyncLock
import Clawbolt.Core.ReadyQueue
import Clawbolt.Midturn.Inbox
import Clawbolt.Midturn.Local
import Clawbolt.Midturn.Loop
import Clawbolt.Midturn.AnsweredOnce
import Clawbolt.Core.Totals
import Clawbolt.Alerts.Store
import Clawbolt.Alerts.CountedOnce
import Clawbolt.Alerts.Health
import Clawbolt.Core.Newest
import Clawbolt.Inbound.Dedup
import Clawbolt.Inbound.BlueBubbles
import Clawbolt.OAuth.Refresh
import Clawbolt.OAuth.Reconnect
import Clawbolt.OAuth.SpentOnce
import Clawbolt.Core.Exchange
import Clawbolt.AgentLoop.Messages
import Clawbolt.AgentLoop.Breakpoints
import Clawbolt.AgentLoop.Layout
import Clawbolt.AgentLoop.Process
import Clawbolt.AgentLoop.Handed
import Clawbolt.Channels.Routes
import Clawbolt.Channels.OneChannel
import Clawbolt.Billing.Quota
import Clawbolt.Billing.Counted
import Clawbolt.Accounts.Inactivity
import Clawbolt.Accounts.Cleanup
import Clawbolt.Capture.Rows
import Clawbolt.Capture.Answers
import Clawbolt.Onboarding.Exit
import Clawbolt.Endpoints.Requests
import Clawbolt.Endpoints.Selections
import Clawbolt.ToolConfig.Requests
import Clawbolt.ToolConfig.Toggles
import Clawbolt.ToolConfig.TurnTools
import Clawbolt.Comparison.Runner
import Clawbolt.Comparison.FinalEnd
import Clawbolt.Core.Tokens
import Clawbolt.Core.Dumps
import Clawbolt.Comparison.Ids
import Clawbolt.Comparison.Checks
import Clawbolt.Comparison.Shown
import Clawbolt.Comparison.Sampling
import Clawbolt.Comparison.Tail
import Clawbolt.Core.Orders
import Clawbolt.Calendar.Resync
import Clawbolt.Calendar.ListEvents
import Clawbolt.Core.Replacement
import Clawbolt.Storage.Edit
import Clawbolt.Core.Pattern
import Clawbolt.Core.Spans
import Clawbolt.SharedData.Redaction
import Clawbolt.SharedData.Views
import Clawbolt.SharedData.Shown
import Clawbolt.Core.Utf8
import Clawbolt.Core.Base64
import Clawbolt.Encryption.Envelope
import Clawbolt.Encryption.Containment
import Clawbolt.OAuth.TokenCache
import Clawbolt.OAuth.Sweep
import Clawbolt.Core.Overflow
import Clawbolt.Media.Staging
import Clawbolt.Media.Cap
import Clawbolt.Memory.History
import Clawbolt.Core.Markers
import Clawbolt.History.Guidance
import Clawbolt.Core.Fresh
import Clawbolt.Files.Names
import Clawbolt.Files.Drive
import Clawbolt.Files.Tools
import Clawbolt.Files.OneCopy
import Clawbolt.Files.Shadow
import Clawbolt.Comparison.Replay
import Clawbolt.Core.Canonical
import Clawbolt.Comparison.Writes
import Clawbolt.AppFolio.Session
import Clawbolt.ServiceTitan.Mint
import Clawbolt.Core.Floats
import Clawbolt.AppFolio.Invoice
import Clawbolt.CompanyCam.Photos
import Clawbolt.Core.Rose
import Clawbolt.Core.Markup
import Clawbolt.Gmail.Parts
import Clawbolt.Core.Pruned
import Clawbolt.WebSearch.Brave
import Clawbolt.Core.Regex
import Clawbolt.Gmail.BodyTrim
import Clawbolt.History.CompactionRecovery
import Clawbolt.Concurrency
import Clawbolt.Receipts.Render
import Clawbolt.Receipts.Dispatch
import Clawbolt.Receipts.Bounded
import Clawbolt.Accounts.Deletion
import Clawbolt.Auth.AdminGuard
import Clawbolt.Endpoints.Cache
import Clawbolt.Approval.PreApproval
import Clawbolt.Comparison.Truncation
import Clawbolt.AgentLoop.Delivery
import Clawbolt.Approval.Orphans
import Clawbolt.Comparison.Tally
import Clawbolt.Channels.WebChat
import Clawbolt.AgentLoop.Remembered
import Clawbolt.Approval.Writers
import Clawbolt.Approval.Replies
import Clawbolt.Heartbeat.Scheduler
import Clawbolt.Alerts.FailureSample
import Clawbolt.Alerts.FailureConsent
import Clawbolt.AgentLoop.Rendered
import Clawbolt.AgentLoop.Requests
