import TokenAudit.Address
import TokenAudit.Agent.Arguments
import TokenAudit.Agent.Command
import TokenAudit.Agent.Duration
import TokenAudit.Agent.Run
import TokenAudit.Budget
import TokenAudit.Calldata
import TokenAudit.Clearance
import TokenAudit.Commit
import TokenAudit.Detector.Model
import TokenAudit.Detector.Outcome
import TokenAudit.Detector.Panel
import TokenAudit.Detector.Rules
import TokenAudit.Detector.Schedule
import TokenAudit.Detector.Security
import TokenAudit.Double
import TokenAudit.Error
import TokenAudit.Hex
import TokenAudit.Instant
import TokenAudit.Json
import TokenAudit.Json.Lookup
import TokenAudit.Json.Reader
import TokenAudit.Json.Record
import TokenAudit.Keccak
import TokenAudit.Main
import TokenAudit.Numeral
import TokenAudit.Pipeline
import TokenAudit.Proofs.Agent.Calls
import TokenAudit.Proofs.Agent.Durations
import TokenAudit.Proofs.Agent.Printing
import TokenAudit.Proofs.Agent.Verdicts
import TokenAudit.Proofs.Budget.Loops
import TokenAudit.Proofs.Budget.Spending
import TokenAudit.Proofs.Calldata.Codec
import TokenAudit.Proofs.Calldata.TradeIds
import TokenAudit.Proofs.Calldata.Words
import TokenAudit.Proofs.Clearance.Attempts
import TokenAudit.Proofs.Clearance.Granting
import TokenAudit.Proofs.Clearance.Schedule
import TokenAudit.Proofs.Commit.AtMostOnce
import TokenAudit.Proofs.Commit.Clock
import TokenAudit.Proofs.Commit.Desk
import TokenAudit.Proofs.Commit.Failing
import TokenAudit.Proofs.Commit.LiveWriter
import TokenAudit.Proofs.Commit.Outcome
import TokenAudit.Proofs.Commit.Resend
import TokenAudit.Proofs.Commit.Schedule
import TokenAudit.Proofs.Commit.Sending
import TokenAudit.Proofs.Commit.Told
import TokenAudit.Proofs.Detector.Answers
import TokenAudit.Proofs.Detector.Calls
import TokenAudit.Proofs.Detector.Duration
import TokenAudit.Proofs.Detector.Findings
import TokenAudit.Proofs.Detector.Independence
import TokenAudit.Proofs.Detector.Joining
import TokenAudit.Proofs.Detector.Lanes
import TokenAudit.Proofs.Detector.Lookup
import TokenAudit.Proofs.Detector.Reading
import TokenAudit.Proofs.Detector.Streaming
import TokenAudit.Proofs.Detector.Votes
import TokenAudit.Proofs.Double.Rounding
import TokenAudit.Proofs.Instant.Text
import TokenAudit.Proofs.Json.Free
import TokenAudit.Proofs.Json.Grammar
import TokenAudit.Proofs.Json.Numbers
import TokenAudit.Proofs.Json.Reading
import TokenAudit.Proofs.Json.Record
import TokenAudit.Proofs.Json.RoundTrip
import TokenAudit.Proofs.Json.Text
import TokenAudit.Proofs.Numeral.Figures
import TokenAudit.Proofs.Numeral.HexText
import TokenAudit.Proofs.Numeral.Spelling
import TokenAudit.Proofs.Pipeline.Agreement
import TokenAudit.Proofs.Pipeline.Cancellation
import TokenAudit.Proofs.Pipeline.Chain
import TokenAudit.Proofs.Pipeline.Course
import TokenAudit.Proofs.Pipeline.Duration
import TokenAudit.Proofs.Pipeline.Explanation
import TokenAudit.Proofs.Pipeline.Failure
import TokenAudit.Proofs.Pipeline.Fleet
import TokenAudit.Proofs.Pipeline.Meaning
import TokenAudit.Proofs.Pipeline.Quiet
import TokenAudit.Proofs.Pipeline.Replay
import TokenAudit.Proofs.Pipeline.Script
import TokenAudit.Proofs.Pipeline.Story
import TokenAudit.Proofs.Risk.Checks
import TokenAudit.Proofs.Risk.Membership
import TokenAudit.Proofs.Risk.Scores
import TokenAudit.Proofs.Rpc.Exchange
import TokenAudit.Proofs.Rpc.Switchboard
import TokenAudit.Proofs.Service.Building
import TokenAudit.Proofs.Service.Handlers
import TokenAudit.Proofs.Service.Visibility
import TokenAudit.Proofs.Source.Fallback
import TokenAudit.Proofs.Source.Lines
import TokenAudit.Proofs.Source.PollLog
import TokenAudit.Proofs.Source.Polling
import TokenAudit.Proofs.Source.Precedence
import TokenAudit.Proofs.Source.Readable
import TokenAudit.Proofs.Source.Requests
import TokenAudit.Proofs.Source.SearchLog
import TokenAudit.Proofs.Source.Sinks
import TokenAudit.Proofs.Source.Submission
import TokenAudit.Proofs.Source.Waits
import TokenAudit.Proofs.Stream.Contract
import TokenAudit.Proofs.Stream.FinalVerdict
import TokenAudit.Proofs.Stream.Grammar
import TokenAudit.Proofs.Stream.Heard
import TokenAudit.Proofs.Stream.PhaseLog
import TokenAudit.Proofs.Stream.Transactions
import TokenAudit.Proofs.Stream.Wire
import TokenAudit.Proofs.Wait.Sequence
import TokenAudit.Proofs.Wait.TimeLimit
import TokenAudit.Proofs.Wait.Timetable
import TokenAudit.Rehearsal
import TokenAudit.Rehearsal.Script
import TokenAudit.Report
import TokenAudit.Risk
import TokenAudit.Rpc
import TokenAudit.Rpc.Chain
import TokenAudit.Rpc.Client
import TokenAudit.Service.Api
import TokenAudit.Service.Assembly
import TokenAudit.Service.Params
import TokenAudit.Service.Session
import TokenAudit.Settings
import TokenAudit.Settings.Fault
import TokenAudit.Source
import TokenAudit.Source.Decompiler
import TokenAudit.Source.Explorer
import TokenAudit.Source.JobService
import TokenAudit.Source.Note
import TokenAudit.Source.Resolver
import TokenAudit.Stream
import TokenAudit.Stream.Feed
import TokenAudit.Text
import TokenAudit.Text.Utf8
import TokenAudit.Toml.Literal
import TokenAudit.Toml.Reader
import TokenAudit.Toml.Table
import TokenAudit.Verdict
import TokenAudit.Wait
import TokenAudit.Wait.Scope
import TokenAudit.Wait.Sleeper
import TokenAudit.Web.Exchange
import TokenAudit.Web.Host
import TokenAudit.Web.MediaType
import TokenAudit.Web.Percent
import TokenAudit.Web.Status
import TokenAudit.Web.Url
import TokenAudit.Wire
import TokenAudit.Word
import TokenAudit.World
