import SupplyLint.Calendar
import SupplyLint.CommandLine.Arguments
import SupplyLint.CommandLine.Invocation
import SupplyLint.CommandLine.Run
import SupplyLint.CommandLine.Usage
import SupplyLint.Config
import SupplyLint.ConfigFile
import SupplyLint.Decimal.Binary64
import SupplyLint.Decimal.Literal
import SupplyLint.Decimal.Shortest
import SupplyLint.Distinct
import SupplyLint.Failure
import SupplyLint.Fault
import SupplyLint.Finding
import SupplyLint.Github.Job
import SupplyLint.Github.Workflow
import SupplyLint.Gitlab.Configuration
import SupplyLint.Gitlab.Extends
import SupplyLint.Gitlab.Include
import SupplyLint.Gitlab.Job
import SupplyLint.Gitlab.Trigger
import SupplyLint.Json
import SupplyLint.Keyed
import SupplyLint.Main
import SupplyLint.Package.Reference
import SupplyLint.Pipeline.Basic
import SupplyLint.Pipeline.Document
import SupplyLint.Pipeline.Field
import SupplyLint.Pipeline.Needs
import SupplyLint.Pipeline.Problem
import SupplyLint.Pipeline.Source
import SupplyLint.Proofs.Address
import SupplyLint.Proofs.CommandLine.Ends
import SupplyLint.Proofs.CommandLine.Exit
import SupplyLint.Proofs.Config
import SupplyLint.Proofs.ConfigFile
import SupplyLint.Proofs.Document.Alone
import SupplyLint.Proofs.Document.Bounded
import SupplyLint.Proofs.Document.Calls
import SupplyLint.Proofs.Document.Faults
import SupplyLint.Proofs.Document.Jobs
import SupplyLint.Proofs.Document.Nesting
import SupplyLint.Proofs.Document.Origins
import SupplyLint.Proofs.Document.Places
import SupplyLint.Proofs.Document.Repository
import SupplyLint.Proofs.Document.Returns
import SupplyLint.Proofs.Document.Rules
import SupplyLint.Proofs.Document.Triggers
import SupplyLint.Proofs.Document.Unlined
import SupplyLint.Proofs.Files
import SupplyLint.Proofs.Firsts
import SupplyLint.Proofs.Github.Calls
import SupplyLint.Proofs.Github.Inlining
import SupplyLint.Proofs.Github.Isolation
import SupplyLint.Proofs.Github.JobNames
import SupplyLint.Proofs.Github.Lookups
import SupplyLint.Proofs.Github.MalformedSteps
import SupplyLint.Proofs.Github.Origins
import SupplyLint.Proofs.Github.Permissions
import SupplyLint.Proofs.Github.Plain
import SupplyLint.Proofs.Github.Positions
import SupplyLint.Proofs.Github.Returns
import SupplyLint.Proofs.Github.StepPlace
import SupplyLint.Proofs.Github.Unlined
import SupplyLint.Proofs.Github.Workflow
import SupplyLint.Proofs.Gitlab.Accounts
import SupplyLint.Proofs.Gitlab.Chains
import SupplyLint.Proofs.Gitlab.ChildFiles
import SupplyLint.Proofs.Gitlab.Configuration
import SupplyLint.Proofs.Gitlab.Depth
import SupplyLint.Proofs.Gitlab.Expansion
import SupplyLint.Proofs.Gitlab.Extends
import SupplyLint.Proofs.Gitlab.Fates
import SupplyLint.Proofs.Gitlab.Includes
import SupplyLint.Proofs.Gitlab.Inlining
import SupplyLint.Proofs.Gitlab.JobNames
import SupplyLint.Proofs.Gitlab.Lineless
import SupplyLint.Proofs.Gitlab.Lines
import SupplyLint.Proofs.Gitlab.Lookups
import SupplyLint.Proofs.Gitlab.Nested
import SupplyLint.Proofs.Gitlab.Origins
import SupplyLint.Proofs.Gitlab.Plain
import SupplyLint.Proofs.Gitlab.Problems
import SupplyLint.Proofs.Gitlab.Refusals
import SupplyLint.Proofs.Gitlab.Returns
import SupplyLint.Proofs.Gitlab.Sources
import SupplyLint.Proofs.Gitlab.Trails
import SupplyLint.Proofs.Gitlab.Unlined
import SupplyLint.Proofs.Image
import SupplyLint.Proofs.Inlined
import SupplyLint.Proofs.Keyed
import SupplyLint.Proofs.Lookups
import SupplyLint.Proofs.Merge
import SupplyLint.Proofs.Needs.Independence
import SupplyLint.Proofs.Needs.Run
import SupplyLint.Proofs.Needs.Validate
import SupplyLint.Proofs.Needs.Walk
import SupplyLint.Proofs.Origin
import SupplyLint.Proofs.Outcome
import SupplyLint.Proofs.Overlay
import SupplyLint.Proofs.Package
import SupplyLint.Proofs.Pinning
import SupplyLint.Proofs.Placement
import SupplyLint.Proofs.Plain
import SupplyLint.Proofs.Reading
import SupplyLint.Proofs.Report
import SupplyLint.Proofs.Report.Sarif
import SupplyLint.Proofs.Rule.Checks
import SupplyLint.Proofs.Rule.DefaultPermissions
import SupplyLint.Proofs.Rule.Evaluation
import SupplyLint.Proofs.Rule.Expression
import SupplyLint.Proofs.Rule.Jobs
import SupplyLint.Proofs.Rule.Order
import SupplyLint.Proofs.Rule.Places
import SupplyLint.Proofs.Rule.ScriptInjection
import SupplyLint.Proofs.Rule.UnpinnedPackage
import SupplyLint.Proofs.Rule.UntrustedCheckout
import SupplyLint.Proofs.Scan.Aggregate
import SupplyLint.Proofs.Scan.Checkout
import SupplyLint.Proofs.Scan.Cleanup
import SupplyLint.Proofs.Scan.Clone
import SupplyLint.Proofs.Scan.Confinement
import SupplyLint.Proofs.Scan.Discovery
import SupplyLint.Proofs.Scan.Dispatch
import SupplyLint.Proofs.Scan.Exclusion
import SupplyLint.Proofs.Scan.Folders
import SupplyLint.Proofs.Scan.ItemOrder
import SupplyLint.Proofs.Scan.Organization
import SupplyLint.Proofs.Scan.Pool
import SupplyLint.Proofs.Scan.Reported
import SupplyLint.Proofs.Scan.Schedule
import SupplyLint.Proofs.Scan.Stages
import SupplyLint.Proofs.Sifted
import SupplyLint.Proofs.Sorted
import SupplyLint.Proofs.Source
import SupplyLint.Proofs.Text.Scan
import SupplyLint.Proofs.Text.Split
import SupplyLint.Proofs.Text.Utf8
import SupplyLint.Proofs.Tree
import SupplyLint.Proofs.Unlined
import SupplyLint.Proofs.Value.Equality
import SupplyLint.Proofs.Value.Json
import SupplyLint.Proofs.Value.Text
import SupplyLint.Proofs.Value.Unlined
import SupplyLint.Proofs.Yaml.Construction
import SupplyLint.Proofs.Yaml.Flattening
import SupplyLint.Proofs.Yaml.Lines
import SupplyLint.Proofs.Yaml.Made
import SupplyLint.Proofs.Yaml.Marking
import SupplyLint.Proofs.Yaml.Steady
import SupplyLint.Report.Console
import SupplyLint.Report.Sarif
import SupplyLint.Report.Structured
import SupplyLint.Rule.AllSecrets
import SupplyLint.Rule.Basic
import SupplyLint.Rule.DebugLogging
import SupplyLint.Rule.DefaultPermissions
import SupplyLint.Rule.Event
import SupplyLint.Rule.Expression
import SupplyLint.Rule.ScriptInjection
import SupplyLint.Rule.SelfHostedRunner
import SupplyLint.Rule.Standard
import SupplyLint.Rule.UnpinnedPackage
import SupplyLint.Rule.UntrustedCheckout
import SupplyLint.Scan.Aggregate
import SupplyLint.Scan.Checkout
import SupplyLint.Scan.Clone
import SupplyLint.Scan.Organization
import SupplyLint.Scan.Outcome
import SupplyLint.Scan.Repository
import SupplyLint.Scan.Run
import SupplyLint.Text.Base64
import SupplyLint.Text.Blank
import SupplyLint.Text.Case
import SupplyLint.Text.CaseTable
import SupplyLint.Text.Code
import SupplyLint.Text.ControlSequence
import SupplyLint.Text.Glob
import SupplyLint.Text.Printable
import SupplyLint.Text.Quoted
import SupplyLint.Text.Resemblance
import SupplyLint.Text.Scan
import SupplyLint.Text.Split
import SupplyLint.Text.Utf8
import SupplyLint.Text.Word
import SupplyLint.Tree.Basic
import SupplyLint.Tree.Path
import SupplyLint.Value.Basic
import SupplyLint.Value.Json
import SupplyLint.Value.Text
import SupplyLint.Yaml.Construct
import SupplyLint.Yaml.Cursor
import SupplyLint.Yaml.Lexer
import SupplyLint.Yaml.Load
import SupplyLint.Yaml.Node
import SupplyLint.Yaml.Scalar
import SupplyLint.Yaml.ScalarValue
import SupplyLint.Yaml.Tag
import SupplyLint.Yaml.View
