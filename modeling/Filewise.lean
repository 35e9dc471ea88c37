import Filewise.Config.Decode
import Filewise.Config.Save
import Filewise.Engine.Simple
import Filewise.Main
import Filewise.Proofs.Path.Components
import Filewise.Proofs.Path.Extension
import Filewise.Proofs.Dict
import Filewise.Proofs.Path.Parent
import Filewise.Proofs.Plan.OutputPath
import Filewise.Proofs.Path.Order
import Filewise.Proofs.Report.Order
import Filewise.Proofs.Tree.Directories
import Filewise.Proofs.Output.Writing
import Filewise.Proofs.Source.Enumerate
import Filewise.Proofs.Plan.Groups
import Filewise.Proofs.Plan.Planner
import Filewise.Proofs.Plan.Destination
import Filewise.Proofs.Pool.Run
import Filewise.Proofs.Pool.Accounting
import Filewise.Proofs.Pool.Success
import Filewise.Proofs.Pool.Job
import Filewise.Proofs.Pool.Undisturbed
import Filewise.Proofs.Plan.Separation
import Filewise.Proofs.Pool.Schedule
import Filewise.Proofs.Pool.Halt
import Filewise.Proofs.Pool.Claims
import Filewise.Proofs.Pool.Sources
import Filewise.Proofs.Script.Grammar
import Filewise.Proofs.Script.Tokens
import Filewise.Proofs.Number.Rounding
import Filewise.Proofs.Number.Shortest
import Filewise.Proofs.Number.Layout
import Filewise.Proofs.Value.Printer
import Filewise.Proofs.Plan.Validation
import Filewise.Proofs.Plan.Candidates
import Filewise.Proofs.Plan.Records
import Filewise.Proofs.Plan.Accounting
import Filewise.Proofs.Plan.Shown
import Filewise.Proofs.Tree.Changes
import Filewise.Proofs.Plan.Unchanged
import Filewise.Proofs.Pool.Rebuild
import Filewise.Proofs.Plan.History
import Filewise.Proofs.Script.Names
import Filewise.Proofs.Tree.Contents
import Filewise.Proofs.Output.Owners
import Filewise.Proofs.Config.Saved
import Filewise.Proofs.Chain.Resolution
import Filewise.Proofs.Schema.Places
import Filewise.Proofs.Schema.Options
import Filewise.Proofs.Script.Substitution
import Filewise.Proofs.Chain.Keys
import Filewise.Proofs.Plan.Directory
import Filewise.Proofs.Script.Lines
import Filewise.Proofs.Script.Unclosed
import Filewise.Proofs.Script.Licenses
import Filewise.Proofs.Output.Draft
import Filewise.Proofs.Pool.Failure
import Filewise.Proofs.Chain.Conversion
import Filewise.Proofs.Source.History
import Filewise.Proofs.Registry.History
import Filewise.Proofs.Source.Globs
import Filewise.Proofs.Script.Boundaries
import Filewise.Proofs.Text.Bytes
import Filewise.Proofs.Registry.Suggestion
import Filewise.Proofs.Path.Replacement
import Filewise.Proofs.Plan.Remaps
