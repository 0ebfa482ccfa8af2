import Lifeline.Code.Event
import Lifeline.Code.Fold
import Lifeline.Code.Synthesis
import Lifeline.Code.Tree
import Lifeline.Data.Basic
import Lifeline.Data.Schema
import Lifeline.Diagram.Decode
import Lifeline.Diagram.Element
import Lifeline.Diagram.Error
import Lifeline.Diagram.Label
import Lifeline.Diagram.Line
import Lifeline.Diagram.Reader
import Lifeline.Gate.Outcome
import Lifeline.Gate.Rules
import Lifeline.Graph.Cycle
import Lifeline.Guard
import Lifeline.Json.Parser
import Lifeline.Json.Printer
import Lifeline.Message
import Lifeline.Model.Basic
import Lifeline.Model.Build
import Lifeline.Model.Error
import Lifeline.Model.Walk
import Lifeline.Name.Case
import Lifeline.Name.Unique
import Lifeline.Number.Binary64
import Lifeline.Pattern.Basic
import Lifeline.Pattern.Reader
import Lifeline.Plan.Basic
import Lifeline.Plan.Commit
import Lifeline.Plan.Error
import Lifeline.Plan.Placement
import Lifeline.Plan.Reconcile
import Lifeline.Profile.Basic
import Lifeline.Profile.Declaration
import Lifeline.Profile.Decode
import Lifeline.Profile.Load
import Lifeline.Profile.Template
import Lifeline.Proofs.Alike
import Lifeline.Proofs.Code.Anchors
import Lifeline.Proofs.Code.Bodies
import Lifeline.Proofs.Code.Calls
import Lifeline.Proofs.Code.Checks
import Lifeline.Proofs.Code.Closing
import Lifeline.Proofs.Code.Constants
import Lifeline.Proofs.Code.Declared
import Lifeline.Proofs.Code.Drive
import Lifeline.Proofs.Code.Events
import Lifeline.Proofs.Code.Fold
import Lifeline.Proofs.Code.Leaves
import Lifeline.Proofs.Code.Moments
import Lifeline.Proofs.Code.Nodes
import Lifeline.Proofs.Code.Places
import Lifeline.Proofs.Code.Reach
import Lifeline.Proofs.Code.Reads
import Lifeline.Proofs.Code.Rebuilt
import Lifeline.Proofs.Code.Repeated
import Lifeline.Proofs.Code.Runs
import Lifeline.Proofs.Code.Stops
import Lifeline.Proofs.Code.Ties
import Lifeline.Proofs.Code.Told
import Lifeline.Proofs.Code.Variables
import Lifeline.Proofs.Data.Schema
import Lifeline.Proofs.Diagram.Activations
import Lifeline.Proofs.Diagram.ArgumentLists
import Lifeline.Proofs.Diagram.ArrowLines
import Lifeline.Proofs.Diagram.Blocks
import Lifeline.Proofs.Diagram.Cutting
import Lifeline.Proofs.Diagram.Grammar
import Lifeline.Proofs.Diagram.Lines
import Lifeline.Proofs.Diagram.OpenCalls
import Lifeline.Proofs.Diagram.Origins
import Lifeline.Proofs.Diagram.Plain
import Lifeline.Proofs.Diagram.Reading
import Lifeline.Proofs.Diagram.Spelling
import Lifeline.Proofs.Gate.Accepted
import Lifeline.Proofs.Gate.Completion
import Lifeline.Proofs.Gate.DataFlow
import Lifeline.Proofs.Gate.Faults
import Lifeline.Proofs.Gate.Parity
import Lifeline.Proofs.Gate.Patterns
import Lifeline.Proofs.Gate.ResultChecks
import Lifeline.Proofs.Graph.Cycle
import Lifeline.Proofs.Graph.Search
import Lifeline.Proofs.Json.Roundtrip
import Lifeline.Proofs.Json.Strings
import Lifeline.Proofs.Lists
import Lifeline.Proofs.Message.Formatting
import Lifeline.Proofs.Message.Placeholders
import Lifeline.Proofs.Message.Slots
import Lifeline.Proofs.Model.Arguments
import Lifeline.Proofs.Model.BlockOwners
import Lifeline.Proofs.Model.Building
import Lifeline.Proofs.Model.Circles
import Lifeline.Proofs.Model.Elements
import Lifeline.Proofs.Model.Inference
import Lifeline.Proofs.Model.Messages
import Lifeline.Proofs.Model.Owners
import Lifeline.Proofs.Model.Plain
import Lifeline.Proofs.Model.Refusals
import Lifeline.Proofs.Model.Resolving
import Lifeline.Proofs.Model.Roots
import Lifeline.Proofs.Model.ScopeTree
import Lifeline.Proofs.Model.Scopes
import Lifeline.Proofs.Model.Sound
import Lifeline.Proofs.Model.Steps
import Lifeline.Proofs.Model.Strictness
import Lifeline.Proofs.Model.Walk
import Lifeline.Proofs.Model.Warnings
import Lifeline.Proofs.Name.Letters
import Lifeline.Proofs.Name.Patterns
import Lifeline.Proofs.Name.Unique
import Lifeline.Proofs.Name.Words
import Lifeline.Proofs.Outcome
import Lifeline.Proofs.Pattern.Lasting
import Lifeline.Proofs.Pattern.Matching
import Lifeline.Proofs.Pattern.Written
import Lifeline.Proofs.Plan.Bytes
import Lifeline.Proofs.Plan.Commit
import Lifeline.Proofs.Plan.Declared
import Lifeline.Proofs.Plan.Found
import Lifeline.Proofs.Plan.Recognised
import Lifeline.Proofs.Plan.Replan
import Lifeline.Proofs.Plan.Settled
import Lifeline.Proofs.Roles
import Lifeline.Proofs.Run.Generate
import Lifeline.Proofs.Run.Inputs
import Lifeline.Proofs.Sorting
import Lifeline.Proofs.Source.Blocks
import Lifeline.Proofs.Source.Driven
import Lifeline.Proofs.Source.Literals
import Lifeline.Proofs.Source.Merging
import Lifeline.Proofs.Source.Rendering
import Lifeline.Proofs.Source.Sequences
import Lifeline.Proofs.Source.Setup
import Lifeline.Proofs.Source.SharedPaths
import Lifeline.Proofs.Source.Standing
import Lifeline.Proofs.Source.Texts
import Lifeline.Proofs.Stages
import Lifeline.Proofs.Store.Decode
import Lifeline.Proofs.Store.Replace
import Lifeline.Proofs.Store.Writer
import Lifeline.Proofs.Tests.Choices
import Lifeline.Proofs.Tests.Codec
import Lifeline.Proofs.Tests.Failures
import Lifeline.Proofs.Tests.Groups
import Lifeline.Proofs.Tests.Holders
import Lifeline.Proofs.Tests.Inference
import Lifeline.Proofs.Tests.Mocks
import Lifeline.Proofs.Tests.Names
import Lifeline.Proofs.Tests.OwnRaises
import Lifeline.Proofs.Tests.Parameters
import Lifeline.Proofs.Tests.Paths
import Lifeline.Proofs.Tests.Plain
import Lifeline.Proofs.Tests.Propagation
import Lifeline.Proofs.Tests.Raises
import Lifeline.Proofs.Tests.References
import Lifeline.Proofs.Tests.Steering
import Lifeline.Proofs.Tests.Trees
import Lifeline.Proofs.Text.Blanks
import Lifeline.Roles
import Lifeline.Run.Config
import Lifeline.Run.Error
import Lifeline.Run.Execution
import Lifeline.Run.Load
import Lifeline.Run.Report
import Lifeline.Sorting
import Lifeline.Source.CodeFile
import Lifeline.Source.File
import Lifeline.Source.Render
import Lifeline.Source.Renderer
import Lifeline.Source.TestFile
import Lifeline.Store.Basic
import Lifeline.Store.Directory
import Lifeline.Store.Memory
import Lifeline.Store.Path
import Lifeline.Template
import Lifeline.Tests.Codec
import Lifeline.Tests.Decision
import Lifeline.Tests.Error
import Lifeline.Tests.Steering
import Lifeline.Tests.Synthesis
import Lifeline.Tests.Tree
import Lifeline.Text.Basic
import Lifeline.Text.Case
import Lifeline.Text.Char
import Lifeline.Text.Lexeme
import Lifeline.Text.Quoted
import Lifeline.Text.Ranges
import Lifeline.Text.Table.Case
import Lifeline.Text.Table.Identifier
import Lifeline.Text.Table.Printable
import Lifeline.Text.Table.Word
import Lifeline.Yaml.Cursor
import Lifeline.Yaml.Node
import Lifeline.Yaml.Scalar
import Lifeline.Yaml.Token
import Lifeline.Yaml.Value
