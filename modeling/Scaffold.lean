import Scaffold.Main
import Scaffold.Proofs.Tree.Step
import Scaffold.Proofs.Tree.Action
import Scaffold.Proofs.Project.Nearest
import Scaffold.Proofs.Flow.Registration
import Scaffold.Proofs.Flow.Containment
import Scaffold.Proofs.Json.Dictionary
import Scaffold.Proofs.Tree.Growth
import Scaffold.Proofs.Tree.Passage
import Scaffold.Proofs.Tree.Inside
import Scaffold.Proofs.Tree.Addition
import Scaffold.Proofs.Flow.Record
import Scaffold.Proofs.Flow.Entrypoint
import Scaffold.Proofs.Flow.Storage
import Scaffold.Proofs.Flow.History
import Scaffold.Proofs.Flow.Interleaving
import Scaffold.Proofs.Source.Object
import Scaffold.Proofs.Source.Declaration
import Scaffold.Proofs.Source.Literal
import Scaffold.Proofs.Flow.Agreement
import Scaffold.Proofs.Flow.Naming
import Scaffold.Proofs.Tree.Filling
import Scaffold.Proofs.Flow.Commutation
import Scaffold.Proofs.Template.Spelling
import Scaffold.Proofs.Template.Expansion
import Scaffold.Proofs.Template.Replacement
import Scaffold.Proofs.Text.Occurrence
import Scaffold.Proofs.Text.Dictionary
import Scaffold.Proofs.Template.Report
import Scaffold.Proofs.Template.Rendering
import Scaffold.Proofs.Template.Occurrence
import Scaffold.Proofs.Template.Search
import Scaffold.Proofs.Template.Removal
import Scaffold.Proofs.Template.Dependence
import Scaffold.Proofs.Template.Rounds
import Scaffold.Proofs.Template.Composition
import Scaffold.Proofs.Tree.Directory
import Scaffold.Proofs.Project.Init
import Scaffold.Proofs.Project.Completion
import Scaffold.Proofs.Project.Marking
import Scaffold.Proofs.Project.Frame
import Scaffold.Proofs.Yaml.Cursor
import Scaffold.Proofs.Yaml.Folding
import Scaffold.Proofs.Yaml.Lexer
import Scaffold.Proofs.Yaml.Growth
import Scaffold.Proofs.Yaml.Stack
import Scaffold.Proofs.Yaml.Key
import Scaffold.Proofs.Yaml.Margin
import Scaffold.Proofs.Yaml.Piece
import Scaffold.Proofs.Yaml.Node
import Scaffold.Proofs.Yaml.Entries
import Scaffold.Proofs.Yaml.Shape
import Scaffold.Proofs.Yaml.Break
import Scaffold.Proofs.Yaml.Parts
import Scaffold.Proofs.Yaml.Joined
import Scaffold.Proofs.Yaml.Printer
import Scaffold.Proofs.Yaml.Value
import Scaffold.Proofs.Project.Config
import Scaffold.Proofs.Project.Migration
import Scaffold.Proofs.Project.Appending
import Scaffold.Proofs.Project.Inference
import Scaffold.Proofs.Command.Fields
