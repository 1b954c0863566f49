import StepGraph.Files.Tree
import StepGraph.Graph.Builder
import StepGraph.Main
import StepGraph.Proofs.Dataflow.Process
import StepGraph.Proofs.WellFormed
import StepGraph.Step.Scripted
import StepGraph.Proofs.Artifact.Agreement
import StepGraph.Proofs.Cycles
import StepGraph.Proofs.Artifact.Reshaping
import StepGraph.Proofs.Artifact.Schema
import StepGraph.Proofs.Artifact.Single
import StepGraph.Proofs.Artifact.Wrapping
import StepGraph.Proofs.Artifact.Calls
import StepGraph.Proofs.Artifact.Nesting
import StepGraph.Proofs.Reordering.Order
import StepGraph.Proofs.Comparison.Options
import StepGraph.Proofs.Comparison.NodeOrder
import StepGraph.Proofs.Renumbering.Runs
import StepGraph.Proofs.Library.Batch
import StepGraph.Proofs.Selection.Surface
import StepGraph.Proofs.Saving.Acceptance
import StepGraph.Proofs.Saving.Template
import StepGraph.Proofs.Directive.Restoring
import StepGraph.Proofs.Typing
import StepGraph.Proofs.Artifact.Fingerprint
import StepGraph.Proofs.Redeclaration
import StepGraph.Proofs.Surface.Accounting
import StepGraph.Proofs.Surface.Coverage
import StepGraph.Proofs.Surface.OutputNames
import StepGraph.Proofs.Surface.Keys
import StepGraph.Proofs.Surface.Merging
import StepGraph.Proofs.Surface.Renaming
import StepGraph.Proofs.Node.Separation
import StepGraph.Proofs.Node.Defaults
import StepGraph.Proofs.Sharing
import StepGraph.Proofs.Artifact.Hooks
import StepGraph.Proofs.Seeding
import StepGraph.Proofs.Selection.Algebra
import StepGraph.Proofs.Directive.Names
import StepGraph.Proofs.Directive.Cleaning
import StepGraph.Proofs.Library.Directory
import StepGraph.Proofs.Surface.Probing
