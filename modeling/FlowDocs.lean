import FlowDocs.Document.Workflow
import FlowDocs.Main
import FlowDocs.Proofs.Numeric.Decimals
import FlowDocs.Proofs.Expression.Shortcuts
import FlowDocs.Proofs.Expression.MaximalMunch
import FlowDocs.Proofs.Expression.Spelling
import FlowDocs.Proofs.Template.NonInterference
import FlowDocs.Proofs.Template.Rendering
import FlowDocs.Proofs.Template.Structure
import FlowDocs.Proofs.Template.Finiteness
import FlowDocs.Proofs.Context.Parts
import FlowDocs.Proofs.Context.Decoding
import FlowDocs.Proofs.Lookup.WholeContext
import FlowDocs.Proofs.Workflow.Course
import FlowDocs.Proofs.Workflow.Threading
import FlowDocs.Proofs.Workflow.Policies
import FlowDocs.Proofs.Workflow.Addressing
import FlowDocs.Proofs.Workflow.Independence
import FlowDocs.Proofs.Document.Steps
import FlowDocs.Proofs.Document.Saving
import FlowDocs.Proofs.Document.Rules
import FlowDocs.Proofs.Store.Establishing
import FlowDocs.Proofs.Store.Listing
import FlowDocs.Proofs.Template.Substitution
import FlowDocs.Proofs.Template.FixedPoints
import FlowDocs.Proofs.Expression.Separators
import FlowDocs.Proofs.Expression.MissingOperands
import FlowDocs.Proofs.Expression.ResultKinds
import FlowDocs.Proofs.Expression.IntegerChains
import FlowDocs.Proofs.Expression.Comparisons
import FlowDocs.Proofs.Expression.IntegerComparisons
import FlowDocs.Proofs.Lookup.WrittenPaths
import FlowDocs.Proofs.Document.StepFields
import FlowDocs.Proofs.Document.Creating
import FlowDocs.Proofs.Command.Inputs
import FlowDocs.Proofs.Settings.Readers
