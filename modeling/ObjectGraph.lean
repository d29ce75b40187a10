import ObjectGraph.NameMap
import ObjectGraph.Type.Term
import ObjectGraph.Type.System
import ObjectGraph.Type.Oracle
import ObjectGraph.Request
import ObjectGraph.Lifetime
import ObjectGraph.Location
import ObjectGraph.Class.Attribute
import ObjectGraph.Class.Member
import ObjectGraph.Class.Basic
import ObjectGraph.Recipe
import ObjectGraph.Setup.Hints
import ObjectGraph.Setup.Basic
import ObjectGraph.Setup.Standard
import ObjectGraph.Journal
import ObjectGraph.Diagnostic
import ObjectGraph.Fault
import ObjectGraph.Binding.Basic
import ObjectGraph.Binding.Table
import ObjectGraph.Setup.Handlers
import ObjectGraph.Node.Basic
import ObjectGraph.Node.Build
import ObjectGraph.Setup.Directory
import ObjectGraph.Binding.Match
import ObjectGraph.Graph.Basic
import ObjectGraph.Graph.Cycle
import ObjectGraph.Graph.Resolution
import ObjectGraph.Plan.Arena
import ObjectGraph.Plan.Step
import ObjectGraph.Plan.Basic
import ObjectGraph.Plan.Placement
import ObjectGraph.Plan.Order
import ObjectGraph.Plan.Walk
import ObjectGraph.Plan.Interruption
import ObjectGraph.Plan.Annotate
import ObjectGraph.Plan.Assembly
import ObjectGraph.Plan.Call
import ObjectGraph.Plan.Event
import ObjectGraph.Compiler.Merge
import ObjectGraph.Compiler.Basic
import ObjectGraph.Compiler.Session
import ObjectGraph.Settings.Double
import ObjectGraph.Settings.Json
import ObjectGraph.Settings.Basic
import ObjectGraph.Batch
import ObjectGraph.Proofs.Precedes
import ObjectGraph.Proofs.Lists
import ObjectGraph.Proofs.Type.Unification
import ObjectGraph.Proofs.Type.Substitution
import ObjectGraph.Proofs.Type.MostGeneral
import ObjectGraph.Proofs.Type.Assignability
import ObjectGraph.Proofs.Setup.Handlers
import ObjectGraph.Proofs.Graph.Keys
import ObjectGraph.Proofs.Graph.Transpose
import ObjectGraph.Proofs.Graph.Resolution
import ObjectGraph.Proofs.Graph.Cycle
import ObjectGraph.Proofs.Graph.Provider
import ObjectGraph.Proofs.Graph.Naming
import ObjectGraph.Proofs.Graph.Table
import ObjectGraph.Proofs.Graph.Selection
import ObjectGraph.Proofs.Graph.Queue
import ObjectGraph.Proofs.Graph.Result
import ObjectGraph.Proofs.Plan.Arena
import ObjectGraph.Proofs.Plan.Run
import ObjectGraph.Proofs.Plan.Consistency
import ObjectGraph.Proofs.Plan.Placement
import ObjectGraph.Proofs.Plan.Walk
import ObjectGraph.Proofs.Graph.Correspondence
import ObjectGraph.Proofs.Plan.Lockstep
import ObjectGraph.Proofs.Plan.Reuse
import ObjectGraph.Proofs.Plan.Search
import ObjectGraph.Proofs.Plan.Order
import ObjectGraph.Proofs.Plan.Visits
import ObjectGraph.Proofs.Sample
import ObjectGraph.Proofs.Graph.Validity
import ObjectGraph.Proofs.Graph.Typing
import ObjectGraph.Proofs.Graph.Identity
import ObjectGraph.Proofs.Graph.Canonical
import ObjectGraph.Proofs.Graph.Renaming
import ObjectGraph.Proofs.Graph.Specialization
import ObjectGraph.Proofs.Graph.Termination
import ObjectGraph.Proofs.Plan.Storage
import ObjectGraph.Proofs.Plan.Interchange
import ObjectGraph.Proofs.Plan.Links
import ObjectGraph.Proofs.Plan.Forest
import ObjectGraph.Proofs.Plan.Targets
import ObjectGraph.Proofs.Plan.Dependency
import ObjectGraph.Proofs.Plan.Mirror
import ObjectGraph.Proofs.Plan.Makers
import ObjectGraph.Proofs.Plan.Shape
import ObjectGraph.Proofs.Plan.Cost
import ObjectGraph.Proofs.Plan.Budget
import ObjectGraph.Proofs.Plan.Termination
import ObjectGraph.Proofs.Compiler.Outcome
import ObjectGraph.Proofs.Compiler.RootOrder
import ObjectGraph.Proofs.Graph.Ranking
import ObjectGraph.Proofs.Graph.Omission
import ObjectGraph.Proofs.Graph.Relevance
import ObjectGraph.Proofs.Plan.Unison
import ObjectGraph.Proofs.Compiler.Unused
import ObjectGraph.Proofs.Compiler.Dependencies
import ObjectGraph.Proofs.Compiler.Merge
import ObjectGraph.Proofs.Compiler.Stages
import ObjectGraph.Proofs.Compiler.Registration
import ObjectGraph.Proofs.Graph.Encounter
import ObjectGraph.Proofs.Graph.Precedence
import ObjectGraph.Proofs.Graph.Override
import ObjectGraph.Proofs.Graph.Collection
import ObjectGraph.Proofs.Graph.Delivery
import ObjectGraph.Proofs.Compiler.Precedence
import ObjectGraph.Proofs.Compiler.OwnRoots
import ObjectGraph.Proofs.Plan.Supply
import ObjectGraph.Proofs.Plan.Origin
import ObjectGraph.Proofs.Plan.Answer
import ObjectGraph.Proofs.Plan.Deferral
import ObjectGraph.Proofs.Compiler.Skipping
import ObjectGraph.Proofs.Plan.Outside
import ObjectGraph.Proofs.Plan.Joining
import ObjectGraph.Proofs.Plan.Repetition
import ObjectGraph.Proofs.Plan.Interruption
import ObjectGraph.Proofs.Plan.Retention
import ObjectGraph.Proofs.Plan.Hoisting
import ObjectGraph.Proofs.Graph.Members
import ObjectGraph.Proofs.Plan.Parts
import ObjectGraph.Proofs.Plan.Ownership
import ObjectGraph.Proofs.Plan.Steps
import ObjectGraph.Proofs.Compiler.OutsideFirst
import ObjectGraph.Proofs.Graph.Circuit
import ObjectGraph.Proofs.Graph.Satisfaction
import ObjectGraph.Proofs.Graph.Inspection
import ObjectGraph.Proofs.Compiler.Conflicts
import ObjectGraph.Proofs.Batch
import ObjectGraph.Proofs.Plan.Assembly
import ObjectGraph.Proofs.Compiler.Assembly
