import ResolverTypes.Generate
import ResolverTypes.Config.Document
import ResolverTypes.Workload.Synthetic
import ResolverTypes.Workload.Throughput
import ResolverTypes.Proofs.OrderedMap
import ResolverTypes.Proofs.Schema.Index
import ResolverTypes.Proofs.Sdl.Assembly
import ResolverTypes.Proofs.Schema.Validation
import ResolverTypes.Proofs.TypeGraph.Nodes
import ResolverTypes.Proofs.TypeGraph.Order
import ResolverTypes.Proofs.Output.TypeTable
import ResolverTypes.Proofs.Output.Blueprint
import ResolverTypes.Proofs.TypeScript.References
import ResolverTypes.Proofs.Output.BaseReferences
import ResolverTypes.Proofs.Output.ResolverReferences
import ResolverTypes.Proofs.TypeScript.Printer
import ResolverTypes.Proofs.Output.Lookup
import ResolverTypes.Proofs.Output.Closed
import ResolverTypes.Proofs.Output.UnionVariants
import ResolverTypes.Proofs.Output.TypeIdentity
import ResolverTypes.Proofs.TypeGraph.Reordering
import ResolverTypes.Proofs.Output.Reordering
import ResolverTypes.Proofs.Sdl.Names
import ResolverTypes.Proofs.Output.DeclaredNames
import ResolverTypes.Proofs.Output.Indexes
import ResolverTypes.Proofs.Output.Roots
import ResolverTypes.Proofs.Output.Inventory
import ResolverTypes.Proofs.TypeScript.Descriptions
import ResolverTypes.Proofs.TypeScript.Texts
import ResolverTypes.Proofs.Schema.Descriptions
import ResolverTypes.Proofs.TypeGraph.Descriptions
import ResolverTypes.Proofs.Output.Descriptions
import ResolverTypes.Proofs.Output.Comments
import ResolverTypes.Proofs.Schema.WellFormed
import ResolverTypes.Proofs.Output.Implementations
import ResolverTypes.Proofs.Schema.FirstViolation
import ResolverTypes.Proofs.Schema.Changes
import ResolverTypes.Proofs.Sdl.Roots
import ResolverTypes.Proofs.Output.Keys
import ResolverTypes.Proofs.Output.Wrapping
import ResolverTypes.Proofs.Output.ContractEntries
import ResolverTypes.Proofs.Output.Arguments
import ResolverTypes.Proofs.Output.ArgumentNames
import ResolverTypes.Proofs.Output.Enums
import ResolverTypes.Proofs.Output.Scalars
import ResolverTypes.Proofs.Sdl.TypeReferences
import ResolverTypes.Proofs.Workload.Synthetic
import ResolverTypes.Proofs.Config.Document
