import PropertyTables.Catalog
import PropertyTables.Declaration
import PropertyTables.Draft
import PropertyTables.Fault
import PropertyTables.GenericType
import PropertyTables.Generics.Erasure
import PropertyTables.Generics.Resolution
import PropertyTables.Heap
import PropertyTables.Hierarchy.Dispatch
import PropertyTables.Hierarchy.Subtype
import PropertyTables.Hierarchy.Walk
import PropertyTables.Index
import PropertyTables.Invocation
import PropertyTables.Member
import PropertyTables.Navigation
import PropertyTables.Path
import PropertyTables.PropertyName
import PropertyTables.Registry
import PropertyTables.Registry.Growth
import PropertyTables.Settings
import PropertyTables.Table
import PropertyTables.Table.Build
import PropertyTables.Table.Discovery
import PropertyTables.Table.Overloads
import PropertyTables.Table.Stored
import PropertyTables.Text.Case
import PropertyTables.Text.CaseData
import PropertyTables.TypeId
import PropertyTables.Value
import PropertyTables.Workspace
import PropertyTables.Proofs.Hierarchy.Reachability
import PropertyTables.Proofs.Hierarchy.Supertypes
import PropertyTables.Proofs.Hierarchy.SubtypeOrder
import PropertyTables.Proofs.Generics.Substitution
import PropertyTables.Proofs.Generics.SupertypePath
import PropertyTables.Proofs.Registry.Evaluation
import PropertyTables.Proofs.Table.Entries
import PropertyTables.Proofs.Generics.ClosedTypes
import PropertyTables.Proofs.Generics.Renaming
import PropertyTables.Proofs.Generics.Hygiene
import PropertyTables.Proofs.Registry.Lasting
import PropertyTables.Proofs.Hierarchy.GrowingWalks
import PropertyTables.Proofs.Table.Lasting
import PropertyTables.Proofs.Catalog.Transparency
import PropertyTables.Proofs.Table.Origins
import PropertyTables.Proofs.Table.Stored
import PropertyTables.Proofs.Table.Validity
import PropertyTables.Proofs.Table.Views
import PropertyTables.Proofs.Hierarchy.Reordering
import PropertyTables.Proofs.Table.Choice
import PropertyTables.Proofs.Table.Steady
import PropertyTables.Proofs.Table.Collected
import PropertyTables.Proofs.Registry.Agreement
import PropertyTables.Proofs.Table.Reordering
import PropertyTables.Proofs.Catalog.Calls
import PropertyTables.Proofs.Catalog.History
import PropertyTables.Proofs.Heap.Places
import PropertyTables.Proofs.Hierarchy.SuperclassChain
import PropertyTables.Proofs.Heap.Allocation
import PropertyTables.Proofs.Heap.Events
import PropertyTables.Proofs.Heap.FieldAccessors
import PropertyTables.Proofs.Registry.Closed
import PropertyTables.Proofs.Registry.Safety
import PropertyTables.Proofs.Table.Safety
import PropertyTables.Proofs.Catalog.Safety
import PropertyTables.Proofs.Bean.Lenses
import PropertyTables.Proofs.Registry.Identities
import PropertyTables.Proofs.Table.Faults
import PropertyTables.Proofs.Navigation.Paths
import PropertyTables.Proofs.Navigation.Reading
import PropertyTables.Proofs.Navigation.Writing
import PropertyTables.Proofs.Hierarchy.SubtypeWalk
import PropertyTables.Proofs.Table.SetterChoice
import PropertyTables.Proofs.Table.Candidates
import PropertyTables.Proofs.Table.GetterConflicts
import PropertyTables.Proofs.Table.SetterConflicts
import PropertyTables.Proofs.Text.Marks
import PropertyTables.Proofs.Navigation.Spelling
import PropertyTables.Proofs.First
import PropertyTables.Proofs.Registry.Failures
import PropertyTables.Proofs.Table.Passes
import PropertyTables.Proofs.Hierarchy.Completeness
import PropertyTables.Proofs.Hierarchy.Interning
import PropertyTables.Proofs.Navigation.Indexing
import PropertyTables.Proofs.Table.MatchingSetter
import PropertyTables.Proofs.Table.NarrowestGetter
import PropertyTables.Proofs.Table.DepthLimit
import PropertyTables.Proofs.Table.ChainFields
import PropertyTables.Proofs.Registry.Members
import PropertyTables.Proofs.Table.Members
import PropertyTables.Proofs.Table.FieldFallback
import PropertyTables.Proofs.Heap.FieldRoundTrip
import PropertyTables.Proofs.Registry.Grounded
import PropertyTables.Proofs.Registry.Twins
import PropertyTables.Proofs.Table.Twins
import PropertyTables.Proofs.Table.Selection
import PropertyTables.Proofs.Table.Exclusion
import PropertyTables.Proofs.Table.NonInterference
import PropertyTables.Proofs.Hierarchy.DepthFirst
import PropertyTables.Proofs.Table.Bridges
import PropertyTables.Proofs.Table.Discovered
import PropertyTables.Proofs.Table.Overriding
import PropertyTables.Proofs.Generics.Fallbacks
import PropertyTables.Proofs.Generics.OwnerFree
import PropertyTables.Proofs.Navigation.Segments
import PropertyTables.Proofs.Bean.Casing
import PropertyTables.Proofs.Table.ArrayTables
import PropertyTables.Proofs.Catalog.Branches
import PropertyTables.Proofs.Settings.Validation
