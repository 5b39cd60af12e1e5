import StubTree.Main
import StubTree.Metadata.Encoding
import StubTree.Python.Identifier
import StubTree.Proofs.Paths
import StubTree.Proofs.Namespaces
import StubTree.Proofs.Access
import StubTree.Proofs.Contributions
import StubTree.Proofs.Grouping
import StubTree.Proofs.Rearrangement
import StubTree.Proofs.Filing
import StubTree.Proofs.Views
import StubTree.Proofs.Runs
import StubTree.Proofs.Finishing
import StubTree.Proofs.Matching
import StubTree.Proofs.StubFiles
import StubTree.Proofs.Reordering
import StubTree.Proofs.PrunedRuns
import StubTree.Proofs.Suites
import StubTree.Proofs.DefaultOrder
import StubTree.Proofs.Aftermath
import StubTree.Proofs.Confinement
import StubTree.Proofs.Markers
import StubTree.Proofs.PackageStructure
import StubTree.Proofs.Decoders
import StubTree.Proofs.Records
import StubTree.Proofs.Restoring
import StubTree.Proofs.TypeReading
import StubTree.Proofs.Accounting
import StubTree.Proofs.Overloads
import StubTree.Proofs.Documents
import StubTree.Proofs.Protocol
import StubTree.Proofs.Emptying
import StubTree.Proofs.Headers
import StubTree.Proofs.Storing
import StubTree.Proofs.ParameterNames
import StubTree.Proofs.LoneOverloads
import StubTree.Proofs.Shifting
import StubTree.Proofs.Placement
import StubTree.Proofs.Inputs
import StubTree.Proofs.Loading
import StubTree.Proofs.ByteOrder
import StubTree.Proofs.Partition
import StubTree.Proofs.Settings
import StubTree.Proofs.ReservedNames
import StubTree.Proofs.Imports
import StubTree.Proofs.Origins
import StubTree.Proofs.FaultyDocuments
