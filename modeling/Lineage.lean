import Lineage.Main
import Lineage.Claim.Session
import Lineage.Hierarchy.Interleaved
import Lineage.Outline.Sources
import Lineage.Services.Scripted
import Lineage.Wire.Declaration
import Lineage.Proofs.Hierarchy.Calls
import Lineage.Proofs.Report
import Lineage.Proofs.Claim.Progress
import Lineage.Proofs.Claim.SingleFlight
import Lineage.Proofs.Workspace.Overflow
import Lineage.Proofs.Outline.Links
import Lineage.Proofs.Claim.Clearing
import Lineage.Proofs.Clause.Heads
import Lineage.Proofs.Json.Tokens
import Lineage.Proofs.Json.Trees
import Lineage.Proofs.Wire.RoundTrip
import Lineage.Proofs.Hierarchy.Recording
import Lineage.Proofs.Hierarchy.Effort
import Lineage.Proofs.Workspace.Tally
import Lineage.Proofs.LineMap.Conversions
import Lineage.Proofs.Clause.Meaning
import Lineage.Proofs.Claim.Refusal
import Lineage.Proofs.LineMap.Order
import Lineage.Proofs.Classification.Walks
import Lineage.Proofs.Hierarchy.Nesting
import Lineage.Proofs.Workspace.Nesting
import Lineage.Proofs.Lookup
import Lineage.Proofs.Modifier
import Lineage.Proofs.Hierarchy.Claims
import Lineage.Proofs.Outline.Members
import Lineage.Proofs.Clause.Bodies
import Lineage.Proofs.LineMap.Partition
