import PatchScript.Main
import PatchScript.Proofs.Run.Confinement
import PatchScript.Proofs.Run.Invariance
import PatchScript.Proofs.Run.Termination
import PatchScript.Proofs.Script.Parsing
import PatchScript.Proofs.XPath.NodeSets
import PatchScript.Proofs.Run.Isolation
import PatchScript.Proofs.Run.Calls
import PatchScript.Proofs.Run.Accounts
import PatchScript.Proofs.Run.Writing
import PatchScript.Proofs.Run.Updates
import PatchScript.Proofs.Xml.Cutting
import PatchScript.Proofs.Xml.Stretches
import PatchScript.Proofs.Xml.Nesting
import PatchScript.Proofs.Xml.Naming
import PatchScript.Proofs.Xml.Attributes
import PatchScript.Proofs.Xml.Resolving
import PatchScript.Proofs.Xml.Reloading
import PatchScript.Proofs.Xml.Loading
import PatchScript.Proofs.Run.Readability
import PatchScript.Proofs.Xml.Shape
import PatchScript.Proofs.Xml.Refusing
import PatchScript.Proofs.Xml.Demands
import PatchScript.Proofs.Run.Evolution
import PatchScript.Proofs.Xml.Growth
import PatchScript.Proofs.Run.Patches
import PatchScript.Proofs.Run.Replay
import PatchScript.Proofs.Number.Layout
import PatchScript.Proofs.Number.Rounding
import PatchScript.Proofs.Number.Shortest
import PatchScript.Proofs.Number.RoundTrip
import PatchScript.Proofs.Script.Spelling
import PatchScript.Proofs.Script.Trivia
import PatchScript.Proofs.Script.Tiling
import PatchScript.Proofs.Script.Respelling
import PatchScript.Proofs.Xml.Integrity
import PatchScript.Proofs.Xml.Injectivity
import PatchScript.Proofs.Script.Tracing
import PatchScript.Proofs.Script.Blame
import PatchScript.Proofs.Xml.NormalForm
import PatchScript.Proofs.Xml.Building
import PatchScript.Proofs.Xml.Joining
import PatchScript.Proofs.Xml.Stability
import PatchScript.Proofs.Run.Purity
import PatchScript.Proofs.Run.Bindings
import PatchScript.Proofs.XPath.Unambiguity
import PatchScript.Proofs.Run.Sentinels
import PatchScript.Proofs.Text.Replacing
import PatchScript.Proofs.Text.Signs
import PatchScript.Proofs.Xml.Elements
import PatchScript.Proofs.Xml.Rows
import PatchScript.Proofs.Xml.Swapping
import PatchScript.Proofs.Xml.Filling
import PatchScript.Proofs.Run.Stands
import PatchScript.Proofs.Run.Cursors
import PatchScript.Proofs.Run.Lasting
import PatchScript.Proofs.Files.Disks
import PatchScript.Proofs.Files.Paths
import PatchScript.Proofs.Files.Opening
import PatchScript.Proofs.Files.Storing
import PatchScript.Proofs.Xml.Qualifying
import PatchScript.Proofs.Run.Cycles
import PatchScript.Proofs.Run.Templates
import PatchScript.Proofs.Script.Faults
import PatchScript.Proofs.Run.Positions
import PatchScript.Proofs.Run.Removing
import PatchScript.Proofs.Number.Whole
import PatchScript.Proofs.XPath.Positions
import PatchScript.Proofs.Xml.Removing
import PatchScript.Proofs.Xml.Locality
import PatchScript.Proofs.Run.Locality
import PatchScript.Proofs.XPath.Comparing
import PatchScript.Proofs.XPath.Duality
import PatchScript.Proofs.XPath.Enclosing
import PatchScript.Proofs.Run.Skipping
import PatchScript.Proofs.Run.Slots
import PatchScript.Proofs.XPath.Literals
import PatchScript.Proofs.Run.Getting
import PatchScript.Proofs.Files.Trees
import PatchScript.Proofs.Files.Creating
import PatchScript.Proofs.Command.Repository
import PatchScript.Proofs.Run.Reporting
import PatchScript.Proofs.Command.Telling
import PatchScript.Proofs.Xml.Walking
