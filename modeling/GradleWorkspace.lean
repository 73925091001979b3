import GradleWorkspace.Main
import GradleWorkspace.Proofs.DependencyGraph.Reachability
import GradleWorkspace.Proofs.DependencyGraph.Traversal
import GradleWorkspace.Proofs.DependencyGraph.Cycles
import GradleWorkspace.Proofs.DependencyGraph.BuildOrder
import GradleWorkspace.Proofs.DependencyGraph.Resolution
import GradleWorkspace.Proofs.DependencyGraph.Closure
import GradleWorkspace.Proofs.Document.Json
import GradleWorkspace.Proofs.Report
import GradleWorkspace.Proofs.Report.ReadBack
import GradleWorkspace.Proofs.Discovery.Naming
import GradleWorkspace.Proofs.Script.Token
import GradleWorkspace.Proofs.Script.Cut
import GradleWorkspace.Proofs.Script.Plain
import GradleWorkspace.Proofs.Script.Taken
import GradleWorkspace.Proofs.Script.Block
import GradleWorkspace.Proofs.Script.Unread
import GradleWorkspace.Proofs.BuildFile.Form
import GradleWorkspace.Proofs.BuildFile.Dependencies
import GradleWorkspace.Proofs.BuildFile.Declaration
import GradleWorkspace.Proofs.BuildFile.WellFormed
import GradleWorkspace.Proofs.BuildFile.Item
import GradleWorkspace.Proofs.BuildFile.RoundTrip
import GradleWorkspace.Proofs.BuildFile.GroovyLines
import GradleWorkspace.Proofs.BuildFile.GroovyItem
import GradleWorkspace.Proofs.BuildFile.Dialects
import GradleWorkspace.Proofs.Command
import GradleWorkspace.Proofs.BuildFile.Literals
import GradleWorkspace.Proofs.DependencyGraph.ClosingEdges
import GradleWorkspace.Proofs.DependencyGraph.NodeOrder
import GradleWorkspace.Proofs.DependencyGraph.Transitive
import GradleWorkspace.Proofs.FileTree.LinkFree
import GradleWorkspace.Proofs.Discovery.Visible
import GradleWorkspace.Proofs.Script.Opening
import GradleWorkspace.Proofs.Script.Depth
import GradleWorkspace.Proofs.Script.Outline
import GradleWorkspace.Proofs.BuildFile.Isolation
import GradleWorkspace.Proofs.BuildFile.PluginCalls
import GradleWorkspace.Proofs.BuildFile.MavenBlocks
import GradleWorkspace.Proofs.SettingsFile
import GradleWorkspace.Proofs.Comments
import GradleWorkspace.Proofs.Script.Line
import GradleWorkspace.Proofs.DependencyGraph.CanonicalPaths
import GradleWorkspace.Proofs.DependencyGraph.Reordering
import GradleWorkspace.Proofs.Config
import GradleWorkspace.Proofs.FileTree.Below
import GradleWorkspace.Proofs.FileTree.Replacement
import GradleWorkspace.Proofs.Discovery.Candidates
import GradleWorkspace.Proofs.Discovery.Replacement
import GradleWorkspace.Proofs.DependencyGraph.DepthFirst
import GradleWorkspace.Proofs.DependencyGraph.Termination
