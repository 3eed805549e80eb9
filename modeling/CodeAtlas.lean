import CodeAtlas.Main
import CodeAtlas.Proofs.Graph.Change
import CodeAtlas.Proofs.Graph.Linked
import CodeAtlas.Proofs.Graph.Writes
import CodeAtlas.Proofs.Ingestion.Writes
import CodeAtlas.Proofs.Discovery.Writes
import CodeAtlas.Proofs.Graph.History
import CodeAtlas.Proofs.Graph.Connections
import CodeAtlas.Proofs.Graph.Readable
import CodeAtlas.Proofs.Graph.RoundTrip
import CodeAtlas.Proofs.Graph.Identity
import CodeAtlas.Proofs.Ingestion.Statements
import CodeAtlas.Proofs.Ingestion.Faithful
import CodeAtlas.Proofs.Query.Route
import CodeAtlas.Proofs.Query.Expansion
import CodeAtlas.Proofs.Query.Dependencies
import CodeAtlas.Proofs.Ingestion.Order
import CodeAtlas.Proofs.Graph.Repeat
import CodeAtlas.Proofs.Ingestion.Report
import CodeAtlas.Proofs.Ingestion.Again
import CodeAtlas.Proofs.Graph.Steps
import CodeAtlas.Proofs.Graph.ConceptIndex
import CodeAtlas.Proofs.Graph.ConceptLookup
import CodeAtlas.Proofs.Discovery.Detect
import CodeAtlas.Proofs.Discovery.Marks
import CodeAtlas.Proofs.Pipeline.Schema
import CodeAtlas.Proofs.Pipeline.Runs
import CodeAtlas.Proofs.Pipeline.Rediscovery
import CodeAtlas.Proofs.Graph.Growth
import CodeAtlas.Proofs.Graph.ImportedConnections
import CodeAtlas.Proofs.Pipeline.Exact
import CodeAtlas.Proofs.Discovery.Distinct
import CodeAtlas.Proofs.Query.Usages
import CodeAtlas.Proofs.Query.Patterns
import CodeAtlas.Proofs.CommandLine.BuiltSnapshot
import CodeAtlas.Proofs.Graph.Failure
import CodeAtlas.Proofs.Graph.EdgeIdentity
import CodeAtlas.Proofs.Graph.Strength
import CodeAtlas.Proofs.Files.Written
import CodeAtlas.Proofs.Pipeline.Build
import CodeAtlas.Proofs.Similarity.EditDistance
import CodeAtlas.Proofs.Query.BuildOrder
import CodeAtlas.Proofs.Ingestion.Accepted
import CodeAtlas.Proofs.CommandLine.Ends
import CodeAtlas.Proofs.Query.Preorder
import CodeAtlas.Proofs.Query.DirectRoute
import CodeAtlas.Proofs.Query.Views
import CodeAtlas.Proofs.Query.Limits
import CodeAtlas.Proofs.Query.MutualSimilarity
import CodeAtlas.Proofs.Ingestion.Accounts
import CodeAtlas.Proofs.Ingestion.InPlace
import CodeAtlas.Proofs.Graph.Statistics
import CodeAtlas.Proofs.Discovery.Naming
import CodeAtlas.Proofs.Discovery.HeavyUsage
import CodeAtlas.Proofs.Discovery.ConceptSources
import CodeAtlas.Proofs.Source.Members
import CodeAtlas.Proofs.Source.Parameters
import CodeAtlas.Proofs.Source.Outside
import CodeAtlas.Proofs.Similarity.Metric
import CodeAtlas.Proofs.Files.Listing
import CodeAtlas.Proofs.Files.Paths
import CodeAtlas.Proofs.Graph.SavedAgain
import CodeAtlas.Proofs.Similarity.NamingLanguages
