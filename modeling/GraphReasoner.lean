import GraphReasoner.Decimal.Layout
import GraphReasoner.Text.Blank
import GraphReasoner.Text.LowerCase
import GraphReasoner.Text.Search
import GraphReasoner.Digest.Sha256
import GraphReasoner.Time.Rfc3339
import GraphReasoner.Json.Printer
import GraphReasoner.Json.Reader
import GraphReasoner.Json.Fields
import GraphReasoner.Table
import GraphReasoner.Properties
import GraphReasoner.Query.Token
import GraphReasoner.Graph.PathSearch
import GraphReasoner.Graph.Neighborhood
import GraphReasoner.Graph.NeighborhoodSearch
import GraphReasoner.Graph.Centrality
import GraphReasoner.Graph.Indexed
import GraphReasoner.Rule.Derivation
import GraphReasoner.Rule.Conflict
import GraphReasoner.Rule.Contest
import GraphReasoner.Rule.Indexed
import GraphReasoner.Chain.Reasoner
import GraphReasoner.Chain.WalkSearch
import GraphReasoner.Chain.IndexedLayer
import GraphReasoner.Query.Search
import GraphReasoner.Query.Planner
import GraphReasoner.Storage.Tables
import GraphReasoner.Cache.Directory
import GraphReasoner.Cache.Database
import GraphReasoner.Cache.Unreliable
import GraphReasoner.Cache.Payload
import GraphReasoner.Cache.Statistics
import GraphReasoner.Cache.Storage
import GraphReasoner.Settings
import GraphReasoner.Engine.Session
import GraphReasoner.Engine.Summary
import GraphReasoner.CommandLine.Run
import GraphReasoner.Main
import GraphReasoner.Proofs.Cache.Budget
import GraphReasoner.Proofs.Cache.Described
import GraphReasoner.Proofs.Cache.Interchange
import GraphReasoner.Proofs.Cache.Orphans
import GraphReasoner.Proofs.Cache.Reopen
import GraphReasoner.Proofs.Engine.Coherence
import GraphReasoner.Proofs.Graph.History
import GraphReasoner.Proofs.Graph.Views
import GraphReasoner.Proofs.Graph.Rebuild
import GraphReasoner.Proofs.Graph.PathSearch
import GraphReasoner.Proofs.Engine.Closure
import GraphReasoner.Proofs.Chain.Valid
import GraphReasoner.Proofs.Chain.WalkSearch
import GraphReasoner.Proofs.Chain.InOrder
import GraphReasoner.Proofs.Chain.Evidence
import GraphReasoner.Proofs.Query.WellFormed
import GraphReasoner.Proofs.Wire
import GraphReasoner.Proofs.Cache.Deletions
import GraphReasoner.Proofs.Cache.Eviction
import GraphReasoner.Proofs.Query.Occurrence
import GraphReasoner.Proofs.Query.Passes
import GraphReasoner.Proofs.Query.Reordered
import GraphReasoner.Proofs.Query.Grounded
import GraphReasoner.Proofs.Graph.NeighborhoodSearch
import GraphReasoner.Proofs.Rule.Contest
import GraphReasoner.Proofs.Chain.IndexedLayer
import GraphReasoner.Proofs.Chain.Subchain
import GraphReasoner.Proofs.Engine.Layers
import GraphReasoner.Proofs.Query.Repeated
import GraphReasoner.Proofs.Query.Suggestion
import GraphReasoner.Proofs.Rule.Changes
import GraphReasoner.Proofs.Graph.Centrality
import GraphReasoner.Proofs.Graph.Density
import GraphReasoner.Proofs.Query.Phrase
import GraphReasoner.Proofs.Query.Position
import GraphReasoner.Proofs.Query.History
import GraphReasoner.Proofs.Time.Lifetime
import GraphReasoner.Proofs.Cache.Expiry
import GraphReasoner.Proofs.Analytic
import GraphReasoner.Proofs.Query.WordVector
import GraphReasoner.Proofs.Query.Similarity
import GraphReasoner.Proofs.Cache.Directory
