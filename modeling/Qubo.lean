import Qubo.About
import Qubo.Files.World
import Qubo.Json.Snapshot
import Qubo.Main
import Qubo.Proofs.Anneal.Balance.Bipartite
import Qubo.Proofs.Anneal.Balance.Dense
import Qubo.Proofs.Anneal.Independence
import Qubo.Proofs.Anneal.Report
import Qubo.Proofs.Anneal.Steps
import Qubo.Proofs.Anneal.Trotters
import Qubo.Proofs.Assignment
import Qubo.Proofs.Benchmark.Blueprint
import Qubo.Proofs.Benchmark.Execution
import Qubo.Proofs.Benchmark.Gaps
import Qubo.Proofs.Benchmark.Growth
import Qubo.Proofs.Benchmark.Rules
import Qubo.Proofs.Benchmark.Run
import Qubo.Proofs.Benchmark.Schedule
import Qubo.Proofs.Benchmark.Summary
import Qubo.Proofs.Benchmark.Symmetry
import Qubo.Proofs.Benchmark.Telemetry
import Qubo.Proofs.Bipartite.SpinForm
import Qubo.Proofs.Lifecycle
import Qubo.Proofs.Matrix.Storage
import Qubo.Proofs.Mirror
import Qubo.Proofs.Random.Instance
import Qubo.Proofs.Refusal
import Qubo.Proofs.Restart
import Qubo.Proofs.Search.Enumeration
import Qubo.Proofs.Search.Feeding
import Qubo.Proofs.Search.Ranges
import Qubo.Proofs.Search.Tiles
import Qubo.Proofs.Snapshot
import Qubo.Proofs.Telemetry.Fold
