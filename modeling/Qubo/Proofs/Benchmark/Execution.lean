import Mathlib
import Qubo.Benchmark.Config.Rules
import Qubo.Benchmark.Execution
import Qubo.Proofs.Benchmark.Schedule
import Qubo.Proofs.Benchmark.Storage
import Qubo.Proofs.Files.Host
import Qubo.Proofs.Float.Finite
import Qubo.Proofs.Schedule.Exact

/-! Carrying out an accepted benchmark: where its files can be written, it comes to its end, and
what it writes are all rows in their order. -/
namespace Qubo.Benchmark
open Files

/-- What a run writes: a file without rows, then a complete one, and a summary. -/
inductive Config.Writes (c : Config) : String → String → Prop
  | start : c.Writes c.outputPaths.rows ""
  | rows {rows : List (Row Float)} (h : IsComplete c rows) :
      c.Writes c.outputPaths.rows (Row.lines rows)
  | summary (s : Summary Float) : c.Writes c.outputPaths.summary s.markdown

/-- The directories that a run makes. -/
def Config.directories (c : Config) : List String :=
  [(Path.parent? c.outputPaths.rows).getD "", (Path.parent? c.outputPaths.summary).getD "",
    c.outputPaths.plots]

theorem onFiles_gives {m : Type → Type} [Monad m] (P : Promise m) {ε β : Type}
    {operation : m (Except Files.Fault β)} {x : β} (wrap : Files.Fault → ε)
    (h : P.Gives (· = .ok x) operation) : P.Gives (· = .ok x) (onFiles wrap operation).run := by
  refine P.bind h ?_
  rintro _ rfl
  exact P.pure rfl

section Runs
variable {m : Type → Type} [Monad m] [Host m] {c : Config} {bs : List (Blueprint Float)}
  (P : Promise m)

theorem prepareOutputs_gives (h : Serves P (· ∈ c.directories) c.Writes) :
    P.Gives (· = .ok ()) (prepareOutputs c.outputPaths : ExceptT Failure m Unit).run := by
  apply P.run_bind (onFiles_gives P _ (h.makeDirectories _ (by simp [Config.directories])))
  apply P.run_bind (onFiles_gives P _ (h.makeDirectories _ (by simp [Config.directories])))
  apply P.run_bind (onFiles_gives P _ (h.makeDirectories _ (by simp [Config.directories])))
  exact onFiles_gives P _ (h.write _ _ .start)

theorem writeOutputs_gives (h : Serves P (· ∈ c.directories) c.Writes) {p : Progress Float}
    (hp : IsComplete c p.rows.toList) (solvers : ℕ) :
    P.Gives (· = .ok (.ofRun c solvers p.rows.size))
      (writeOutputs c solvers p (.ok ()) : ExceptT Failure m Report).run := by
  apply P.run_bind (onFiles_gives P _ (h.write _ _ (.rows hp)))
  apply P.run_bind (onFiles_gives P _ (h.write _ _ (.summary _)))
  exact P.pure rfl

/-- What carrying a benchmark out ends with: the report of a complete run, whose rows and events
stand in the records. -/
structure Executed.Completes (c : Config) (bs : List (Blueprint Float)) (e : Executed) : Prop where
  result : e.result = .ok (.ofRun c bs.length
    (c.problem.instances * c.problem.trials * c.solvers.length))
  records : ∃ rows events, Written c bs (rounds c.problem) rows ∧
    Recorded c bs (rounds c.problem) rows events ∧ e.records = logged c events

/-- Where the rounds of an accepted configuration are run to the last, the rest succeeds. -/
theorem Config.Equipped.executeWith_gives (hc : c.Equipped bs)
    (h : Serves P (· ∈ c.directories) c.Writes)
    {runs : Progress Float → m (Progress Float × Except RunFault Unit)}
    (hruns : ∀ start, Progress.new c = .ok start →
      P.Gives (Finished c bs start (rounds c.problem)) (runs start)) :
    P.Gives (Executed.Completes c bs) (executeWith c bs.length runs) := by
  obtain ⟨k, hk, -⟩ := hc.exists_new (α := Float)
  unfold executeWith
  refine P.bind (prepareOutputs_gives P h) ?_
  rintro _ rfl
  rw [hk]
  refine P.bind (hruns _ hk) ?_
  rintro ⟨p, ended⟩ hfinished
  obtain rfl : ended = .ok () := hfinished.ended
  obtain ⟨hwritten, hrecorded⟩ := hfinished.written hk
  have hcomplete := hwritten.isComplete hc
  refine P.bind (writeOutputs_gives P h hcomplete bs.length) ?_
  rintro _ rfl
  have hcount : p.rows.size = _ := hcomplete.count
  exact P.pure ⟨by rw [← hcount], _, _, hwritten, hrecorded, rfl⟩

theorem timedAttempt_gives {made : String → Prop} {written : String → String → Prop}
    (h : Serves P made written)
    (p : ProblemSection) (r : Round Float) (b : Blueprint Float) :
    P.Gives (Attempted p r b) (timedAttempt p r b : m (Attempt Float)) := by
  refine P.bind (h.time fun _ => solveRound p r b) ?_
  rintro ⟨out, elapsedMs⟩ rfl
  exact P.pure ⟨rfl, rfl, rfl⟩

theorem Config.Ready.execute_gives [LawfulMonad m] (hc : c.Ready bs)
    (h : Serves P (· ∈ c.directories) c.Writes) :
    P.Gives (Executed.Completes c bs) (execute c bs : m Executed) := by
  refine hc.toEquipped.executeWith_gives P h fun start hstart => ?_
  obtain ⟨k, hk, hcollected⟩ := hc.toEquipped.exists_new (α := Float)
  obtain rfl := Except.ok.inj (hk.symm.trans hstart)
  exact hc.runRounds_gives P (fun r _ b _ => timedAttempt_gives P h c.problem r b)
    (fun _ hr => hr) hcollected

end Runs

/-- With room for a run its rows can be counted. -/
theorem Config.HasRoom.toNat_rows {c : Config} {bs : List (Blueprint Float)} (h : c.HasRoom bs)
    (solvers : ℕ) : (Report.ofRun c solvers
      (c.problem.instances * c.problem.trials * c.solvers.length)).rows.toNat =
        c.problem.instances * c.problem.trials * c.solvers.length := by
  have hrows := h.rows
  unfold Matrix.capacity at hrows
  exact UInt64.toNat_ofNat_of_lt' (by unfold UInt64.size; omega)

/-- A host that takes whatever is written and keeps none of it, and whose clock stands still. -/
instance discarding : Host Id where
  makeDirectories _ := .ok ()
  write _ _ := .ok ()
  append _ _ := .ok ()
  read _ := .error .notFound
  isThere _ := false
  print _ := ()
  time f := (f (), 0.0)

end Qubo.Benchmark
