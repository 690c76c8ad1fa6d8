import Fleet.Json.Schema
import Fleet.Proofs.Engine.Completion
import Fleet.Proofs.Engine.Expiry
import Fleet.Proofs.Engine.Extensions
import Fleet.Proofs.Engine.Order
import Fleet.Proofs.Engine.Returns
import Fleet.Proofs.Engine.Shutdown
import Fleet.Proofs.Engine.Versions
import Fleet.Proofs.Engine.WakeUps
import Fleet.Proofs.Lock.Guards
import Fleet.Proofs.Lock.Releases
import Fleet.Proofs.Pool.Abandonment
import Fleet.Proofs.Pool.Decisions
import Fleet.Proofs.Population.Answers
import Fleet.Proofs.Population.Budget
import Fleet.Proofs.Population.Convergence
import Fleet.Proofs.Population.Reports
import Fleet.Proofs.Population.Worlds
import Fleet.Settings.LogDirective
import Fleet.Simulation.Session
import Fleet.Simulation.SshSession
import Fleet.Proofs.Platform
import Fleet.Proofs.Shell
import Fleet.Proofs.Status
import Fleet.Proofs.Population.Followers
import Fleet.Proofs.Population.Layers
