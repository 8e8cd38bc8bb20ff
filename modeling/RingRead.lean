import RingRead.Main
import RingRead.Proofs.Backlog.Splitting
import RingRead.Proofs.Engine.Losses
import RingRead.Proofs.Engine.Reaping
import RingRead.Proofs.Engine.Walking
import RingRead.Proofs.Ledger.Refinement
import RingRead.Proofs.Program.FailedReads
import RingRead.Proofs.Ring.Windows
import RingRead.Proofs.Session.Finishing
import RingRead.Proofs.Session.Interrupts
import RingRead.Proofs.Session.Reporting
import RingRead.Proofs.Session.Stopping
import RingRead.Proofs.Session.Termination
import RingRead.Proofs.Simulation.Copying
import RingRead.Proofs.Simulation.Fifo
import RingRead.Proofs.Simulation.RoundTrip
