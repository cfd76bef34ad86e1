import Lockstep.Machine.Assembly
import Lockstep.Machine.Inspect
import Lockstep.Proofs.Accounts
import Lockstep.Proofs.AddressMap
import Lockstep.Proofs.Agenda
import Lockstep.Proofs.Alignment
import Lockstep.Proofs.Atomicity
import Lockstep.Proofs.Bisection
import Lockstep.Proofs.Boosts
import Lockstep.Proofs.CallStack
import Lockstep.Proofs.Causality
import Lockstep.Proofs.Conservation
import Lockstep.Proofs.Counters
import Lockstep.Proofs.Deliveries
import Lockstep.Proofs.Digest
import Lockstep.Proofs.Edges
import Lockstep.Proofs.Fairness
import Lockstep.Proofs.Fetching
import Lockstep.Proofs.FiringOrder
import Lockstep.Proofs.Handles
import Lockstep.Proofs.Holes
import Lockstep.Proofs.Latency
import Lockstep.Proofs.Naming
import Lockstep.Proofs.Never
import Lockstep.Proofs.OnTime
import Lockstep.Proofs.Pages
import Lockstep.Proofs.Release
import Lockstep.Proofs.Rounding
import Lockstep.Proofs.Slots
import Lockstep.Proofs.Snapshots
import Lockstep.Proofs.Stops
import Lockstep.Proofs.Termination
import Lockstep.Proofs.TimerMap
import Lockstep.Proofs.TimerSchedule
import Lockstep.Proofs.Transparency
import Lockstep.Proofs.Trapped
import Lockstep.Proofs.Wakeful
