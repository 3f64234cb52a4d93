import OsPa.Shell.Typing
import OsPa.Sched.ShortestJob
import OsPa.Shell.Waiting
import OsPa.Sched.Patience
import OsPa.Sched.Sparing
import OsPa.Sched.Inversion
import OsPa.Vm.Dialogue
import OsPa.Vm.Listing
import OsPa.Sched.Loading
import OsPa.LinkedLists.Runs
import OsPa.Sched.Refinement
import OsPa.Sched.Ordering
import OsPa.Vm.Accounting
import OsPa.Vm.Exhaustion
import OsPa.Vm.Switching
import OsPa.Vm.Permissions
import OsPa.Vm.Transparency
import OsPa.Vm.CachedWrites
import OsPa.Vm.CopyOnWrite
import OsPa.Vm.WriteFlags
import OsPa.Vm.Duplication
import OsPa.Vm.Uninitialised
import OsPa.Sched.Safety
import OsPa.Sched.WakeUp
import OsPa.Sched.Ceiling
import OsPa.Sched.Inheritance
import OsPa.Sched.Steps
import OsPa.Sched.Termination
import OsPa.Sched.Bookkeeping
import OsPa.Sched.Fairness
import OsPa.Sched.Boost
import OsPa.Sched.Chains
import OsPa.Sched.EqualPrio
import OsPa.Sched.Optimality
import OsPa.Sched.InTurn
import OsPa.Sched.Overtaking
import OsPa.Sched.Choice
import OsPa.Sched.Causes
import OsPa.Sched.Vanishing
import OsPa.Shell.Tokens
import OsPa.Shell.Translation
import OsPa.Shell.Ending
import OsPa.Shell.Terminator
