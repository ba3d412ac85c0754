import MitosServices.Confirmation
import MitosServices.Trials
import MitosServices.Cgroups
import MitosServices.Bootable
import MitosServices.Boot
import MitosServices.Masks
import MitosServices.Pids
import MitosServices.Reload
import MitosServices.Wakeup
import MitosServices.Schedule
import MitosServices.Interaction.Live
import MitosServices.Turns
import MitosServices.Console
import MitosServices.Requirements
import MitosServices.Readiness
import MitosServices.Phases
import MitosServices.LoopRule
import MitosServices.Membership
import MitosServices.Undoing
import MitosServices.Interaction.Parts
import MitosServices.Families
import MitosServices.Notify
import MitosServices.Bpf
import MitosServices.Seccomp
import MitosServices.Ipc
import MitosServices.Mitosctl
import MitosServices.Freshness
import MitosServices.Identity
import MitosServices.Respawn
import MitosServices.Budget
import MitosServices.Cycles
import MitosServices.Sorting
import MitosServices.Serving
import MitosServices.Shutdown
import MitosServices.Deadlines
import MitosServices.Formats
import MitosServices.Sizes
import MitosServices.Declarations
import MitosServices.Skipping
import MitosServices.NameLists
import MitosServices.Journal
import MitosServices.Execution
import MitosServices.Limits
import MitosServices.Lapses
import MitosServices.Attempts
import MitosServices.Listeners
import MitosServices.Confinement
import MitosServices.Users
import MitosServices.Pressure
import MitosServices.BootFiles
import MitosServices.Publishing
import MitosServices.Absence
import MitosServices.Liveness
import MitosServices.Setup
import MitosServices.Requests
import MitosServices.Bystanders
import MitosServices.Server
import MitosServices.Residue
import MitosServices.Causes
