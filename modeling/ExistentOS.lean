import ExistentOS.Volume
import ExistentOS.Accounts.Fields
import ExistentOS.Accounts.Invariant
import ExistentOS.Accounts.TornSaves
import ExistentOS.Accounts.Sessions
import ExistentOS.Accounts.Refinement
import ExistentOS.Boot.LoadKernel
import ExistentOS.Boot.MemoryMap
import ExistentOS.Terminal.Console
import ExistentOS.Boot.ExitProtocol
import ExistentOS.Frames
import ExistentOS.Boot.Handoff
import ExistentOS.Terminal.Parsing
import ExistentOS.Eosfs
import ExistentOS.Terminal.FileCommands
import ExistentOS.Terminal.Interactive
import ExistentOS.Terminal.Interpreter
import ExistentOS.Terminal.InterpreterFrames
import ExistentOS.Accounts.AccountFrames
import ExistentOS.Terminal.Authorization
import ExistentOS.Accounts.Authorization
import ExistentOS.VolumeFrames
import ExistentOS.Terminal.FileEffects
import ExistentOS.Terminal.Integrity
import ExistentOS.Terminal.Shell
import ExistentOS.Boot.StaleKeys
import ExistentOS.Composition
import ExistentOS.Library.Coupled
import ExistentOS.Library.Runs
import ExistentOS.Library.Custody
import ExistentOS.Handles
import ExistentOS.Terminal.Tokens
import ExistentOS.Terminal.LineBuffer
import ExistentOS.Terminal.Buffers
import ExistentOS.Library.Fuel
import ExistentOS.Terminal.Nesting
import ExistentOS.Terminal.Sequences
import ExistentOS.Terminal.Dispatch
import ExistentOS.Terminal.Exits
import ExistentOS.Terminal.Drives
import ExistentOS.Terminal.Scripts
import ExistentOS.Terminal.Termination
import ExistentOS.Terminal.Guarded
import ExistentOS.Terminal.Screen
import ExistentOS.Terminal.LineEditing
import ExistentOS.Terminal.CommandLines
import ExistentOS.Terminal.Storing
import ExistentOS.Terminal.Overwrites
import ExistentOS.Terminal.Arguments
import ExistentOS.Terminal.Pipelines
import ExistentOS.Terminal.LeadingBlanks
import ExistentOS.Terminal.FileHandles
import ExistentOS.Terminal.RoundTrips
import ExistentOS.Boot.KernelImage
import ExistentOS.Terminal.Passwords
import ExistentOS.Library.ByteMemory
import ExistentOS.Library.Regions
import ExistentOS.Library.LongMode
import ExistentOS.Library.StackViews
import ExistentOS.Kernel.Idt
import ExistentOS.Kernel.Interrupts
import ExistentOS.Kernel.Startup
import ExistentOS.Kernel.Undisturbed
import ExistentOS.Library.Searches
import ExistentOS.Kernel.Pci
import ExistentOS.Listings
import ExistentOS.DirectoryRecords
import ExistentOS.SpecifiedRecords
import ExistentOS.Library.Stuttering
import ExistentOS.Terminal.IdlePolls
import ExistentOS.Library.Dialogues
import ExistentOS.Terminal.Typing
import ExistentOS.Terminal.Login
import ExistentOS.Boot.Main
import ExistentOS.Boot.Entered
import ExistentOS.Terminal.Nano
import ExistentOS.Library.Realizations
import ExistentOS.Terminal.Workspace
import ExistentOS.Terminal.CalmFiles
import ExistentOS.Terminal.Users
import ExistentOS.Terminal.Described
import ExistentOS.Terminal.Questions
import ExistentOS.Terminal.CarriedOut
import ExistentOS.Boot.PowerCycles
