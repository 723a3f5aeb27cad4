import MountShell.Main
import MountShell.Task.Script
import MountShell.Proofs.Disk.Files
import MountShell.Proofs.Tree.Update
import MountShell.Proofs.Volume.Snapshot
import MountShell.Proofs.Volume.Store
import MountShell.Proofs.Tree.Handle
import MountShell.Proofs.Volume.Use
import MountShell.Proofs.Volume.Durability
import MountShell.Proofs.Volume.Access
import MountShell.Proofs.FileSystem.Use
import MountShell.Proofs.FileSystem.ReadOnly
import MountShell.Proofs.Shell.FileCall
import MountShell.Proofs.Shell.Calls
import MountShell.Proofs.Shell.Poll
import MountShell.Proofs.Shell.Engine
import MountShell.Proofs.FileSystem.Text
import MountShell.Proofs.FileSystem.Lasting
import MountShell.Proofs.Shell.Release
import MountShell.Proofs.Shell.Passage
import MountShell.Proofs.Shell.Redirection
import MountShell.Proofs.Shell.Session
import MountShell.Proofs.Text.ByteOrder
import MountShell.Proofs.Text.Numeral
import MountShell.Proofs.Path
import MountShell.Proofs.Path.Containment
import MountShell.Proofs.FileSystem.Points
import MountShell.Proofs.FileSystem.Routing
import MountShell.Proofs.FileSystem.Listing
import MountShell.Proofs.Timer.Queue
import MountShell.Proofs.Timer.History
import MountShell.Proofs.Shell.Deeds
import MountShell.Proofs.Shell.Variables
import MountShell.Proofs.Shell.Wakeups
import MountShell.Proofs.Shell.Cancellation
import MountShell.Proofs.Line.Rendering
import MountShell.Proofs.Line.Grammar
import MountShell.Proofs.Task.Simulation
import MountShell.Proofs.Task.Wakeups
import MountShell.Proofs.Task.Numbers
import MountShell.Proofs.Task.Flag
import MountShell.Proofs.FileSystem.Remote
import MountShell.Proofs.Json.Depth
import MountShell.Proofs.Volume.Format
import MountShell.Proofs.FileSystem.Table
import MountShell.Proofs.Tree.Change
import MountShell.Proofs.Volume.Change
import MountShell.Proofs.FileSystem.Change
import MountShell.Proofs.FileSystem.Frame
import MountShell.Proofs.FileSystem.Growth
import MountShell.Proofs.Shell.Operations
import MountShell.Proofs.Shell.Workplace
import MountShell.Proofs.Tree.Creation
import MountShell.Proofs.Volume.Keys
import MountShell.Proofs.Tree.Log
import MountShell.Proofs.FileSystem.Writing
import MountShell.Proofs.Shell.Output
import MountShell.Proofs.Shell.Delivery
import MountShell.Proofs.Line.Joining
import MountShell.Proofs.Line.Assignments
import MountShell.Proofs.Line.Positions
import MountShell.Proofs.Shell.Boundaries
import MountShell.Proofs.Path.Normal
import MountShell.Proofs.FileSystem.Views
import MountShell.Proofs.Shell.Lookup
import MountShell.Proofs.Timer.Sleeps
import MountShell.Proofs.Timer.Outcomes
import MountShell.Proofs.Volume.Fetching
import MountShell.Proofs.Environment.Unwinding
import MountShell.Proofs.Shell.Completion
import MountShell.Proofs.Program.Counting
import MountShell.Proofs.Program.Paging
import MountShell.Proofs.Volume.Locations
