import Zectl.Lib.StateRun
import Zectl.Lib.PathOrder
import Zectl.Lib.Preorder
import Zectl.Lib.Visit
import Zectl.Lib.Lines
import Zectl.Lib.KeyedList
import Zectl.Lib.MountTable
import Zectl.Lib.BasicRegex
import Zectl.Lib.RegexMatches
import Zectl.Lib.RegexGroups
import Zectl.Lib.RegexSyntax
import Zectl.Lib.RegexFragments
import Zectl.Lib.Words
import Zectl.Lib.ThreeDigits
import Zectl.Lib.GetOpt
import Zectl.Lib.FileTree
import Zectl.Util.CString
import Zectl.Zfs.System
import Zectl.Zfs.Steps
import Zectl.Zfs.Forest
import Zectl.Util.Files
import Zectl.Util.Writes
import Zectl.Util.Traverse
import Zectl.Util.Directory
import Zectl.Util.CopyDir
import Zectl.Util.FileSystem
import Zectl.Util.TraverseErrors
import Zectl.Util.CopyTree
import Zectl.Util.RemoveTree
import Zectl.Util.Clearing
import Zectl.Util.RmdirScope
import Zectl.Util.Replace
import Zectl.Util.ReplaceString
import Zectl.Util.SubexprReplace
import Zectl.Libze.Init
import Zectl.Libze.Sample
import Zectl.Libze.Validate
import Zectl.Libze.ActivatedPath
import Zectl.Libze.Property
import Zectl.Libze.PropFilter
import Zectl.Libze.Listing
import Zectl.Libze.Destroy
import Zectl.Libze.DestroyOutcome
import Zectl.Libze.Rename
import Zectl.Libze.RenameOutcome
import Zectl.Libze.Unmount
import Zectl.Libze.Guards
import Zectl.Libze.Allowing
import Zectl.Libze.GuardsExact
import Zectl.Libze.Clone
import Zectl.Libze.Mount
import Zectl.Libze.MountTree
import Zectl.Libze.DestroySnapshot
import Zectl.Libze.MountRoundTrip
import Zectl.Libze.MountFailure
import Zectl.Libze.Create
import Zectl.Libze.NameParts
import Zectl.Libze.CreateOutcome
import Zectl.Libze.Snapshot
import Zectl.Libze.Activate
import Zectl.Libze.ActivateTree
import Zectl.Libze.MountOutcome
import Zectl.Libze.Pairing
import Zectl.Systemdboot.ReplaceMatched
import Zectl.Systemdboot.LineBuffer
import Zectl.Systemdboot.Loader
import Zectl.Systemdboot.LoaderOutcome
import Zectl.Systemdboot.Fstab
import Zectl.Systemdboot.Rewritten
import Zectl.Systemdboot.Entry
import Zectl.Systemdboot.Defaults
import Zectl.Systemdboot.RewriteLine
import Zectl.Systemdboot.FstabLine
import Zectl.Systemdboot.EntryRegex
import Zectl.Systemdboot.EntryLine
import Zectl.Systemdboot.PreSnapshot
import Zectl.Systemdboot.TwoPasses
import Zectl.Systemdboot.PreSnapshotOutcome
import Zectl.Systemdboot.PostCreate
import Zectl.Systemdboot.SavedKernels
import Zectl.Libze.CloneCanmount
import Zectl.Libze.Canmount
import Zectl.Libze.CloneProps
import Zectl.Command.Table
import Zectl.Command.Commands
import Zectl.Command.Program
import Zectl.Command.Calls
import Zectl.Command.Runs
import Zectl.Command.CommandLine
import Zectl.Util.EmptiedDir
import Zectl.Systemdboot.Hooks
import Zectl.Systemdboot.PropBuffers
import Zectl.Systemdboot.PostRename
import Zectl.Lib.NamedStore
import Zectl.Systemdboot.BootStore
import Zectl.Systemdboot.Activations
import Zectl.Command.HookCalls
import Zectl.Systemdboot.JoinedRun
import Zectl.Util.CopyRemoved
import Zectl.Util.MakeDir
