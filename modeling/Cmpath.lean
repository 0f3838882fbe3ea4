import Cmpath.Retention.Plan
import Cmpath.Journal.Revision
import Cmpath.Journal.Creation
import Cmpath.Journal.Replay
import Cmpath.Memory.Assembly
import Cmpath.Adapter.Lease
import Cmpath.Memory.Resolution
import Cmpath.Journal.Lineage
import Cmpath.Router.Recording
import Cmpath.Router.Priority
import Cmpath.Router.Pinned
import Cmpath.Journal.Preview
import Cmpath.Journal.Confirm
import Cmpath.Store.Migration
import Cmpath.Journal.Facts
import Cmpath.Memory.Omitted
import Cmpath.Journal.Active
import Cmpath.Engine.ExportFile
import Cmpath.Memory.Batch
import Cmpath.Conformance.Eligible
import Cmpath.Autosave.DryRun
import Cmpath.Autosave.Repeats
import Cmpath.Autosave.Following
import Cmpath.Autosave.Rescans
import Cmpath.Autosave.Total
import Cmpath.Installer.Reinstall
import Cmpath.Engine.LineEndings
import Cmpath.Agent.Execution
import Cmpath.Agent.Resume
import Cmpath.Legacy.Checkpoint
import Cmpath.Legacy.Writing
import Cmpath.Legacy.Migration
import Cmpath.Autosave.Processes
