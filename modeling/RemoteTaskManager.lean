import RemoteTaskManager.Framework.Balance
import RemoteTaskManager.Framework.Double
import RemoteTaskManager.Framework.Rounding
import RemoteTaskManager.Framework.Objects
import RemoteTaskManager.Framework.Outcome
import RemoteTaskManager.Framework.Triple
import RemoteTaskManager.Framework.Run
import RemoteTaskManager.Framework.Project
import RemoteTaskManager.Framework.StableSort
import RemoteTaskManager.Framework.Switch
import RemoteTaskManager.Framework.WideText
import RemoteTaskManager.Framework.Numeral
import RemoteTaskManager.Impl.Platform
import RemoteTaskManager.Impl.ColumnItems
import RemoteTaskManager.Impl.VariantVisit
import RemoteTaskManager.Impl.WmiImpl
import RemoteTaskManager.Impl.WmiProcess
import RemoteTaskManager.Impl.Win32Process
import RemoteTaskManager.Impl.WmiProcessTable
import RemoteTaskManager.Impl.Frame
import RemoteTaskManager.Impl.PopupMenu
import RemoteTaskManager.Impl.GridUpdateTimer
import RemoteTaskManager.Impl.Window
import RemoteTaskManager.Impl.RemoteTaskManagement
import RemoteTaskManager.Impl.Program
import RemoteTaskManager.Impl.TimedProgram
import RemoteTaskManager.Spec.Rows
import RemoteTaskManager.Spec.Size
import RemoteTaskManager.Spec.TextOrder
import RemoteTaskManager.Spec.ComProtocol
import RemoteTaskManager.Proof.ColumnItems
import RemoteTaskManager.Proof.MemoryText
import RemoteTaskManager.Proof.MemorySize
import RemoteTaskManager.Proof.WmiProcessTable
import RemoteTaskManager.Proof.Page
import RemoteTaskManager.Proof.Refresh
import RemoteTaskManager.Proof.Serial
import RemoteTaskManager.Proof.RightClick
import RemoteTaskManager.Proof.SortColumn
import RemoteTaskManager.Proof.TextSort
import RemoteTaskManager.Proof.Histories
import RemoteTaskManager.Proof.TableSafety
import RemoteTaskManager.Proof.FailedRefresh
import RemoteTaskManager.Proof.Columns
import RemoteTaskManager.Proof.GridRows
import RemoteTaskManager.Proof.GridUpdateTimer
import RemoteTaskManager.Proof.Deferred
import RemoteTaskManager.Proof.PageTimer
import RemoteTaskManager.Proof.Closing
import RemoteTaskManager.Proof.Pages
import RemoteTaskManager.Proof.Win32Process
import RemoteTaskManager.Proof.FromCharRange
import RemoteTaskManager.Proof.Counters
import RemoteTaskManager.Proof.CachedText
import RemoteTaskManager.Proof.WmiImpl
import RemoteTaskManager.Proof.Listing
import RemoteTaskManager.Proof.ComBalance
import RemoteTaskManager.Proof.ComOrder
import RemoteTaskManager.Proof.Terminate
import RemoteTaskManager.Proof.ClosePid
import RemoteTaskManager.Proof.VariantVisit
import RemoteTaskManager.Proof.Getters
import RemoteTaskManager.Proof.ComProtocol
import RemoteTaskManager.Proof.Interfaces
import RemoteTaskManager.Proof.Program
import RemoteTaskManager.Proof.ProgramCom
import RemoteTaskManager.Proof.Provenance
import RemoteTaskManager.Proof.Requests
import RemoteTaskManager.Proof.GridTexts
import RemoteTaskManager.Proof.Progress
import RemoteTaskManager.Proof.Repaint
import RemoteTaskManager.Proof.RefreshPace
import RemoteTaskManager.Proof.Threads
import RemoteTaskManager.Proof.ThreadedProgram
