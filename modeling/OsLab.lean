import OsLab.Dining.Rice
import OsLab.Lib.DemandPaging
import OsLab.Twitter.MsgList
import OsLab.Paging.Optimal
import OsLab.Sfs.Isolation
import OsLab.Sfs.Session
import OsLab.Sfs.Accounting
import OsLab.Lib.WriteBack
import OsLab.Sfs.Persistence
import OsLab.Sfs.RoundTrip
import OsLab.Dining.Main
import OsLab.Paging.Coherence
import OsLab.Paging.FailedLoad
import OsLab.Paging.Translator
import OsLab.Lib.GuardedRun
import OsLab.Twitter.Mailbox
import OsLab.Twitter.Mailslot
import OsLab.Sfs.Format
import OsLab.Lib.RangeFile
import OsLab.Sfs.Ranges
import OsLab.Sfs.BlockArray
import OsLab.Twitter.Reuse
import OsLab.Sfs.Bitmap
import OsLab.Sfs.Numbers
import OsLab.Sfs.CopyIn
import OsLab.Lib.FirstFit
import OsLab.Sfs.Secrecy
import OsLab.Sfs.Remount
import OsLab.Paging.Victim
import OsLab.Removal
import OsLab.Paging.Sequence
import OsLab.Twitter.Text
import OsLab.Twitter.Shutdown
import OsLab.Sfs.Allocator
import OsLab.Sfs.CopyOut
import OsLab.Sfs.Bounds
import OsLab.Sfs.Leaks
import OsLab.Twitter.MessageBytes
import OsLab.Twitter.Unmapping
import OsLab.Dining.Termination
import OsLab.Paging.Main
import OsLab.Lib.Transcript
import OsLab.Sfs.Store
import OsLab.Sfs.Refinement
import OsLab.Sfs.Exit
import OsLab.Sfs.Sessions
import OsLab.Sfs.Prompt
import OsLab.Sfs.Console
import OsLab.Sfs.NewDisk
import OsLab.Twitter.Deliveries
import OsLab.Twitter.Window
import OsLab.Twitter.Network
import OsLab.Twitter.Provenance
import OsLab.Twitter.Flow
import OsLab.Twitter.Order
