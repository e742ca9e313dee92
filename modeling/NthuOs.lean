import NthuOs.Queue.Basic
import NthuOs.Queue.Ring
import NthuOs.Queue.Fifo
import NthuOs.Queue.Threads
import NthuOs.Pipeline.Basic
import NthuOs.Pipeline.Controller
import NthuOs.Pipeline.System
import NthuOs.Pipeline.Invariant
import NthuOs.Pipeline.Conservation
import NthuOs.Pipeline.Pool
import NthuOs.Pipeline.Cancel
import NthuOs.Pipeline.Drain
import NthuOs.FileSys.Bitmap
import NthuOs.FileSys.FileHeader
import NthuOs.FileSys.Layout
import NthuOs.FileSys.Leak
import NthuOs.FileSys.Persist
import NthuOs.FileSys.Table
