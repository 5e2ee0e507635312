import Balrog.Calendar
import Balrog.Descriptors
import Balrog.DirNames
import Balrog.DirectoryCache
import Balrog.DirectoryRoundTrip
import Balrog.ElfLoad
import Balrog.EventRing
import Balrog.ExecArguments
import Balrog.ExecFailure
import Balrog.FileBuffers
import Balrog.FileReads
import Balrog.HeapGrowth
import Balrog.HugePages
import Balrog.KernelHeap
import Balrog.KernelLog
import Balrog.KeyboardQueue
import Balrog.LoaderMap
import Balrog.LogArea
import Balrog.LogText
import Balrog.MountTargets
import Balrog.Mutex
import Balrog.NewDirectory
import Balrog.NumberText
import Balrog.PathSplit
import Balrog.ProcessHeap
import Balrog.ShadowFile
import Balrog.SleeperNodes
import Balrog.UsablePages
import Balrog.UsbSectors
import Balrog.UuidTexts
import Balrog.VfsDevice
import Balrog.Waiters
