import G3Mod.Alarm.Theorems
import G3Mod.Ashmem.Failures
import G3Mod.Ashmem.Ioctl
import G3Mod.Binder.Alloc.Theorems
import G3Mod.Binder.Errors.Theorems
import G3Mod.Binder.Objects.Theorems
import G3Mod.Binder.Refs.Theorems
import G3Mod.Binder.Transaction.Theorems
import G3Mod.Cmm.Theorems
import G3Mod.Dvfs.Theorems
import G3Mod.EarlySuspend.Theorems
import G3Mod.Idr.Theorems
import G3Mod.Logger.Klog
import G3Mod.Logger.Lapping
import G3Mod.Onedram.Theorems
import G3Mod.Pmem.Files.Theorems
import G3Mod.Rbtree.Pointer.Theorems
import G3Mod.Recovery.Applypatch.Digests
import G3Mod.Recovery.Applypatch.Sinks
import G3Mod.Recovery.Applypatch.Theorems
import G3Mod.Recovery.Verifier.Theorems
import G3Mod.Resource.Allocate
import G3Mod.Resource.Ranges
import G3Mod.Sipc.Theorems
import G3Mod.WakeLock.Theorems
import G3Mod.Xvmalloc.Theorems
import G3Mod.Zram.Init
import G3Mod.Zram.Requests
import G3Mod.Android.Lowmem
import G3Mod.Android.RamConsole
import G3Mod.Recovery.Mtdutils.Read
import G3Mod.Bfq.PeakRate
