import BrkKernel.Brkfs.Backup
import BrkKernel.Brkfs.Fallocate
import BrkKernel.Brkfs.NamesDir
import BrkKernel.Brkfs.NamesOrphan
import BrkKernel.Brkfs.Ownership
import BrkKernel.Fs.OpenFile
import BrkKernel.Fs.PathWalk
import BrkKernel.Fs.Sync
import BrkKernel.Fs.TmpfsFile
import BrkKernel.Fs.UioData
import BrkKernel.Fs.Umount
import BrkKernel.Kern.Nanosleep
import BrkKernel.Kern.SchedWakeup
import BrkKernel.Kern.Session
import BrkKernel.Kern.Trap
import BrkKernel.Kern.WaitSched
import BrkKernel.Mm.KmallocRun
import BrkKernel.Mm.WritebackRun
import BrkKernel.Net.TcpIncoming
import BrkKernel.Net.TcpSend
import BrkKernel.Net.TcpStream
import BrkKernel.Riscv.PgtableTree
