import SdcBoot.Share.Locks
import SdcBoot.Share.First
import SdcBoot.Memory.UmbInit
import SdcBoot.Kernel.Owner
import SdcBoot.Kernel.Exit
import SdcBoot.Block.Ring
import SdcBoot.Mtcp.Tables
import SdcBoot.Mtcp.Ack
import SdcBoot.Mtcp.UdpFragments
import SdcBoot.Mtcp.Conserved
import SdcBoot.Mtcp.Window
import SdcBoot.Mtcp.Collect
import SdcBoot.Mtcp.Arp
import SdcBoot.Mtcp.Options
import SdcBoot.Mtcp.Send
import SdcBoot.Mtcp.Resolve
import SdcBoot.Mtcp.Ends
import SdcBoot.InitDisk.Letters
import SdcBoot.InitDisk.FatData
import SdcBoot.Bios.Dispatch
import SdcBoot.Ftp.Token
import SdcBoot.Ftp.Framing
import SdcBoot.Ftp.Arrays
import SdcBoot.Ftp.Upload
import SdcBoot.Ftp.Login
import SdcBoot.Kernel.Edit
import SdcBoot.Kernel.Record
import SdcBoot.Memory.Load
import SdcBoot.Defrag.Labels
import SdcBoot.Defrag.CacheRuns
import SdcBoot.Defrag.BufShift
import SdcBoot.Defrag.SureMem
import SdcBoot.FreeCom.Kept
import SdcBoot.FreeCom.Handles
import SdcBoot.FreeCom.Nesting
import SdcBoot.FreeCom.FillName
import SdcBoot.FreeCom.BatchFile
import SdcBoot.FreeCom.GiveBack
import SdcBoot.Fat.Wrap
import SdcBoot.Dir.Rename
import SdcBoot.Driver.Request
import SdcBoot.Fat.Free
import SdcBoot.Dir.Names
import SdcBoot.Memory.Resize
import SdcBoot.Memory.Fit
import SdcBoot.Kernel.Before
import SdcBoot.Kernel.Clock
