import BaoHypervisor.BitMemory
import BaoHypervisor.StepSystem
import BaoHypervisor.Machine
import BaoHypervisor.Bitmap
import BaoHypervisor.PagePool
import BaoHypervisor.ColoredPool
import BaoHypervisor.PoolSystem
import BaoHypervisor.PageAlloc
import BaoHypervisor.StaticMemory
import BaoHypervisor.StaticIsolation
import BaoHypervisor.MemorySystem
import BaoHypervisor.ObjPool
import BaoHypervisor.Remio
import BaoHypervisor.RemioRequests
import BaoHypervisor.RemioAuthority
import BaoHypervisor.RangeList
import BaoHypervisor.Vmpu
import BaoHypervisor.VmpuRegions
import BaoHypervisor.VmpuSystem
import BaoHypervisor.VmpuSync
import BaoHypervisor.Interrupts
import BaoHypervisor.BoundedFifo
import BaoHypervisor.CircularQueue
import BaoHypervisor.CpuMessages
import BaoHypervisor.VcpuAssign
import BaoHypervisor.RoundBarrier
import BaoHypervisor.CpuSync
import BaoHypervisor.RemioSlots
import BaoHypervisor.Vgic
import BaoHypervisor.VgicSystem
import BaoHypervisor.VgicCases
import BaoHypervisor.VgicMoves
import BaoHypervisor.VgicShape
import BaoHypervisor.VgicHandlers
import BaoHypervisor.VgicRouting
import BaoHypervisor.VgicPlacement
import BaoHypervisor.VgicEnabled
import BaoHypervisor.WriteOrder
import BaoHypervisor.VgicWrites
import BaoHypervisor.VgicOrder
import BaoHypervisor.VgicSpilled
import BaoHypervisor.VgicWakeup
import BaoHypervisor.GicStates
import BaoHypervisor.VgicStates
import BaoHypervisor.VgicSplit
import BaoHypervisor.VgicConserve
import BaoHypervisor.LockProgram
import BaoHypervisor.VgicLocks
import BaoHypervisor.VgicLockOrder
import BaoHypervisor.VgicAtomic
import BaoHypervisor.PriorityScan
import BaoHypervisor.Vplic
import BaoHypervisor.VplicClaims
import BaoHypervisor.VplicLines
import BaoHypervisor.WordRegs
import BaoHypervisor.Vaplic
import BaoHypervisor.VaplicSystem
import BaoHypervisor.VaplicLeak
import BaoHypervisor.VaplicHarts
import BaoHypervisor.VaplicTopi
import BaoHypervisor.VaplicClaims
import BaoHypervisor.VaplicDelivery
import BaoHypervisor.Rh850Mpu
import BaoHypervisor.Rh850Sharing
import BaoHypervisor.SharedRanges
import BaoHypervisor.TricoreMpu
import BaoHypervisor.TricoreSets
import BaoHypervisor.TricoreTables
import BaoHypervisor.VmpuCoalesce
import BaoHypervisor.RemioSetup
import BaoHypervisor.RemioTargets
import BaoHypervisor.ColoredViews
import BaoHypervisor.RemioCompletions
import BaoHypervisor.RemioRegisters
import BaoHypervisor.VmpuUnmap
import BaoHypervisor.ObjPoolPointers
import BaoHypervisor.AlignedSearch
import BaoHypervisor.VgicEoir
import BaoHypervisor.ByteLanes
import BaoHypervisor.Intc2
import BaoHypervisor.Intc2Isolation
import BaoHypervisor.StartCell
import BaoHypervisor.PsciStart
import BaoHypervisor.SbiStart
import BaoHypervisor.VcpuStart
import BaoHypervisor.TernaryMatch
import BaoHypervisor.SmmuV2
import BaoHypervisor.SmmuIsolation
import BaoHypervisor.RadixTable
import BaoHypervisor.PageTable
import BaoHypervisor.MemUnmap
import BaoHypervisor.UnmapExact
import BaoHypervisor.PageInflate
import BaoHypervisor.ColoredSearch
import BaoHypervisor.RemioPairing
import BaoHypervisor.VmpuRefusal
import BaoHypervisor.VmpuCopy
import BaoHypervisor.VmImage
import BaoHypervisor.Recolour
import BaoHypervisor.RadixEnds
import BaoHypervisor.VpageAlloc
import BaoHypervisor.PageMap
import BaoHypervisor.PageCopy
import BaoHypervisor.RadixCover
import BaoHypervisor.VpageScan
import BaoHypervisor.VpageRuns
import BaoHypervisor.VmpuMerges
import BaoHypervisor.Armv8rMpu
import BaoHypervisor.Armv8rCalls
import BaoHypervisor.VmpuAlloc
import BaoHypervisor.CpuTopology
import BaoHypervisor.VgicForward
import BaoHypervisor.VgicVictim
import BaoHypervisor.VgicRegs
import BaoHypervisor.VgicReads
import BaoHypervisor.VgicDecode
import BaoHypervisor.VgicRefill
import BaoHypervisor.VgicStays
import BaoHypervisor.VgicLrenp
import BaoHypervisor.GicAccess
import BaoHypervisor.VgicSetup
import BaoHypervisor.PackedFields
import BaoHypervisor.VplicComplete
import BaoHypervisor.VplicDecode
import BaoHypervisor.RvLoads
import BaoHypervisor.SbiCalls
import BaoHypervisor.SbiHartMasks
import BaoHypervisor.MaskBits
import BaoHypervisor.Vipir
import BaoHypervisor.Intc2Guest
import BaoHypervisor.Rh850Traps
import BaoHypervisor.VirSrc
import BaoHypervisor.RegionMaps
import BaoHypervisor.PointerChain
import BaoHypervisor.LinkedList
import BaoHypervisor.MemCopy
import BaoHypervisor.Numerals
import BaoHypervisor.PrintInt
import BaoHypervisor.Printk
import BaoHypervisor.BitmapWords
import BaoHypervisor.VmCpus
import BaoHypervisor.VmBroadcast
import BaoHypervisor.IpcNotify
import BaoHypervisor.TricoreRegs
import BaoHypervisor.TricoreTraps
import BaoHypervisor.TableMemory
import BaoHypervisor.RecursiveMap
import BaoHypervisor.Armv8PageTable
import BaoHypervisor.Armv8TableMemory
import BaoHypervisor.Armv8TableRuns
import BaoHypervisor.Bits64
import BaoHypervisor.RvIommuFaults
import BaoHypervisor.RvIommuDdt
