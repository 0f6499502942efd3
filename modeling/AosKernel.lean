import AosKernel.Aosfs.Contents
import AosKernel.Memory.Isolation
import AosKernel.Memory.Allocator
import AosKernel.Process.AddressSpaces
import AosKernel.Process.Fairness
import AosKernel.Process.Lineage
import AosKernel.Fd.Restart
import AosKernel.Fd.Senders
import AosKernel.Fd.Identity
import AosKernel.Fd.Delivery
import AosKernel.Uni.StreamNames
import AosKernel.Uni.Removal
import AosKernel.Uni.Metadata
import AosKernel.Uni.VersionOrder
import AosKernel.Tmpfs.Tree
import AosKernel.Block.FlatArray
import AosKernel.Block.PartitionTable
import AosKernel.Ext4.Allocation
import AosKernel.Acur.Verified
import AosKernel.Loader.PageMap
import AosKernel.Tty
