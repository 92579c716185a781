import InodeVolume.Device.SectorArray
import InodeVolume.Main
import InodeVolume.Session.Report
import InodeVolume.Proofs.Device.Image
import InodeVolume.Proofs.Program.Ensures
import InodeVolume.Proofs.Program.Secures
import InodeVolume.Proofs.Inode.Growth
import InodeVolume.Proofs.Allocation.Counting
import InodeVolume.Proofs.Allocation.Sufficiency
import InodeVolume.Proofs.FileStore.Allocation
import InodeVolume.Proofs.FileStore.Lifecycle
import InodeVolume.Proofs.FileStore.Operations
import InodeVolume.Proofs.Volume.Format
import InodeVolume.Proofs.Volume.Interruption
import InodeVolume.Proofs.Volume.Ownership
import InodeVolume.Proofs.Volume.Refinement
import InodeVolume.Proofs.Volume.Shape
import InodeVolume.Proofs.Volume.Atomicity
import InodeVolume.Proofs.Program.Recording
import InodeVolume.Proofs.Registry.Recording
import InodeVolume.Proofs.Volume.Reclamation
import InodeVolume.Proofs.Volume.Safety
import InodeVolume.Proofs.Volume.Mounting
import InodeVolume.Proofs.Registry.Sharing
import InodeVolume.Proofs.Volume.Sharing
import InodeVolume.Proofs.Inode.Provision
import InodeVolume.Proofs.FileStore.Knowledge
import InodeVolume.Proofs.Volume.Frugality
import InodeVolume.Proofs.Volume.Staleness
import InodeVolume.Proofs.Packer.Packing
import InodeVolume.Proofs.Volume.Growth
import InodeVolume.Proofs.Volume.Composition
import InodeVolume.Proofs.Volume.Translation
import InodeVolume.Proofs.Session.Mirror
import InodeVolume.Proofs.Allocation.SetRefinement
import InodeVolume.Proofs.Volume.FreshVolume
import InodeVolume.Proofs.Sector.Layouts
import InodeVolume.Proofs.Registry.Tolerance
import InodeVolume.Proofs.Volume.Bulk
import InodeVolume.Proofs.Registry.Usage
import InodeVolume.Proofs.Volume.Denial
import InodeVolume.Proofs.Volume.Freezing
import InodeVolume.Proofs.Inode.Balance
import InodeVolume.Proofs.Registry.Forgetting
import InodeVolume.Proofs.Program.Discretion
import InodeVolume.Proofs.Inode.Discretion
import InodeVolume.Proofs.Registry.Tallying
import InodeVolume.Proofs.Allocation.Watching
import InodeVolume.Proofs.Volume.Logging
import InodeVolume.Proofs.Volume.AuditTrail
import InodeVolume.Proofs.Volume.StaleRecords
