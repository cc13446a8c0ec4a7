import BaoHypervisor.PageAlloc

/-!
# Memory initialisation

`mem_init` builds the page pools and reserves in them what the configuration
places at fixed physical addresses: the hypervisor and its per-CPU area, the
images of the VMs, and the regions and shared memories with `place_phys`.  The
hypervisor's own memory is reserved in the root pool, the rest in whichever
pool contains it.  `none` is a run that reaches `ERROR`.  The hypervisor has
no colours here, so `mem_color_hypervisor` is not called.
-/

namespace Bao

open BitMemory

variable {M : Machine}

/-! ## Configuration and platform -/

/-- The image of a VM, in `struct vm_config`. -/
structure VmImage where
  loadAddr : Nat
  size : Nat
  separatelyLoaded : Bool

/-- `struct vm_mem_region`, without its `reserved` flag. -/
structure VmMemRegion where
  base : Nat
  size : Nat
  colors : Nat
  placePhys : Bool
  phys : Nat

/-- `struct ipc`, as far as memory is concerned. -/
structure Ipc where
  base : Nat
  size : Nat
  shmemId : Nat

/-- `struct vm_config`, as far as memory is concerned. -/
structure VmConfig where
  image : VmImage
  regions : List VmMemRegion
  ipcs : List Ipc

/-- `struct shmem`, without its `reserved` flag. -/
structure Shmem where
  size : Nat
  colors : Nat
  placePhys : Bool
  phys : Nat

/-- `struct config`, as far as memory is concerned. -/
structure Config where
  vmlist : List VmConfig
  shmemlist : List Shmem

/-- The platform and what the linker script and the boot code say about the
hypervisor image: its parts start and end on page boundaries, are not empty,
and end with the per-CPU areas inside the address space. -/
structure Platform (M : Machine) where
  regions : List (MemRegion M)
  memNonUnified : Bool
  memProtMpu : Bool
  vasBase : Nat
  imgAddr : Nat
  dataAddr : Nat
  dataVmaStart : Nat
  imageLoadSize : Nat
  imageNoloadSize : Nat
  vmImageSize : Nat
  dataSize : Nat
  cpuNum : Nat
  cpuBootAllocSize : Nat
  img_aligned : M.pageSize ∣ imgAddr
  dataVma_aligned : M.pageSize ∣ dataVmaStart
  load_aligned : M.pageSize ∣ imageLoadSize
  noload_aligned : M.pageSize ∣ imageNoloadSize
  vmImage_aligned : M.pageSize ∣ vmImageSize
  data_aligned : M.pageSize ∣ dataSize
  cpuBoot_aligned : M.pageSize ∣ cpuBootAllocSize
  load_pos : 0 < imageLoadSize
  noload_pos : 0 < imageNoloadSize
  data_pos : 0 < dataSize
  cpus_pos : 0 < cpuNum * cpuBootAllocSize
  load_fits : imgAddr + imageLoadSize < M.wordCount
  cpus_fit : (if memNonUnified then dataVmaStart + dataSize
    else imgAddr + imageLoadSize + vmImageSize + imageNoloadSize) + cpuNum * cpuBootAllocSize ≤
      M.wordCount

/-- `config_adjust_vm_image_addr` for one VM. -/
def configAdjustVmImageAddr (p : Platform M) (vm : VmConfig) : VmConfig :=
  if vm.image.separatelyLoaded then vm
  else
    { vm with
      image := { vm.image with
        loadAddr := (vm.image.loadAddr + (M.wordCount - p.vasBase) + p.imgAddr) % M.wordCount } }

/-- `config_mem_prot_init` (MPU build): guest and physical addresses agree. -/
def configMemProtInit (c : Config) : Option Config :=
  if c.vmlist.all (fun vm => vm.ipcs.all (fun ipc =>
      c.shmemlist[ipc.shmemId]?.all (fun shmem => ipc.base == shmem.phys))) then
    some
      { vmlist := c.vmlist.map (fun vm =>
          { vm with
            regions := vm.regions.map (fun reg => { reg with placePhys := true, phys := reg.base }) })
        shmemlist := c.shmemlist.map (fun shmem => { shmem with placePhys := true }) }
  else none

/-- `config_init`. -/
def configInit (p : Platform M) (c : Config) : Option Config :=
  let c := { c with vmlist := c.vmlist.map (configAdjustVmImageAddr p) }
  if p.memProtMpu then configMemProtInit c else some c

/-! ## What is reserved -/

/-- What memory is reserved for: the parts of the hypervisor, the image of VM
`i`, memory region `j` of VM `i`, and shared memory `k`. -/
inductive Owner
  | hypImageLoad
  | hypImageNoload
  | hypData
  | cpus
  | vmImage (i : Nat)
  | vmRegion (i j : Nat)
  | shmem (k : Nat)
deriving DecidableEq

/-- The address of the per-CPU areas: `cpu_base_addr`. -/
def Platform.cpuBaseAddr (p : Platform M) : Nat :=
  if p.memNonUnified then p.dataVmaStart + p.dataSize
  else p.imgAddr + p.imageLoadSize + p.vmImageSize + p.imageNoloadSize

/-- The pages of the parts of the hypervisor. -/
def Platform.ppages (p : Platform M) : Owner → Ppages
  | .hypImageLoad => memPpagesGet p.imgAddr (M.numPages p.imageLoadSize)
  | .hypImageNoload =>
      memPpagesGet ((p.imgAddr + p.imageLoadSize + p.vmImageSize) % M.wordCount)
        (M.numPages p.imageNoloadSize)
  | .hypData => memPpagesGet p.dataVmaStart (M.numPages p.dataSize)
  | .cpus =>
      memPpagesGet (p.cpuBaseAddr % M.wordCount)
        (M.numPages (p.cpuNum * p.cpuBootAllocSize % M.wordCount))
  | _ => noPpages

/-- The pages that are reserved for an owner. -/
def ppagesFor (p : Platform M) (c : Config) : Owner → Ppages
  | .vmImage i =>
      match c.vmlist[i]? with
      | none => noPpages
      | some vm => memPpagesGet vm.image.loadAddr (M.numPages vm.image.size)
  | .vmRegion i j =>
      match c.vmlist[i]?.bind (fun vm => vm.regions[j]?) with
      | none => noPpages
      | some reg => memPpagesGet reg.phys (M.numPages reg.size)
  | .shmem k =>
      match c.shmemlist[k]? with
      | none => noPpages
      | some shmem => memPpagesGet shmem.phys (M.numPages shmem.size)
  | o => p.ppages o

namespace Config

/-- The images of all VMs. -/
def images (c : Config) : List Owner := (List.range c.vmlist.length).map .vmImage

/-- The regions with `place_phys` of all VMs, in the order of the loops. -/
def physRegions (c : Config) : List Owner :=
  c.vmlist.zipIdx.flatMap (fun (vm, i) =>
    vm.regions.zipIdx.filterMap (fun (reg, j) => if reg.placePhys then some (.vmRegion i j) else none))

/-- The shared memories with `place_phys`. -/
def physShmems (c : Config) : List Owner :=
  c.shmemlist.zipIdx.filterMap (fun (shmem, k) => if shmem.placePhys then some (.shmem k) else none)

end Config

/-- The hypervisor's memory that is reserved in the root pool. -/
def Platform.rootOwners (p : Platform M) : List Owner :=
  if p.memNonUnified then [.hypData, .cpus] else [.hypImageLoad, .hypImageNoload, .cpus]

/-- Everything that must be reserved before `mem_init` returns. -/
def staticOwners (p : Platform M) (c : Config) : List Owner :=
  p.rootOwners ++ (if p.memNonUnified then [.hypImageLoad] else []) ++ c.images ++ c.physRegions ++
    c.physShmems

/-! ## The root pool -/

namespace PoolState

/-- `mem_reserve_ppool_ppages` on pool `i`. -/
def reserveIn (s : PoolState M) (i : Nat) (ppages : Ppages) : Bool × PoolState M :=
  match s.pools[i]? with
  | none => (false, s)
  | some pool =>
      let (reserved, m, pool) := pool.memReservePpoolPpages s.bits ppages
      (reserved, s.setPool i m pool)

end PoolState

/-- `pp_root_reserve_hyp_mem`: every part is tried, and all must succeed. -/
def ppRootReserveHypMem (p : Platform M) :
    List Owner → PoolState M → Bool × PoolState M
  | [], s => (true, s)
  | o :: rest, s =>
      let (ok, s) := s.reserveIn 0 (p.ppages o)
      let (okRest, s) := ppRootReserveHypMem p rest s
      (ok && okRest, s)

/-- `pp_root_init`. -/
def ppRootInit (p : Platform M) (rootRegion : MemRegion M) (s : PoolState M) :
    Option (PoolState M) :=
  match s.ppInit rootRegion with
  | none => none
  | some s =>
      match ppRootReserveHypMem p p.rootOwners s with
      | (true, s) => some s
      | (false, _) => none

/-- `mem_find_root_region`: the index of the region. -/
def memFindRootRegion (p : Platform M) : Option Nat :=
  let rootMemSize := if p.memNonUnified then p.dataSize else p.imageLoadSize + p.imageNoloadSize
  let rootBaseAddr := if p.memNonUnified then p.dataAddr else p.imgAddr
  p.regions.findIdx? (fun region => M.rangeInRange rootBaseAddr rootMemSize region.base region.size)

/-- `mem_setup_root_pool`. -/
def memSetupRootPool (p : Platform M) (s : PoolState M) :
    Option (Nat × PoolState M) :=
  match memFindRootRegion p with
  | none => none
  | some root =>
      match p.regions[root]? with
      | none => none
      | some region => (ppRootInit p region s).map (fun s => (root, s))

/-! ## The reservations of the configuration -/

/-- The pools and the `reserved` flags of the configuration;
`mem_hyp_image_no_load_reserved` is the flag of the loaded hypervisor image. -/
structure InitState (M : Machine) where
  pools : PoolState M
  reserved : Owner → Bool

/-- `mem_vm_img_in_phys_rgn`. -/
def memVmImgInPhysRgn (M : Machine) (vm : VmConfig) : Bool :=
  vm.regions.any (fun reg => reg.placePhys &&
    M.rangeInRange vm.image.loadAddr vm.image.size reg.phys reg.size)

/-- `mem_init_reserved`: an image inside a region of its VM counts as reserved,
as the region will be. -/
def memInitReserved (p : Platform M) (c : Config) (reserved : Owner → Bool) : Owner → Bool
  | .hypImageLoad => if p.memNonUnified then false else reserved .hypImageLoad
  | .vmImage i =>
      match c.vmlist[i]? with
      | none => reserved (.vmImage i)
      | some vm => memVmImgInPhysRgn M vm
  | .vmRegion i j => if .vmRegion i j ∈ c.physRegions then false else reserved (.vmRegion i j)
  | .shmem k => if .shmem k ∈ c.physShmems then false else reserved (.shmem k)
  | o => reserved o

/-- Reserve the pages of an owner in pool `i` and set its flag if that works. -/
def reserveOwner (p : Platform M) (c : Config) (i : Nat) (st : InitState M) (o : Owner) :
    InitState M :=
  match st.pools.reserveIn i (ppagesFor p c o) with
  | (true, s) => { pools := s, reserved := fun o' => if o' = o then true else st.reserved o' }
  | (false, s) => { st with pools := s }

/-- One iteration of the loops of `mem_reserve_physical_memory`. -/
def reserveUnlessReserved (p : Platform M) (c : Config) (i : Nat) (st : InitState M) (o : Owner) :
    InitState M :=
  if st.reserved o then st else reserveOwner p c i st o

/-- `mem_reserve_physical_memory` for pool `i`. -/
def memReservePhysicalMemory (p : Platform M) (c : Config) (i : Nat) (st : InitState M) :
    InitState M :=
  let st := if p.memNonUnified then reserveOwner p c i st .hypImageLoad else st
  let st := c.images.foldl (reserveUnlessReserved p c i) st
  let st := c.physRegions.foldl (reserveUnlessReserved p c i) st
  c.physShmems.foldl (reserveUnlessReserved p c i) st

/-- The loop of `mem_create_ppools` over the regions other than the root region. -/
def memCreatePpools (p : Platform M) (c : Config) :
    List (MemRegion M) → InitState M → Option (InitState M)
  | [], st => some st
  | region :: rest, st =>
      match st.pools.ppInit region with
      | none => none
      | some s =>
          memCreatePpools p c rest
            (memReservePhysicalMemory p c st.pools.pools.length { st with pools := s })

/-- `mem_check_reserved`. -/
def memCheckReserved (p : Platform M) (c : Config) (reserved : Owner → Bool) : Bool :=
  (!p.memNonUnified || reserved .hypImageLoad) && c.images.all reserved &&
    c.physRegions.all reserved && c.physShmems.all reserved

/-- `mem_init` on the master CPU, with the flags as they stand in memory and
the configuration before `config_init`. -/
def memInit (p : Platform M) (c : Config) (reserved : Owner → Bool) (s : PoolState M) :
    Option (InitState M) :=
  match memSetupRootPool p s with
  | none => none
  | some (root, s) =>
      match configInit p c with
      | none => none
      | some c =>
          let st := memReservePhysicalMemory p c 0
            { pools := s, reserved := memInitReserved p c reserved }
          match memCreatePpools p c (p.regions.eraseIdx root) st with
          | none => none
          | some st => if memCheckReserved p c st.reserved then some st else none

end Bao
