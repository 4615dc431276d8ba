import Mathlib.Algebra.Group.Nat.Defs
import Mathlib.Logic.Function.Basic

/-! # Construction and destruction of shared buffers

A buffer of triton blocks lives in a region of shared memory that its constructor
creates, maps and registers with the server. The operating system and the server
answer every step; what they hold is `TorchDsp.Host`.
-/

namespace TorchDsp

/-- `tc::Error`. -/
inductive ClientError
  | success
  | failure (message : String)
  deriving DecidableEq, Repr

def ClientError.isOk : ClientError → Bool
  | .success => true
  | .failure _ => false

/-- A pointer that `mmap` has written. -/
inductive Address
  | mapFailed
  | base (address : Nat)
  deriving DecidableEq, Repr

/-- What is mapped at a base address. -/
structure Mapping where
  region : String
  offset : Nat
  byteSize : Nat
  deriving DecidableEq, Repr

/-- A region that the server knows. -/
structure Registration where
  region : String
  byteSize : Nat
  deriving DecidableEq, Repr

/-- The named regions with their sizes, the open descriptors with the regions they
refer to, the mappings by base address and the server's registrations by key. -/
structure Host where
  regions : String → Option Nat := fun _ => none
  descriptors : Nat → Option String := fun _ => none
  mappings : Nat → Option Mapping := fun _ => none
  registrations : String → Option Registration := fun _ => none

namespace Host

/-- `shm_open` with `O_CREAT`: a new region has size 0, an existing one keeps its
size. -/
def shmOpen (host : Host) (region : String) (fd : Nat) : Host :=
  { host with
    regions := Function.update host.regions region (some ((host.regions region).getD 0))
    descriptors := Function.update host.descriptors fd (some region) }

def ftruncate (host : Host) (region : String) (byteSize : Nat) : Host :=
  { host with regions := Function.update host.regions region (some byteSize) }

def close (host : Host) (fd : Nat) : Host :=
  { host with descriptors := Function.update host.descriptors fd none }

def mmap (host : Host) (address : Nat) (mapping : Mapping) : Host :=
  { host with mappings := Function.update host.mappings address (some mapping) }

def munmap (host : Host) (address : Nat) : Host :=
  { host with mappings := Function.update host.mappings address none }

def shmUnlink (host : Host) (region : String) : Host :=
  { host with regions := Function.update host.regions region none }

def register (host : Host) (key : String) (registration : Registration) : Host :=
  { host with registrations := Function.update host.registrations key (some registration) }

def unregister (host : Host) (key : String) : Host :=
  { host with registrations := Function.update host.registrations key none }

end Host

/-! ## The functions of `shm_utils` -/

/-- A descriptor as the error texts show it. -/
def descriptorText (fd : Option Nat) : String :=
  (fd.map toString).getD "-1"

/-- `fd` is what `shm_open` answers, `truncates` whether `ftruncate` succeeds. -/
def createSharedMemoryRegion (shmKey : String) (byteSize : Nat) (fd : Option Nat)
    (truncates : Bool) (host : Host) : ClientError × Host :=
  match fd with
  | none =>
      (.failure ("unable to get shared memory descriptor for shared-memory key '" ++ shmKey ++ "'"),
        host)
  | some fd =>
      let host := host.shmOpen shmKey fd
      if truncates then (.success, host.ftruncate shmKey byteSize)
      else
        (.failure ("unable to initialize shared-memory key '" ++ shmKey ++
          "' to requested size: " ++ toString byteSize ++ " bytes"), host)

/-- `address` is what `mmap` answers for an open descriptor; without one it fails. -/
def mapSharedMemory (fd : Option Nat) (offset byteSize : Nat) (address : Option Nat)
    (host : Host) : ClientError × Address × Host :=
  match fd.bind host.descriptors, address with
  | some region, some address =>
      (.success, .base address, host.mmap address ⟨region, offset, byteSize⟩)
  | _, _ =>
      (.failure ("unable to process address space or shared-memory descriptor: " ++
        descriptorText fd), .mapFailed, host)

/-- `closes` is whether `close` succeeds on an open descriptor. -/
def closeSharedMemory (fd : Option Nat) (closes : Bool) (host : Host) : ClientError × Host :=
  match fd, closes with
  | some fd, true => (.success, host.close fd)
  | _, _ => (.failure ("unable to close shared-memory descriptor: " ++ descriptorText fd), host)

def unlinkSharedMemoryRegion (shmKey : String) (host : Host) : ClientError × Host :=
  match host.regions shmKey with
  | none => (.failure ("unable to unlink shared memory for key '" ++ shmKey ++ "'"), host)
  | some _ => (.success, host.shmUnlink shmKey)

def unmapSharedMemory (address : Address) (host : Host) : ClientError × Host :=
  match address with
  | .mapFailed => (.failure "unable to munmap shared memory region", host)
  | .base address => (.success, host.munmap address)

section Frames

variable (shmKey : String) (byteSize offset : Nat) (fd address : Option Nat)
  (truncates closes : Bool) (written : Address) (host : Host)

/-- Creating a region maps nothing. -/
@[simp] theorem createSharedMemoryRegion_mappings :
    (createSharedMemoryRegion shmKey byteSize fd truncates host).2.mappings = host.mappings := by
  unfold createSharedMemoryRegion
  split
  · rfl
  · split <;> rfl

/-- Creating a region registers nothing. -/
@[simp] theorem createSharedMemoryRegion_registrations :
    (createSharedMemoryRegion shmKey byteSize fd truncates host).2.registrations =
      host.registrations := by
  unfold createSharedMemoryRegion
  split
  · rfl
  · split <;> rfl

/-- Mapping leaves the regions. -/
@[simp] theorem mapSharedMemory_regions :
    (mapSharedMemory fd offset byteSize address host).2.2.regions = host.regions := by
  unfold mapSharedMemory
  split <;> rfl

/-- Mapping registers nothing. -/
@[simp] theorem mapSharedMemory_registrations :
    (mapSharedMemory fd offset byteSize address host).2.2.registrations = host.registrations := by
  unfold mapSharedMemory
  split <;> rfl

/-- Closing a descriptor leaves the regions. -/
@[simp] theorem closeSharedMemory_regions :
    (closeSharedMemory fd closes host).2.regions = host.regions := by
  unfold closeSharedMemory
  split <;> rfl

/-- Closing a descriptor leaves what is mapped. -/
@[simp] theorem closeSharedMemory_mappings :
    (closeSharedMemory fd closes host).2.mappings = host.mappings := by
  unfold closeSharedMemory
  split <;> rfl

/-- Closing a descriptor leaves the registrations. -/
@[simp] theorem closeSharedMemory_registrations :
    (closeSharedMemory fd closes host).2.registrations = host.registrations := by
  unfold closeSharedMemory
  split <;> rfl

/-- Unmapping leaves the regions. -/
@[simp] theorem unmapSharedMemory_regions :
    (unmapSharedMemory written host).2.regions = host.regions := by
  unfold unmapSharedMemory
  split <;> rfl

/-- Unmapping leaves the registrations. -/
@[simp] theorem unmapSharedMemory_registrations :
    (unmapSharedMemory written host).2.registrations = host.registrations := by
  unfold unmapSharedMemory
  split <;> rfl

/-- Unlinking leaves what is mapped. -/
@[simp] theorem unlinkSharedMemoryRegion_mappings :
    (unlinkSharedMemoryRegion shmKey host).2.mappings = host.mappings := by
  unfold unlinkSharedMemoryRegion
  split <;> rfl

/-- Unlinking leaves the registrations. -/
@[simp] theorem unlinkSharedMemoryRegion_registrations :
    (unlinkSharedMemoryRegion shmKey host).2.registrations = host.registrations := by
  unfold unlinkSharedMemoryRegion
  split <;> rfl

/-- After unlinking there is no region of the key, whether or not there was one. -/
@[simp] theorem unlinkSharedMemoryRegion_regions :
    (unlinkSharedMemoryRegion shmKey host).2.regions =
      Function.update host.regions shmKey none := by
  unfold unlinkSharedMemoryRegion
  split
  · rename_i absent
    exact (Function.update_eq_self_iff.mpr absent.symm).symm
  · rfl

/-- A region is created exactly if it is opened and given its size. -/
theorem createSharedMemoryRegion_isOk :
    (createSharedMemoryRegion shmKey byteSize fd truncates host).1.isOk =
      (fd.isSome && truncates) := by
  unfold createSharedMemoryRegion
  cases fd with
  | none => rfl
  | some fd => cases truncates <;> rfl

private theorem createSharedMemoryRegion_descriptors (fd : Nat) :
    (createSharedMemoryRegion shmKey byteSize (some fd) truncates host).2.descriptors fd =
      some shmKey := by
  cases truncates <;>
    simp [createSharedMemoryRegion, Host.shmOpen, Host.ftruncate, Function.update_self]

/-- An opened region stays, with its size or without. -/
theorem createSharedMemoryRegion_regions (fd : Nat) :
    (createSharedMemoryRegion shmKey byteSize (some fd) truncates host).2.regions =
      Function.update host.regions shmKey
        (some (if truncates then byteSize else (host.regions shmKey).getD 0)) := by
  cases truncates <;>
    simp [createSharedMemoryRegion, Host.shmOpen, Host.ftruncate, Function.update_idem]

private theorem opened_stays (fd : Nat) :
    (closeSharedMemory (some fd) closes (mapSharedMemory (some fd) offset byteSize address
      (createSharedMemoryRegion shmKey byteSize (some fd) truncates host).2).2.2).2.regions shmKey =
        some (if truncates then byteSize else (host.regions shmKey).getD 0) := by
  rw [closeSharedMemory_regions, mapSharedMemory_regions, createSharedMemoryRegion_regions,
    Function.update_self]

private theorem mapSharedMemory_opened {fd address : Nat} {region : String}
    (opened : host.descriptors fd = some region) :
    mapSharedMemory (some fd) offset byteSize (some address) host =
      (.success, .base address, host.mmap address ⟨region, offset, byteSize⟩) := by
  simp only [mapSharedMemory, Option.bind_some, opened]

private theorem mapSharedMemory_refused :
    (mapSharedMemory fd offset byteSize none host).2 = (.mapFailed, host) := by
  unfold mapSharedMemory
  split
  · rename_i absurd
    cases absurd
  · rfl

end Frames

/-! ## buffer_triton -/

inductive BufferTritonType
  | d2d
  | h2d
  | d2h
  | unknown
  deriving DecidableEq, Repr

def BufferTritonType.toInt : BufferTritonType → Nat
  | .d2d => 0
  | .h2d => 1
  | .d2h => 2
  | .unknown => 3

/-- The members of a buffer_triton that it sets itself. Without a value, a member
is not initialised, or is what the base class has left in it. -/
structure SharedBuffer where
  sharedMemory : Option Address := none
  bufferSize : Option Nat := none
  bufferType : BufferTritonType := .unknown
  shmKey : String := ""
  bufp : Option Address := none
  type : Option String := none
  deriving DecidableEq, Repr

/-- What the server and the operating system answer during one construction. -/
structure HostAnswers where
  create : ClientError := .success
  /-- What `IsServerLive` leaves in the variable it is given, error or not. -/
  live : Bool := true
  /-- What `IsServerReady` leaves in its variable. -/
  ready : Bool := true
  /-- `nodeid_generator`'s identifier and string. -/
  id : Nat := 0
  unique : String
  fd : Option Nat
  truncates : Bool := true
  address : Option Nat
  closes : Bool := true
  registers : ClientError := .success
  deriving DecidableEq, Repr

/-- An error of either inquiry is only printed. -/
def isServerHealthy (answers : HostAnswers) : Bool :=
  answers.ready && answers.live

def HostAnswers.key (answers : HostAnswers) : String :=
  toString answers.id ++ "gr_" ++ answers.unique

/-- The name of the region with a key. -/
def regionName (key : String) : String := "/" ++ key

def sizeOfItems (numItems itemSize : Nat) : Nat := numItems * itemSize % 2 ^ 64

namespace SharedBuffer

/-- The constructor. It throws, or yields a buffer. -/
def construct (numItems itemSize : Nat) (type : BufferTritonType) (answers : HostAnswers)
    (host : Host) : Except String SharedBuffer × Host :=
  if !answers.create.isOk then
    (.error "Unable to create Triton Shared Memory Segment", host)
  else if !isServerHealthy answers then
    (.ok { bufferType := type }, host)
  else
    let shmKey := answers.key
    let bufferSize := sizeOfItems numItems itemSize
    let created :=
      createSharedMemoryRegion (regionName shmKey) bufferSize answers.fd answers.truncates host
    let mapped := mapSharedMemory answers.fd 0 bufferSize answers.address created.2
    let closed := closeSharedMemory answers.fd answers.closes mapped.2.2
    if !created.1.isOk then
      (.error "Unable to create Triton Shared Memory Segment", closed.2)
    else if !answers.registers.isOk then
      (.error "Unable to create Triton Shared Memory Segment", closed.2)
    else
      (.ok { sharedMemory := some mapped.2.1
             bufferSize := some bufferSize
             bufferType := type
             shmKey
             bufp := some mapped.2.1
             type := some ("buffer_triton_" ++ toString type.toInt) },
        closed.2.register shmKey ⟨regionName shmKey, bufferSize⟩)

/-- Without properties, the cast gives a null pointer. -/
def make (numItems itemSize : Nat) (properties : Option BufferTritonType)
    (answers : HostAnswers) (host : Host) : Except String SharedBuffer × Host :=
  match properties with
  | some type => construct numItems itemSize type answers host
  | none => (.error "Failed to cast buffer properties to buffer_triton_properties", host)

/-- The destructor. It has no result where it unmaps a pointer that no one has
written. -/
def destruct (buffer : SharedBuffer) (host : Host) : Option Host :=
  buffer.sharedMemory.map fun sharedMemory =>
    let unmapped := unmapSharedMemory sharedMemory host
    let unlinked := unlinkSharedMemoryRegion (regionName buffer.shmKey) unmapped.2
    unlinked.2.unregister buffer.shmKey

variable {numItems itemSize : Nat} {type : BufferTritonType} {answers : HostAnswers} {host : Host}

/-- Nothing has been taken when the client or the region is refused. -/
theorem construct_refused
    (refused : answers.create.isOk = false ∨
      isServerHealthy answers = true ∧ answers.fd = none) :
    construct numItems itemSize type answers host =
      (.error "Unable to create Triton Shared Memory Segment", host) := by
  unfold construct
  by_cases created : answers.create.isOk = true
  · obtain ⟨healthy, closed⟩ := refused.resolve_left (by simp only [created, reduceCtorEq,
      not_false_eq_true])
    simp only [created, healthy, closed, Bool.not_true, Bool.false_eq_true, if_false,
      createSharedMemoryRegion_isOk, Option.isSome_none, Bool.false_and, Bool.not_false, if_true]
    rfl
  · rw [Bool.not_eq_true] at created
    simp only [created, Bool.not_false, if_true]

/-- Without a healthy server, the constructor returns early. -/
theorem construct_unhealthy (created : answers.create.isOk = true)
    (unhealthy : isServerHealthy answers = false) :
    construct numItems itemSize type answers host = (.ok { bufferType := type }, host) := by
  simp only [construct, created, unhealthy, Bool.not_true, Bool.not_false, Bool.false_eq_true,
    if_false, if_true]

/-- A region that has been opened stays when a later step fails. -/
theorem construct_leaks {fd : Nat} (created : answers.create.isOk = true)
    (healthy : isServerHealthy answers = true) (opened : answers.fd = some fd)
    (fails : answers.truncates = true → answers.registers.isOk = false) :
    ∃ host' byteSize, construct numItems itemSize type answers host =
      (.error "Unable to create Triton Shared Memory Segment", host') ∧
      host'.regions (regionName answers.key) = some byteSize := by
  unfold construct
  simp only [created, healthy, opened, createSharedMemoryRegion_isOk, Option.isSome_some,
    Bool.true_and, Bool.not_true, Bool.false_eq_true, if_false]
  by_cases truncates : answers.truncates = true
  · simp only [truncates, fails truncates, Bool.not_true, Bool.false_eq_true, if_false,
      Bool.not_false, if_true]
    exact ⟨_, _, rfl, opened_stays ..⟩
  · simp only [truncates, Bool.not_false, if_true]
    exact ⟨_, _, rfl, opened_stays ..⟩

/-- A buffer whose region could not be mapped. -/
theorem construct_unmapped {fd : Nat} (created : answers.create.isOk = true)
    (healthy : isServerHealthy answers = true) (opened : answers.fd = some fd)
    (truncates : answers.truncates = true) (refused : answers.address = none)
    (registers : answers.registers.isOk = true) :
    ∃ buffer host', construct numItems itemSize type answers host = (.ok buffer, host') ∧
      buffer.sharedMemory = some .mapFailed := by
  unfold construct
  simp only [created, healthy, opened, createSharedMemoryRegion_isOk, truncates, refused,
    registers, Option.isSome_some, Bool.and_self, Bool.not_true, Bool.false_eq_true, if_false]
  exact ⟨_, _, rfl, by rw [mapSharedMemory_refused]⟩

/-- The buffer of a construction whose steps all succeed. -/
def ofAnswers (numItems itemSize : Nat) (type : BufferTritonType) (answers : HostAnswers)
    (address : Nat) : SharedBuffer where
  sharedMemory := some (.base address)
  bufferSize := some (sizeOfItems numItems itemSize)
  bufferType := type
  shmKey := answers.key
  bufp := some (.base address)
  type := some ("buffer_triton_" ++ toString type.toInt)

/-- Where every call succeeds, a buffer owns a region, a mapping and a registration of its size. -/
theorem construct_complete {fd address : Nat} (created : answers.create.isOk = true)
    (healthy : isServerHealthy answers = true) (opened : answers.fd = some fd)
    (truncates : answers.truncates = true) (mapped : answers.address = some address)
    (registers : answers.registers.isOk = true) :
    ∃ host', construct numItems itemSize type answers host =
        (.ok (ofAnswers numItems itemSize type answers address), host') ∧
      host'.regions = Function.update host.regions (regionName answers.key)
        (some (sizeOfItems numItems itemSize)) ∧
      host'.mappings = Function.update host.mappings address
        (some ⟨regionName answers.key, 0, sizeOfItems numItems itemSize⟩) ∧
      host'.registrations = Function.update host.registrations answers.key
        (some ⟨regionName answers.key, sizeOfItems numItems itemSize⟩) := by
  unfold construct
  simp only [created, healthy, opened, createSharedMemoryRegion_isOk, truncates, mapped,
    registers, Option.isSome_some, Bool.and_self, Bool.not_true, Bool.false_eq_true, if_false]
  rw [mapSharedMemory_opened _ _ _ (createSharedMemoryRegion_descriptors _ _ _ _ _)]
  refine ⟨_, rfl, ?_, ?_, ?_⟩
  · simp only [Host.register, Host.mmap, closeSharedMemory_regions,
      createSharedMemoryRegion_regions, if_true]
  · simp only [Host.register, Host.mmap, closeSharedMemory_mappings,
      createSharedMemoryRegion_mappings]
  · simp only [Host.register, Host.mmap, closeSharedMemory_registrations,
      createSharedMemoryRegion_registrations]

/-- Destruction releases what a mapped buffer holds. -/
theorem destruct_mapped {buffer : SharedBuffer} {host' : Host} {address : Nat}
    (mapped : buffer.sharedMemory = some (.base address))
    (destructs : buffer.destruct host = some host') :
    host'.regions = Function.update host.regions (regionName buffer.shmKey) none ∧
      host'.mappings = Function.update host.mappings address none ∧
      host'.registrations = Function.update host.registrations buffer.shmKey none := by
  simp only [destruct, mapped, Option.map_some, Option.some.injEq] at destructs
  subst destructs
  refine ⟨?_, ?_, ?_⟩
  · simp only [Host.unregister, unlinkSharedMemoryRegion_regions, unmapSharedMemory_regions]
  · simp only [Host.unregister, unlinkSharedMemoryRegion_mappings, unmapSharedMemory, Host.munmap]
  · simp only [Host.unregister, unlinkSharedMemoryRegion_registrations,
      unmapSharedMemory_registrations]

end SharedBuffer

end TorchDsp
