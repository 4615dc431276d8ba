import Mathlib.Data.List.Nodup
import Mathlib.Tactic.SplitIfs
import TorchDsp.Foundation.Ownership
import TorchDsp.Foundation.Run
import TorchDsp.Triton.SharedBuffer

/-! # What failed constructions leave behind

Buffers are constructed and destroyed in any order. Regions, mappings and
registrations are those of the buffers alive exactly if every construction either
takes nothing or takes all of them (`TorchDsp.SharedBuffers.kept_iff`).
-/

namespace TorchDsp

/-! ## What a buffer holds -/

private theorem regionName_injective {key key' : String} (same : regionName key = regionName key') :
    key = key' := by
  simpa [regionName] using same

namespace SharedBuffer

def region (buffer : SharedBuffer) : Option (String × Nat) :=
  buffer.bufferSize.map fun byteSize => (regionName buffer.shmKey, byteSize)

def mapping (buffer : SharedBuffer) : Option (Nat × Mapping) :=
  match buffer.sharedMemory, buffer.bufferSize with
  | some (.base address), some byteSize => some (address, ⟨regionName buffer.shmKey, 0, byteSize⟩)
  | _, _ => none

def registration (buffer : SharedBuffer) : Option (String × Registration) :=
  buffer.bufferSize.map fun byteSize => (buffer.shmKey, ⟨regionName buffer.shmKey, byteSize⟩)

/-- The pointers and the size of a mapped buffer are set. -/
structure Mapped (buffer : SharedBuffer) (address byteSize : Nat) : Prop where
  sharedMemory : buffer.sharedMemory = some (.base address)
  bufp : buffer.bufp = some (.base address)
  bufferSize : buffer.bufferSize = some byteSize

/-- A buffer whose region is created, mapped and registered under its key, with its
base pointer at the mapping. -/
structure Complete (buffer : SharedBuffer) (host : Host) (address byteSize : Nat) : Prop
    extends buffer.Mapped address byteSize where
  region : host.regions (regionName buffer.shmKey) = some byteSize
  mapping : host.mappings address = some ⟨regionName buffer.shmKey, 0, byteSize⟩
  registration : host.registrations buffer.shmKey = some ⟨regionName buffer.shmKey, byteSize⟩

end SharedBuffer

namespace SharedBuffer.Mapped

variable {buffer : SharedBuffer} {address byteSize : Nat} (mapped : buffer.Mapped address byteSize)

include mapped

private theorem region_eq : buffer.region = some (regionName buffer.shmKey, byteSize) := by
  rw [region, mapped.bufferSize, Option.map_some]

private theorem mapping_eq :
    buffer.mapping = some (address, ⟨regionName buffer.shmKey, 0, byteSize⟩) := by
  simp only [mapping, mapped.sharedMemory, mapped.bufferSize]

private theorem registration_eq :
    buffer.registration = some (buffer.shmKey, ⟨regionName buffer.shmKey, byteSize⟩) := by
  rw [registration, mapped.bufferSize, Option.map_some]

end SharedBuffer.Mapped

private theorem SharedBuffer.shmKey_of_region {buffer : SharedBuffer} {key : String}
    {byteSize : Nat} (holds : buffer.region = some (regionName key, byteSize)) :
    buffer.shmKey = key := by
  obtain ⟨_, _, same⟩ := Option.map_eq_some_iff.mp holds
  exact regionName_injective (Prod.mk.inj same).1

private theorem SharedBuffer.region_of_mapping {buffer : SharedBuffer} {address : Nat} {m : Mapping}
    (holds : buffer.mapping = some (address, m)) : m.region = regionName buffer.shmKey := by
  unfold mapping at holds
  split at holds
  · cases holds
    rfl
  · cases holds

/-! ## Sequences of constructions and destructions -/

/-- The host, the buffers alive and the keys that have been generated. -/
structure SharedBuffers where
  host : Host := {}
  alive : List SharedBuffer := []
  generated : List String := []

inductive BufferOperation
  | construct (numItems itemSize : Nat) (properties : Option BufferTritonType)
      (answers : HostAnswers)
  | destroy (position : Nat)

namespace SharedBuffers

/-- A generated key is new, and `mmap` answers an address where nothing is mapped. -/
structure Fresh (s : SharedBuffers) (answers : HostAnswers) : Prop where
  key : answers.key ∉ s.generated
  address : ∀ address, answers.address = some address → s.host.mappings address = none

inductive Step (s : SharedBuffers) : BufferOperation → SharedBuffers → Prop
  | throws {numItems itemSize : Nat} {properties : Option BufferTritonType}
      {answers : HostAnswers} {message : String} {host : Host} (fresh : s.Fresh answers)
      (made : SharedBuffer.make numItems itemSize properties answers s.host =
        (.error message, host)) :
      Step s (.construct numItems itemSize properties answers)
        { s with host, generated := answers.key :: s.generated }
  | yields {numItems itemSize : Nat} {properties : Option BufferTritonType}
      {answers : HostAnswers} {buffer : SharedBuffer} {host : Host} (fresh : s.Fresh answers)
      (made : SharedBuffer.make numItems itemSize properties answers s.host =
        (.ok buffer, host)) :
      Step s (.construct numItems itemSize properties answers)
        ⟨host, buffer :: s.alive, answers.key :: s.generated⟩
  | destroy {front back : List SharedBuffer} {buffer : SharedBuffer} {host : Host}
      (listed : s.alive = front ++ buffer :: back)
      (destructs : buffer.destruct s.host = some host) :
      Step s (.destroy front.length) { s with host, alive := front ++ back }

/-- The host holds exactly what the buffers alive hold. -/
structure Exact (s : SharedBuffers) : Prop where
  regions : Ownership.Exact s.host.regions SharedBuffer.region s.alive
  mappings : Ownership.Exact s.host.mappings SharedBuffer.mapping s.alive
  registrations : Ownership.Exact s.host.registrations SharedBuffer.registration s.alive

/-- After an operation, the buffer that it yields is complete and nothing is leaked. -/
structure Kept (t : Transition.Taken SharedBuffers BufferOperation) : Prop where
  complete : ∀ numItems itemSize properties answers buffer,
    t.label = .construct numItems itemSize properties answers →
    (SharedBuffer.make numItems itemSize properties answers t.source.host).1 = .ok buffer →
      ∃ address byteSize, buffer.Complete t.target.host address byteSize
  exact : t.target.Exact

/-- A construction takes nothing or everything. -/
def AllOrNothing : BufferOperation → Prop
  | .construct _ _ properties answers =>
      properties = none ∨ answers.create.isOk = false ∨
        isServerHealthy answers = true ∧ (answers.fd = none ∨
          answers.truncates = true ∧ answers.address.isSome = true ∧
            answers.registers.isOk = true)
  | .destroy _ => True

/-! ## The invariant -/

/-- Mapped buffers under distinct generated keys, which hold all that there is. -/
structure Sound (s : SharedBuffers) : Prop where
  exact : s.Exact
  mapped : ∀ buffer ∈ s.alive, ∃ address byteSize, buffer.Mapped address byteSize
  distinct : (s.alive.map SharedBuffer.shmKey).Nodup
  known : ∀ buffer ∈ s.alive, buffer.shmKey ∈ s.generated

/-- A host without buffers holds nothing. -/
theorem sound_initial : Sound {} where
  exact := ⟨Ownership.exact_empty _, Ownership.exact_empty _, Ownership.exact_empty _⟩
  mapped := fun _ absurd => (List.not_mem_nil absurd).elim
  distinct := List.nodup_nil
  known := fun _ absurd => (List.not_mem_nil absurd).elim

/-- A buffer alive is complete. -/
theorem Sound.complete {s : SharedBuffers} (sound : s.Sound) {buffer : SharedBuffer}
    (member : buffer ∈ s.alive) : ∃ address byteSize, buffer.Complete s.host address byteSize := by
  obtain ⟨address, byteSize, mapped⟩ := sound.mapped buffer member
  exact ⟨address, byteSize, mapped,
    sound.exact.regions.of_mem member mapped.region_eq,
    sound.exact.mappings.of_mem member mapped.mapping_eq,
    sound.exact.registrations.of_mem member mapped.registration_eq⟩

/-- What a construction that takes nothing or everything does. -/
theorem make_of_allOrNothing {numItems itemSize : Nat} {properties : Option BufferTritonType}
    {answers : HostAnswers} {host : Host}
    (clean : AllOrNothing (.construct numItems itemSize properties answers)) :
    (∃ message, SharedBuffer.make numItems itemSize properties answers host =
      (.error message, host)) ∨
    ∃ type address host', answers.address = some address ∧
      SharedBuffer.make numItems itemSize properties answers host =
        (.ok (SharedBuffer.ofAnswers numItems itemSize type answers address), host') ∧
      host'.regions = Function.update host.regions (regionName answers.key)
        (some (sizeOfItems numItems itemSize)) ∧
      host'.mappings = Function.update host.mappings address
        (some ⟨regionName answers.key, 0, sizeOfItems numItems itemSize⟩) ∧
      host'.registrations = Function.update host.registrations answers.key
        (some ⟨regionName answers.key, sizeOfItems numItems itemSize⟩) := by
  cases properties with
  | none => exact .inl ⟨_, rfl⟩
  | some type =>
      have clean := clean.resolve_left (Option.some_ne_none type)
      by_cases created : answers.create.isOk = true
      · obtain ⟨healthy, clean⟩ := clean.resolve_left (by rw [created]; exact Bool.noConfusion)
        cases opened : answers.fd with
        | none => exact .inl ⟨_, SharedBuffer.construct_refused (.inr ⟨healthy, opened⟩)⟩
        | some fd =>
            obtain ⟨truncates, mapped, registers⟩ :=
              clean.resolve_left (by rw [opened]; exact Option.some_ne_none fd)
            obtain ⟨address, mapped⟩ := Option.isSome_iff_exists.mp mapped
            obtain ⟨host', made, updates⟩ :=
              @SharedBuffer.construct_complete numItems itemSize type answers host fd address
                created healthy opened truncates mapped registers
            exact .inr ⟨type, address, host', mapped, made, updates⟩
      · rw [Bool.not_eq_true] at created
        exact .inl ⟨_, SharedBuffer.construct_refused (.inl created)⟩

/-- A generated key names no region that exists. -/
theorem Sound.unnamed {s : SharedBuffers} (sound : s.Sound) {answers : HostAnswers}
    (fresh : s.Fresh answers) : s.host.regions (regionName answers.key) = none := by
  rw [Option.eq_none_iff_forall_ne_some]
  intro byteSize named
  obtain ⟨buffer, member, holds⟩ := (sound.exact.regions _ _).mp named
  exact fresh.key (SharedBuffer.shmKey_of_region holds ▸ sound.known buffer member)

private theorem Sound.unregistered {s : SharedBuffers} (sound : s.Sound) {answers : HostAnswers}
    (fresh : s.Fresh answers) : s.host.registrations answers.key = none := by
  rw [Option.eq_none_iff_forall_ne_some]
  intro entry registered
  obtain ⟨buffer, member, holds⟩ := (sound.exact.registrations _ _).mp registered
  obtain ⟨_, _, same⟩ := Option.map_eq_some_iff.mp holds
  have same : buffer.shmKey = answers.key := (Prod.mk.inj same).1
  exact fresh.key (same ▸ sound.known buffer member)

/-- A construction that takes nothing keeps the invariant. -/
theorem Sound.remember {s : SharedBuffers} (sound : s.Sound) (key : String) :
    Sound { s with generated := key :: s.generated } where
  exact := ⟨sound.exact.regions, sound.exact.mappings, sound.exact.registrations⟩
  mapped := sound.mapped
  distinct := sound.distinct
  known := fun buffer member => List.mem_cons_of_mem _ (sound.known buffer member)

/-- So does one that takes everything. -/
theorem Sound.add {s : SharedBuffers} (sound : s.Sound) {answers : HostAnswers}
    (fresh : s.Fresh answers) {numItems itemSize address : Nat} {type : BufferTritonType}
    {host : Host} (mapped : answers.address = some address)
    (regions : host.regions = Function.update s.host.regions (regionName answers.key)
      (some (sizeOfItems numItems itemSize)))
    (mappings : host.mappings = Function.update s.host.mappings address
      (some ⟨regionName answers.key, 0, sizeOfItems numItems itemSize⟩))
    (registrations : host.registrations = Function.update s.host.registrations answers.key
      (some ⟨regionName answers.key, sizeOfItems numItems itemSize⟩)) :
    Sound ⟨host, SharedBuffer.ofAnswers numItems itemSize type answers address :: s.alive,
      answers.key :: s.generated⟩ where
  exact := by
    refine ⟨?_, ?_, ?_⟩
    · rw [regions]
      exact sound.exact.regions.insert (sound.unnamed fresh) rfl
    · rw [mappings]
      exact sound.exact.mappings.insert (fresh.address address mapped) rfl
    · rw [registrations]
      exact sound.exact.registrations.insert (sound.unregistered fresh) rfl
  mapped := by
    intro buffer member
    rcases List.mem_cons.mp member with rfl | member
    · exact ⟨address, sizeOfItems numItems itemSize, rfl, rfl, rfl⟩
    · exact sound.mapped buffer member
  distinct := by
    rw [List.map_cons, List.nodup_cons]
    refine ⟨fun taken => ?_, sound.distinct⟩
    obtain ⟨buffer, member, same⟩ := List.mem_map.mp taken
    have same : buffer.shmKey = answers.key := same
    exact fresh.key (same ▸ sound.known buffer member)
  known := by
    intro buffer member
    rcases List.mem_cons.mp member with rfl | member
    · exact List.mem_cons_self
    · exact List.mem_cons_of_mem _ (sound.known buffer member)

/-- Destruction gives back what the buffer holds and nothing else. -/
theorem Sound.remove {s : SharedBuffers} (sound : s.Sound) {front back : List SharedBuffer}
    {buffer : SharedBuffer} {host : Host} (listed : s.alive = front ++ buffer :: back)
    (destructs : buffer.destruct s.host = some host) :
    Sound { s with host, alive := front ++ back } := by
  have member : buffer ∈ s.alive := listed ▸ List.mem_append_right _ List.mem_cons_self
  have kept : (front ++ back).Sublist s.alive :=
    listed ▸ (List.sublist_cons_self buffer back).append_left front
  obtain ⟨address, byteSize, mapped⟩ := sound.mapped buffer member
  obtain ⟨regions, mappings, registrations⟩ :=
    SharedBuffer.destruct_mapped mapped.sharedMemory destructs
  -- no other buffer has its key, and so none its mapping
  have alone : ∀ other ∈ front ++ back, other.shmKey ≠ buffer.shmKey := by
    have distinct := sound.distinct
    rw [listed, List.map_append, List.map_cons, List.nodup_middle, ← List.map_append,
      List.nodup_cons] at distinct
    intro other among same
    exact distinct.1 (same ▸ List.mem_map_of_mem among)
  have exact := sound.exact
  refine ⟨⟨?_, ?_, ?_⟩, fun other among => sound.mapped other (kept.subset among),
    sound.distinct.sublist (kept.map _), fun other among => sound.known other (kept.subset among)⟩
  · rw [regions]
    refine (listed ▸ exact.regions).remove mapped.region_eq fun other among byteSize' holds => ?_
    exact alone other among (SharedBuffer.shmKey_of_region holds)
  · rw [mappings]
    refine (listed ▸ exact.mappings).remove mapped.mapping_eq fun other among m holds => ?_
    have same := (exact.mappings.of_mem (kept.subset among) holds).symm.trans
      (exact.mappings.of_mem member mapped.mapping_eq)
    cases same
    exact alone other among (regionName_injective (SharedBuffer.region_of_mapping holds).symm)
  · rw [registrations]
    refine (listed ▸ exact.registrations).remove mapped.registration_eq
      fun other among entry holds => ?_
    obtain ⟨_, _, same⟩ := Option.map_eq_some_iff.mp holds
    exact alone other among (Prod.mk.inj same).1

/-- An operation whose construction takes nothing or everything keeps the host exact. -/
theorem Sound.step {s s' : SharedBuffers} {operation : BufferOperation} (sound : s.Sound)
    (step : Step s operation s') (clean : AllOrNothing operation) : s'.Sound := by
  cases step with
  | throws fresh made =>
      rcases make_of_allOrNothing clean with ⟨_, refused⟩ | ⟨_, _, _, _, complete, _⟩
      · cases made.symm.trans refused
        exact sound.remember _
      · cases made.symm.trans complete
  | yields fresh made =>
      rcases make_of_allOrNothing clean with ⟨_, refused⟩ |
        ⟨type, address, host, mapped, complete, regions, mappings, registrations⟩
      · cases made.symm.trans refused
      · cases made.symm.trans complete
        exact sound.add fresh mapped regions mappings registrations
  | destroy listed destructs => exact sound.remove listed destructs

/-- An operation that ends in a sound state keeps the promise. -/
theorem kept_of_sound {s s' : SharedBuffers} {operation : BufferOperation}
    (step : Step s operation s') (sound : s'.Sound) : Kept ⟨s, operation, s'⟩ := by
  refine ⟨fun numItems itemSize properties answers buffer same yielded => ?_, sound.exact⟩
  cases same
  cases step with
  | throws fresh made =>
      rw [made] at yielded
      cases yielded
  | yields fresh made =>
      rw [made] at yielded
      cases yielded
      exact sound.complete List.mem_cons_self

/-! ## Constructions that fail in between -/

/-- Every buffer with a size has a generated key. -/
def Known (s : SharedBuffers) : Prop :=
  ∀ buffer ∈ s.alive, ∀ byteSize, buffer.bufferSize = some byteSize → buffer.shmKey ∈ s.generated

private theorem shmKey_of_make {numItems itemSize : Nat} {properties : Option BufferTritonType}
    {answers : HostAnswers} {host host' : Host} {buffer : SharedBuffer} {byteSize : Nat}
    (made : SharedBuffer.make numItems itemSize properties answers host = (.ok buffer, host'))
    (sized : buffer.bufferSize = some byteSize) : buffer.shmKey = answers.key := by
  cases properties with
  | none => cases made
  | some type =>
      simp only [SharedBuffer.make, SharedBuffer.construct] at made
      split_ifs at made
      · cases made
      · cases made
        cases sized
      · cases made
      · cases made
      · cases made
        rfl

/-- Every operation keeps the keys of the buffers generated. -/
theorem Known.step {s s' : SharedBuffers} {operation : BufferOperation} (known : s.Known)
    (step : Step s operation s') : s'.Known := by
  cases step with
  | throws fresh made =>
      exact fun buffer member byteSize sized =>
        List.mem_cons_of_mem _ (known buffer member byteSize sized)
  | @yields _ _ _ answers yielded _ fresh made =>
      intro buffer member byteSize sized
      rcases List.mem_cons.mp member with rfl | member
      · rw [shmKey_of_make made sized]
        exact List.mem_cons_self
      · exact List.mem_cons_of_mem _ (known buffer member byteSize sized)
  | @destroy front back buffer host listed destructs =>
      intro other member
      refine known other ?_
      rw [listed]
      exact ((List.sublist_cons_self buffer back).append_left front).subset member

section Broken

variable {s s' : SharedBuffers} {numItems itemSize : Nat} {type : BufferTritonType}
  {answers : HostAnswers}

/-- A region under a new key that a throwing construction leaves is leaked. -/
theorem Known.leaked (known : s.Known) {properties : Option BufferTritonType}
    (step : Step s (.construct numItems itemSize properties answers) s') {message : String}
    {host : Host} {byteSize : Nat}
    (threw : SharedBuffer.make numItems itemSize properties answers s.host = (.error message, host))
    (stays : host.regions (regionName answers.key) = some byteSize) : ¬ s'.Exact := by
  intro exact
  cases step with
  | throws fresh made =>
      cases made.symm.trans threw
      refine Ownership.Exact.not_of_leak stays ?_ exact.regions
      intro buffer member other holds
      obtain ⟨_, sized, _⟩ := Option.map_eq_some_iff.mp holds
      exact fresh.key (SharedBuffer.shmKey_of_region holds ▸ known buffer member _ sized)
  | yields fresh made => cases made.symm.trans threw

private theorem healthy_of_kept
    (kept : Kept ⟨s, .construct numItems itemSize (some type) answers, s'⟩)
    (created : answers.create.isOk = true) : isServerHealthy answers = true := by
  by_contra unhealthy
  rw [Bool.not_eq_true] at unhealthy
  obtain ⟨_, _, whole⟩ := kept.complete numItems itemSize (some type) answers _ rfl
    (congrArg Prod.fst (SharedBuffer.construct_unhealthy created unhealthy))
  cases whole.sharedMemory

/-- Once the region has been opened, every later step succeeds. -/
theorem succeeds_of_kept (known : s.Known)
    (step : Step s (.construct numItems itemSize (some type) answers) s')
    (kept : Kept ⟨s, .construct numItems itemSize (some type) answers, s'⟩)
    (created : answers.create.isOk = true) (healthy : isServerHealthy answers = true) {fd : Nat}
    (opened : answers.fd = some fd) :
    answers.truncates = true ∧ answers.address.isSome = true ∧
      answers.registers.isOk = true := by
  by_cases later : answers.truncates = true ∧ answers.registers.isOk = true
  · refine ⟨later.1, ?_, later.2⟩
    cases refused : answers.address with
    | some address => rfl
    | none =>
        obtain ⟨buffer, host, yielded, unmapped⟩ :=
          @SharedBuffer.construct_unmapped numItems itemSize type answers s.host fd created healthy
            opened later.1 refused later.2
        obtain ⟨_, _, whole⟩ := kept.complete numItems itemSize (some type) answers buffer rfl
          (congrArg Prod.fst yielded)
        cases whole.sharedMemory.symm.trans unmapped
  · rw [not_and, Bool.not_eq_true] at later
    obtain ⟨host, byteSize, threw, stays⟩ :=
      @SharedBuffer.construct_leaks numItems itemSize type answers s.host fd created healthy
        opened later
    exact (known.leaked step threw stays kept.exact).elim

/-- A construction that takes something and not everything breaks the promise. -/
theorem allOrNothing_of_kept {operation : BufferOperation} (known : s.Known)
    (step : Step s operation s') (kept : Kept ⟨s, operation, s'⟩) : AllOrNothing operation := by
  cases operation with
  | destroy position => trivial
  | construct numItems itemSize properties answers =>
      cases properties with
      | none => exact .inl rfl
      | some type =>
          by_cases created : answers.create.isOk = true
          · have healthy := healthy_of_kept kept created
            refine .inr (.inr ⟨healthy, ?_⟩)
            cases opened : answers.fd with
            | none => exact .inl rfl
            | some fd => exact .inr (succeeds_of_kept known step kept created healthy opened)
          · rw [Bool.not_eq_true] at created
            exact .inr (.inl created)

end Broken

/-- **Which runs leak nothing.** Every construction of a run throws or yields a
complete buffer, and every operation leaves exactly what the buffers alive hold, if
and only if every construction takes nothing or everything. -/
theorem kept_iff (s : SharedBuffers) (taken : List (Transition.Taken SharedBuffers BufferOperation))
    (run : Transition.Run Step {} taken s) :
    (∀ t ∈ taken, Kept t) ↔ ∀ t ∈ taken, AllOrNothing t.label := by
  constructor
  · intro kept t member
    have known := (run.invariant Known (fun _ absurd => (List.not_mem_nil absurd).elim)
      fun _ _ step known => known.step step).2 t member
    exact allOrNothing_of_kept known.1 (run.step_of_mem t member) (kept t member)
  · intro clean t member
    have sound := (run.invariant Sound sound_initial
      fun t member step sound => sound.step step (clean t member)).2 t member
    exact kept_of_sound (run.step_of_mem t member) sound.2

/-- A construction whose steps all succeed. -/
def granted : HostAnswers := { unique := "a", fd := some 3, address := some 4096 }

/-- A construction whose client is not created. -/
def unreachable : HostAnswers :=
  { create := .failure "no connection", unique := "b", fd := none, address := none }

/-- A construction whose region is created and mapped but not registered. -/
def registrationRefused : HostAnswers := { granted with registers := .failure "exists already" }

private theorem fresh_initial (answers : HostAnswers) : Fresh {} answers :=
  ⟨List.not_mem_nil, fun _ _ => rfl⟩

/-- After the construction whose steps all succeed. -/
def oneBuffer : SharedBuffers where
  host := (SharedBuffer.make 6 8 (some .d2d) granted {}).2
  alive := [SharedBuffer.ofAnswers 6 8 .d2d granted 4096]
  generated := [granted.key]

/-- A buffer is constructed, a second one is refused, and the first is destroyed. -/
theorem kept_through_refusal : ∃ taken s, Transition.Run Step {} taken s ∧ taken.length = 3 ∧
    ∀ t ∈ taken, Kept t := by
  have first : Step {} (.construct 6 8 (some .d2d) granted) oneBuffer :=
    .yields (fresh_initial _) rfl
  have fresh : oneBuffer.Fresh unreachable :=
    ⟨by decide, fun _ mapped => by cases mapped⟩
  have second : Step oneBuffer (.construct 6 8 (some .d2h) unreachable)
      { oneBuffer with generated := [unreachable.key, granted.key] } :=
    .throws fresh rfl
  have run : Transition.Run Step {} _ _ :=
    .cons first (.cons second (.single (@Step.destroy _ [] [] _ _ rfl rfl)))
  refine ⟨_, _, run, rfl, (kept_iff _ _ run).mpr fun t member => ?_⟩
  rcases List.mem_cons.mp member with rfl | member
  · exact .inr (.inr ⟨rfl, .inr ⟨rfl, rfl, rfl⟩⟩)
  · rcases List.mem_cons.mp member with rfl | member
    · exact .inr (.inl rfl)
    · rw [List.mem_singleton.mp member]
      trivial

/-- The registration fails: the constructor throws, and its region and its mapping
stay. -/
theorem refused_registration_leaks : ∃ s,
    Step {} (.construct 6 8 (some .d2d) registrationRefused) s ∧
    s.alive = [] ∧ s.host.regions "/0gr_a" = some 48 ∧
    s.host.mappings 4096 = some ⟨"/0gr_a", 0, 48⟩ ∧
    ¬ Kept ⟨{}, .construct 6 8 (some .d2d) registrationRefused, s⟩ := by
  have step : Step {} (.construct 6 8 (some .d2d) registrationRefused) _ :=
    .throws (fresh_initial _) rfl
  refine ⟨_, step, rfl, by decide, by decide, fun kept => ?_⟩
  have clean := allOrNothing_of_kept (fun _ absurd => (List.not_mem_nil absurd).elim) step kept
  rcases clean with absurd | absurd | ⟨_, absurd | ⟨_, _, absurd⟩⟩ <;> cases absurd

end SharedBuffers

end TorchDsp
