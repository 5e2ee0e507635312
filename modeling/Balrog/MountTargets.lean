import Balrog.BootConfig

/-!
# What is mounted

`fs_mount` takes the name of a device or the text of the GUID of a partition. It does not look at
what `str_to_uuid` returns, so a longer text that begins with a GUID mounts the partition too, and
so may a text that breaks off, together with what the stack held.

A text has no zero byte; in memory a zero follows it.
-/

namespace Balrog.MountTargets

open BootConfig

/-- What `fs_mount` reads of a registered device: the GUID is there for a partition. -/
structure Device where
  name : List UInt8
  guid : Option Uuid
  mountable : Bool
deriving DecidableEq

/-- An error is returned, or the device is handed to `vfs_root.mount`. -/
inductive Outcome where
  | refused (code : Int)
  | mounts (device : Device)
deriving DecidableEq

/-- The text `/dev/` -/
def devPath : List UInt8 := [47, 100, 101, 118, 47]

/-- The device that `fs_mount` looks up, with what the stack holds in `part_guid` -/
def lookUp (devices : List Device) (partGuid : Uuid) (text : List UInt8) : Option Device :=
  if text.take 5 = devPath then devices.find? fun device => device.name = text.drop 5
  else devices.find? fun device => device.guid = some (strToUuid partGuid (text ++ [0])).2

/-- `fs_mount` -/
def fsMount (devices : List Device) (partGuid : Uuid) (text : List UInt8) : Outcome :=
  if text.length < 5 then .refused 2
  else
    match lookUp devices partGuid text with
    | none => .refused 19
    | some device => if device.mountable then .mounts device else .refused (-1)

/-- A text stands for a device: it is the path of its node, or the GUID text of its partition. -/
def Target (text : List UInt8) (device : Device) : Prop :=
  text = devPath ++ device.name ∨ ∃ uuid, device.guid = some uuid ∧ Names text uuid

theorem target_of_lookUp {devices : List Device} {partGuid : Uuid} {text : List UInt8}
    {device : Device} (usable : devPath <+: text ∨ ∃ uuid, Names text uuid)
    (found : lookUp devices partGuid text = some device) :
    device ∈ devices ∧ Target text device := by
  unfold lookUp at found
  split at found
  · next isPath =>
    have named := List.find?_some found
    rw [decide_eq_true_eq] at named
    refine ⟨List.mem_of_find?_eq_some found, .inl ?_⟩
    rw [named, ← isPath, List.take_append_drop]
  · next noPath =>
    obtain ⟨uuid, named⟩ : ∃ uuid, Names text uuid := by
      refine usable.resolve_left fun ⟨rest, whole⟩ => noPath ?_
      rw [← whole]
      rfl
    have isGuid := List.find?_some found
    rw [decide_eq_true_eq, strToUuid_named named] at isGuid
    exact ⟨List.mem_of_find?_eq_some found, .inr ⟨uuid, isGuid, named⟩⟩

/-- What is asked of a mount: a registered device that the text stands for is mounted, or an error
is returned. -/
def MountsTarget (devices : List Device) (partGuid : Uuid) (text : List UInt8) : Prop :=
  (∃ device ∈ devices, Target text device ∧ fsMount devices partGuid text = .mounts device) ∨
    ∃ code ≠ 0, fsMount devices partGuid text = .refused code

theorem mountsTarget_of_usable (devices : List Device) (partGuid : Uuid) {text : List UInt8}
    (usable : text.length < 5 ∨ devPath <+: text ∨ ∃ uuid, Names text uuid) :
    MountsTarget devices partGuid text := by
  unfold MountsTarget fsMount
  split
  · exact .inr ⟨2, by decide, rfl⟩
  · next long =>
    split
    · exact .inr ⟨19, by decide, rfl⟩
    · next device found =>
      obtain ⟨member, target⟩ := target_of_lookUp (usable.resolve_left long) found
      split
      · exact .inl ⟨device, member, target, rfl⟩
      · exact .inr ⟨-1, by decide, rfl⟩

/-- A partition whose GUID is what `str_to_uuid` leaves in `part_guid`. -/
def leftPartition (partGuid : Uuid) (text : List UInt8) : Device :=
  ⟨[], some (strToUuid partGuid (text ++ [0])).2, true⟩

/-- That partition is mounted, whatever the text, unless it is too short or names a node. -/
theorem leftPartition_mounts (partGuid : Uuid) {text : List UInt8} (long : ¬ text.length < 5)
    (noPath : ¬ devPath <+: text) :
    fsMount [leftPartition partGuid text] partGuid text = .mounts (leftPartition partGuid text) := by
  have notTaken : text.take 5 ≠ devPath := by
    intro same
    exact noPath (same ▸ List.take_prefix 5 text)
  rw [fsMount, if_neg long, lookUp, if_neg notTaken]
  simp [leftPartition]

/-- Whatever devices there are and whatever the stack holds, what is mounted is a registered device
that the text stands for and everything else is refused with an error, exactly if the text begins
with `/dev/`, is a GUID text or is too short for either. -/
theorem mount_target_iff (text : List UInt8) :
    (∀ devices partGuid, MountsTarget devices partGuid text) ↔
      text.length < 5 ∨ devPath <+: text ∨ ∃ uuid, Names text uuid := by
  constructor
  · intro mounts
    by_contra other
    obtain ⟨long, noPath, noGuid⟩ : ¬ text.length < 5 ∧ ¬ devPath <+: text ∧
        ¬ ∃ uuid, Names text uuid := by
      refine ⟨fun short => other (.inl short), fun path => other (.inr (.inl path)),
        fun guid => other (.inr (.inr guid))⟩
    have mounted := leftPartition_mounts zeroUuid long noPath
    rcases mounts [leftPartition zeroUuid text] zeroUuid with
      ⟨device, _, target, _⟩ | ⟨code, _, refused⟩
    · rcases target with isPath | ⟨uuid, _, named⟩
      · exact noPath (isPath ▸ List.prefix_append devPath device.name)
      · exact noGuid ⟨uuid, named⟩
    · cases mounted.symm.trans refused
  · exact fun usable devices partGuid => mountsTarget_of_usable devices partGuid usable

/-- A disk and its first partition. -/
def disk : List Device :=
  [⟨[104, 100, 97, 49], some zeroUuid, true⟩, ⟨[104, 100, 97], none, false⟩]

theorem mount_target_partition :
    ∃ device ∈ disk, Target (uuidToStr zeroUuid) device ∧
      fsMount disk zeroUuid (uuidToStr zeroUuid) = .mounts device := by
  have named : Names (uuidToStr zeroUuid) zeroUuid := by
    unfold Names
    decide
  rcases (mount_target_iff _).mpr (.inr (.inr ⟨zeroUuid, named⟩)) disk zeroUuid with
    mounted | refused
  · exact mounted
  · obtain ⟨code, _, isRefused⟩ := refused
    have mounts : fsMount disk zeroUuid (uuidToStr zeroUuid) =
        .mounts ⟨[104, 100, 97, 49], some zeroUuid, true⟩ := by decide +kernel
    cases mounts.symm.trans isRefused

/-- A GUID text with one more character mounts the partition. -/
theorem longer_text_mounts :
    fsMount disk zeroUuid (uuidToStr zeroUuid ++ [120]) =
        .mounts ⟨[104, 100, 97, 49], some zeroUuid, true⟩ ∧
      ∀ device ∈ disk, ¬ Target (uuidToStr zeroUuid ++ [120]) device := by
  refine ⟨by decide +kernel, fun device _ target => ?_⟩
  rcases target with isPath | ⟨uuid, _, named⟩
  · have heads : (uuidToStr zeroUuid ++ [120]).head? = some 47 := congrArg List.head? isPath
    exact absurd heads (by decide)
  · exact absurd (names_length named) (by decide)

end Balrog.MountTargets
