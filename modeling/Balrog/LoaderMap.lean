import Balrog.PhysicalPages

/-!
# The memory map that the loader hands over

When the firmware is gone, the UEFI loader translates its memory map into the table of regions that
`init_pmm` reads. Descriptors of one type that follow each other become one region. The table has 64
entries, and the loop ends when all are used: a descriptor that would only lengthen the last region
is then lost. The constant field `acpi` of an entry is left out.
-/

namespace Balrog.LoaderMap

open PhysicalPages (Region)
open List

/-- `SMAP_MAX` -/
def smapMax : Nat := 64

/-- `EFI_MEMORY_TYPE`, with one value for those that `__smap_type` does not name. -/
inductive EfiType where
  | loaderCode | loaderData | bootServicesCode | bootServicesData | conventional | unusable
  | acpiReclaim | acpiNvs | other
deriving DecidableEq, Repr

/-- `EFI_MEMORY_DESCRIPTOR` -/
structure Descriptor where
  type : EfiType
  physicalStart : Nat
  numberOfPages : Nat

/-- `__smap_type` -/
def smapType : EfiType → Nat
  | .conventional | .loaderCode | .loaderData | .bootServicesCode | .bootServicesData => 1
  | .acpiReclaim => 3
  | .acpiNvs => 4
  | .unusable => 5
  | .other => 2

/-- The body of the loop in `efi_main`. The table has its last entry first. -/
def add (smap : List Region) (entry : Descriptor) : List Region :=
  let length := entry.numberOfPages * 4096 % 2 ^ 64
  let region : Region := ⟨entry.physicalStart, length, smapType entry.type⟩
  if entry.numberOfPages = 0 then smap
  else
    match smap with
    | [] => [region]
    | last :: earlier =>
      if last.kind = region.kind ∧ last.stop = region.base then
        { last with length := (last.length + length) % 2 ^ 64 } :: earlier
      else region :: smap

/-- The loop. -/
def translate (smap : List Region) : List Descriptor → List Region
  | [] => smap
  | entry :: rest => if smap.length < smapMax then translate (add smap entry) rest else smap

/-- The regions that a map needs. -/
def merged (map : List Descriptor) : List Region := map.foldl add []

/-- An address has a type in the map of the firmware. -/
def Described (map : List Descriptor) (address kind : Nat) : Prop :=
  ∃ entry ∈ map, entry.physicalStart ≤ address ∧
    address < entry.physicalStart + entry.numberOfPages * 4096 ∧ smapType entry.type = kind

/-- An address has a type in the table. -/
def Listed (smap : List Region) (address kind : Nat) : Prop :=
  ∃ region ∈ smap, region.base ≤ address ∧ address < region.base + region.length ∧
    region.kind = kind

/-- No region reaches the end of the 64-bit address space. -/
def Bounded (smap : List Region) : Prop := ∀ region ∈ smap, region.base + region.length < 2 ^ 64

variable {smap : List Region} {entry : Descriptor} {map : List Descriptor}

theorem add_length_le (smap : List Region) (entry : Descriptor) :
    (add smap entry).length ≤ smap.length + 1 := by
  cases smap with
  | nil =>
    simp only [add]
    split_ifs <;> simp
  | cons last earlier =>
    simp only [add]
    split_ifs <;> simp

theorem merged_length (map : List Descriptor) : (merged map).length ≤ map.length := by
  have all : ∀ (map : List Descriptor) (smap : List Region),
      (map.foldl add smap).length ≤ smap.length + map.length := by
    intro map
    induction map with
    | nil => exact fun smap => Nat.le_refl _
    | cons entry rest ih =>
      intro smap
      have first := add_length_le smap entry
      have later := ih (add smap entry)
      rw [foldl_cons, length_cons]
      omega
  simpa [merged] using all map []

/-- One round of the loop. -/
theorem add_listed (bounded : Bounded smap)
    (inside : entry.physicalStart + entry.numberOfPages * 4096 < 2 ^ 64) :
    Bounded (add smap entry) ∧ ∀ address kind, Listed (add smap entry) address kind ↔
      Described [entry] address kind ∨ Listed smap address kind := by
  have small : entry.numberOfPages * 4096 % 2 ^ 64 = entry.numberOfPages * 4096 :=
    Nat.mod_eq_of_lt (by omega)
  simp only [add, small, Listed, Described, Bounded, mem_singleton, exists_eq_left] at *
  split_ifs with none
  · refine ⟨bounded, fun address kind => (or_iff_right ?_).symm⟩
    omega
  cases smap with
  | nil => simpa using inside
  | cons last earlier =>
    obtain ⟨here, others⟩ := forall_mem_cons.mp bounded
    have stop : last.stop = last.base + last.length := Nat.mod_eq_of_lt here
    simp only [stop]
    split_ifs with follows
    · rw [Nat.mod_eq_of_lt (by omega)]
      simp only [exists_mem_cons_iff, ← or_assoc]
      refine ⟨forall_mem_cons.mpr ⟨by simp only; omega, others⟩, fun address kind =>
        or_congr_left ?_⟩
      omega
    · simp only [exists_mem_cons_iff]
      exact ⟨forall_mem_cons.mpr ⟨inside, bounded⟩, fun _ _ => trivial⟩

/-- Several rounds. -/
theorem foldl_listed (map : List Descriptor) (bounded : Bounded smap)
    (inside : ∀ entry ∈ map, entry.physicalStart + entry.numberOfPages * 4096 < 2 ^ 64)
    (address kind : Nat) :
    Listed (map.foldl add smap) address kind ↔
      Described map address kind ∨ Listed smap address kind := by
  induction map generalizing smap with
  | nil => simp [Described]
  | cons entry rest ih =>
    obtain ⟨here, later⟩ := forall_mem_cons.mp inside
    obtain ⟨after, added⟩ := add_listed bounded here
    rw [foldl_cons, ih after later, added, or_left_comm, ← or_assoc]
    simp [Described]

/-- The loop goes through the map up to some descriptor, and stops before the end only if the table
is full. -/
theorem translate_split (smap : List Region) (map : List Descriptor) :
    ∃ before rest, map = before ++ rest ∧ translate smap map = before.foldl add smap ∧
      (rest = [] ∨ smapMax ≤ (before.foldl add smap).length) := by
  induction map generalizing smap with
  | nil => exact ⟨[], [], rfl, rfl, .inl rfl⟩
  | cons entry rest ih =>
    rw [translate]
    split
    · obtain ⟨before, after, rfl, translated, ends⟩ := ih (add smap entry)
      exact ⟨entry :: before, after, rfl, translated, ends⟩
    · next full => exact ⟨[], entry :: rest, rfl, rfl, .inr (Nat.le_of_not_lt full)⟩

/-- Descriptors behind those that fill the table are not looked at. -/
theorem translate_append {before : List Descriptor} (rest : List Descriptor)
    (full : smapMax ≤ (before.foldl add smap).length) :
    translate smap (before ++ rest) = translate smap before := by
  induction before generalizing smap with
  | nil =>
    cases rest with
    | nil => rfl
    | cons entry rest => exact if_neg (Nat.not_lt.mpr full)
  | cons entry before ih =>
    rw [cons_append, translate, translate]
    split
    · exact ih full
    · rfl

theorem described_append (before rest : List Descriptor) (address kind : Nat) :
    Described (before ++ rest) address kind ↔
      Described before address kind ∨ Described rest address kind := by
  simp only [Described, mem_append, or_and_right, exists_or]

/-- A table that was built from some descriptors gives the addresses the types that these do. -/
theorem merged_listed (inside : ∀ entry ∈ map,
      entry.physicalStart + entry.numberOfPages * 4096 < 2 ^ 64) (address kind : Nat) :
    Listed (merged map) address kind ↔ Described map address kind := by
  rw [merged, foldl_listed map (fun _ member => absurd member not_mem_nil) inside]
  simp [Listed]

/-- The descriptors behind those that fill the table add no address of a type: they are empty, or
within what is described already. -/
def NothingBehind (map : List Descriptor) : Prop :=
  ∀ before rest, map = before ++ rest → smapMax ≤ (merged before).length →
    ∀ address kind, Described rest address kind → Described before address kind

/-- The table gives every address the types that the map of the firmware gives it, exactly if no
descriptor behind those that fill the table adds an address. No descriptor ends at the end of the
address space or behind it. -/
theorem loader_keeps_types_iff (map : List Descriptor)
    (inside : ∀ entry ∈ map, entry.physicalStart + entry.numberOfPages * 4096 < 2 ^ 64) :
    (∀ address kind, Listed (translate [] map) address kind ↔ Described map address kind) ↔
      NothingBehind map := by
  constructor
  · rintro keeps before rest rfl full address kind described
    have listed := (keeps address kind).mpr ((described_append _ _ _ _).mpr (.inr described))
    rw [translate_append rest full] at listed
    -- the table comes from the first of these descriptors
    obtain ⟨first, more, rfl, translated, _⟩ := translate_split [] before
    rw [translated] at listed
    have early := (merged_listed (fun entry member => inside entry
      (mem_append_left _ (mem_append_left _ member))) address kind).mp listed
    exact (described_append _ _ _ _).mpr (.inl early)
  · intro nothing address kind
    obtain ⟨before, rest, rfl, translated, ends⟩ := translate_split [] map
    have listed := merged_listed (fun entry member => inside entry (mem_append_left _ member))
      address kind
    rw [translated, described_append]
    refine listed.trans ⟨.inl, fun described => described.elim id fun behind => ?_⟩
    rcases ends with rfl | full
    · exact absurd behind (by simp [Described])
    · exact nothing before rest rfl full address kind behind

/-- Pages of usable and reserved memory in turn. -/
def turns (count : Nat) : List Descriptor :=
  (List.range count).map fun index =>
    ⟨if index % 2 = 0 then .conventional else .other, index * 4096, 1⟩

/-- A page of usable memory and one that is reserved. -/
theorem loader_keeps_types_two :
    Listed (translate [] (turns 2)) 4096 2 ∧ ¬ Listed (translate [] (turns 2)) 8192 2 := by
  have nothing : NothingBehind (turns 2) := by
    -- each descriptor adds at most one region
    intro before rest isMap full
    have few := merged_length before
    have all := congrArg List.length isMap
    rw [length_append, show (turns 2).length = 2 from rfl] at all
    unfold smapMax at full
    omega
  have same := (loader_keeps_types_iff (turns 2) (by decide)).mpr nothing
  rw [same, same]
  unfold Described
  decide

/-- The page behind a map that fills the table belongs to its last region, and is lost. -/
theorem last_page_lost :
    (merged (turns 64 ++ [⟨.other, 64 * 4096, 1⟩])).length = smapMax ∧
      Described (turns 64 ++ [⟨.other, 64 * 4096, 1⟩]) (64 * 4096) 2 ∧
      ¬ Listed (translate [] (turns 64 ++ [⟨.other, 64 * 4096, 1⟩])) (64 * 4096) 2 := by
  unfold Described Listed
  decide +kernel

end Balrog.LoaderMap
