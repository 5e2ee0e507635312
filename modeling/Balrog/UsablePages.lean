import Balrog.DistinctPages

/-!
# Pages that are handed out are usable memory

A page that `pmm_alloc` returns should lie in usable memory at or above 1 MiB and
outside the reserved ranges. The pointer knows the start of the first usable region, the
end of the last one and the last end below 4 GiB; it does not know the holes between
the regions and hands out their pages. The reserved ranges are stepped over after the
jump over the gap below 4 GiB, so a range that ends in the gap leaves the pointer there,
and freed pages are not compared with the ranges at all.

The property holds on memory maps without a hole other than the gap, when at most eight
ranges are reserved, none of which ends in the gap or contains a page that was handed
out or recycled before.
-/

namespace Balrog.UsablePages

open Runs PhysicalPages DistinctPages List

/-- The entries of the map consist of pages and do not overlap. -/
def WellFormed (smap : List Region) : Prop :=
  (∀ region ∈ smap, region.base % pageSize = 0 ∧ region.length % pageSize = 0 ∧
    region.base + region.length < 2 ^ 64) ∧
  smap.Pairwise (fun first second => first.base + first.length ≤ second.base ∨
    second.base + second.length ≤ first.base)

/-- A page lies wholly inside a usable region, at or above 1 MiB. -/
def UsablePage (smap : List Region) (addr : Nat) : Prop :=
  oneMiB ≤ addr ∧ ∃ region ∈ smap, region.kind = usableMemory ∧ region.base ≤ addr ∧
    addr + pageSize ≤ region.base + region.length

/-- A page and a reserved range have no byte in common. -/
def Outside (addr : Nat) (range : Nat × Nat) : Prop :=
  addr + pageSize ≤ range.1 ∨ range.1 + range.2 ≤ addr

/-- Usable memory has no hole but the gap that ends at 4 GiB. -/
structure NoHoles (smap : List Region) : Prop where
  low : ∀ first ∈ smap, Usable first → ∀ last ∈ smap, Usable last → last.stop ≤ fourGiB →
    ∀ addr, addr % pageSize = 0 → first.base ≤ addr → addr + pageSize < last.stop →
      UsablePage smap addr
  high : ∀ first ∈ smap, Usable first → ∀ last ∈ smap, Usable last →
    ∀ addr, addr % pageSize = 0 → fourGiB ≤ addr → first.base ≤ addr → addr < last.stop →
      UsablePage smap addr

/-- Where the pages of a region end, rounded up in 64 bits. -/
def rangeEnd (start size : Nat) : Nat := (start + size + pageSize - 1) % 2 ^ 64 / pageSize * pageSize

/-- An end of a reserved range is not in the gap. -/
def Leads (smap : List Region) (addr : Nat) : Prop :=
  (∃ last ∈ smap, Usable last ∧ last.stop ≤ fourGiB ∧ addr + pageSize < last.stop) ∨ fourGiB ≤ addr

/-- The condition on the calls: the first usable region ends below 4 GiB, memory ends
below the window's end, recycled pages are not reserved, and there is a slot for a
reserved range that does not end in the gap and contains no page that is held or
queued. -/
def GoodUse (smap : List Region) (pmm : Pmm) : Call → Prop
  | .region region => region.stop ≤ windowEnd ∧ (pmm.nextAddr = 0 → region.stop ≤ fourGiB)
  | .recycle addr => pmm.nextAddr < addr ∨
    (addr < windowEnd ∧ ∀ range ∈ pmm.claimed, Outside addr range)
  | .reserve start size => pmm.reserved.length < maxReserved ∧ start + size + pageSize ≤ 2 ^ 64 ∧
    Leads smap (rangeEnd start size) ∧ ∀ addr ∈ taken pmm, Outside addr (start, size)
  | _ => True

/-- Where the pointer is: at the start, or above the first usable region with both ends
known. -/
def Fronted (smap : List Region) (pmm : Pmm) : Prop :=
  (pmm.nextAddr = 0 ∧ pmm.topAddr = 0) ∨
    ∃ first ∈ smap, Usable first ∧ first.base ≤ pmm.nextAddr ∧
      (∃ last ∈ smap, Usable last ∧ last.stop ≤ fourGiB ∧ pmm.topLow = last.stop) ∧
      ∃ last ∈ smap, Usable last ∧ pmm.topAddr = last.stop

/-- Held and queued pages are usable and not reserved, and the reserved ranges are stored. -/
structure Sound (smap : List Region) (pmm : Pmm) : Prop where
  pages : ∀ addr ∈ taken pmm, UsablePage smap addr ∧ addr < windowEnd ∧
    ∀ range ∈ pmm.claimed, Outside addr range
  stored : ∀ range ∈ pmm.claimed,
    (range.1 / pageSize * pageSize, rangeEnd range.1 range.2) ∈ pmm.reserved ∧
      range.1 + range.2 + pageSize ≤ 2 ^ 64
  leads : ∀ range ∈ pmm.reserved, range.2 % pageSize = 0 ∧ Leads smap range.2
  aligned : pmm.nextAddr % pageSize = 0
  fronted : Fronted smap pmm
  top : pmm.topAddr ≤ windowEnd

variable {smap : List Region} {pmm : Pmm} {addr : Nat}

theorem outside_of_stored {range : Nat × Nat} (aligned : addr % pageSize = 0)
    (fits : range.1 + range.2 + pageSize ≤ 2 ^ 64)
    (outside : ¬ (range.1 / pageSize * pageSize ≤ addr ∧ addr < rangeEnd range.1 range.2)) :
    Outside addr range := by
  have small : (range.1 + range.2 + pageSize - 1) % 2 ^ 64 = range.1 + range.2 + pageSize - 1 := by
    simp only [pageSize] at fits ⊢
    omega
  unfold Outside
  rw [rangeEnd, small] at outside
  simp only [pageSize] at aligned fits outside ⊢
  omega

/-- The addresses that the pointer can move to are aligned. -/
theorem place_aligned (sound : Sound smap pmm)
    (place : addr = bumpStart pmm ∨ ∃ range ∈ pmm.reserved, addr = range.2) :
    addr % pageSize = 0 := by
  rcases place with isStart | ⟨range, isRange, isEnd⟩
  · unfold bumpStart at isStart
    split_ifs at isStart
    · rw [isStart]
      decide
    · rw [isStart]
      exact sound.aligned
  · rw [isEnd]
    exact (sound.leads range isRange).1

theorem place_usable (formed : WellFormed smap) (noHoles : NoHoles smap) (sound : Sound smap pmm)
    (above : pmm.nextAddr ≤ addr) (below : addr < pmm.topAddr)
    (place : addr = bumpStart pmm ∨ ∃ range ∈ pmm.reserved, addr = range.2) :
    UsablePage smap addr := by
  have aligned := place_aligned sound place
  rcases sound.fronted with ⟨_, topZero⟩ | ⟨first, isFirst, firstUsable, higher, lowEnd, topEnd⟩
  · omega
  · obtain ⟨low, isLow, lowUsable, lowBelow, lowIs⟩ := lowEnd
    obtain ⟨top, isTop, topUsable, topIs⟩ := topEnd
    have high : fourGiB ≤ addr → UsablePage smap addr := fun inHigh =>
      noHoles.high first isFirst firstUsable top isTop topUsable addr aligned inHigh
        (Nat.le_trans higher above) (topIs ▸ below)
    rcases place with isStart | ⟨range, isRange, isEnd⟩
    · unfold bumpStart at isStart
      split_ifs at isStart with gap
      · exact high (Nat.le_of_eq isStart.symm)
      · subst isStart
        by_cases inHigh : fourGiB ≤ pmm.nextAddr
        · exact high inHigh
        · -- The pointer has not reached the last page below the gap.
          refine noHoles.low first isFirst firstUsable low isLow lowUsable lowBelow _ aligned higher ?_
          have large : pageSize ≤ low.stop := by
            have bounds := (formed.1 low isLow).2.2
            have base := lowUsable.1
            rw [Region.stop, Nat.mod_eq_of_lt bounds]
            simp only [pageSize, oneMiB] at base ⊢
            omega
          rw [lowIs] at gap
          simp only [pageSize, fourGiB] at gap inHigh large lowBelow ⊢
          omega
    · rcases (sound.leads range isRange).2 with ⟨last, isLast, lastUsable, lastBelow, before⟩ | inHigh
      · rw [isEnd] at aligned ⊢
        exact noHoles.low first isFirst firstUsable last isLast lastUsable lastBelow _ aligned
          (isEnd ▸ Nat.le_trans higher above) before
      · exact high (isEnd ▸ inHigh)

theorem fronted_up (fronted : Fronted smap pmm) (above : pmm.nextAddr ≤ addr)
    (moved : addr = pmm.nextAddr ∨ pmm.nextAddr < pmm.topAddr) :
    Fronted smap { pmm with nextAddr := addr } := by
  rcases fronted with ⟨nextZero, topZero⟩ | ⟨first, isFirst, usable, higher, lowEnd, topEnd⟩
  · rcases moved with same | started
    · exact .inl ⟨same.trans nextZero, topZero⟩
    · omega
  · exact .inr ⟨first, isFirst, usable, Nat.le_trans higher above, lowEnd, topEnd⟩

/-- What `pmm_alloc` returns is usable and outside the reserved ranges, and the next call
finds the allocator in order. -/
theorem alloc_sound (formed : WellFormed smap) (noHoles : NoHoles smap) (sound : Sound smap pmm) :
    Sound smap (step pmm .alloc) ∧ ((pmmAlloc pmm).1 ≠ 0 → UsablePage smap (pmmAlloc pmm).1 ∧
      ∀ range ∈ pmm.claimed, Outside (pmmAlloc pmm).1 range) := by
  simp only [step]
  have allocates := pmmAlloc_spec pmm
  generalize (pmmAlloc pmm).1 = page at allocates
  generalize (pmmAlloc pmm).2 = after at allocates
  obtain ⟨pages, stored, leads, aligned, fronted, top⟩ := sound
  cases allocates with
  | recycled queued rest isQueue =>
    have permuted := taken_recycled isQueue
    have isTaken := permuted.mem_iff.mp mem_cons_self
    refine ⟨?_, fun _ => ⟨(pages _ isTaken).1, (pages _ isTaken).2.2⟩⟩
    split_ifs
    · refine ⟨fun other isOther => pages other ?_, stored, leads, aligned, fronted, top⟩
      exact permuted.mem_iff.mp (mem_cons_of_mem _ isOther)
    · exact ⟨fun other isOther => pages other (permuted.mem_iff.mp isOther), stored, leads, aligned,
        fronted, top⟩
  | failed moved above place =>
    rw [if_pos rfl]
    refine ⟨⟨pages, stored, leads, ?_, ?_, top⟩, fun isNull => absurd rfl isNull⟩
    · rcases place with rfl | ⟨_, place⟩
      · exact aligned
      · exact place_aligned ⟨pages, stored, leads, aligned, fronted, top⟩ place
    · refine fronted_up fronted above ?_
      rcases place with same | ⟨started, _⟩
      · exact .inl same
      · exact .inr started
  | bumped moved vacant above below started place outside =>
    have sound : Sound smap pmm := ⟨pages, stored, leads, aligned, fronted, top⟩
    have usable := place_usable formed noHoles sound above below place
    have pageAligned := place_aligned sound place
    have apart : ∀ range ∈ pmm.claimed, Outside page range := fun range isRange =>
      outside_of_stored pageAligned (stored range isRange).2 (outside _ (stored range isRange).1)
    have small : page + pageSize < 2 ^ 64 := by
      simp only [windowEnd] at top
      simp only [pageSize]
      omega
    have nextAligned : (page + pageSize) % pageSize = 0 := by
      rw [Nat.add_mod_right, pageAligned]
    have frontedUp : Fronted smap { pmm with nextAddr := page + pageSize } :=
      fronted_up fronted (Nat.le_trans above (Nat.le_add_right _ _)) (.inr started)
    refine ⟨?_, fun _ => ⟨usable, apart⟩⟩
    rw [Nat.mod_eq_of_lt small]
    split_ifs
    · exact ⟨pages, stored, leads, nextAligned, frontedUp, top⟩
    · refine ⟨forall_mem_cons.mpr ⟨?_, pages⟩, stored, leads, nextAligned, frontedUp, top⟩
      exact ⟨usable, Nat.lt_of_lt_of_le below top, apart⟩

variable {region : Region} {addr start size : Nat}

theorem region_pages_usable (formed : WellFormed smap) (inside : region ∈ smap)
    (usable : region.kind = usableMemory) (above : oneMiB < addr) (isPage : addr ∈ pages region) :
    UsablePage smap addr := by
  obtain ⟨baseAligned, lengthAligned, bounds⟩ := formed.1 region inside
  rw [pages, mem_map] at isPage
  obtain ⟨index, isIndex, rfl⟩ := isPage
  rw [mem_range, Region.stop, Nat.mod_eq_of_lt bounds] at isIndex
  refine ⟨Nat.le_of_lt above, region, inside, usable, Nat.le_add_right _ _, ?_⟩
  simp only [pageSize] at lengthAligned isIndex ⊢
  omega

/-- Giving back a held page adds no page that is not usable. -/
theorem free_sound (sound : Sound smap pmm) (isHeld : addr ∈ pmm.held) :
    Sound smap (step pmm (.free addr)) := by
  obtain ⟨pages, stored, leads, aligned, fronted, top⟩ := sound
  have isTaken : addr ∈ taken pmm := mem_append_left _ isHeld
  have window := (pages addr isTaken).2.1
  have kept {other : Nat} (isOther : other ∈ pmm.held.erase addr) : other ∈ taken pmm :=
    mem_append_left _ (mem_of_mem_erase isOther)
  simp only [step, pmmFree]
  split
  · refine ⟨fun other isOther => pages other ?_, stored, leads, aligned, fronted, top⟩
    rcases mem_append.mp isOther with inHeld | inQueue
    · exact kept inHeld
    · exact mem_append_right _ inQueue
  · refine ⟨fun other isOther => ?_, stored, leads, aligned, fronted, top⟩
    rw [taken, map_append, mem_append, mem_append] at isOther
    rcases isOther with inHeld | inQueue | isNew
    · exact pages other (kept inHeld)
    · exact pages other (mem_append_right _ inQueue)
    · rw [map_singleton, mem_singleton, v2p_p2v window] at isNew
      rw [isNew]
      exact pages addr isTaken

/-- A reservation apart from the pages handed out before it. -/
theorem reserve_sound (sound : Sound smap pmm) (good : GoodUse smap pmm (.reserve start size)) :
    Sound smap (step pmm (.reserve start size)) := by
  obtain ⟨slots, fits, ends, apart⟩ := good
  obtain ⟨pages, stored, leads, aligned, fronted, top⟩ := sound
  simp only [step, pmmReserve]
  rw [if_neg (by omega)]
  refine ⟨fun other isOther => ?_, fun range isRange => ?_, fun range isRange => ?_, aligned,
    fronted, top⟩
  · obtain ⟨usable, window, outside⟩ := pages other isOther
    exact ⟨usable, window, forall_mem_cons.mpr ⟨apart other isOther, outside⟩⟩
  · rcases mem_cons.mp isRange with rfl | earlier
    · exact ⟨mem_append_right _ mem_cons_self, fits⟩
    · exact ⟨mem_append_left _ (stored range earlier).1, (stored range earlier).2⟩
  · rcases mem_append.mp isRange with earlier | isNew
    · exact leads range earlier
    · rw [mem_singleton] at isNew
      rw [isNew]
      exact ⟨Nat.mul_mod_left _ _, ends⟩

/-- A usable region of the map moves only the bounds of the allocator. -/
theorem region_sound (formed : WellFormed smap) (sound : Sound smap pmm)
    (arises : Arises smap pmm (.region region)) (good : GoodUse smap pmm (.region region)) :
    Sound smap (step pmm (.region region)) := by
  obtain ⟨inside, usable⟩ := arises
  obtain ⟨window, firstLow⟩ := good
  obtain ⟨pages, stored, leads, aligned, fronted, top⟩ := sound
  refine ⟨pages, stored, leads, ?_, ?_, window⟩
  · simp only [step, addRegion]
    split_ifs
    · exact (formed.1 region inside).1
    · exact aligned
  · right
    simp only [step, addRegion]
    by_cases isZero : pmm.nextAddr = 0
    · rw [if_pos isZero, if_pos (firstLow isZero)]
      exact ⟨region, inside, usable, Nat.le_refl _,
        ⟨region, inside, usable, firstLow isZero, rfl⟩, region, inside, usable, rfl⟩
    · rw [if_neg isZero]
      obtain ⟨first, isFirst, firstUsable, higher, lowEnd, _⟩ :=
        fronted.resolve_left (fun zero => isZero zero.1)
      refine ⟨first, isFirst, firstUsable, higher, ?_, region, inside, usable, rfl⟩
      split_ifs with below
      · exact ⟨region, inside, usable, below, rfl⟩
      · exact lowEnd

/-- A page of a usable region outside the reservations can be given to the queue. -/
theorem recycle_sound (formed : WellFormed smap) (sound : Sound smap pmm)
    (arises : Arises smap pmm (.recycle addr)) (good : GoodUse smap pmm (.recycle addr)) :
    Sound smap (step pmm (.recycle addr)) := by
  simp only [step, pmmFree]
  split
  · exact sound
  · obtain ⟨region, inside, usable, above, isPage⟩ := arises
    obtain ⟨window, outside⟩ := good.resolve_left (by assumption)
    obtain ⟨pages, stored, leads, aligned, fronted, top⟩ := sound
    refine ⟨fun other isOther => ?_, stored, leads, aligned, fronted, top⟩
    rw [taken, map_append, ← append_assoc, mem_append] at isOther
    rcases isOther with earlier | isNew
    · exact pages other earlier
    · rw [map_singleton, mem_singleton, v2p_p2v window] at isNew
      rw [isNew]
      exact ⟨region_pages_usable formed inside usable above isPage, window, outside⟩

theorem step_sound (formed : WellFormed smap) (noHoles : NoHoles smap) (call : Call)
    (sound : Sound smap pmm) (arises : Arises smap pmm call) (good : GoodUse smap pmm call) :
    Sound smap (step pmm call) := by
  cases call with
  | alloc => exact (alloc_sound formed noHoles sound).1
  | free addr => exact free_sound sound arises
  | reserve start size => exact reserve_sound sound good
  | region region => exact region_sound formed sound arises good
  | recycle addr => exact recycle_sound formed sound arises good

/-- On every memory map of pages without overlap and without a hole but the gap below
4 GiB, and in every run whose calls meet the condition, a page that `pmm_alloc` returns
lies in usable memory at or above 1 MiB and outside every reserved range. -/
theorem allocated_page_usable {smap : List Region} {pmm : Pmm} (formed : WellFormed smap)
    (noHoles : NoHoles smap) (reached : Reachable (machine smap (GoodUse smap)) pmm)
    (returned : (pmmAlloc pmm).1 ≠ 0) :
    UsablePage smap (pmmAlloc pmm).1 ∧ ∀ range ∈ pmm.claimed, Outside (pmmAlloc pmm).1 range := by
  have starts : Sound smap blank :=
    ⟨fun addr isTaken => absurd isTaken not_mem_nil,
      fun range isRange => absurd isRange not_mem_nil,
      fun range isRange => absurd isRange not_mem_nil, rfl, .inl ⟨rfl, rfl⟩, Nat.zero_le _⟩
  have sound : Sound smap pmm := machine_holds starts
    (fun _ call holds arises good => step_sound formed noHoles call holds arises good) reached
  exact (alloc_sound formed noHoles sound).2 returned

/-- The first page of the map that starts at 1 MiB. -/
def oneRegion : Pmm := run blank (initCalls mapAtOneMiB (fun _ _ => 0))

theorem mapAtOneMiB_formed : WellFormed mapAtOneMiB := by
  refine ⟨fun region inside => ?_, pairwise_singleton _ _⟩
  rw [mapAtOneMiB, mem_singleton] at inside
  subst inside
  exact ⟨rfl, rfl, by decide⟩

theorem mapAtOneMiB_noHoles : NoHoles mapAtOneMiB := by
  have only {region : Region} (inside : region ∈ mapAtOneMiB) :
      region.base = 0x100000 ∧ region.stop = 0x103000 := by
    rw [mapAtOneMiB, mem_singleton] at inside
    subst inside
    exact ⟨rfl, by decide⟩
  have usable {addr : Nat} (above : 0x100000 ≤ addr) (below : addr + 0x1000 ≤ 0x103000) :
      UsablePage mapAtOneMiB addr :=
    ⟨above, ⟨0x100000, 0x3000, 1⟩, mem_cons_self, rfl, above, below⟩
  refine ⟨fun first isFirst _ last isLast _ _ addr _ above below => ?_,
    fun first _ _ last isLast _ addr _ high _ below => ?_⟩
  · rw [(only isFirst).1] at above
    rw [(only isLast).2] at below
    exact usable above (Nat.le_of_lt below)
  · rw [(only isLast).2] at below
    simp only [fourGiB] at high
    omega

/-- Both pages behind the first are taken, and one is given back. -/
def oneReturned : Pmm :=
  run oneRegion [.alloc, .alloc, .free 0x100000]

/-- The page that was given back is handed out again. -/
theorem allocated_page_usable_again :
    Reachable (machine mapAtOneMiB (GoodUse mapAtOneMiB)) oneReturned ∧
      (pmmAlloc oneReturned).1 = 0x100000 ∧ UsablePage mapAtOneMiB (pmmAlloc oneReturned).1 := by
  have calls : initCalls mapAtOneMiB (fun _ _ => 0) =
      [.region ⟨0x100000, 0x3000, 1⟩, .recycle 0x101000, .recycle 0x102000] := by rfl
  have admitted : Admits (GoodUse mapAtOneMiB) blank (initCalls mapAtOneMiB (fun _ _ => 0)) := by
    rw [calls]
    refine ⟨⟨?_, fun _ => ?_⟩, .inl (by decide), .inl (by decide), trivial⟩
    · change (0x100000 + 0x3000) % 2 ^ 64 ≤ windowEnd
      decide
    · change (0x100000 + 0x3000) % 2 ^ 64 ≤ fourGiB
      decide
  have reached : Reachable (machine mapAtOneMiB (GoodUse mapAtOneMiB)) oneReturned := by
    refine (alloc_reachable (alloc_reachable (init_reachable (fun _ _ => 0) admitted) trivial)
      trivial).call (.free 0x100000) ⟨?_, trivial⟩ rfl
    change 0x100000 ∈ (run oneRegion [.alloc, .alloc]).held
    decide
  have returned : (pmmAlloc oneReturned).1 = 0x100000 := by decide
  exact ⟨reached, returned, (allocated_page_usable mapAtOneMiB_formed mapAtOneMiB_noHoles reached
    (by rw [returned]; decide)).1⟩

/-- Two usable regions with a hole of two pages between them. -/
def mapWithHole : List Region := [⟨0x100000, 0x2000, 1⟩, ⟨0x104000, 0x2000, 1⟩]

/-- The allocator after the first region before a hole has been used up. -/
def firstRegionGone : Pmm := run blank (initCalls mapWithHole (fun _ _ => 0) ++ [.alloc, .alloc])

/-- The third page comes from the hole. -/
theorem page_of_hole :
    WellFormed mapWithHole ∧
      Reachable (machine mapWithHole (fun _ _ => True)) firstRegionGone ∧
      (pmmAlloc firstRegionGone).1 = 0x102000 ∧
      ¬ UsablePage mapWithHole (pmmAlloc firstRegionGone).1 := by
  have calls : initCalls mapWithHole (fun _ _ => 0) =
      [.region ⟨0x100000, 0x2000, 1⟩, .recycle 0x101000, .region ⟨0x104000, 0x2000, 1⟩,
        .recycle 0x104000, .recycle 0x105000] := by rfl
  have admitted : Admits (fun _ _ => True) blank (initCalls mapWithHole (fun _ _ => 0)) := by
    rw [calls]
    exact ⟨trivial, trivial, trivial, trivial, trivial, trivial⟩
  have returned : (pmmAlloc firstRegionGone).1 = 0x102000 := by decide
  refine ⟨⟨fun region inside => ?_, ?_⟩, ?_, returned, ?_⟩
  · rw [mapWithHole, mem_cons, mem_singleton] at inside
    rcases inside with rfl | rfl <;> exact ⟨rfl, rfl, by decide⟩
  · rw [mapWithHole, pairwise_pair]
    exact .inl (by decide)
  · rw [firstRegionGone, run_two]
    exact alloc_reachable (alloc_reachable (init_reachable _ admitted) trivial) trivial
  · rw [returned]
    rintro ⟨_, region, inside, _, above, below⟩
    rw [mapWithHole, mem_cons, mem_singleton] at inside
    rcases inside with rfl | rfl
    · exact absurd below (by decide)
    · exact absurd above (by decide)

end Balrog.UsablePages
