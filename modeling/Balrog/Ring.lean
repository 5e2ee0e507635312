import Mathlib.Data.List.Chain

/-!
# Circular doubly linked lists

The members of a ring are a list, and two pointer functions give the next and the
previous member. A ring is linked when neighbours point at each other and the last
member and the first one do as well. Inserting behind the last member and taking a
member out change the pointers of the neighbours only; the lemmas below say which
pointers a new pair of functions has to give and that all others may be anything.
-/

namespace Ring

open List Option

variable {α : Type*} {next prev next' prev' : α → α}

/-- Two members point at each other. -/
def Linked (next prev : α → α) (first second : α) : Prop := next first = second ∧ prev second = first

/-- Neighbours point at each other, and so do the last and the first member. -/
def Closed (next prev : α → α) (ring : List α) : Prop :=
  List.IsChain (Linked next prev) ring ∧
    ∀ last ∈ ring.getLast?, ∀ first ∈ ring.head?, Linked next prev last first

variable {ring : List α}

/-- A chain reads the next pointers of all members but the last, and the previous
pointers of all but the first. -/
theorem chain_congr (chain : List.IsChain (Linked next prev) ring)
    (sameNext : ∀ member ∈ ring.dropLast, next' member = next member)
    (samePrev : ∀ member ∈ ring.tail, prev' member = prev member) :
    List.IsChain (Linked next' prev') ring := by
  induction ring with
  | nil => exact isChain_nil
  | cons first rest ih =>
    cases rest with
    | nil => exact isChain_singleton first
    | cons second others =>
      rw [isChain_cons_cons] at chain ⊢
      obtain ⟨⟨forward, backward⟩, further⟩ := chain
      refine ⟨⟨(sameNext first (by simp)).trans forward, (samePrev second (by simp)).trans backward⟩,
        ih further ?_ ?_⟩
      · exact fun member inside => sameNext member (by simp [inside])
      · exact (forall_mem_cons.mp samePrev).2

theorem closed_congr (closed : Closed next prev ring)
    (sameNext : ∀ member ∈ ring, next' member = next member)
    (samePrev : ∀ member ∈ ring, prev' member = prev member) : Closed next' prev' ring := by
  refine ⟨chain_congr closed.1 (fun member inside => sameNext member (dropLast_subset _ inside))
    (fun member inside => samePrev member (mem_of_mem_tail inside)), ?_⟩
  intro last isLast first isFirst
  obtain ⟨forward, backward⟩ := closed.2 last isLast first isFirst
  exact ⟨(sameNext last (mem_of_getLast? isLast)).trans forward,
    (samePrev first (mem_of_head? isFirst)).trans backward⟩

variable {member : α}

theorem chain_next_mem (chain : List.IsChain (Linked next prev) ring)
    (inside : member ∈ ring.dropLast) : next member ∈ ring.tail := by
  induction ring with
  | nil => cases inside
  | cons first rest ih =>
    cases rest with
    | nil => cases inside
    | cons second others =>
      rw [isChain_cons_cons] at chain
      rw [dropLast_cons_cons, mem_cons] at inside
      rcases inside with rfl | later
      · rw [chain.1.1]
        exact mem_cons_self
      · exact mem_cons_of_mem _ (ih chain.2 later)

theorem chain_prev_mem (chain : List.IsChain (Linked next prev) ring)
    (inside : member ∈ ring.tail) : prev member ∈ ring.dropLast := by
  have reversed : List.IsChain (Linked prev next) ring.reverse :=
    isChain_reverse.mpr (chain.imp fun _ _ => And.symm)
  rw [← mem_reverse, ← dropLast_reverse] at inside
  rw [← mem_reverse, ← tail_reverse]
  exact chain_next_mem reversed inside

theorem ne_last {last member : α} (distinct : ring.Nodup) (isLast : ring.getLast? = some last)
    (inside : member ∈ ring.dropLast) : member ≠ last := by
  obtain ⟨lower, rfl⟩ := getLast?_eq_some_iff.mp isLast
  rw [dropLast_concat] at inside
  rw [nodup_append] at distinct
  exact distinct.2.2 member inside last mem_cons_self

theorem closed_insert {first last member : α} (closed : Closed next prev ring)
    (isFirst : ring.head? = some first) (isLast : ring.getLast? = some last)
    (distinct : ring.Nodup) (sameNext : ∀ other ∈ ring, other ≠ last → next' other = next other)
    (samePrev : ∀ other ∈ ring, other ≠ first → prev' other = prev other)
    (before : Linked next' prev' last member) (behind : Linked next' prev' member first) :
    Closed next' prev' (ring ++ [member]) := by
  have chain : List.IsChain (Linked next' prev') ring := by
    refine chain_congr closed.1 (fun other inside => ?_) (fun other inside => ?_)
    · exact sameNext other (dropLast_subset _ inside) (ne_last distinct isLast inside)
    · obtain ⟨rest, rfl⟩ := head?_eq_some_iff.mp isFirst
      refine samePrev other (mem_cons_of_mem _ inside) ?_
      rintro rfl
      exact (nodup_cons.mp distinct).1 inside
  refine ⟨isChain_append.mpr ⟨chain, isChain_singleton member, ?_⟩, ?_⟩
  · intro other isOther second isSecond
    rw [isLast, mem_some_iff] at isOther
    rw [head?_cons, mem_some_iff] at isSecond
    rw [← isOther, ← isSecond]
    exact before
  · intro other isOther second isSecond
    rw [getLast?_concat, mem_some_iff] at isOther
    rw [head?_append, isFirst, some_or, mem_some_iff] at isSecond
    rw [← isOther, ← isSecond]
    exact behind

/-- A ring may be read from any of its members on. -/
theorem closed_rotate {lower upper : List α} (closed : Closed next prev (lower ++ upper)) :
    Closed next prev (upper ++ lower) := by
  rcases eq_or_ne lower [] with rfl | some'
  · rwa [append_nil]
  rcases eq_or_ne upper [] with rfl | more
  · rwa [append_nil] at closed
  obtain ⟨chain, closing⟩ := closed
  obtain ⟨lowerChain, upperChain, between⟩ := isChain_append.mp chain
  rw [getLast?_append_of_ne_nil _ more, head?_append_of_ne_nil _ some'] at closing
  refine ⟨isChain_append.mpr ⟨upperChain, lowerChain, closing⟩, ?_⟩
  rw [getLast?_append_of_ne_nil _ some', head?_append_of_ne_nil _ more]
  exact between

/-- Taking a member out: whoever pointed at it points past it, and the others are as
before. -/
theorem closed_remove {lower upper : List α}
    (closed : Closed next prev (lower ++ member :: upper))
    (distinct : (lower ++ member :: upper).Nodup)
    (sameNext : ∀ other ∈ lower ++ upper, next other ≠ member → next' other = next other)
    (samePrev : ∀ other ∈ lower ++ upper, prev other ≠ member → prev' other = prev other)
    (skipNext : ∀ other ∈ lower ++ upper, next other = member → next' other = next member)
    (skipPrev : ∀ other ∈ lower ++ upper, prev other = member → prev' other = prev member) :
    Closed next' prev' (lower ++ upper) := by
  obtain ⟨chain, closing⟩ := closed_rotate closed
  have outside : member ∉ upper ++ lower := by
    rw [nodup_append, nodup_cons] at distinct
    grind
  rw [cons_append, isChain_cons] at chain
  have inside {other : α} (isOther : other ∈ upper ++ lower) : other ∈ lower ++ upper :=
    mem_append.mpr (mem_append.mp isOther).symm
  refine closed_rotate ⟨chain_congr chain.2 (fun other isOther => ?_) (fun other isOther => ?_), ?_⟩
  · refine sameNext other (inside (dropLast_subset _ isOther)) fun same => outside ?_
    exact same ▸ mem_of_mem_tail (chain_next_mem chain.2 isOther)
  · refine samePrev other (inside (mem_of_mem_tail isOther)) fun same => outside ?_
    exact same ▸ dropLast_subset _ (chain_prev_mem chain.2 isOther)
  · -- the last member pointed at the one that is taken out, and that one at the first
    intro last isLast first isFirst
    have into : Linked next prev last member := by
      refine closing last ?_ member rfl
      rw [cons_append, getLast?_cons, mem_def.mp isLast]
      rfl
    have out := chain.1 first isFirst
    exact ⟨(skipNext last (inside (mem_of_getLast? isLast)) into.1).trans out.1,
      (skipPrev first (inside (mem_of_head? isFirst)) out.2).trans into.2⟩

theorem chain_iterate {first : α} {rest : List α}
    (chain : List.IsChain (Linked next prev) (first :: rest)) :
    List.iterate next first (first :: rest).length = first :: rest := by
  induction rest generalizing first with
  | nil => rfl
  | cons second others ih =>
    rw [isChain_cons_cons] at chain
    rw [length_cons, List.iterate, chain.1.1, ih chain.2]

/-- Following the next pointers from a member visits every member once. -/
theorem Closed.round (closed : Closed next prev ring) (inside : member ∈ ring) :
    (List.iterate next member ring.length).Perm ring := by
  obtain ⟨lower, upper, rfl⟩ := append_of_mem inside
  have turned : (member :: (upper ++ lower)).Perm (lower ++ member :: upper) :=
    (perm_append_comm.cons member).trans perm_middle.symm
  rwa [← turned.length_eq, @chain_iterate _ _ _ _ (upper ++ lower) (closed_rotate closed).1]

theorem Closed.back (closed : Closed next prev ring) (inside : member ∈ ring) :
    prev (next member) = member ∧ next member ∈ ring := by
  obtain ⟨lower, upper, rfl⟩ := append_of_mem inside
  rw [append_cons] at closed
  obtain ⟨_, closing⟩ := closed_rotate closed
  obtain ⟨first, isFirst⟩ := Option.isSome_iff_exists.mp
    (List.isSome_head?.mpr (by simp : upper ++ (lower ++ [member]) ≠ []))
  obtain ⟨forward, backward⟩ := closing member (by simp) first isFirst
  have listed := mem_of_head? isFirst
  exact ⟨by rw [forward, backward], forward ▸ (by simp at listed ⊢; tauto)⟩

theorem Closed.forth (closed : Closed next prev ring) (inside : member ∈ ring) :
    next (prev member) = member ∧ prev member ∈ ring := by
  obtain ⟨lower, upper, rfl⟩ := append_of_mem inside
  obtain ⟨_, closing⟩ := closed_rotate closed
  obtain ⟨last, isLast⟩ := Option.isSome_iff_exists.mp
    (getLast?_isSome.mpr (cons_ne_nil member (upper ++ lower)))
  obtain ⟨forward, backward⟩ := closing last isLast member rfl
  have listed := mem_of_getLast? isLast
  exact ⟨by rw [backward, forward], backward ▸ (by simp at listed ⊢; tauto)⟩

/-- Taking a member out by making its two neighbours point at each other. -/
theorem closed_unlink [DecidableEq α] {lower upper : List α}
    (closed : Closed next prev (lower ++ member :: upper))
    (distinct : (lower ++ member :: upper).Nodup) :
    Closed (Function.update next (prev member) (next member))
      (Function.update prev (next member) (prev member)) (lower ++ upper) := by
  have inside {other : α} (isOther : other ∈ lower ++ upper) : other ∈ lower ++ member :: upper := by
    rw [mem_append] at isOther ⊢
    exact isOther.imp_right (mem_cons_of_mem member)
  have memberIn : member ∈ lower ++ member :: upper := by simp
  refine closed_remove closed distinct ?_ ?_ ?_ ?_
  · intro other _ points
    rw [Function.update_of_ne]
    rintro rfl
    exact points (closed.forth memberIn).1
  · intro other _ points
    rw [Function.update_of_ne]
    rintro rfl
    exact points (closed.back memberIn).1
  · intro other isOther points
    have same : prev member = other := by rw [← points, (closed.back (inside isOther)).1]
    rw [same, Function.update_self]
  · intro other isOther points
    have same : next member = other := by rw [← points, (closed.forth (inside isOther)).1]
    rw [same, Function.update_self]

end Ring
