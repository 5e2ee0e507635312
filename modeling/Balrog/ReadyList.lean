import Balrog.Processes
import Balrog.Ring
import Mathlib.Order.Interval.Finset.Nat

/-!
# The ready list

The ready list is a circular doubly linked list of exactly the live processes that are
ready, and its size field is its length. A process is on the list or has been set
aside: taking a process off the list sets it aside, inserting it, parking it or
killing it ends that. Each function of `process.c` is a sequence of these moves.

The proof needs that the pids of live processes are distinct. A pid is the 64-bit
counter cut to an `int`, so a process can get the pid of a live one after 2 ^ 32
creations; `exec_process` of the older one then takes the younger one off the list and
kills the older one while it is on it.
-/

namespace Balrog.ReadyList

open Runs Processes Function List

/-- The ready list runs through the given processes. -/
structure Listed (kernel : Kernel) (ring : List Nat) : Prop where
  nodup : ring.Nodup
  nonzero : 0 ∉ ring
  closed : Ring.Closed kernel.next kernel.prev ring
  first : kernel.head = ring.head?.getD 0
  last : kernel.tail = ring.getLast?.getD 0
  length : kernel.size = ring.length
  calm : kernel.fatal = false

variable {kernel : Kernel} {ring lower upper out : List Nat} {proc caller fresh pid : Nat}

/-- Linking a process puts it at the end of the list. -/
theorem link_listed (listed : Listed kernel ring) (absent : proc ∉ ring) (nonzero : proc ≠ 0)
    (short : ring.length + 1 < 2 ^ 32) : Listed (link kernel proc) (ring ++ [proc]) := by
  obtain ⟨nodup, noZero, closed, first, last, length, calm⟩ := listed
  have nodupAfter : (ring ++ [proc]).Nodup := by
    rw [← concat_eq_append]
    exact List.Nodup.concat absent nodup
  have noZeroAfter : 0 ∉ ring ++ [proc] := by
    simp [noZero, nonzero.symm]
  have lengthAfter : (kernel.size + 1) % 2 ^ 32 = (ring ++ [proc]).length := by
    rw [length, length_append, length_singleton, Nat.mod_eq_of_lt short]
  cases ring with
  | nil =>
    have headZero : kernel.head = 0 := first
    have tailZero : kernel.tail = 0 := last
    refine ⟨nodupAfter, noZeroAfter, ⟨isChain_singleton proc, ?_⟩, ?_, ?_, ?_, ?_⟩
    · intro final isFinal initial isInitial
      simp only [nil_append, getLast?_singleton, head?_cons, Option.mem_some_iff]
        at isFinal isInitial
      subst isFinal isInitial
      constructor <;> simp [link, headZero]
    · simp [link, headZero]
    · simp [link, headZero]
    · simpa [link, headZero] using lengthAfter
    · simp [link, headZero, tailZero, calm]
  | cons head rest =>
    obtain ⟨tail, isTail⟩ : ∃ tail, (head :: rest).getLast? = some tail :=
      ⟨_, getLast?_eq_some_getLast (cons_ne_nil head rest)⟩
    have headIs : kernel.head = head := first
    have tailIs : kernel.tail = tail := by rw [last, isTail]; rfl
    have headNonzero : head ≠ 0 := by
      rintro rfl
      exact noZero mem_cons_self
    have notHead : proc ≠ head := by
      rintro rfl
      exact absent mem_cons_self
    have notTail : proc ≠ tail := by
      rintro rfl
      exact absent (mem_of_getLast? isTail)
    have other {member : Nat} (inside : member ∈ head :: rest) : member ≠ proc := by
      rintro rfl
      exact absent inside
    have nexts : (link kernel proc).next = update (update kernel.next proc head) tail proc := by
      simp [link, headIs, tailIs, headNonzero]
    have prevs : (link kernel proc).prev = update (update kernel.prev proc tail) head proc := by
      simp [link, headIs, tailIs, headNonzero]
    refine ⟨nodupAfter, noZeroAfter, ?_, ?_, ?_, ?_, ?_⟩
    · rw [nexts, prevs]
      refine Ring.closed_insert closed head?_cons isTail nodup ?_ ?_ ?_ ?_
      · intro member inside notLast
        rw [update_of_ne notLast, update_of_ne (other inside)]
      · intro member inside notFirst
        rw [update_of_ne notFirst, update_of_ne (other inside)]
      · exact ⟨update_self .., by rw [update_of_ne notHead, update_self]⟩
      · exact ⟨by rw [update_of_ne notTail, update_self], update_self ..⟩
    · simp [link, headIs, headNonzero]
    · rw [getLast?_concat]
      simp [link, headIs, headNonzero]
    · simpa [link, headIs, headNonzero] using lengthAfter
    · simp [link, headIs, headNonzero, calm]

/-- The last process of the list and the first one point at each other. -/
theorem listed_ends (listed : Listed kernel ring) (inside : proc ∈ ring) :
    kernel.next kernel.tail = kernel.head ∧ kernel.prev kernel.head = kernel.tail := by
  cases ring with
  | nil => cases inside
  | cons head rest =>
    have isTail := getLast?_eq_some_getLast (cons_ne_nil head rest)
    have headIs : kernel.head = head := listed.first
    have tailIs := listed.last
    rw [isTail, Option.getD_some] at tailIs
    rw [headIs, tailIs]
    exact listed.closed.2 _ isTail head rfl

/-- Taking a process off the list makes its neighbours point at each other, whichever
place it has. -/
theorem unlink_links (listed : Listed kernel ring) (inside : proc ∈ ring)
    (several : kernel.size ≠ 1) :
    (unlink kernel proc).next = update kernel.next (kernel.prev proc) (kernel.next proc) ∧
      (unlink kernel proc).prev = update kernel.prev (kernel.next proc) (kernel.prev proc) := by
  obtain ⟨forward, backward⟩ := listed_ends listed inside
  by_cases isHead : proc = kernel.head
  · simp [unlink, several, isHead, backward]
  · by_cases isTail : proc = kernel.tail
    · subst isTail
      simp [unlink, several, isHead, forward]
    · have same : update kernel.next (kernel.prev proc) (kernel.next proc) proc =
          kernel.next proc := by
        rw [update_apply]
        split <;> rfl
      simp [unlink, several, isHead, isTail, same]

/-- Head and tail after a process has been unlinked. -/
theorem unlink_ends (listed : Listed kernel (lower ++ proc :: upper)) (several : kernel.size ≠ 1) :
    (unlink kernel proc).head = (lower ++ upper).head?.getD 0 ∧
      (unlink kernel proc).tail = (lower ++ upper).getLast?.getD 0 := by
  obtain ⟨nodup, _, closed, first, last, length, _⟩ := listed
  have apart : proc ∉ lower ∧ proc ∉ upper := by
    rw [nodup_append, nodup_cons] at nodup
    exact ⟨fun inside => nodup.2.2 proc inside proc mem_cons_self rfl, nodup.2.1.1⟩
  cases lower with
  | nil =>
    -- The process is the first one, and there is a second one.
    cases upper with
    | nil => exact absurd length several
    | cons second others =>
      have isHead : kernel.head = proc := first
      have chain := closed.1
      rw [nil_append, isChain_cons_cons] at chain
      have next : kernel.next proc = second := chain.1.1
      refine ⟨by simp [unlink, several, isHead, next], ?_⟩
      rw [nil_append, getLast?_cons_cons] at last
      simp [unlink, several, isHead, last]
  | cons head rest =>
    have isHead : kernel.head = head := first
    have notHead : proc ≠ head := by
      rintro rfl
      exact apart.1 mem_cons_self
    cases upper with
    | nil =>
      -- The process is the last one.
      have isTail : kernel.tail = proc := by
        rw [last, getLast?_concat, Option.getD_some]
      obtain ⟨before, isBefore⟩ : ∃ before, (head :: rest).getLast? = some before :=
        ⟨_, getLast?_eq_some_getLast (cons_ne_nil head rest)⟩
      have prev : kernel.prev proc = before :=
        ((isChain_append.mp closed.1).2.2 before isBefore proc rfl).2
      refine ⟨?_, ?_⟩
      · simp [unlink, several, isHead, isTail, notHead]
      · rw [append_nil, isBefore]
        simp [unlink, several, isHead, isTail, notHead, prev]
    | cons second others =>
      have shared : (head :: rest ++ proc :: second :: others).getLast? =
          (head :: rest ++ second :: others).getLast? := by
        rw [getLast?_append, getLast?_cons_cons, getLast?_append]
      have notTail : proc ≠ kernel.tail := by
        rw [last, getLast?_append, getLast?_cons_cons,
          getLast?_eq_some_getLast (cons_ne_nil second others), Option.some_or,
          Option.getD_some]
        intro same
        exact apart.2 (same ▸ getLast_mem (cons_ne_nil second others))
      refine ⟨?_, ?_⟩
      · simp [unlink, several, isHead, notHead, notTail]
      · rw [← shared, ← last]
        simp [unlink, several, isHead, notHead, notTail]

/-- Unlinking a process takes it out and keeps the order of the others. -/
theorem unlink_listed (listed : Listed kernel (lower ++ proc :: upper))
    (short : kernel.size < 2 ^ 32) : Listed (unlink kernel proc) (lower ++ upper) := by
  have inside : proc ∈ lower ++ proc :: upper := by simp
  have size : (unlink kernel proc).size = (kernel.size + (2 ^ 32 - 1)) % 2 ^ 32 := by
    unfold unlink
    split_ifs <;> rfl
  have fatal : (unlink kernel proc).fatal = kernel.fatal := by
    unfold unlink
    split_ifs <;> rfl
  have lengths := listed.length
  rw [length_append, length_cons] at lengths
  have sizeAfter : (unlink kernel proc).size = (lower ++ upper).length := by
    rw [size, length_append]
    omega
  have nodup : (lower ++ upper).Nodup := by
    refine listed.nodup.sublist ?_
    exact List.Sublist.append_left (sublist_cons_self proc upper) lower
  have noZero : 0 ∉ lower ++ upper := by
    intro zero
    refine listed.nonzero ?_
    rw [mem_append] at zero ⊢
    exact zero.imp_right (mem_cons_of_mem proc)
  by_cases several : kernel.size = 1
  · obtain ⟨rfl, rfl⟩ : lower = [] ∧ upper = [] := by
      constructor <;> rw [← length_eq_zero_iff] <;> omega
    refine ⟨nodup, noZero, ⟨isChain_nil, ?_⟩, ?_, ?_, sizeAfter, fatal.trans listed.calm⟩
    · intro final isFinal
      cases isFinal
    · simp [unlink, several]
    · simp [unlink, several]
  · obtain ⟨nexts, prevs⟩ := unlink_links listed inside several
    obtain ⟨first, last⟩ := unlink_ends listed several
    refine ⟨nodup, noZero, ?_, first, last, sizeAfter, fatal.trans listed.calm⟩
    rw [nexts, prevs]
    exact Ring.closed_unlink listed.closed listed.nodup

/-- A state that no live process has and that no wake-up turns into one. -/
def Inert (state : Nat) : Prop := state = ready ∨ state = running ∨ state = dead

instance : DecidablePred Inert := fun state =>
  inferInstanceAs (Decidable (state = ready ∨ state = running ∨ state = dead))

/-- A process is ready and found under its pid, or asleep and no other process is found
under its pid. -/
def Settled (kernel : Kernel) (proc : Nat) : Prop :=
  (kernel.state proc = ready ∧ kernel.tree (kernel.pid proc) = some proc) ∨
    ((kernel.state proc = waiting ∨ kernel.state proc = sleeping) ∧
      (kernel.tree (kernel.pid proc) = none ∨ kernel.tree (kernel.pid proc) = some proc))

/-- The ready list holds the ready processes but those set aside. Pids are distinct, and
records that are not live are inert. -/
structure Apart (kernel : Kernel) (out : List Nat) : Prop where
  listed : ∃ ring, Listed kernel ring ∧
    ∀ proc, proc ∈ ring ↔ kernel.live proc = true ∧ proc ∉ out ∧ kernel.state proc = ready
  counter : kernel.nextPid < 2 ^ 32
  zero : kernel.live 0 = false
  named : ∀ proc, kernel.live proc = true → kernel.pid proc ≠ 0 ∧ kernel.pid proc ≤ kernel.nextPid
  distinct : ∀ first second, kernel.live first = true → kernel.live second = true →
    kernel.pid first = kernel.pid second → first = second
  settled : ∀ proc, kernel.live proc = true → proc ∉ out → Settled kernel proc
  keys : ∀ pid proc, kernel.tree pid = some proc →
    pid ≤ kernel.nextPid ∧ (kernel.live proc = true ∨ Inert (kernel.state proc))

/-- Setting aside a process that is not ready leaves the ready ones as they were. -/
theorem ready_aside {other : Nat} (unready : kernel.state proc ≠ ready) :
    kernel.live other = true ∧ other ∉ out ∧ kernel.state other = ready ↔
      kernel.live other = true ∧ other ∉ proc :: out ∧ kernel.state other = ready := by
  rw [mem_cons, not_or]
  constructor
  · rintro ⟨lives, outside, isReady⟩
    refine ⟨lives, ⟨?_, outside⟩, isReady⟩
    rintro rfl
    exact unready isReady
  · exact fun ⟨lives, outside, isReady⟩ => ⟨lives, outside.2, isReady⟩

section

variable (apart : Apart kernel out)
include apart

/-- There are fewer live processes than the size of the list can count. -/
theorem Apart.short {procs : List Nat} (nodup : procs.Nodup)
    (alive : ∀ proc ∈ procs, kernel.live proc = true) : procs.length < 2 ^ 32 := by
  have distinct : (procs.map kernel.pid).Nodup := by
    refine List.Nodup.map_on ?_ nodup
    exact fun first isFirst second isSecond =>
      apart.distinct first second (alive first isFirst) (alive second isSecond)
  have bounded : (procs.map kernel.pid).toFinset ⊆ Finset.Icc 1 kernel.nextPid := by
    intro pid isPid
    rw [mem_toFinset, mem_map] at isPid
    obtain ⟨proc, isProc, rfl⟩ := isPid
    obtain ⟨nonzero, below⟩ := apart.named proc (alive proc isProc)
    rw [Finset.mem_Icc]
    omega
  have few := Finset.card_le_card bounded
  rw [toFinset_card_of_nodup distinct, length_map, Nat.card_Icc] at few
  have counter := apart.counter
  omega

/-- Unlinking a ready process sets it aside. -/
theorem Apart.unlink (isLive : kernel.live proc = true) (inList : proc ∉ out)
    (isReady : kernel.state proc = ready) : Apart (unlink kernel proc) (proc :: out) := by
  have same := unlink_same kernel proc
  obtain ⟨ring, listed, members⟩ := apart.listed
  obtain ⟨lower, upper, rfl⟩ := append_of_mem ((members proc).mpr ⟨isLive, inList, isReady⟩)
  have short : kernel.size < 2 ^ 32 := by
    rw [listed.length]
    exact apart.short listed.nodup (fun other inside => ((members other).mp inside).1)
  have absent : proc ∉ lower ++ upper := by
    have nodup := listed.nodup
    rw [nodup_append, nodup_cons] at nodup
    rw [mem_append, not_or]
    exact ⟨fun inside => nodup.2.2 proc inside proc mem_cons_self rfl, nodup.2.1.1⟩
  refine ⟨⟨lower ++ upper, unlink_listed listed short, fun other => ?_⟩, ?_, ?_, ?_, ?_, ?_, ?_⟩
  · rw [same.live, unlink_state, mem_cons, not_or]
    by_cases isProc : other = proc
    · subst isProc
      simp [absent]
    · have before := members other
      simp only [mem_append, mem_cons, isProc, false_or] at before
      rw [mem_append, before]
      simp [isProc]
  · rw [same.nextPid]
    exact apart.counter
  · rw [same.live]
    exact apart.zero
  · rw [same.live, same.pid, same.nextPid]
    exact apart.named
  · rw [same.live, same.pid]
    exact apart.distinct
  · rw [same.live]
    intro other lives outside
    rw [mem_cons, not_or] at outside
    unfold Settled
    rw [unlink_state, same.tree, same.pid]
    exact apart.settled other lives outside.2
  · rw [same.tree, same.nextPid, same.live, unlink_state]
    exact apart.keys

/-- A process that is not on the list may be set aside. -/
theorem Apart.aside (unready : kernel.state proc ≠ ready) : Apart kernel (proc :: out) := by
  obtain ⟨ring, listed, members⟩ := apart.listed
  refine { apart with
    listed := ⟨ring, listed, fun other => (members other).trans (ready_aside unready)⟩
    settled := fun other lives outside => ?_ }
  exact apart.settled other lives (fun inside => outside (mem_cons_of_mem _ inside))

/-- The state of a process that is set aside or not live may change. -/
theorem Apart.setState (state : Nat) (outside : proc ∈ out ∨ kernel.live proc = false)
    (kind : kernel.live proc = true ∨ Inert state) : Apart (setState kernel proc state) out := by
  obtain ⟨ring, listed, members⟩ := apart.listed
  have other {member : Nat} (lives : kernel.live member = true) (inList : member ∉ out) :
      member ≠ proc := by
    rintro rfl
    rcases outside with isOut | isDead
    · exact inList isOut
    · exact Bool.false_ne_true (isDead.symm.trans lives)
  refine ⟨⟨ring, { listed with }, fun member => ?_⟩, apart.counter, apart.zero, apart.named,
    apart.distinct, fun member lives inList => ?_, fun pid member found => ?_⟩
  · rw [members]
    constructor <;> rintro ⟨lives, inList, isReady⟩ <;> refine ⟨lives, inList, ?_⟩
    · rw [setState_state, update_of_ne (other lives inList)]
      exact isReady
    · rwa [setState_state, update_of_ne (other lives inList)] at isReady
  · have before := apart.settled member lives inList
    unfold Settled at before ⊢
    rwa [setState_state, update_of_ne (other lives inList)]
  · obtain ⟨below, before⟩ := apart.keys pid member found
    refine ⟨below, ?_⟩
    rw [setState_state, update_apply]
    split_ifs with isProc
    · subst isProc
      exact kind
    · exact before

/-- Waiting arrays and the park mark do not matter. -/
theorem Apart.waits (waitSize : Nat → Nat) (waitList : Nat → Nat → Nat) (mark : Nat) :
    Apart { kernel with
      waitSize := waitSize
      waitList := waitList
      aboutToPark := mark } out := by
  obtain ⟨⟨ring, listed, members⟩, counter, zero, named, distinct, settled, keys⟩ := apart
  exact ⟨⟨ring, { listed with }, members⟩, counter, zero, named, distinct, settled, keys⟩

/-- Moving the waiting lists does not touch the ready list. -/
theorem Apart.move (caller fresh : Nat) : Apart (moveWaiting kernel caller fresh) out := by
  unfold moveWaiting
  split
  · exact apart.waits _ _ _
  · exact apart

end

section

variable (apart : Apart kernel (proc :: out))
include apart

/-- Inserting a process makes it ready and puts it into the list. -/
theorem Apart.insert (isLive : kernel.live proc = true) (once : proc ∉ out) :
    Apart (insertToReadyQueue kernel proc) out := by
  have same := insertToReadyQueue_same kernel proc
  have states := insertToReadyQueue_state kernel proc
  have nonzero : proc ≠ 0 := ne_of_live isLive apart.zero
  obtain ⟨ring, listed, members⟩ := apart.listed
  have absent : proc ∉ ring := by
    intro inside
    exact ((members proc).mp inside).2.1 mem_cons_self
  have short : ring.length + 1 < 2 ^ 32 := by
    have all := apart.short (nodup_cons.mpr ⟨absent, listed.nodup⟩)
      (forall_mem_cons.mpr ⟨isLive, fun other inside => ((members other).mp inside).1⟩)
    simpa using all
  have listedTree : Listed { kernel with tree := update kernel.tree (kernel.pid proc) (some proc) }
      ring := { listed with }
  have linked := link_listed listedTree absent nonzero short
  refine ⟨⟨ring ++ [proc], { linked with }, fun other => ?_⟩, ?_, ?_, ?_, ?_, ?_, ?_⟩
  · rw [same.live, states, mem_append, members, mem_singleton, mem_cons, not_or]
    by_cases isProc : other = proc
    · subst isProc
      simp [isLive, once]
    · simp [isProc]
  · rw [same.nextPid]
    exact apart.counter
  · rw [same.live]
    exact apart.zero
  · rw [same.live, same.pid, same.nextPid]
    exact apart.named
  · rw [same.live, same.pid]
    exact apart.distinct
  · rw [same.live]
    intro other lives outside
    unfold Settled
    rw [states, same.tree, same.pid]
    by_cases isProc : other = proc
    · subst isProc
      simp
    · have different : kernel.pid other ≠ kernel.pid proc :=
        fun equal => isProc (apart.distinct other proc lives isLive equal)
      simp only [update_of_ne isProc, update_of_ne different]
      refine apart.settled other lives ?_
      simp [isProc, outside]
  · intro pid other found
    rw [same.tree] at found
    rw [same.nextPid, same.live, states]
    simp only [update_apply] at found ⊢
    split_ifs at found with isPid
    · obtain rfl := Option.some.inj found
      subst isPid
      exact ⟨(apart.named proc isLive).2, .inl isLive⟩
    · obtain ⟨below, kind⟩ := apart.keys pid other found
      refine ⟨below, ?_⟩
      split_ifs
      · exact .inr (.inl rfl)
      · exact kind

/-- A process that was set aside and sleeps is no longer of interest. -/
theorem Apart.settle (unready : kernel.state proc ≠ ready) (settled : Settled kernel proc) :
    Apart kernel out := by
  obtain ⟨ring, listed, members⟩ := apart.listed
  refine { apart with
    listed := ⟨ring, listed, fun other => (members other).trans (ready_aside unready).symm⟩
    settled := fun other lives outside => ?_ }
  by_cases isProc : other = proc
  · subst isProc
    exact settled
  · exact apart.settled other lives (by simp [isProc, outside])

/-- Removing a process sets it aside, whatever its state was. -/
theorem Apart.remove (isLive : kernel.live proc = true) :
    Apart (removeProcess kernel proc) (proc :: out) := by
  unfold removeProcess
  split
  · obtain ⟨ring, listed, members⟩ := apart.listed
    refine ⟨⟨ring, { listed with }, members⟩, apart.counter, apart.zero, apart.named,
      apart.distinct, fun member lives inList => ?_, fun pid member found => ?_⟩
    · have different : kernel.pid member ≠ kernel.pid proc := by
        intro equal
        refine inList ?_
        rw [apart.distinct member proc lives isLive equal]
        exact mem_cons_self
      have before := apart.settled member lives inList
      unfold Settled at before ⊢
      simp only [update_of_ne different]
      exact before
    · simp only [update_apply] at found
      split_ifs at found
      exact apart.keys pid member found
  · exact apart

/-- Cleaning up a process in an inert state keeps the ready list right. -/
theorem Apart.clean (once : proc ∉ out) (inert : Inert (kernel.state proc)) :
    Apart (cleanProcess kernel proc) out := by
  have alive {member : Nat} (lives : update kernel.live proc false member = true) :
      member ≠ proc ∧ kernel.live member = true := by
    rw [update_apply] at lives
    split_ifs at lives with same
    exact ⟨same, lives⟩
  obtain ⟨ring, listed, members⟩ := apart.listed
  refine ⟨⟨ring, { listed with }, fun member => ?_⟩, apart.counter, ?_,
    fun member lives => apart.named member (alive lives).2,
    fun first second firstLives secondLives =>
      apart.distinct first second (alive firstLives).2 (alive secondLives).2,
    fun member lives inList => ?_, fun pid member found => ?_⟩
  · rw [members, mem_cons, not_or]
    simp only [cleanProcess, update_apply]
    by_cases isProc : member = proc
    · simp [isProc]
    · simp [isProc]
  · simp only [cleanProcess, update_apply]
    split_ifs
    · rfl
    · exact apart.zero
  · obtain ⟨isOther, lived⟩ := alive lives
    exact apart.settled member lived (by simp [isOther, inList])
  · obtain ⟨below, kind⟩ := apart.keys pid member found
    refine ⟨below, ?_⟩
    by_cases isProc : member = proc
    · subst isProc
      exact .inr inert
    · simp only [cleanProcess, update_of_ne isProc]
      exact kind

end

/-- Waking a process of the tree. Inert records stay inert, so none of them gets on the
list. -/
theorem Apart.wake (apart : Apart kernel out) (inert : ∀ proc ∈ out, Inert (kernel.state proc))
    (pid : Nat) : Apart (transfertToReady kernel pid waiting) out ∧
      ∀ proc ∈ out, Inert ((transfertToReady kernel pid waiting).state proc) := by
  unfold transfertToReady
  split
  · exact ⟨apart, inert⟩
  · rename_i proc found
    obtain ⟨_, kind⟩ := apart.keys pid proc found
    by_cases isWaiting : kernel.state proc = waiting
    · -- A waiting process is live and becomes ready.
      have lively : ¬ Inert (kernel.state proc) := by
        rw [isWaiting]
        decide
      have inList : proc ∉ out := fun isOut => lively (inert proc isOut)
      have unready : kernel.state proc ≠ ready := by
        rw [isWaiting]
        decide
      have inserted := (apart.aside unready).insert (kind.resolve_right lively) inList
      have unflagged : ¬ (insertToReadyQueue kernel proc).state proc &&& waiting ≠ 0 := by
        rw [insertToReadyQueue_state, update_self]
        decide
      rw [if_pos isWaiting, if_neg unflagged]
      refine ⟨inserted, fun other isOut => ?_⟩
      have different : other ≠ proc := by
        rintro rfl
        exact inList isOut
      rw [insertToReadyQueue_state, update_of_ne different]
      exact inert other isOut
    · simp only [if_neg isWaiting]
      split
      · -- Only a dead record has the flag: it is set aside or not live.
        rename_i flagged
        have aside : proc ∈ out ∨ kernel.live proc = false := by
          by_contra neither
          rw [not_or, Bool.not_eq_false] at neither
          have settled := apart.settled proc neither.2 neither.1
          unfold Settled at settled
          rcases settled with ⟨isReady, _⟩ | ⟨isWaits | isSleeping, _⟩
          · rw [isReady] at flagged
            exact flagged (by decide)
          · exact isWaiting isWaits
          · rw [isSleeping] at flagged
            exact flagged (by decide)
        have before : Inert (kernel.state proc) := by
          rcases aside with isOut | isDead
          · exact inert proc isOut
          · exact kind.resolve_left (by simp [isDead])
        have isDead : kernel.state proc = dead := by
          rcases before with isReady | isRunning | isDead
          · rw [isReady] at flagged
            exact absurd flagged (by decide)
          · rw [isRunning] at flagged
            exact absurd flagged (by decide)
          · exact isDead
        have after : Inert (kernel.state proc ^^^ waiting) := by
          rw [isDead]
          decide
        refine ⟨apart.setState _ aside (.inr after), fun other isOut => ?_⟩
        rw [setState_state, update_apply]
        split_ifs
        · exact after
        · exact inert other isOut
      · exact ⟨apart, inert⟩

/-- The loop over the waiting array of a process that is set aside. -/
theorem Apart.wakeAll (apart : Apart kernel out)
    (inert : ∀ proc ∈ out, Inert (kernel.state proc)) (proc count : Nat) :
    Apart (wakeProcess kernel proc count) out ∧
      ∀ other ∈ out, Inert ((wakeProcess kernel proc count).state other) := by
  induction count with
  | zero => exact ⟨apart, inert⟩
  | succ count ih =>
    simp only [wakeProcess]
    split
    · exact ih.1.wake ih.2 _
    · exact ih

/-- Waking assigns pids in the tree, and does not change which processes are live. -/
theorem transfertToReady_live (kernel : Kernel) (pid expected : Nat) :
    (transfertToReady kernel pid expected).live = kernel.live := by
  unfold transfertToReady
  split
  · rfl
  · rename_i proc found
    by_cases same : kernel.state proc = expected
    · simp only [if_pos same]
      split
      · exact (setState_same _ _ _).live.trans (insertToReadyQueue_same kernel proc).live
      · exact (insertToReadyQueue_same kernel proc).live
    · simp only [if_neg same]
      split <;> rfl

/-- Waking the waiting processes ends none. -/
theorem wakeProcess_live (kernel : Kernel) (proc count : Nat) :
    (wakeProcess kernel proc count).live = kernel.live := by
  induction count with
  | zero => rfl
  | succ count ih =>
    simp only [wakeProcess]
    split
    · rw [transfertToReady_live, ih]
    · exact ih

/-- Killing a process that has been set aside leaves none set aside. -/
theorem Apart.kill (apart : Apart kernel [proc]) (isLive : kernel.live proc = true) :
    Apart (kill kernel proc) [] := by
  have isDead : Inert dead := .inr (.inr rfl)
  have dying : Apart (Processes.setState kernel proc dead) [proc] :=
    apart.setState dead (.inl mem_cons_self) (.inr isDead)
  obtain ⟨woken, inert⟩ := dying.wakeAll (fun other isOther => by
    rw [mem_singleton] at isOther
    rw [isOther, setState_state, update_self]
    exact isDead) proc (kernel.waitSize proc)
  rw [kill_eq]
  have lives : (wakeProcess (Processes.setState kernel proc dead) proc
      (kernel.waitSize proc)).live proc = true := by
    rw [wakeProcess_live]
    exact isLive
  refine (woken.remove lives).clean not_mem_nil ?_
  unfold removeProcess
  split <;> exact inert proc mem_cons_self

/-- A process with an unused pid is inserted for the first time. -/
theorem Apart.start (apart : Apart kernel out) (free : Free kernel fresh)
    (named : kernel.pid fresh ≠ 0 ∧ kernel.pid fresh ≤ kernel.nextPid)
    (unused : ∀ proc, kernel.live proc = true → kernel.pid proc ≠ kernel.pid fresh)
    (once : fresh ∉ out) : Apart (start kernel fresh) out := by
  have alive {member : Nat} (lives : update kernel.live fresh true member = true) :
      member = fresh ∨ kernel.live member = true := by
    rw [update_apply] at lives
    split_ifs at lives with same
    · exact .inl same
    · exact .inr lives
  have old {member : Nat} (lives : kernel.live member = true) : member ≠ fresh :=
    ne_of_live lives free.2
  refine Apart.insert ?_ (update_self ..) once
  obtain ⟨ring, listed, members⟩ := apart.listed
  refine ⟨⟨ring, { listed with }, fun member => ?_⟩, apart.counter, ?_, fun member lives => ?_,
    fun first second firstLives secondLives same => ?_, fun member lives inList => ?_,
    fun pid member found => ?_⟩
  · rw [members, mem_cons, not_or]
    by_cases isFresh : member = fresh
    · subst isFresh
      simp [free.2]
    · simp [isFresh]
  · simp only [update_of_ne free.1.symm]
    exact apart.zero
  · rcases alive lives with rfl | lived
    · exact named
    · exact apart.named member lived
  · rcases alive firstLives with rfl | firstLived <;> rcases alive secondLives with rfl | secondLived
    · rfl
    · exact absurd same.symm (unused second secondLived)
    · exact absurd same (unused first firstLived)
    · exact apart.distinct first second firstLived secondLived same
  · rw [mem_cons, not_or] at inList
    rcases alive lives with rfl | lived
    · exact absurd rfl inList.1
    · exact apart.settled member lived inList.2
  · obtain ⟨below, kind⟩ := apart.keys pid member found
    refine ⟨below, ?_⟩
    simp only [update_apply]
    split_ifs
    · exact .inl rfl
    · exact kind

/-- A new process gets the next pid. -/
theorem created_pid (left : kernel.nextPid + 1 < 2 ^ 32) :
    (newProcess kernel fresh).pid fresh = kernel.nextPid + 1 := by
  simp only [newProcess, update_self]
  exact (newProcess_pid left).2

/-- A process that is set aside takes an unused pid; a record that is not live may have
any pid. -/
theorem Apart.rename (apart : Apart kernel [caller]) (free : kernel.live fresh = false)
    (named : kernel.pid fresh ≠ 0 ∧ kernel.pid fresh ≤ kernel.nextPid)
    (unused : ∀ proc, kernel.live proc = true → kernel.pid proc ≠ kernel.pid fresh) :
    Apart { kernel with
      pid := update (update kernel.pid fresh (kernel.pid caller)) caller (kernel.pid fresh) }
      [caller] := by
  have kept {member : Nat} (lives : kernel.live member = true) (other : member ≠ caller) :
      update (update kernel.pid fresh (kernel.pid caller)) caller (kernel.pid fresh) member =
        kernel.pid member := by
    rw [update_of_ne other, update_of_ne (ne_of_live lives free)]
  obtain ⟨ring, listed, members⟩ := apart.listed
  refine ⟨⟨ring, { listed with }, members⟩, apart.counter, apart.zero, fun member lives => ?_,
    fun first second firstLives secondLives same => ?_, fun member lives inList => ?_, apart.keys⟩
  · by_cases isCaller : member = caller
    · subst isCaller
      simp only [update_self]
      exact named
    · simp only [kept lives isCaller]
      exact apart.named member lives
  · simp only at same
    by_cases firstCaller : first = caller <;> by_cases secondCaller : second = caller
    · exact firstCaller.trans secondCaller.symm
    · subst firstCaller
      rw [update_self, kept secondLives secondCaller] at same
      exact absurd same.symm (unused second secondLives)
    · subst secondCaller
      rw [update_self, kept firstLives firstCaller] at same
      exact absurd same (unused first firstLives)
    · rw [kept firstLives firstCaller, kept secondLives secondCaller] at same
      exact apart.distinct first second firstLives secondLives same
  · have other : member ≠ caller := by simpa using inList
    have before := apart.settled member lives inList
    unfold Settled at before ⊢
    simp only [kept lives other]
    exact before

section

variable (apart : Apart kernel [])
include apart

/-- Creating a process does not touch the ready list. -/
theorem Apart.create (free : kernel.live fresh = false) (left : kernel.nextPid + 1 < 2 ^ 32) :
    Apart (newProcess kernel fresh) [] := by
  have old {member : Nat} (lives : kernel.live member = true) : member ≠ fresh :=
    ne_of_live lives free
  have counted : (newProcess kernel fresh).nextPid = kernel.nextPid + 1 := (newProcess_pid left).1
  obtain ⟨ring, listed, members⟩ := apart.listed
  have closed : Ring.Closed (newProcess kernel fresh).next (newProcess kernel fresh).prev ring := by
    refine Ring.closed_congr listed.closed (fun member inside => ?_) (fun member inside => ?_)
    · exact update_of_ne (old ((members member).mp inside).1) _ _
    · exact update_of_ne (old ((members member).mp inside).1) _ _
  refine ⟨⟨ring, { listed with closed := closed }, fun member => ?_⟩, ?_, apart.zero,
    fun member lives => ?_, fun first second firstLives secondLives => ?_, fun member lives inList => ?_,
    fun pid member found => ?_⟩
  · rw [members]
    constructor <;> rintro ⟨lives, inList, isReady⟩ <;> refine ⟨lives, inList, ?_⟩
    · exact (update_of_ne (old lives) _ _).trans isReady
    · exact (update_of_ne (old lives) _ _).symm.trans isReady
  · rw [counted]
    exact left
  · rw [counted]
    simp only [newProcess, update_of_ne (old lives)]
    exact ⟨(apart.named member lives).1, Nat.le_succ_of_le (apart.named member lives).2⟩
  · simp only [newProcess, update_of_ne (old firstLives), update_of_ne (old secondLives)]
    exact apart.distinct first second firstLives secondLives
  · have before := apart.settled member lives inList
    unfold Settled at before ⊢
    simp only [newProcess, update_of_ne (old lives)]
    exact before
  · obtain ⟨below, kind⟩ := apart.keys pid member found
    rw [counted]
    refine ⟨Nat.le_succ_of_le below, ?_⟩
    simp only [newProcess, update_apply]
    split_ifs
    · exact .inr (.inl rfl)
    · exact kind

/-- Pushing a process creates it and puts it into the ready list. -/
theorem Apart.push (free : Free kernel fresh) (left : kernel.nextPid + 1 < 2 ^ 32) :
    Apart (pushProcess kernel fresh) [] := by
  have counted : (newProcess kernel fresh).nextPid = kernel.nextPid + 1 := (newProcess_pid left).1
  refine (apart.create free.2 left).start free ?_ (fun proc lives => ?_) not_mem_nil
  · rw [created_pid left, counted]
    omega
  · have old : proc ≠ fresh := ne_of_live lives free.2
    have below := (apart.named proc lives).2
    rw [created_pid left]
    simp only [newProcess, update_of_ne old]
    omega

/-- The record found under the pid of a live process is that process. -/
theorem Apart.found (isLive : kernel.live caller = true)
    (found : kernel.tree (kernel.pid caller) = some proc) : proc = caller := by
  have settled := apart.settled caller isLive not_mem_nil
  unfold Settled at settled
  rw [found] at settled
  rcases settled with ⟨_, same⟩ | ⟨_, none | same⟩
  · exact Option.some.inj same
  · cases none
  · exact Option.some.inj same

section

variable (isLive : kernel.live proc = true)
include isLive

/-- A process that is transferred was ready, and is unlinked. -/
theorem Apart.accepted {after : Kernel} (taken : transfertToWait kernel proc = some after) :
    kernel.state proc = ready ∧ kernel.tree (kernel.pid proc) = some proc ∧
      after = Processes.unlink kernel proc := by
  obtain ⟨listed, same⟩ := transfertToWait_spec taken
  rcases apart.settled proc isLive not_mem_nil with ⟨isReady, found⟩ | ⟨asleep, _⟩
  · exact ⟨isReady, found, same⟩
  · rcases asleep with state | state <;> rcases listed with other | other <;>
      exact absurd (state.symm.trans other) (by decide)

/-- A kill keeps the ready list right. -/
theorem Apart.procKill : Apart (procKill kernel proc) [] := by
  by_cases isReady : kernel.state proc = ready
  · have unlinked := apart.unlink isLive not_mem_nil isReady
    have same : Processes.procKill kernel proc = Processes.kill (Processes.unlink kernel proc) proc := by
      simp [Processes.procKill, isReady, transfertToWait, ready, waiting, sleeping, dead, zombie]
    rw [same]
    exact unlinked.kill (by rwa [(unlink_same kernel proc).live])
  · have asleep : kernel.state proc = waiting ∨ kernel.state proc = sleeping := by
      rcases apart.settled proc isLive not_mem_nil with ⟨isReady', _⟩ | ⟨asleep, _⟩
      · exact absurd isReady' isReady
      · exact asleep
    have same : Processes.procKill kernel proc = Processes.kill kernel proc := by
      rcases asleep with state | state <;>
        simp [Processes.procKill, state, waiting, sleeping]
    rw [same]
    exact (apart.aside isReady).kill isLive

/-- The time of a sleeper has come. -/
theorem Apart.wakeSleeper : Apart (wakeSleeper kernel proc) [] := by
  unfold Processes.wakeSleeper
  split
  · rename_i flagged
    have isSleeping : kernel.state proc = sleeping := by
      rcases apart.settled proc isLive not_mem_nil with ⟨state, _⟩ | ⟨state | state, _⟩
      · rw [state] at flagged
        exact absurd flagged (by decide)
      · rw [state] at flagged
        exact absurd flagged (by decide)
      · exact state
    rw [if_pos isSleeping]
    unfold transfertToReady
    split
    · exact apart
    · rename_i other found
      obtain rfl := apart.found isLive found
      have unready : kernel.state other ≠ ready := by
        rw [isSleeping]
        decide
      have unflagged : ¬ (insertToReadyQueue kernel other).state other &&& sleeping ≠ 0 := by
        rw [insertToReadyQueue_state, update_self]
        decide
      rw [if_pos isSleeping, if_neg unflagged]
      exact (apart.aside unready).insert isLive not_mem_nil
  · exact apart

end

variable (isLive : kernel.live caller = true)
include isLive

/-- An exit keeps the ready list right. -/
theorem Apart.exit : Apart (procKillProcess kernel (kernel.pid caller)) [] := by
  unfold procKillProcess
  split
  · exact apart
  · rename_i proc found
    obtain rfl := apart.found isLive found
    split
    · exact apart
    · rename_i taken
      obtain ⟨isReady, _, rfl⟩ := apart.accepted isLive taken
      exact (apart.unlink isLive not_mem_nil isReady).kill
        (by rwa [(unlink_same kernel proc).live])

/-- Going to sleep keeps the ready list right. -/
theorem Apart.sleep {newState : Nat} (asleep : newState = waiting ∨ newState = sleeping) :
    Apart (procToSleep kernel (kernel.pid caller) newState) [] := by
  unfold procToSleep
  split
  · exact apart
  · rename_i proc found
    obtain rfl := apart.found isLive found
    split
    · exact apart
    · rename_i taken
      obtain ⟨isReady, _, rfl⟩ := apart.accepted isLive taken
      have same := unlink_same kernel proc
      have state : (Processes.unlink kernel proc).state proc &&& 0xfe ||| newState = newState := by
        rw [unlink_state, isReady]
        rcases asleep with rfl | rfl <;> rfl
      rw [state]
      have aside := (apart.unlink isLive not_mem_nil isReady).setState newState
        (.inl mem_cons_self) (.inl (by rwa [same.live]))
      have unready : newState ≠ ready := by
        rcases asleep with rfl | rfl <;> decide
      refine aside.settle ?_ (.inr ⟨?_, .inr ?_⟩)
      · rw [setState_state, update_self]
        exact unready
      · rw [setState_state, update_self]
        exact asleep
      · rw [(setState_same _ _ _).tree, (setState_same _ _ _).pid, same.tree, same.pid]
        exact found

/-- The caller of `exec_process` is set aside. -/
theorem Apart.leave : Apart (transfertToWaiting kernel (kernel.pid caller)) [caller] := by
  unfold transfertToWaiting
  split
  · rename_i absent
    refine apart.aside (fun isReady => ?_)
    rcases apart.settled caller isLive not_mem_nil with ⟨_, found⟩ | ⟨state | state, _⟩
    · exact absurd (absent.symm.trans found) (by simp)
    · exact absurd (state.symm.trans isReady) (by decide)
    · exact absurd (state.symm.trans isReady) (by decide)
  · rename_i proc found
    obtain rfl := apart.found isLive found
    split
    · rename_i refused
      refine apart.aside (fun isReady => ?_)
      unfold transfertToWait at refused
      rw [if_pos (.inl isReady)] at refused
      cases refused
    · rename_i taken
      obtain ⟨isReady, _, rfl⟩ := apart.accepted isLive taken
      have unlinked := apart.unlink isLive not_mem_nil isReady
      exact unlinked.setState _ (.inl mem_cons_self)
        (.inl (by rwa [(unlink_same kernel proc).live]))

/-- The new process takes the place of the caller, which then waits under the new
process's pid and is found under none. -/
theorem Apart.replace (free : Free kernel fresh)
    (named : kernel.pid fresh ≠ 0 ∧ kernel.pid fresh ≤ kernel.nextPid)
    (unused : ∀ proc, kernel.live proc = true → kernel.pid proc ≠ kernel.pid fresh)
    (absent : kernel.tree (kernel.pid fresh) = none) :
    Apart (replaceCaller kernel caller fresh) [] := by
  have distinct : fresh ≠ caller := (ne_of_live isLive free.2).symm
  have same := transfertToWaiting_same kernel (kernel.pid caller)
  have left := apart.leave isLive
  have renamed := left.rename (same.live ▸ free.2) (by rwa [same.pid, same.nextPid])
    (by rwa [same.pid, same.live])
  have waits := renamed.setState waiting (.inl mem_cons_self)
    (.inl (by rwa [same.live]))
  have callerPid : update (update kernel.pid fresh (kernel.pid caller)) caller (kernel.pid fresh)
      fresh = kernel.pid caller := by
    rw [update_of_ne distinct, update_self]
  have started : Apart (replaceCaller kernel caller fresh) [caller] := by
    refine waits.start ⟨free.1, ?_⟩ ?_ (fun proc lives => ?_) (by simpa using distinct)
    · exact same.live ▸ free.2
    · simp only [Processes.setState, same.pid, same.nextPid, callerPid]
      exact apart.named caller isLive
    · have lived : kernel.live proc = true := same.live ▸ lives
      simp only [Processes.setState, same.pid, callerPid]
      by_cases isCaller : proc = caller
      · subst isCaller
        rw [update_self]
        exact (unused proc lived).symm
      · rw [update_of_ne isCaller, update_of_ne (ne_of_live lived free.2)]
        exact fun equal => isCaller (apart.distinct proc caller lived isLive equal)
  have table := replaceCaller_table kernel distinct
  have state := replaceCaller_caller kernel distinct
  refine started.settle (by rw [state]; decide) (.inr ⟨.inl state, .inl ?_⟩)
  rw [table.tree, table.pid]
  simp only [update_self]
  rw [update_of_ne (unused caller isLive).symm]
  exact absent

/-- An `exec` keeps the ready list right, wherever it fails. -/
theorem Apart.exec (free : Free kernel fresh) (left : kernel.nextPid + 1 < 2 ^ 32)
    (result : ExecResult) (killFlag : Nat) :
    Apart (execProcess kernel caller fresh result killFlag) [] := by
  have created := apart.create free.2 left
  obtain ⟨pids, lives, trees, _, counted, _⟩ := @moveWaiting_table caller fresh _ _ left rfl
  have freshPid : update kernel.pid fresh (kernel.nextPid + 1) fresh = kernel.nextPid + 1 :=
    update_self ..
  have replaced : Apart
      (replaceCaller (moveWaiting (newProcess kernel fresh) caller fresh) caller fresh) [] := by
    refine (created.move caller fresh).replace (by rwa [lives]) ⟨free.1, by rw [lives]; exact free.2⟩
      ?_ ?_ ?_
    · rw [pids, counted, freshPid]
      omega
    · rw [pids, lives, freshPid]
      intro proc isProc
      have below := (apart.named proc isProc).2
      rw [update_of_ne (ne_of_live isProc free.2)]
      omega
    · rw [pids, trees, freshPid]
      cases found : kernel.tree (kernel.nextPid + 1) with
      | none => rfl
      | some proc =>
        have below := (apart.keys _ _ found).1
        omega
  cases result with
  | noUser => exact created
  | noArguments => exact replaced
  | done =>
    simp only [execProcess]
    split
    · refine replaced.procKill ?_
      have distinct : fresh ≠ caller := (ne_of_live isLive free.2).symm
      rw [(replaceCaller_table _ distinct).live]
      simp only [update_of_ne distinct.symm, lives]
      exact isLive
    · exact replaced

end

/-- A kill whose pid the tree knows hits a live process. -/
def KillsLive (kernel : Kernel) : Call → Prop
  | .kill register => ∀ proc, kernel.tree (toInt register) = some proc → kernel.live proc = true
  | _ => True

/-- A call that kills live processes only and finds a pid where it needs one. -/
def GoodStep (kernel : Kernel) (call : Call) : Prop := KillsLive kernel call ∧ PidsLeft kernel call

/-- Every call keeps the ready list right. -/
theorem step_apart (call : Call) (apart : Apart kernel []) (permitted : Permitted kernel call)
    (good : GoodStep kernel call) : Apart (step kernel call) [] := by
  obtain ⟨killsLive, left⟩ := good
  cases call with
  | push fresh => exact apart.push permitted left
  | fork caller fresh =>
    rw [step, forkProcess_eq]
    exact apart.push permitted.2 left
  | exec caller fresh result killFlag => exact apart.exec permitted.1 permitted.2 left result killFlag
  | wait caller register =>
    rcases waitProcess_eq kernel caller (toInt register) with same | ⟨holder, _, same⟩ <;>
      rw [step, same]
    · exact apart
    · have recorded : Apart (appendWaiting kernel holder (kernel.pid caller)) [] :=
        apart.waits _ _ _
      exact recorded.sleep permitted (.inl rfl)
  | park caller register =>
    simp only [step, sysPark]
    split
    · exact ((apart.waits _ _ 0).wake (fun _ isOut => absurd isOut not_mem_nil) _).1
    · split
      · exact apart.sleep permitted (.inl rfl)
      · exact apart
  | setpark caller => exact apart.waits _ _ _
  | sleep caller => exact apart.sleep permitted (.inr rfl)
  | wake proc => exact apart.wakeSleeper permitted
  | exit caller => exact apart.exit permitted
  | kill register =>
    simp only [step, sysKill]
    split
    · exact apart
    · rename_i proc found
      exact apart.procKill (killsLive proc found)

/-- The ready list is right at boot. -/
theorem boot_apart (boot : Boot kernel) : Apart kernel [] := by
  obtain ⟨vacant, absent, head, tail, size, nextPid, fatal, _⟩ := boot
  refine ⟨⟨[], ⟨nodup_nil, not_mem_nil, ⟨isChain_nil, ?_⟩, head, tail, size, fatal⟩,
    fun proc => ?_⟩, ?_, vacant 0, fun proc lives => ?_, fun first second lives => ?_,
    fun proc lives => ?_, fun pid proc found => ?_⟩
  · intro last isLast
    cases isLast
  · simp [vacant]
  · rw [nextPid]
    decide
  · exact absurd lives (by simp [vacant])
  · exact absurd lives (by simp [vacant])
  · exact absurd lives (by simp [vacant])
  · exact absurd found (by simp [absent])

/-- The ready list is a circular doubly linked list without repetition whose length is
its size field, a live process is on it exactly when it is ready or running, and no
other record is on it. -/
def ReadyListSound (kernel : Kernel) : Prop :=
  ∃ ring, Listed kernel ring ∧
    (∀ proc, kernel.live proc = true →
      (proc ∈ ring ↔ kernel.state proc = ready ∨ kernel.state proc = running)) ∧
    ∀ proc, kernel.live proc = false → proc ∉ ring

/-- In every run in which pids are left for new processes, the ready list is sound. -/
theorem ready_list_sound {kernel : Kernel} (reached : Reachable (machine GoodStep) kernel) :
    ReadyListSound kernel := by
  have apart : Apart kernel [] := machine_holds (fun _ boot => boot_apart boot)
    (fun _ call holds permitted good => step_apart call holds permitted good) reached
  obtain ⟨ring, listed, members⟩ := apart.listed
  refine ⟨ring, listed, fun proc lives => ?_, fun proc isDead inside => ?_⟩
  · rw [members]
    constructor
    · exact fun ⟨_, _, isReady⟩ => .inl isReady
    · rintro (isReady | isRunning)
      · exact ⟨lives, not_mem_nil, isReady⟩
      · rcases apart.settled proc lives not_mem_nil with ⟨state, _⟩ | ⟨state | state, _⟩ <;>
          exact absurd (state.symm.trans isRunning) (by decide)
  · exact Bool.false_ne_true (isDead.symm.trans ((members proc).mp inside).1)

/-- Following `next`, as the scheduler does, comes to every ready process once before it comes to one
again. -/
theorem ready_processes_in_turn {kernel : Kernel} (reached : Reachable (machine GoodStep) kernel)
    {proc : Nat} (lives : kernel.live proc = true) (isReady : kernel.state proc = ready) :
    (iterate kernel.next proc kernel.size).Nodup ∧
      ∀ other, other ∈ iterate kernel.next proc kernel.size ↔
        kernel.live other = true ∧ kernel.state other = ready := by
  have apart : Apart kernel [] := machine_holds (fun _ boot => boot_apart boot)
    (fun _ call holds permitted good => step_apart call holds permitted good) reached
  obtain ⟨ring, listed, members⟩ := apart.listed
  have round := listed.closed.round ((members proc).mpr ⟨lives, not_mem_nil, isReady⟩)
  rw [← listed.length] at round
  refine ⟨round.nodup_iff.mpr listed.nodup, fun other => ?_⟩
  rw [round.mem_iff, members]
  simp

theorem ready_processes_in_turn_two :
    let kernel := run blank [.push 1, .push 2]
    (iterate kernel.next 1 kernel.size).Nodup := by
  intro kernel
  have reached : Reachable (machine GoodStep) kernel :=
    run_reachable (.initial blank_boot) ⟨⟨Nat.one_ne_zero, rfl⟩, ⟨trivial, show 1 < 2 ^ 32 by decide⟩,
      ⟨by decide, rfl⟩, ⟨trivial, show 2 < 2 ^ 32 by decide⟩, trivial⟩
  exact (ready_processes_in_turn reached rfl rfl).1

/-- Process 1 forks process 2, and process 2 goes to sleep. -/
def childAsleep : Kernel := run blank [.push 1, .fork 1 2, .sleep 2]

/-- The theorem applies when one process sleeps. -/
theorem ready_list_sound_after_sleep :
    Reachable (machine GoodStep) childAsleep ∧ ReadyListSound childAsleep := by
  have reached : Reachable (machine GoodStep) childAsleep := by
    refine run_reachable (Reachable.initial blank_boot) ⟨⟨Nat.one_ne_zero, rfl⟩, ?_,
      ⟨rfl, by decide, rfl⟩, ?_, rfl, ?_, trivial⟩
    · exact ⟨trivial, show 0 + 1 < 2 ^ 32 by decide⟩
    · exact ⟨trivial, show 1 + 1 < 2 ^ 32 by decide⟩
    · exact ⟨trivial, trivial⟩
  exact ⟨reached, ready_list_sound reached⟩

/-- The kernel whose only process is the first, linked to itself in the ready list. -/
structure Lone (kernel : Kernel) : Prop where
  pid : kernel.pid 1 = 1
  state : kernel.state 1 = ready
  next : kernel.next 1 = 1
  prev : kernel.prev 1 = 1
  waitSize : kernel.waitSize 1 = 0
  tree : ∀ pid, kernel.tree pid = if pid = 1 then some 1 else none
  head : kernel.head = 1
  tail : kernel.tail = 1
  size : kernel.size = 1
  live : ∀ proc, kernel.live proc = decide (proc = 1)

/-- The kernel when process 2 was started beside process 1. -/
theorem lone_push (lone : Lone kernel) :
    step kernel (.push 2) = { kernel with
      nextPid := (kernel.nextPid + 1) % 2 ^ 64
      pid := update kernel.pid 2 ((kernel.nextPid + 1) % 2 ^ 64 % 2 ^ 32)
      state := update kernel.state 2 ready
      next := update (update kernel.next 2 1) 1 2
      prev := update (update kernel.prev 2 1) 1 2
      waitSize := update kernel.waitSize 2 0
      waitList := update kernel.waitList 2 (fun _ => 0)
      tree := update kernel.tree ((kernel.nextPid + 1) % 2 ^ 64 % 2 ^ 32) (some 2)
      tail := 2
      size := 2
      live := update kernel.live 2 true } := by
  simp [step, pushProcess, start, newProcess, insertToReadyQueue, link, setState, lone.head,
    lone.tail, lone.size]

/-- A process that is started beside process 1 and exits leaves no trace but the pid
counter, as long as its pid is not 1. -/
theorem lone_round (lone : Lone kernel) (other : (kernel.nextPid + 1) % 2 ^ 64 % 2 ^ 32 ≠ 1) :
    Lone (run kernel [.push 2, .exit 2]) ∧
      (run kernel [.push 2, .exit 2]).nextPid = (kernel.nextPid + 1) % 2 ^ 64 := by
  have pushed := lone_push lone
  obtain ⟨pid, state, next, prev, waitSize, tree, head, tail, size, live⟩ := lone
  generalize (kernel.nextPid + 1) % 2 ^ 64 % 2 ^ 32 = given at other pushed
  have after : run kernel [.push 2, .exit 2] = { step kernel (.push 2) with
      state := update (update kernel.state 2 ready) 2 dead
      next := update (update (update kernel.next 2 1) 1 2) 1 1
      prev := update (update (update kernel.prev 2 1) 1 2) 1 1
      tree := update (update kernel.tree given (some 2)) given none
      tail := 1
      size := 1
      live := update (update kernel.live 2 true) 2 false
      killed := given :: kernel.killed } := by
    simp only [run, foldl_cons, foldl_nil]
    rw [pushed]
    simp [step, sysExit, procKillProcess, transfertToWait, unlink, kill_eq, wakeProcess, setState,
      removeProcess, cleanProcess, head]
  rw [after, pushed]
  refine ⟨⟨?_, ?_, ?_, ?_, ?_, fun probe => ?_, head, rfl, rfl, fun probe => ?_⟩, rfl⟩
  · simpa using pid
  · simpa using state
  · simp
  · simp
  · simpa using waitSize
  · simp only [update_apply, tree]
    split_ifs with first second <;> simp_all
  · simp only [update_apply, live]
    split_ifs with first <;> simp_all

/-- Process 1 stays the only one while the pid counter runs through all pids. -/
theorem lone_reachable (count : Nat) (below : count < 2 ^ 32) :
    ∃ kernel, Reachable (machine KillsLive) kernel ∧ Lone kernel ∧ kernel.nextPid = count + 1 := by
  induction count with
  | zero =>
    refine ⟨run blank [.push 1], run_reachable (Reachable.initial blank_boot)
      ⟨⟨Nat.one_ne_zero, rfl⟩, trivial, trivial⟩, ?_, rfl⟩
    refine ⟨rfl, rfl, rfl, rfl, rfl, fun pid => ?_, rfl, rfl, rfl, fun proc => ?_⟩
    · change update (fun _ => none) 1 (some 1) pid = _
      rw [update_apply]
    · change update (fun _ => false) 1 true proc = _
      rw [update_apply]
      split_ifs with same <;> simp [same]
  | succ count ih =>
    obtain ⟨kernel, reached, lone, counter⟩ := ih (by omega)
    have wide : (kernel.nextPid + 1) % 2 ^ 64 = count + 2 := by
      rw [counter]
      omega
    have other : (kernel.nextPid + 1) % 2 ^ 64 % 2 ^ 32 ≠ 1 := by
      rw [wide]
      omega
    obtain ⟨loneAfter, counterAfter⟩ := lone_round lone other
    have admitted : Admits KillsLive kernel [.push 2, .exit 2] := by
      refine ⟨⟨by decide, ?_⟩, trivial, ?_, trivial, trivial⟩
      · simp [lone.live]
      · rw [lone_push lone]
        simp [Permitted]
    exact ⟨_, run_reachable reached admitted, loneAfter, counterAfter.trans wide⟩

/-- When process 2 got the pid of process 1, an `exec_process` of process 1 takes process 2
off the list, and process 1 is killed at the head of it. -/
theorem lone_shared (lone : Lone kernel) (counter : kernel.nextPid = 2 ^ 32) :
    (run kernel [.push 2, .exec 1 3 .done 1]).head = 1 ∧
      (run kernel [.push 2, .exec 1 3 .done 1]).live 1 = false := by
  have pushed := lone_push lone
  have given : (kernel.nextPid + 1) % 2 ^ 64 % 2 ^ 32 = 1 := by
    rw [counter]
    rfl
  obtain ⟨pid, state, next, prev, waitSize, tree, head, tail, size, live⟩ := lone
  simp only [run, foldl_cons, foldl_nil]
  rw [pushed, given]
  simp [step, execProcess, newProcess, moveWaiting, waitSize, replaceCaller, transfertToWaiting,
    transfertToWait, pid, unlink, head, setState, start, insertToReadyQueue, link, procKill, waiting,
    kill_eq, wakeProcess, removeProcess, cleanProcess, ready]

/-- After 2 ^ 32 creations a process gets the pid of process 1, and a killed process is on
the ready list. -/
theorem killed_process_listed :
    ∃ kernel, Reachable (machine KillsLive) kernel ∧ ¬ ReadyListSound kernel := by
  obtain ⟨kernel, reached, lone, counter⟩ := lone_reachable (2 ^ 32 - 1) (by decide)
  obtain ⟨head, isDead⟩ := lone_shared lone counter
  have admitted : Admits KillsLive kernel [.push 2, .exec 1 3 .done 1] := by
    refine ⟨⟨by decide, ?_⟩, trivial, ?_, trivial, trivial⟩
    · simp [lone.live]
    · rw [lone_push lone]
      simp [Permitted, Free, lone.live]
  refine ⟨_, run_reachable reached admitted, ?_⟩
  rintro ⟨ring, listed, _, outside⟩
  have first := listed.first
  rw [head] at first
  cases ring with
  | nil => exact absurd first (by decide)
  | cons member rest =>
    have same : 1 = member := first
    subst same
    exact outside 1 isDead mem_cons_self

end Balrog.ReadyList
