import Balrog.ByteMemory

/-!
# Copies made in pieces

A driver copies a run of sectors between a disk and a buffer, some sectors with each command.
`copyLoop` is the loop over the commands, and `moved` is what the whole copy comes to. A loop whose
rounds copy at most `limit` sectors ends, and has made the whole copy if no round failed.
-/

namespace Balrog.ChunkedCopies

open ByteMemory

/-- A disk and the memory of its user. -/
structure Sides where
  disk : Bytes
  memory : Bytes

/-- The sectors from `start` on have been copied to or from the buffer, and nothing else. -/
def moved (sector : Nat) (write : Bool) (sides : Sides) (buffer start len : Nat) : Sides :=
  if write then
    { sides with
      disk := splice sides.disk (sector * start) (sector * len) fun offset =>
        sides.memory (buffer + offset) }
  else
    { sides with
      memory := splice sides.memory buffer (sector * len) fun offset =>
        sides.disk (sector * start + offset) }

section Copies

variable {sector : Nat} {write : Bool} {sides : Sides} {buffer start : Nat}

theorem moved_none : moved sector write sides buffer start 0 = sides := by
  have nothing (bytes : Bytes) (address : Nat) (data : Bytes) :
      splice bytes address (sector * 0) data = bytes := by
    funext probe
    exact splice_outside (by omega)
  cases write with
  | false => simp only [moved, nothing, Bool.false_eq_true, if_false]
  | true => simp only [moved, nothing, if_true]

theorem moved_more (count more : Nat) :
    moved sector write (moved sector write sides buffer start count) (buffer + sector * count)
        (start + count) more =
      moved sector write sides buffer start (count + more) := by
  cases write with
  | false =>
    simp only [moved, Bool.false_eq_true, if_false, Nat.mul_add]
    rw [splice_splice sides.memory sides.disk]
  | true =>
    simp only [moved, if_true, Nat.mul_add]
    rw [splice_splice sides.disk sides.memory]

end Copies

section Loops

variable {State : Type}

/-- The loop: how many of the sectors that are left a round copies, how far the buffer advances with
it, and the round. A round that fails ends the loop. -/
def copyLoop (count advance : Nat → Nat) (round : State → Nat → Nat → Nat → Bool × State) :
    Nat → State → Nat → Nat → Nat → Option (Bool × State)
  | 0, _, _, _, _ => none
  | fuel + 1, state, buffer, lba, len =>
    if len = 0 then some (true, state)
    else
      let (done, state) := round state buffer lba (count len)
      if done = false then some (false, state)
      else
        copyLoop count advance round fuel state (buffer + advance (count len))
          ((lba + count len) % 2 ^ 64) ((len + 2 ^ 64 - count len) % 2 ^ 64)

variable {sector : Nat} {write : Bool} {view : State → Sides} {keep : State → Prop}
  {count advance : Nat → Nat} {round : State → Nat → Nat → Nat → Bool × State}

/-- The induction is on the fuel. Where the buffer stands after the last round does not matter. -/
theorem copyLoop_moves (limit first bound : Nat) (positive : 0 < limit) (small : bound < 2 ^ 64)
    (chosen : ∀ len ≤ bound, count len = min len limit) (steps : advance limit = sector * limit)
    (rounds : ∀ state buffer lba count, keep state → 0 < count → count ≤ limit →
      lba + first + count ≤ bound → ∃ done after, round state buffer lba count = (done, after) ∧
        keep after ∧
        (done = true → view after = moved sector write (view state) buffer (lba + first) count))
    (fuel : Nat) (state : State) (buffer lba len : Nat) (enough : len < fuel) (kept : keep state)
    (range : lba + first + len ≤ bound) :
    ∃ done after, copyLoop count advance round fuel state buffer lba len = some (done, after) ∧
      keep after ∧
      (done = true → view after = moved sector write (view state) buffer (lba + first) len) := by
  induction fuel generalizing state buffer lba len with
  | zero => omega
  | succ fuel ih =>
    rw [copyLoop]
    by_cases nothing : len = 0
    · rw [if_pos nothing, nothing]
      exact ⟨true, state, rfl, kept, fun _ => moved_none.symm⟩
    · obtain ⟨done, next, result, left, copied⟩ := rounds state buffer lba (min len limit) kept
        (by omega) (Nat.min_le_right len limit) (by omega)
      simp only [if_neg nothing, chosen len (by omega), result]
      cases done with
      | false => exact ⟨false, next, rfl, left, fun done => by cases done⟩
      | true =>
        rw [if_neg (by decide), Nat.mod_eq_of_lt (by omega : lba + min len limit < 2 ^ 64),
          show (len + 2 ^ 64 - min len limit) % 2 ^ 64 = len - min len limit by omega]
        obtain ⟨done, after, result, remains, passed⟩ := ih next
          (buffer + advance (min len limit)) (lba + min len limit) (len - min len limit) (by omega)
          left (by omega)
        refine ⟨done, after, result, remains, fun isDone => ?_⟩
        rw [passed isDone, copied rfl]
        by_cases last : len ≤ limit
        · rw [Nat.min_eq_left last, Nat.sub_self, moved_none]
        · rw [Nat.min_eq_right (by omega), steps, Nat.add_right_comm, moved_more,
            Nat.add_sub_cancel' (by omega)]

end Loops

end Balrog.ChunkedCopies
