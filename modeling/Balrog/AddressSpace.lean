import Mathlib.Algebra.Group.Nat.Defs
import Mathlib.Tactic.Common

/-!
# The address space

The constants and macros that several parts of the kernel share: where the kernel half of the
address space begins, where the heap of a process ends, how addresses are rounded up to pages, and
what is checked of a pointer that a process passes.
-/

namespace Balrog.AddressSpace

/-- `KERNEL_MAP_BASE`, the first address a user pointer may not reach. -/
def kernelMapBase : Nat := 0xFFFFFF8000000000

/-- `PROCESS_HEAP_END` -/
def processHeapEnd : Nat := 0x00007ffd0d812000

/-- `PAGE_ALIGN_UP`, in 64 bits. -/
def pageAlignUp (address : Nat) : Nat := (address + 0x1000 - 1) % 2 ^ 64 / 0x1000 * 0x1000

/-- `user_ptr_ok` -/
def userPtrOk (pointer : Nat) : Bool := pointer != 0 && decide (pointer < kernelMapBase)

end Balrog.AddressSpace
