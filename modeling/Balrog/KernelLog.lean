import Balrog.ByteMemory
import Balrog.Runs

/-!
# The log on a debug device

`__klog_debug_device_write` collects messages in one of two buffers. A message that fills it goes
on in the other buffer, and the full one is left to `wormtongue`, which writes buffers that
require a flush to the device, one after another under a lock. At shutdown
`klog_force_flush_buffers` writes what is left. A flush is interleaved with messages: it marks the
buffer, writes it and only then clears it.

Nothing keeps a message from going on in a buffer that has not been flushed yet, and what does not
fit into the second buffer is dropped; both are reported as success. As long as neither happens,
the device holds the accepted bytes in order.

The buffers are as `klog_register_fs_device` leaves them, with the beginning of a sector in the
first one. `accepted` records the bytes of the messages for which the write returned success.
Messages are written one at a time, and the device writes succeed.
-/

namespace Balrog.KernelLog

open Function ByteMemory Runs List

/-- `MAX_BUFFER_SIZE` -/
def maxBufferSize : Nat := 4096 * 16 * 8

/-- `klog_device_buffer_t` -/
structure Buffer where
  requireFlush : Bool
  flushing : Bool
  currentPos : Nat
  buffer : Bytes

/-- A flush under way, with its arguments for the device: whether it has written the buffer. -/
structure Flush where
  index : Bool
  size : Nat
  written : Bool

/-- `klog_debug_device_t` with the device, `klog_flush_lock` as the flush that holds it, and whether
logs are disabled and the handler is. The buffers are numbered `false` and `true`. -/
structure Log where
  disk : Bytes
  endLba : Nat
  currentLba : Nat
  selected : Bool
  buffers : Bool → Buffer
  flush : Option Flush
  disabled : Bool
  closed : Bool
  accepted : List UInt8

/-- The disk after whole sectors have been written from a buffer. -/
def writeSectors (disk : Bytes) (lba count : Nat) (buffer : Bytes) : Bytes := fun probe =>
  if 512 * lba ≤ probe ∧ probe < 512 * (lba + count) then buffer (probe - 512 * lba)
  else disk probe

/-- `__klog_safe_device_write`; nobody reads what it returns. -/
def safeDeviceWrite (log : Log) (buffer : Bytes) (size : Nat) : Log :=
  let lbaLen := (size + 511) / 512
  let lastWrittenLba := (log.currentLba + lbaLen) % 2 ^ 32
  if log.endLba ≤ lastWrittenLba then log
  else
    { log with
      disk := writeSectors log.disk log.currentLba lbaLen buffer
      currentLba := lastWrittenLba }

/-- The buffer with the data behind what it holds. -/
def Buffer.append (buffer : Buffer) (data : List UInt8) : Buffer :=
  { buffer with
    buffer := copy buffer.buffer buffer.currentPos data
    currentPos := buffer.currentPos + data.length }

/-- The number of bytes of a message with which the loop fills a buffer. -/
def Buffer.taken (buffer : Buffer) (message : List UInt8) : Nat :=
  min (maxBufferSize - buffer.currentPos) message.length

/-- The buffer after it has taken as much of a message as fits. -/
def Buffer.fillUp (buffer : Buffer) (message : List UInt8) : Buffer :=
  { buffer.append (message.take (buffer.taken message)) with requireFlush := true }

/-- The buffer with the rest of a message at its beginning. -/
def Buffer.restart (buffer : Buffer) (data : List UInt8) : Buffer :=
  { buffer with buffer := copy buffer.buffer 0 data, currentPos := data.length }

/-- `__klog_debug_device_write`: whether it returns 0, and the log. -/
def debugDeviceWrite (log : Log) (message : List UInt8) : Bool × Log :=
  let chosen := log.buffers log.selected
  if chosen.currentPos + message.length < maxBufferSize then
    (true, { log with buffers := update log.buffers log.selected (chosen.append message) })
  else if chosen.requireFlush ∨ chosen.flushing then (false, log)
  else
    let i := chosen.taken message
    let buffers := update log.buffers log.selected (chosen.fillUp message)
    let selected := !log.selected
    let left := min (message.length - i) maxBufferSize
    let buffers := if left = 0 then buffers
      else update buffers selected ((buffers selected).restart ((message.drop i).take left))
    (true, { log with selected := selected, buffers := buffers })

/-- A message is logged; what the device accepts is recorded. -/
def write (log : Log) (message : List UInt8) : Log :=
  let (success, after) := debugDeviceWrite log message
  if success then { after with accepted := log.accepted ++ message } else after

/-- `__klog_flush` up to the call of the device. -/
def beginFlush (log : Log) (index : Bool) : Log :=
  { log with
    buffers := update log.buffers index { log.buffers index with flushing := true }
    flush := some { index := index, size := (log.buffers index).currentPos, written := false } }

/-- The flush writes its buffer to the device. -/
def transfer (log : Log) (flush : Flush) : Log :=
  { safeDeviceWrite log (log.buffers flush.index).buffer flush.size with
    flush := some { flush with written := true } }

/-- The end of `__klog_flush`. -/
def finishFlush (log : Log) (flush : Flush) : Log :=
  { log with
    buffers := update log.buffers flush.index { log.buffers flush.index with
      flushing := false, requireFlush := false, currentPos := 0 }
    flush := none }

/-- `__klog_flush` without interruption. -/
def flushNow (log : Log) (index : Bool) : Log :=
  let flush := { index := index, size := (log.buffers index).currentPos, written := false }
  finishFlush (transfer (beginFlush log index) flush) { flush with written := true }

/-- `klog_force_flush_buffers` once it has the lock. Messages are disabled and `wormtongue` waits
for the lock, so nothing comes in between. -/
def forceFlush (log : Log) : Log :=
  let log :=
    if (log.buffers (!log.selected)).requireFlush then flushNow log (!log.selected) else log
  { flushNow log log.selected with closed := true }

/-- A message is logged, `wormtongue` starts, performs or ends a flush, logs are disabled at
shutdown, and the rest is flushed. -/
inductive Call where
  | message (bytes : List UInt8)
  | begin (index : Bool)
  | transfer
  | finish
  | disable
  | force

/-- One event of the log; a flush goes on only where one has begun. -/
def step (log : Log) : Call → Option Log
  | .message bytes => some (write log bytes)
  | .begin index => some (beginFlush log index)
  | .transfer => log.flush.map (KernelLog.transfer log)
  | .finish => log.flush.map (finishFlush log)
  | .disable => some { log with disabled := true }
  | .force => some (forceFlush log)

/-- When a step can come: messages are logged until they are disabled, and `wormtongue` flushes what
requires it, one buffer at a time. The forced flush may come while `wormtongue` is flushing: whether
`klog_flush_lock` keeps it out is part of the condition on a run. -/
def Enabled (log : Log) : Call → Prop
  | .message _ => log.disabled = false ∧ log.closed = false
  | .begin index => log.flush = none ∧ log.closed = false ∧
      (log.buffers index).requireFlush = true
  | .transfer => ∃ flush, log.flush = some flush ∧ flush.written = false
  | .finish => ∃ flush, log.flush = some flush ∧ flush.written = true
  | .disable => True
  | .force => log.disabled = true ∧ log.closed = false

/-- The accepted bytes fit in front of the end of the partition, and the numbers of their sectors
have 32 bits. -/
def Room (start : Nat) (log : Log) : Prop :=
  start + (log.accepted.length + 511) / 512 < log.endLba ∧
    start + (log.accepted.length + 511) / 512 < 2 ^ 32

/-- A message that fills the buffer finds the other one flushed, and fits into both. The forced flush
does not come while `wormtongue` is flushing. -/
def Spaced (log : Log) : Call → Prop
  | .message bytes =>
    maxBufferSize ≤ (log.buffers log.selected).currentPos + bytes.length →
      (log.buffers (!log.selected)).requireFlush = false ∧
      (log.buffers (!log.selected)).flushing = false ∧
      (log.buffers log.selected).currentPos + bytes.length ≤ 2 * maxBufferSize
  | .force => log.flush = none
  | _ => True

/-- The bytes of a buffer that are not yet on the device. -/
def Buffer.contents (buffer : Buffer) : List UInt8 := readRange buffer.buffer 0 buffer.currentPos

/-- A log after `klog_register_fs_device`. -/
structure Registered (start : Nat) (log : Log) : Prop where
  lba : log.currentLba = start
  first : log.selected = false
  idle : ∀ index, (log.buffers index).requireFlush = false ∧ (log.buffers index).flushing = false
  tail : (log.buffers false).currentPos < 512
  empty : (log.buffers true).currentPos = 0
  unlocked : log.flush = none
  opened : log.closed = false
  replayed : log.accepted = (log.buffers false).contents

/-- The log over whole runs whose calls satisfy a condition, while its area has room. -/
def machine (start : Nat) (condition : Log → Call → Prop) : Machine Log Call where
  initial := Registered start
  allowed log call := Enabled log call ∧ Room start log ∧ condition log call
  step := step

/-- Whether the other buffer holds bytes that no flush has written yet. -/
def waiting (log : Log) : Bool :=
  (log.buffers (!log.selected)).requireFlush && log.flush.all fun flush => !flush.written

/-- The bytes that have not reached the device. -/
def unsent (log : Log) : List UInt8 :=
  (if waiting log then (log.buffers (!log.selected)).contents else []) ++
    (log.buffers log.selected).contents

/-- The accepted bytes are, in this order, those in the written sectors of the device and those in
the buffers; after the forced flush all of them are on the device. -/
def Delivered (start : Nat) (log : Log) : Prop :=
  ∃ sent, log.accepted = sent ++ unsent log ∧ readRange log.disk (512 * start) sent.length = sent ∧
    log.currentLba = start + (sent.length + 511) / 512 ∧ (log.closed = true → sent = log.accepted)

section Writing

variable {log : Log} {start : Nat} {sent : List UInt8}

@[simp] theorem contents_append (buffer : Buffer) (data : List UInt8) :
    (buffer.append data).contents = buffer.contents ++ data := by
  have behind := readRange_copy_behind buffer.buffer 0 buffer.currentPos data
  rw [Nat.zero_add] at behind
  exact behind

@[simp] theorem contents_length (buffer : Buffer) :
    buffer.contents.length = buffer.currentPos := readRange_length _ _ _

/-- Whole sectors written behind what was sent extend it. -/
theorem readRange_writeSectors (disk buffer : Bytes) (size : Nat)
    (stored : readRange disk (512 * start) sent.length = sent) (whole : sent.length % 512 = 0) :
    readRange (writeSectors disk (start + sent.length / 512) ((size + 511) / 512) buffer)
      (512 * start) (sent.length + size) = sent ++ readRange buffer 0 size := by
  rw [readRange_add]
  congr 1
  · refine Eq.trans (readRange_congr fun offset inside => ?_) stored
    rw [writeSectors, if_neg (by omega)]
  · refine map_congr_left fun offset inside => ?_
    have below := mem_range.mp inside
    rw [writeSectors, if_pos (by omega)]
    congr 1
    omega

/-- A write changes the disk and the position on it only. -/
theorem safeDeviceWrite_frame (log : Log) (buffer : Bytes) (size : Nat) :
    ∃ disk lba, safeDeviceWrite log buffer size = { log with disk := disk, currentLba := lba } := by
  simp only [safeDeviceWrite]
  split
  · exact ⟨log.disk, log.currentLba, rfl⟩
  · exact ⟨_, _, rfl⟩

/-- While the area has room, a write puts the buffer behind what was sent. -/
theorem safeDeviceWrite_outcome (log : Log) (buffer : Bytes) (size : Nat)
    (stored : readRange log.disk (512 * start) sent.length = sent)
    (lba : log.currentLba = start + (sent.length + 511) / 512) (whole : sent.length % 512 = 0)
    (room : start + (sent.length + size + 511) / 512 < log.endLba ∧
      start + (sent.length + size + 511) / 512 < 2 ^ 32) :
    safeDeviceWrite log buffer size =
      { log with
        disk := writeSectors log.disk log.currentLba ((size + 511) / 512) buffer
        currentLba := start + (sent.length + size + 511) / 512 } ∧
    readRange (safeDeviceWrite log buffer size).disk (512 * start) (sent.length + size) =
      sent ++ readRange buffer 0 size := by
  have last : (log.currentLba + (size + 511) / 512) % 2 ^ 32 =
      start + (sent.length + size + 511) / 512 := by
    rw [lba, Nat.mod_eq_of_lt (by omega)]
    omega
  have outcome : safeDeviceWrite log buffer size = { log with
      disk := writeSectors log.disk log.currentLba ((size + 511) / 512) buffer
      currentLba := start + (sent.length + size + 511) / 512 } := by
    simp only [safeDeviceWrite]
    rw [last, if_neg (by omega)]
  refine ⟨outcome, ?_⟩
  rw [outcome]
  have position : log.currentLba = start + sent.length / 512 := by omega
  simp only [position]
  exact readRange_writeSectors log.disk buffer size stored whole

end Writing

/-- The selected buffer is not being flushed, and the other one is full if it requires a flush and
empty if not. -/
structure Paired (chosen other : Buffer) : Prop where
  request : chosen.requireFlush = false
  idle : chosen.flushing = false
  bounded : chosen.currentPos ≤ maxBufferSize
  full : other.requireFlush = true → other.currentPos = maxBufferSize
  empty : other.requireFlush = false → other.currentPos = 0

/-- What holds between steps. A flush is for the other buffer. -/
structure Orderly (start : Nat) (log : Log) (sent : List UInt8) : Prop where
  accepted : log.accepted = sent ++ unsent log
  stored : readRange log.disk (512 * start) sent.length = sent
  lba : log.currentLba = start + (sent.length + 511) / 512
  whole : log.closed = false → sent.length % 512 = 0
  done : log.closed = true → unsent log = []
  paired : Paired (log.buffers log.selected) (log.buffers (!log.selected))
  flush : ∀ flush, log.flush = some flush → flush.index = !log.selected ∧
    (log.buffers (!log.selected)).requireFlush = true ∧ flush.size = maxBufferSize ∧
    log.closed = false

variable {flush : Flush} {index : Bool} {log : Log}

section Steps

variable {start : Nat} {sent message : List UInt8}

@[simp] theorem update_other (buffers : Bool → Buffer) (index : Bool) (buffer : Buffer) :
    update buffers index buffer (!index) = buffers (!index) :=
  update_of_ne (by simp) _ _

@[simp] theorem update_this (buffers : Bool → Buffer) (index : Bool) (buffer : Buffer) :
    update buffers (!index) buffer index = buffers index :=
  update_of_ne (by simp) _ _

/-- A message that fits into the buffer keeps the log orderly. -/
theorem orderly_append (orderly : Orderly start log sent) (opened : log.closed = false)
    (fits : (log.buffers log.selected).currentPos + message.length < maxBufferSize) :
    Orderly start (write log message) sent := by
  have outcome : write log message = { log with
      buffers := update log.buffers log.selected ((log.buffers log.selected).append message)
      accepted := log.accepted ++ message } := by
    simp [write, debugDeviceWrite, fits]
  have behind : unsent (write log message) = unsent log ++ message := by
    rw [outcome]
    simp [unsent, waiting]
  have paired : Paired ((log.buffers log.selected).append message)
      (log.buffers (!log.selected)) :=
    { orderly.paired with bounded := Nat.le_of_lt fits }
  constructor
  case accepted => rw [behind, outcome, ← append_assoc, ← orderly.accepted]
  all_goals rw [outcome]
  · exact orderly.stored
  · exact orderly.lba
  · exact orderly.whole
  · simp [opened]
  · simpa using paired
  · simpa using orderly.flush

/-- A message that does not fit fills the buffer to its end. -/
theorem fillUp_full {buffer : Buffer} (bounded : buffer.currentPos ≤ maxBufferSize)
    (fills : maxBufferSize ≤ buffer.currentPos + message.length) :
    (buffer.fillUp message).currentPos = maxBufferSize := by
  simp only [Buffer.fillUp, Buffer.append, Buffer.taken, length_take]
  omega

@[simp] theorem fillUp_request (buffer : Buffer) (message : List UInt8) :
    (buffer.fillUp message).requireFlush = true := rfl

@[simp] theorem contents_fillUp (buffer : Buffer) (message : List UInt8) :
    (buffer.fillUp message).contents =
      buffer.contents ++ message.take (buffer.taken message) :=
  contents_append buffer _

/-- What a message leaves that fills the buffer: the rest of it is in the other buffer, also if
there is none. -/
theorem write_fill (paired : Paired (log.buffers log.selected) (log.buffers (!log.selected)))
    (fills : maxBufferSize ≤ (log.buffers log.selected).currentPos + message.length)
    (spaced : (log.buffers (!log.selected)).requireFlush = false ∧
      (log.buffers (!log.selected)).flushing = false ∧
      (log.buffers log.selected).currentPos + message.length ≤ 2 * maxBufferSize) :
    ∃ rest : Buffer,
      rest.contents = message.drop ((log.buffers log.selected).taken message) ∧
      rest.requireFlush = false ∧ rest.flushing = false ∧
      write log message = { log with
        selected := !log.selected
        buffers := update (update log.buffers log.selected
          ((log.buffers log.selected).fillUp message)) (!log.selected) rest
        accepted := log.accepted ++ message } := by
  obtain ⟨noRequest, noFlush, room⟩ := spaced
  have bounded := paired.bounded
  have left : min (message.length - (log.buffers log.selected).taken message) maxBufferSize =
      (message.drop ((log.buffers log.selected).taken message)).length := by
    rw [length_drop, Buffer.taken]
    omega
  by_cases none' : (message.drop ((log.buffers log.selected).taken message)).length = 0
  · refine ⟨log.buffers (!log.selected), ?_, noRequest, noFlush, ?_⟩
    · rw [length_eq_zero_iff.mp none', Buffer.contents, paired.empty noRequest]
      rfl
    · have same : update (update log.buffers log.selected ((log.buffers log.selected).fillUp
          message)) (!log.selected) (log.buffers (!log.selected)) =
          update log.buffers log.selected ((log.buffers log.selected).fillUp message) := by
        rw [update_eq_iff]
        simp
      rw [same]
      simp only [write, debugDeviceWrite, if_neg (Nat.not_lt.mpr fills), paired.request,
        paired.idle, Bool.false_eq_true, or_self, if_false, left, if_pos none', if_true]
  · refine ⟨(log.buffers (!log.selected)).restart
      (message.drop ((log.buffers log.selected).taken message)), readRange_copy _ _ _, noRequest,
      noFlush, ?_⟩
    simp only [write, debugDeviceWrite, if_neg (Nat.not_lt.mpr fills), paired.request, paired.idle,
      Bool.false_eq_true, or_self, if_false, left, if_neg none', if_true, update_other,
      take_length]

section

variable (orderly : Orderly start log sent)
include orderly

/-- A message that fills the buffer and goes on in the other one, which is empty. -/
theorem orderly_fill (opened : log.closed = false)
    (fills : maxBufferSize ≤ (log.buffers log.selected).currentPos + message.length)
    (spaced : Spaced log (.message message)) : Orderly start (write log message) sent := by
  obtain ⟨noRequest, noFlush, room⟩ := spaced fills
  have unlocked : log.flush = none := by
    cases isFlush : log.flush with
    | none => rfl
    | some flush =>
      have requested := (orderly.flush flush isFlush).2.1
      rw [noRequest] at requested
      contradiction
  obtain ⟨rest, contents, request, idle, outcome⟩ := write_fill orderly.paired fills (spaced fills)
  have waits : unsent log = (log.buffers log.selected).contents := by
    simp [unsent, waiting, noRequest]
  have bounded : rest.currentPos ≤ maxBufferSize := by
    have inside := orderly.paired.bounded
    rw [← contents_length, contents, length_drop, Buffer.taken]
    omega
  have paired : Paired rest ((log.buffers log.selected).fillUp message) :=
    ⟨request, idle, bounded, fun _ => fillUp_full orderly.paired.bounded fills,
      fun none' => absurd none' (by simp)⟩
  have behind : unsent (write log message) = unsent log ++ message := by
    rw [outcome, waits]
    simp [unsent, waiting, unlocked, contents]
  constructor
  case accepted => rw [behind, outcome, ← append_assoc, ← orderly.accepted]
  all_goals rw [outcome]
  · exact orderly.stored
  · exact orderly.lba
  · exact orderly.whole
  · simp [opened]
  · simpa using paired
  · simp [unlocked]

/-- The begin of a flush keeps the log orderly. -/
theorem orderly_begin (unlocked : log.flush = none) (opened : log.closed = false)
    (requested : (log.buffers (!log.selected)).requireFlush = true) :
    Orderly start (beginFlush log (!log.selected)) sent := by
  have same : unsent (beginFlush log (!log.selected)) = unsent log := by
    simp [unsent, waiting, beginFlush, requested, unlocked, Buffer.contents]
  constructor
  · rw [same]
    exact orderly.accepted
  · exact orderly.stored
  · exact orderly.lba
  · exact orderly.whole
  · rw [same]
    exact orderly.done
  · simp only [beginFlush, update_this, update_self]
    exact { orderly.paired with }
  · intro flush isFlush
    obtain rfl := Option.some.inj isFlush
    refine ⟨rfl, ?_, orderly.paired.full requested, opened⟩
    simp only [beginFlush, update_self]
    exact requested

/-- The transfer of a flush sends the contents of its buffer. -/
theorem orderly_transfer (room : Room start log) (isFlush : log.flush = some flush)
    (unwritten : flush.written = false) :
    Orderly start (transfer log flush) (sent ++ (log.buffers (!log.selected)).contents) := by
  obtain ⟨isOther, requested, size, opened⟩ := orderly.flush flush isFlush
  have full := orderly.paired.full requested
  have waits : unsent log =
      (log.buffers (!log.selected)).contents ++ (log.buffers log.selected).contents := by
    simp [unsent, waiting, requested, isFlush, unwritten]
  have whole := orderly.whole opened
  have total : log.accepted.length =
      sent.length + (maxBufferSize + (log.buffers log.selected).currentPos) := by
    rw [orderly.accepted, waits, length_append, length_append, contents_length,
      contents_length, full]
  have fits : start + (sent.length + flush.size + 511) / 512 < log.endLba ∧
      start + (sent.length + flush.size + 511) / 512 < 2 ^ 32 := by
    unfold Room at room
    omega
  obtain ⟨outcome, stored⟩ := safeDeviceWrite_outcome log (log.buffers (!log.selected)).buffer
    flush.size orderly.stored orderly.lba whole fits
  have length : (sent ++ (log.buffers (!log.selected)).contents).length =
      sent.length + flush.size := by
    rw [length_append, contents_length, full, size]
  have contents : readRange (log.buffers (!log.selected)).buffer 0 flush.size =
      (log.buffers (!log.selected)).contents := by
    rw [Buffer.contents, full, size]
  have sentNow : unsent (transfer log flush) = (log.buffers log.selected).contents := by
    simp [transfer, isOther, outcome, unsent, waiting]
  constructor
  case stored =>
    rw [length, transfer, isOther]
    exact contents ▸ stored
  case accepted =>
    rw [sentNow, append_assoc, ← waits, ← orderly.accepted, transfer, isOther, outcome]
  case lba => rw [length, transfer, isOther, outcome]
  case whole =>
    intro _
    rw [length, size]
    have sectors : maxBufferSize % 512 = 0 := by decide
    omega
  all_goals rw [transfer, isOther, outcome]
  · simp [opened]
  · exact orderly.paired
  · intro later isLater
    obtain rfl := Option.some.inj isLater
    exact ⟨rfl, requested, size, opened⟩

/-- The end of a flush empties the buffer, whose contents have been sent. -/
theorem orderly_finish (isFlush : log.flush = some flush) (written : flush.written = true) :
    Orderly start (finishFlush log flush) sent := by
  obtain ⟨isOther, requested, size, opened⟩ := orderly.flush flush isFlush
  have same : unsent (finishFlush log flush) = unsent log := by
    simp [unsent, waiting, finishFlush, isOther, isFlush, written]
  constructor
  · rw [same]
    exact orderly.accepted
  · exact orderly.stored
  · exact orderly.lba
  · exact orderly.whole
  · rw [same]
    exact orderly.done
  · simp only [finishFlush, isOther, update_this, update_self]
    exact ⟨orderly.paired.request, orderly.paired.idle, orderly.paired.bounded,
      fun requested => absurd requested (by simp), fun _ => rfl⟩
  · intro later isLater
    exact absurd isLater (by simp [finishFlush])

end

/-- A flush without interruption clears the buffer and changes nothing else but the device. -/
theorem flushNow_frame (log : Log) (index : Bool) :
    ∃ disk lba, flushNow log index = { log with
      disk := disk
      currentLba := lba
      buffers := update log.buffers index { log.buffers index with
        flushing := false, requireFlush := false, currentPos := 0 }
      flush := none } := by
  obtain ⟨disk, lba, outcome⟩ := safeDeviceWrite_frame (beginFlush log index)
    ((beginFlush log index).buffers index).buffer (log.buffers index).currentPos
  refine ⟨disk, lba, ?_⟩
  rw [flushNow, transfer]
  simp only [outcome]
  simp [finishFlush, beginFlush]

/-- A whole flush without interruption sends the contents of its buffer. -/
theorem flushNow_outcome (stored : readRange log.disk (512 * start) sent.length = sent)
    (lba : log.currentLba = start + (sent.length + 511) / 512) (whole : sent.length % 512 = 0)
    (room : start + (sent.length + (log.buffers index).currentPos + 511) / 512 < log.endLba ∧
      start + (sent.length + (log.buffers index).currentPos + 511) / 512 < 2 ^ 32) :
    (flushNow log index).currentLba =
        start + (sent.length + (log.buffers index).currentPos + 511) / 512 ∧
    readRange (flushNow log index).disk (512 * start)
        (sent.length + (log.buffers index).currentPos) =
      sent ++ (log.buffers index).contents := by
  have same : ((beginFlush log index).buffers index).buffer = (log.buffers index).buffer := by
    simp [beginFlush]
  obtain ⟨outcome, written⟩ := safeDeviceWrite_outcome (beginFlush log index)
    ((beginFlush log index).buffers index).buffer (log.buffers index).currentPos stored lba whole
    room
  refine ⟨congrArg Log.currentLba outcome, ?_⟩
  rw [same] at written
  exact (congrArg (fun disk => readRange disk _ _) (by rw [← same]; rfl)).trans written

/-- The selected buffer is flushed when the other one is empty; then nothing is left. -/
theorem orderly_last (orderly : Orderly start log sent) (opened : log.closed = false)
    (noRequest : (log.buffers (!log.selected)).requireFlush = false) (room : Room start log) :
    Orderly start { flushNow log log.selected with closed := true }
      (sent ++ (log.buffers log.selected).contents) := by
  have waits : unsent log = (log.buffers log.selected).contents := by
    simp [unsent, waiting, noRequest]
  have length : (sent ++ (log.buffers log.selected).contents).length =
      sent.length + (log.buffers log.selected).currentPos := by
    rw [length_append, contents_length]
  have whole := orderly.whole opened
  have fits : start + (sent.length + (log.buffers log.selected).currentPos + 511) / 512 <
      log.endLba ∧
      start + (sent.length + (log.buffers log.selected).currentPos + 511) / 512 < 2 ^ 32 := by
    rw [← length, ← waits, ← orderly.accepted]
    exact room
  obtain ⟨lba, stored⟩ := flushNow_outcome orderly.stored orderly.lba whole fits
  obtain ⟨disk, last, outcome⟩ := flushNow_frame log log.selected
  have nothing : unsent { flushNow log log.selected with closed := true } = [] := by
    rw [outcome]
    simp [unsent, waiting, noRequest, Buffer.contents, readRange]
  constructor
  · rw [nothing, append_nil, ← waits, ← orderly.accepted, outcome]
  · rw [length]
    exact stored
  · rw [length]
    exact lba
  · intro closed
    contradiction
  · exact fun _ => nothing
  · rw [outcome]
    simp only [update_self, update_other]
    exact ⟨rfl, rfl, Nat.zero_le _, orderly.paired.full, orderly.paired.empty⟩
  · rw [outcome]
    simp

/-- The flush at shutdown sends what both buffers hold, in their order. -/
theorem orderly_force (orderly : Orderly start log sent) (opened : log.closed = false)
    (unlocked : log.flush = none) (room : Room start log) :
    ∃ sent, Orderly start (forceFlush log) sent := by
  by_cases requested : (log.buffers (!log.selected)).requireFlush = true
  · have begun := orderly_begin orderly unlocked opened requested
    have moved := orderly_transfer begun room rfl rfl
    have ended : Orderly start (flushNow log (!log.selected)) _ := orderly_finish moved rfl rfl
    obtain ⟨disk, lba, outcome⟩ := flushNow_frame log (!log.selected)
    rw [forceFlush, if_pos requested]
    exact ⟨_, orderly_last ended (by rw [outcome]; exact opened) (by rw [outcome]; simp)
      (by rw [outcome]; exact room)⟩
  · rw [Bool.not_eq_true] at requested
    rw [forceFlush, if_neg (by simp [requested])]
    exact ⟨_, orderly_last orderly opened requested room⟩

end Steps

/-- A new log is orderly, with nothing sent. -/
theorem orderly_registered {start : Nat} (registered : Registered start log) :
    Orderly start log [] := by
  have request := (registered.idle true).1
  have tail := registered.tail
  have empty := registered.empty
  constructor
  · rw [registered.replayed]
    simp [unsent, waiting, request, registered.first]
  · rfl
  · rw [registered.lba]
    rfl
  · exact fun _ => rfl
  · intro closed
    rw [registered.opened] at closed
    contradiction
  · rw [registered.first]
    refine ⟨(registered.idle _).1, (registered.idle _).2, ?_, fun requested => ?_, fun _ => empty⟩
    · unfold maxBufferSize
      omega
    · rw [Bool.not_false, request] at requested
      contradiction
  · intro flush isFlush
    rw [registered.unlocked] at isFlush
    contradiction

/-- The log is orderly throughout a run. -/
theorem orderly_inductive (start : Nat) :
    Inductive (machine start Spaced) fun log => ∃ sent, Orderly start log sent := by
  refine ⟨fun log registered => ⟨[], orderly_registered registered⟩, ?_⟩
  rintro log call ⟨sent, orderly⟩ ⟨enabled, room, spaced⟩
  cases call with
  | message bytes =>
    refine ⟨_, rfl, sent, ?_⟩
    by_cases fits : (log.buffers log.selected).currentPos + bytes.length < maxBufferSize
    · exact orderly_append orderly enabled.2 fits
    · exact orderly_fill orderly enabled.2 (Nat.not_lt.mp fits) spaced
  | begin index =>
    obtain ⟨unlocked, opened, requested⟩ := enabled
    -- the selected buffer requires no flush
    have isOther : index = !log.selected := by
      by_contra other
      have isSelected : index = log.selected := by
        cases index <;> cases selected : log.selected <;> simp_all
      rw [isSelected, orderly.paired.request] at requested
      contradiction
    subst isOther
    exact ⟨_, rfl, sent, orderly_begin orderly unlocked opened requested⟩
  | transfer =>
    obtain ⟨flush, isFlush, unwritten⟩ := enabled
    refine ⟨transfer log flush, ?_, _, orderly_transfer orderly room isFlush unwritten⟩
    exact congrArg (Option.map _) isFlush
  | finish =>
    obtain ⟨flush, isFlush, written⟩ := enabled
    refine ⟨finishFlush log flush, ?_, _, orderly_finish orderly isFlush written⟩
    exact congrArg (Option.map _) isFlush
  | disable =>
    exact ⟨_, rfl, sent, { orderly with }⟩
  | force =>
    exact ⟨_, rfl, orderly_force orderly enabled.2 spaced room⟩

/-- A registered log without a boot log on a device of 5000 sectors. -/
def newLog : Log where
  disk _ := 0
  endLba := 5000
  currentLba := 0
  selected := false
  buffers _ := { requireFlush := false, flushing := false, currentPos := 0, buffer := fun _ => 0 }
  flush := none
  disabled := false
  closed := false
  accepted := []

theorem newLog_registered : Registered 0 newLog :=
  ⟨rfl, rfl, fun _ => ⟨rfl, rfl⟩, by decide, rfl, rfl, rfl, rfl⟩

/-- A message with one byte more than both buffers hold fills both. -/
theorem write_overlong {message : List UInt8} (length : message.length = 2 * maxBufferSize + 1) :
    ∃ full rest : Buffer, full.requireFlush = true ∧ full.currentPos = maxBufferSize ∧
      rest.currentPos = maxBufferSize ∧ write newLog message = { newLog with
        selected := true
        buffers := update (update newLog.buffers false full) true rest
        accepted := message } := by
  have fills : ¬ (newLog.buffers false).currentPos + message.length < maxBufferSize := by
    rw [length]
    decide
  have taken : (newLog.buffers false).taken message = maxBufferSize := by
    rw [Buffer.taken, length]
    decide
  have left : min (message.length - maxBufferSize) maxBufferSize = maxBufferSize := by
    rw [length]
    decide
  refine ⟨(newLog.buffers false).fillUp message,
    ((update newLog.buffers false ((newLog.buffers false).fillUp message)) true).restart
      ((message.drop maxBufferSize).take maxBufferSize), rfl,
    fillUp_full (Nat.zero_le _) (Nat.not_lt.mp fills), ?_, ?_⟩
  · have taken' : ((message.drop maxBufferSize).take maxBufferSize).length = maxBufferSize := by
      rw [length_take, length_drop, length]
      decide
    exact taken'
  · simp only [write, debugDeviceWrite]
    rw [show newLog.selected = false from rfl, if_neg fills, taken, left]
    rfl

/-- A message with one byte more than both buffers hold. -/
def longMessage : List UInt8 := List.replicate (2 * maxBufferSize + 1) 1

/-- A flush accepts no message. -/
theorem flushNow_accepted (log : Log) (index : Bool) :
    (flushNow log index).accepted = log.accepted := by
  obtain ⟨disk, lba, outcome⟩ := flushNow_frame log index
  rw [outcome]

/-- How far a flush without interruption moves on at most. -/
theorem flushNow_lba (log : Log) (index : Bool) : (flushNow log index).currentLba ≤
    log.currentLba + ((log.buffers index).currentPos + 511) / 512 := by
  simp only [flushNow, finishFlush, transfer, safeDeviceWrite]
  split
  · exact Nat.le_add_right _ _
  · exact Nat.mod_le _ _

/-- How far the forced flush of two full buffers moves on at most. -/
theorem forceFlush_lba (log : Log) (requested : (log.buffers (!log.selected)).requireFlush = true)
    (full : ∀ index, (log.buffers index).currentPos = maxBufferSize) :
    (forceFlush log).currentLba ≤ log.currentLba + 2048 := by
  have sectors : (maxBufferSize + 511) / 512 = 1024 := by decide
  obtain ⟨disk, lba, outcome⟩ := flushNow_frame log (!log.selected)
  have first := flushNow_lba log (!log.selected)
  rw [forceFlush, if_pos requested]
  rw [outcome] at first ⊢
  refine Nat.le_trans (flushNow_lba _ _) ?_
  simp only [update_this, full, sectors] at first ⊢
  omega

/-- Two full buffers are flushed at shutdown, but one more byte was accepted. -/
theorem shutdown_loses (reached : Reachable (machine 0 fun _ _ => True) log)
    (requested : (log.buffers (!log.selected)).requireFlush = true)
    (full : ∀ index, (log.buffers index).currentPos = maxBufferSize)
    (opened : log.closed = false) (lba : log.currentLba = 0) (endLba : log.endLba = 5000)
    (length : log.accepted.length = 2 * maxBufferSize + 1) :
    ∃ after, Reachable (machine 0 fun _ _ => True) after ∧ after.closed = true ∧
      after.accepted = log.accepted ∧ ¬ Delivered 0 after := by
  have room : Room 0 log := by
    unfold Room
    rw [length, endLba]
    decide
  have disabled := reached.call .disable ⟨trivial, room, trivial⟩ rfl
  have forced := disabled.call .force ⟨⟨rfl, opened⟩, room, trivial⟩ rfl
  have accepted : (forceFlush { log with disabled := true }).accepted = log.accepted := by
    rw [forceFlush, if_pos requested]
    exact (flushNow_accepted _ _).trans (flushNow_accepted _ _)
  refine ⟨_, forced, rfl, accepted, ?_⟩
  rintro ⟨sent, _, _, position, all⟩
  have moved := forceFlush_lba { log with disabled := true } requested full
  rw [position, all rfl, accepted, length, lba] at moved
  exact absurd moved (by decide)

end Balrog.KernelLog
