set_option autoImplicit false

/-!
An amqplib channel's write buffer, as the driver documents it: `publish` and `sendToQueue`
mimic `stream.Writable.write`, so every call appends its frame to the buffer and returns false
only to say that the buffer has reached its high-water mark, and `drain` is emitted once it
has fallen below again. `AmqpBroker.doPublish` and `RpcBackend.sendToQueue` both run the loop
`while (!write()) await drain`, here a state machine driven by a schedule that interleaves its
steps with the socket taking frames off the buffer and with `drain`.
-/

namespace Celeries.Amqp

structure Channel (M : Type) where
  highWaterMark : Nat
  buffer : List M
  flushed : List M
  needDrain : Bool
  deriving DecidableEq, Repr

namespace Channel
variable {M : Type}

/-- `write(frame)`: the frame is always buffered; the result says whether the buffer is
still below its high-water mark. -/
def write (c : Channel M) (frame : M) : Channel M × Bool :=
  let ok := decide ((c.buffer ++ [frame]).length < c.highWaterMark)
  ({ c with buffer := c.buffer ++ [frame], needDrain := c.needDrain || !ok }, ok)

def flush (c : Channel M) : Channel M :=
  match c.buffer with
  | [] => c
  | frame :: rest => { c with buffer := rest, flushed := c.flushed ++ [frame] }

def drains (c : Channel M) : Bool := c.needDrain && decide (c.buffer.length < c.highWaterMark)

def frames (c : Channel M) : List M := c.flushed ++ c.buffer

@[simp] theorem frames_write (c : Channel M) (frame : M) :
    (c.write frame).1.frames = c.frames ++ [frame] := by
  simp [write, frames]

@[simp] theorem frames_flush (c : Channel M) : c.flush.frames = c.frames := by
  unfold flush frames
  split <;> simp_all

end Channel

inductive Loop where
  | awaitDrain
  | done
  deriving DecidableEq, Repr

structure Sending (M : Type) where
  frame : M
  channel : Channel M
  loop : Loop
  writes : Nat
  deriving DecidableEq, Repr

inductive Tick where
  | flush
  | drain
  deriving DecidableEq, Repr

namespace Sending
variable {M : Type}

/-- `write()`: the loop ends on a true return and otherwise waits for `drain`. -/
def write (s : Sending M) : Sending M :=
  let (channel, ok) := s.channel.write s.frame
  { s with channel, loop := if ok then .done else .awaitDrain, writes := s.writes + 1 }

def start (frame : M) (channel : Channel M) : Sending M := write ⟨frame, channel, .awaitDrain, 0⟩

/-- The `drain` listener resumes the loop, which writes again before the socket runs. -/
def next (s : Sending M) : Tick → Sending M
  | .flush => { s with channel := s.channel.flush }
  | .drain =>
    if s.channel.drains then
      let s' := { s with channel := { s.channel with needDrain := false } }
      if s.loop = .awaitDrain then s'.write else s'
    else s

def run (s : Sending M) (ticks : List Tick) : Sending M := ticks.foldl next s

@[simp] theorem write_writes (s : Sending M) : s.write.writes = s.writes + 1 := rfl

@[simp] theorem write_frame (s : Sending M) : s.write.frame = s.frame := rfl

@[simp] theorem write_frames (s : Sending M) :
    s.write.channel.frames = s.channel.frames ++ [s.frame] := by
  simp [write]

theorem write_loop (s : Sending M) :
    s.write.loop = if (s.channel.buffer.length + 1 < s.channel.highWaterMark) then .done else .awaitDrain := by
  simp [write, Channel.write]

/-- Every write of the loop buffers its frame once more; nothing else adds a frame. -/
theorem next_spec (s : Sending M) (t : Tick) :
    ∃ k, (s.next t).writes = s.writes + k ∧
      (s.next t).channel.frames = s.channel.frames ++ List.replicate k s.frame ∧
      (s.next t).frame = s.frame := by
  cases t with
  | flush => exact ⟨0, by simp [next]⟩
  | drain =>
    simp only [next]
    split
    · split
      · exact ⟨1, by rw [write_writes, write_frames, write_frame]; exact ⟨rfl, rfl, rfl⟩⟩
      · exact ⟨0, by simp [Channel.frames]⟩
    · exact ⟨0, by simp⟩

theorem run_spec (ticks : List Tick) (s : Sending M) :
    ∃ k, (s.run ticks).writes = s.writes + k ∧
      (s.run ticks).channel.frames = s.channel.frames ++ List.replicate k s.frame ∧
      (s.run ticks).frame = s.frame := by
  induction ticks generalizing s with
  | nil => exact ⟨0, by simp [run]⟩
  | cons t ticks ih =>
    obtain ⟨k₁, hw₁, hf₁, he₁⟩ := next_spec s t
    obtain ⟨k₂, hw₂, hf₂, he₂⟩ := ih (s.next t)
    refine ⟨k₁ + k₂, ?_, ?_, ?_⟩ <;> simp only [run, List.foldl_cons] at *
    · omega
    · rw [hf₂, hf₁, he₁, List.append_assoc, List.append_replicate_replicate]
    · rw [he₂, he₁]

theorem next_done (s : Sending M) (t : Tick) (hw : 1 ≤ s.writes)
    (h : s.loop = .done → 2 ≤ s.writes) : (s.next t).loop = .done → 2 ≤ (s.next t).writes := by
  cases t with
  | flush => exact h
  | drain =>
    simp only [next]
    split
    · split
      · intro; simp; omega
      · exact h
    · exact h

theorem run_done (ticks : List Tick) (s : Sending M) (hw : 1 ≤ s.writes)
    (h : s.loop = .done → 2 ≤ s.writes) : (s.run ticks).loop = .done → 2 ≤ (s.run ticks).writes := by
  induction ticks generalizing s with
  | nil => exact h
  | cons t ticks ih =>
    obtain ⟨k, hk, -, -⟩ := next_spec s t
    exact ih (s.next t) (by omega) (next_done s t hw h)

/-- A loop whose first write finds the buffer at its high-water mark has buffered its frame
at least twice by the time it returns. -/
theorem start_full_buffers_twice (frame : M) (c : Channel M) (ticks : List Tick)
    (hfull : c.highWaterMark ≤ c.buffer.length + 1)
    (hdone : ((start frame c).run ticks).loop = .done) :
    ∃ k, 2 ≤ k ∧ ((start frame c).run ticks).channel.frames = c.frames ++ List.replicate k frame := by
  obtain ⟨k, hk, hf, -⟩ := run_spec ticks (start frame c)
  have h1 : (start frame c).loop = .awaitDrain := by simp [start, write_loop]; omega
  have h2 := run_done ticks (start frame c) (by simp [start]) (by simp [h1]) hdone
  have hs : (start frame c).writes = 1 := rfl
  refine ⟨k + 1, by omega, ?_⟩
  rw [hf]
  simp [start, write, Channel.write, Channel.frames, List.replicate_succ]

theorem start_full_buffers_twice_at_mark :
    ∃ k, 2 ≤ k ∧ ((start 1 (⟨2, [0], [], false⟩ : Channel Nat)).run [.flush, .flush, .drain]).channel.frames =
      (⟨2, [0], [], false⟩ : Channel Nat).frames ++ List.replicate k 1 :=
  start_full_buffers_twice 1 ⟨2, [0], [], false⟩ _ (by decide) (by decide)

end Sending

end Celeries.Amqp
