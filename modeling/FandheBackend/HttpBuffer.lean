import FandheBackend.StdBytes

set_option autoImplicit false

/-!
# The receive buffer of a connection (`crates/http/src/buffer.rs`)

A cursor into the bytes read. Compaction and shrinking move bytes but never
change what is unread. How `Vec` chooses its capacity is left to `Alloc`.
-/
namespace FandheBackend.HttpBuffer

def readChunkBytes : ℕ := 8 * 1024
def maxRetainedCapacity : ℕ := 64 * 1024

/-- The capacities that `Vec::reserve` and `Vec::shrink_to` end with, from the capacity, the
length and the amount asked for. -/
structure Alloc where
  reserve : ℕ → ℕ → ℕ → ℕ
  shrinkTo : ℕ → ℕ → ℕ → ℕ

structure RecvBuffer where
  buf : Bytes
  pos : ℕ
  capacity : ℕ
  pos_le : pos ≤ buf.length

namespace RecvBuffer

def new : RecvBuffer := ⟨[], 0, 0, le_refl _⟩

def unread (b : RecvBuffer) : Bytes := b.buf.drop b.pos

/-- `consume`; `none` is the failed assertion. -/
def consume (b : RecvBuffer) (n : ℕ) : Option RecvBuffer :=
  if h : b.pos + n ≤ b.buf.length then some { b with pos := b.pos + n, pos_le := h } else none

/-- `take_exact` moves the bytes out and leaves an empty `Vec`. -/
def takeExact (b : RecvBuffer) (n : ℕ) : Option (Bytes × RecvBuffer) :=
  if b.pos = 0 ∧ b.buf.length = n then some (b.buf, new) else none

/-- `copy_within(pos.., 0)`. -/
def copyWithinFront (buf : Bytes) (pos : ℕ) : Bytes :=
  buf.drop pos ++ buf.drop (buf.length - pos)

/-- The step that `reserve_for_read` and `shrink_if_oversized` share. -/
def compact (b : RecvBuffer) : RecvBuffer :=
  if b.pos > 0 then
    let unreadLen := b.buf.length - b.pos
    let moved := if unreadLen > 0 then copyWithinFront b.buf b.pos else b.buf
    ⟨moved.take unreadLen, 0, b.capacity, Nat.zero_le _⟩
  else b

def reserveForRead (alloc : Alloc) (b : RecvBuffer) : RecvBuffer :=
  let b := b.compact
  { b with capacity := alloc.reserve b.capacity b.buf.length readChunkBytes }

def shrinkIfOversized (alloc : Alloc) (b : RecvBuffer) : RecvBuffer :=
  if b.capacity ≤ maxRetainedCapacity then b
  else
    let b := b.compact
    { b with
      capacity := alloc.shrinkTo b.capacity b.buf.length (max maxRetainedCapacity b.buf.length) }

/-- `read_chunk` on a socket that gives the bytes `bs`; none at the end of the stream. -/
def readChunk (alloc : Alloc) (b : RecvBuffer) (bs : Bytes) : RecvBuffer :=
  let b := b.reserveForRead alloc
  ⟨b.buf ++ bs, b.pos, b.capacity, by
    rw [List.length_append]
    exact b.pos_le.trans (Nat.le_add_right _ _)⟩

theorem unread_length (b : RecvBuffer) : b.unread.length = b.buf.length - b.pos :=
  List.length_drop

@[simp] theorem unread_new : new.unread = [] := rfl

theorem compact_unread (b : RecvBuffer) : b.compact.unread = b.unread := by
  unfold compact
  split_ifs with hpos
  · simp only [unread, List.drop_zero]
    split_ifs with hlen
    · rw [copyWithinFront, List.take_append_of_le_length (by rw [List.length_drop])]
      exact List.take_of_length_le (by rw [List.length_drop])
    · have hz : b.buf.length - b.pos = 0 := by omega
      rw [hz, List.take_zero, List.drop_eq_nil_of_le (by omega)]
  · rfl

@[simp] theorem shrinkIfOversized_unread (alloc : Alloc) (b : RecvBuffer) :
    (b.shrinkIfOversized alloc).unread = b.unread := by
  unfold shrinkIfOversized
  split_ifs
  · rfl
  · exact compact_unread b

@[simp] theorem readChunk_unread (alloc : Alloc) (b : RecvBuffer) (bs : Bytes) :
    (b.readChunk alloc bs).unread = b.unread ++ bs := by
  have hle := b.compact.pos_le
  rw [← compact_unread b]
  exact List.drop_append_of_le_length hle

theorem consume_of_le (b : RecvBuffer) {n : ℕ} (h : n ≤ b.unread.length) :
    ∃ b', b.consume n = some b' ∧ b'.unread = b.unread.drop n := by
  have hfit : b.pos + n ≤ b.buf.length := by
    have := b.pos_le
    rw [unread_length] at h
    omega
  refine ⟨_, dif_pos hfit, ?_⟩
  simp only [unread, List.drop_drop]

theorem takeExact_eq_some {b b' : RecvBuffer} {n : ℕ} {body : Bytes}
    (h : b.takeExact n = some (body, b')) :
    body = b.unread ∧ b.unread.length = n ∧ b' = new := by
  unfold takeExact at h
  split_ifs at h with hn
  cases h
  have hall : b.unread = b.buf := by rw [unread, hn.1, List.drop_zero]
  exact ⟨hall.symm, by rw [hall]; exact hn.2, rfl⟩

end RecvBuffer

end FandheBackend.HttpBuffer
