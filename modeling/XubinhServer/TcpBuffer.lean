import Mathlib.Algebra.Group.Nat.Defs
import XubinhServer.Process

/-! The byte buffer of a TCP connection: one string, a read offset, a write offset
and a raw pointer to the first byte of the string, which is null once the buffer
has been released. -/
namespace XubinhServer

/-- `a - b` on `size_t`. -/
def sizeSub (a b : Nat) : Nat := if b ≤ a then a - b else a + 2 ^ 64 - b

/-- `std::string`, as far as the buffer uses it. -/
structure StringType where
  contents : List UInt8
  capacity : Nat
  deriving DecidableEq, Repr

def StringType.empty : StringType := ⟨[], 15⟩

def StringType.resize (s : StringType) (n : Nat) : StringType where
  contents := s.contents.take n ++ List.replicate (n - s.contents.length) 0
  capacity := if n ≤ s.capacity then s.capacity else max n (2 * s.capacity)

structure MutableSizeTcpBuffer where
  buffer : StringType
  beginPtrIsNull : Bool
  readOffset : Nat
  writeOffset : Nat
  deriving DecidableEq, Repr

namespace MutableSizeTcpBuffer

def new : MutableSizeTcpBuffer := ⟨.empty, false, 0, 0⟩

/-- The offsets stay as they were. -/
def release (b : MutableSizeTcpBuffer) : MutableSizeTcpBuffer :=
  if b.beginPtrIsNull then b else { b with buffer := .empty, beginPtrIsNull := true }

def getReadableSize (b : MutableSizeTcpBuffer) : Nat := sizeSub b.writeOffset b.readOffset

def forwardReadPosition (b : MutableSizeTcpBuffer) (n : Nat) : MutableSizeTcpBuffer :=
  { b with readOffset := min (b.readOffset + n) b.writeOffset }

/-- The memory that starts at the begin pointer; `beyond` is what lies after the string. -/
def memory (b : MutableSizeTcpBuffer) (beyond : Nat → UInt8) (i : Nat) : UInt8 :=
  (b.buffer.contents[i]?).getD (beyond i)

/-- The first newline at one of the `n` offsets from `i` on. -/
def newlineFrom (mem : Nat → UInt8) : (n i : Nat) → Option Nat
  | 0, _ => none
  | n + 1, i => if mem i = 10 then some i else newlineFrom mem n (i + 1)

def getNextNewlinePosition (b : MutableSizeTcpBuffer) : Except Halt (Option Nat) :=
  if b.readOffset ≥ b.writeOffset then pure none
  else if b.beginPtrIsNull then throw .nullPointer
  else pure (newlineFrom (b.memory fun _ => 0) (b.writeOffset - b.readOffset) b.readOffset)

/-- The first `\r\n` that starts at one of the `n` offsets from `i` on. -/
def crlfFrom (mem : Nat → UInt8) : (n i : Nat) → Option Nat
  | 0, _ => none
  | n + 1, i => if mem i = 13 ∧ mem (i + 1) = 10 then some i else crlfFrom mem n (i + 1)

def getNextCrlfPosition (b : MutableSizeTcpBuffer) : Except Halt (Option Nat) :=
  if b.readOffset ≥ b.writeOffset then pure none
  else if b.beginPtrIsNull ∧ b.readOffset < b.writeOffset - 1 then throw .nullPointer
  else pure (crlfFrom (b.memory fun _ => 0) (b.writeOffset - 1 - b.readOffset) b.readOffset)

/-- `memcpy` of `n` bytes of the string to its start, as if through a temporary. -/
def moveToFront (s : StringType) (start n : Nat) : StringType :=
  { s with contents := (s.contents.drop start).take n ++ s.contents.drop n }

/-- Extend the string by `size` bytes at the write offset. -/
def makeSpace (b : MutableSizeTcpBuffer) (size : Nat) : Except Halt MutableSizeTcpBuffer :=
  let directlyExtendableSize := sizeSub b.buffer.capacity b.writeOffset
  if size = 0 then pure b
  else if size ≤ directlyExtendableSize then
    pure { b with
      buffer := b.buffer.resize (b.writeOffset + size)
      writeOffset := b.writeOffset + size }
  else if size ≤ directlyExtendableSize + b.readOffset then
    if b.beginPtrIsNull ∧ b.readOffset < b.writeOffset then throw .nullPointer
    else
      let unread := sizeSub b.writeOffset b.readOffset
      pure { b with
        buffer := (moveToFront b.buffer b.readOffset unread).resize (unread + size)
        readOffset := 0
        writeOffset := unread + size }
  else
    pure { b with
      buffer := b.buffer.resize (b.writeOffset + size)
      beginPtrIsNull := false
      writeOffset := b.writeOffset + size }

/-- `memcpy` of `data` to the last `data.length` bytes before the write offset. -/
def fill (b : MutableSizeTcpBuffer) (data : List UInt8) : MutableSizeTcpBuffer :=
  let start := b.writeOffset - data.length
  { b with buffer.contents :=
      b.buffer.contents.take start ++ data ++ b.buffer.contents.drop b.writeOffset }

def append (b : MutableSizeTcpBuffer) (data : List UInt8) : Except Halt MutableSizeTcpBuffer := do
  let b ← b.makeSpace data.length
  if data = [] then pure b
  else if b.beginPtrIsNull then throw .nullPointer
  else pure (b.fill data)

/-- The readable bytes, in order. -/
def unread (b : MutableSizeTcpBuffer) : List UInt8 :=
  (b.buffer.contents.take b.writeOffset).drop b.readOffset

/-- The string is as long as the write offset, the offsets are in order, and the begin
pointer is valid. -/
structure Valid (b : MutableSizeTcpBuffer) : Prop where
  size : b.buffer.contents.length = b.writeOffset
  read : b.readOffset ≤ b.writeOffset
  room : b.writeOffset ≤ b.buffer.capacity
  pointer : b.beginPtrIsNull = false

theorem valid_new : Valid new := ⟨rfl, by decide, by decide, rfl⟩

@[simp] theorem unread_new : new.unread = [] := rfl

theorem Valid.unread_eq {b : MutableSizeTcpBuffer} (h : b.Valid) :
    b.unread = b.buffer.contents.drop b.readOffset := by
  rw [unread, ← h.size, List.take_length]

theorem Valid.length_unread {b : MutableSizeTcpBuffer} (h : b.Valid) :
    b.unread.length = b.getReadableSize := by
  rw [h.unread_eq, List.length_drop, h.size, getReadableSize, sizeSub, if_pos h.read]

theorem le_resize_capacity (s : StringType) (n : Nat) : n ≤ (s.resize n).capacity := by
  simp only [StringType.resize]
  split <;> omega

/-- Growing a string behind its first `w` bytes keeps what is readable among these. -/
theorem resize_spec (s : StringType) (r w size : Nat) (hw : w ≤ s.contents.length) (hr : r ≤ w) :
    Valid ⟨s.resize (w + size), false, r, w + size⟩ ∧
    ∃ pad, pad.length = size ∧
      unread ⟨s.resize (w + size), false, r, w + size⟩ = (s.contents.take w).drop r ++ pad := by
  have hlen : (s.resize (w + size)).contents.length = w + size := by
    simp only [StringType.resize, List.length_append, List.length_take, List.length_replicate]
    omega
  have htake : (s.resize (w + size)).contents.take w = s.contents.take w := by
    simp only [StringType.resize]
    rw [List.take_append_of_le_length (by rw [List.length_take]; omega), List.take_take,
      Nat.min_eq_left (by omega)]
  refine ⟨⟨hlen, by simp only; omega, le_resize_capacity _ _, rfl⟩,
    (s.resize (w + size)).contents.drop w, by rw [List.length_drop, hlen]; omega, ?_⟩
  have hsplit := List.take_append_drop w (s.resize (w + size)).contents
  rw [htake] at hsplit
  simp only [unread]
  rw [List.take_of_length_le (Nat.le_of_eq hlen), ← hsplit,
    List.drop_append_of_le_length (by rw [List.length_take]; omega), hsplit]

theorem take_moveToFront (s : StringType) (start n : Nat) (h : start + n = s.contents.length) :
    (moveToFront s start n).contents.take n = s.contents.drop start := by
  have hd : (s.contents.drop start).take n = s.contents.drop start :=
    List.take_of_length_le (by rw [List.length_drop]; omega)
  rw [moveToFront, hd, List.take_append_of_le_length (by rw [List.length_drop]; omega),
    List.take_of_length_le (by rw [List.length_drop]; omega)]

theorem length_moveToFront (s : StringType) (start n : Nat) (h : start + n = s.contents.length) :
    (moveToFront s start n).contents.length = s.contents.length := by
  simp only [moveToFront, List.length_append, List.length_take, List.length_drop]
  omega

/-- Making room adds `size` bytes behind the unread ones and keeps these. -/
theorem makeSpace_spec {b : MutableSizeTcpBuffer} (h : b.Valid) (size : Nat) :
    ∃ c pad, b.makeSpace size = .ok c ∧ c.Valid ∧ pad.length = size ∧
      c.unread = b.unread ++ pad := by
  obtain ⟨buffer, null, r, w⟩ := b
  obtain ⟨hs, hr, hroom, rfl⟩ := h
  simp only at hs hr hroom
  by_cases h0 : size = 0
  · subst h0
    exact ⟨_, [], rfl, ⟨hs, hr, hroom, rfl⟩, rfl, by simp⟩
  obtain ⟨hv, pad, hpad, hu⟩ := resize_spec buffer r w size (by omega) hr
  by_cases h1 : size ≤ sizeSub buffer.capacity w
  · exact ⟨_, pad, by simp only [makeSpace, if_neg h0, if_pos h1]; rfl, hv, hpad, hu⟩
  by_cases h2 : size ≤ sizeSub buffer.capacity w + r
  · have hsub : sizeSub w r = w - r := if_pos hr
    have hlen := length_moveToFront buffer r (w - r) (by omega)
    obtain ⟨hv, pad, hpad, hu⟩ :=
      resize_spec (moveToFront buffer r (w - r)) 0 (w - r) size (by omega) (by omega)
    refine ⟨_, pad, by simp [makeSpace, h0, h1, h2, hsub]; rfl, hv, hpad, ?_⟩
    rw [hu, take_moveToFront _ _ _ (by omega), List.drop_zero, unread, ← hs, List.take_length]
  · exact ⟨_, pad, by simp only [makeSpace, if_neg h0, if_neg h1, if_neg h2]; rfl, hv, hpad, hu⟩

/-- Appending refines the append of byte queues. -/
theorem append_spec {b : MutableSizeTcpBuffer} (h : b.Valid) (data : List UInt8) :
    ∃ c, b.append data = .ok c ∧ c.Valid ∧ c.unread = b.unread ++ data := by
  obtain ⟨c, pad, hc, hv, hpad, hu⟩ := makeSpace_spec h data.length
  by_cases h0 : data = []
  · subst h0
    rw [List.length_eq_zero_iff.mp hpad] at hu
    rw [List.length_nil] at hc
    exact ⟨c, by simp [append, hc, bind, Except.bind, pure, Except.pure], hv, hu⟩
  have hlen := congrArg List.length hu
  rw [hv.length_unread, List.length_append, hpad, getReadableSize, sizeSub, if_pos hv.read] at hlen
  have hr := hv.read
  have hs := hv.size
  have hstart : c.readOffset ≤ c.writeOffset - data.length := by omega
  have hold : (c.buffer.contents.take (c.writeOffset - data.length)).drop c.readOffset =
      b.unread := by
    rw [hv.unread_eq] at hu
    rw [List.drop_take, hu, List.take_append_of_le_length (by omega)]
    exact List.take_of_length_le (by omega)
  refine ⟨c.fill data, ?_, ⟨?_, hr, hv.room, hv.pointer⟩, ?_⟩
  · simp [append, hc, bind, Except.bind, h0, hv.pointer, pure, Except.pure]
  · simp only [fill, List.length_append, List.length_take, List.length_drop]
    omega
  · have hdrop : c.buffer.contents.drop c.writeOffset = [] :=
      List.drop_of_length_le (by omega)
    simp only [unread, fill, hdrop, List.append_nil]
    rw [List.take_of_length_le (by simp only [List.length_append, List.length_take]; omega),
      List.drop_append_of_le_length (by rw [List.length_take]; omega), hold, unread]

theorem Valid.of_append {b c : MutableSizeTcpBuffer} {data : List UInt8} (h : b.Valid)
    (hc : b.append data = .ok c) : c.Valid := by
  obtain ⟨d, hd, hvalid, _⟩ := append_spec h data
  rw [hd] at hc
  cases hc
  exact hvalid

/-- A buffer refuses data only when it has been released. -/
theorem append_error {b : MutableSizeTcpBuffer} {data : List UInt8} {e : Halt}
    (h : b.append data = .error e) : e = .nullPointer := by
  have hspace : ∀ {n e'}, b.makeSpace n = .error e' → e' = .nullPointer := by
    intro n e' h
    unfold makeSpace at h
    simp only [pure, Except.pure, throw, throwThe, MonadExceptOf.throw] at h
    split at h
    · cases h
    · split at h
      · cases h
      · split at h
        · split at h
          · cases h
            rfl
          · cases h
        · cases h
  cases hc : b.makeSpace data.length with
  | error e' =>
    simp only [append, bind, Except.bind, hc] at h
    cases h
    exact hspace hc
  | ok c =>
    simp only [append, bind, Except.bind, hc, pure, Except.pure, throw, throwThe,
      MonadExceptOf.throw] at h
    split at h
    · cases h
    · split at h
      · cases h
        rfl
      · cases h

theorem forwardReadPosition_spec {b : MutableSizeTcpBuffer} (h : b.Valid) (n : Nat) :
    (b.forwardReadPosition n).Valid ∧ (b.forwardReadPosition n).unread = b.unread.drop n := by
  have hr := h.read
  refine ⟨⟨h.size, Nat.min_le_right _ _, h.room, h.pointer⟩, ?_⟩
  have hlen := h.length_unread
  rw [getReadableSize, sizeSub, if_pos hr] at hlen
  simp only [unread, forwardReadPosition, List.drop_drop]
  by_cases hn : b.readOffset + n ≤ b.writeOffset
  · rw [Nat.min_eq_left hn]
  · rw [Nat.min_eq_right (by omega), List.drop_of_length_le (by rw [List.length_take]; omega),
      List.drop_of_length_le (by rw [List.length_take]; omega)]

/-- The first `\r\n` of a list of bytes. -/
def crlfIndex : List UInt8 → Option Nat
  | a :: b :: rest => if a = 13 ∧ b = 10 then some 0 else (crlfIndex (b :: rest)).map (· + 1)
  | _ => none

theorem crlfFrom_eq (mem : Nat → UInt8) (l : List UInt8) (i : Nat)
    (h : ∀ k, (hk : k < l.length) → mem (i + k) = l[k]) :
    crlfFrom mem (l.length - 1) i = (crlfIndex l).map (i + ·) := by
  induction l generalizing i with
  | nil => rfl
  | cons a rest ih =>
    cases rest with
    | nil => rfl
    | cons b rest =>
      have ha : mem i = a := h 0 (by simp)
      have hb : mem (i + 1) = b := h 1 (by simp)
      have ht := ih (i + 1) fun k hk => by
        have hk' := h (k + 1) (by simp only [List.length_cons] at hk ⊢; omega)
        rw [show i + 1 + k = i + (k + 1) by omega, hk']
        rfl
      simp only [List.length_cons, Nat.add_sub_cancel] at ht ⊢
      rw [crlfFrom, ha, hb, ht, crlfIndex]
      split
      · simp
      · cases crlfIndex (b :: rest) <;> simp; omega

theorem Valid.memory_eq {b : MutableSizeTcpBuffer} (h : b.Valid) (beyond : Nat → UInt8) (k : Nat)
    (hk : k < b.unread.length) : b.memory beyond (b.readOffset + k) = b.unread[k] := by
  have hlen := h.length_unread
  rw [getReadableSize, sizeSub, if_pos h.read] at hlen
  have hs := h.size
  simp only [memory]
  rw [List.getElem?_eq_getElem (by omega), Option.getD_some]
  simp [h.unread_eq]

/-- The first newline of a list of bytes. -/
def newlineIndex : List UInt8 → Option Nat
  | [] => none
  | b :: rest => if b = 10 then some 0 else (newlineIndex rest).map (· + 1)

theorem newlineFrom_eq (mem : Nat → UInt8) (l : List UInt8) (i : Nat)
    (h : ∀ k, (hk : k < l.length) → mem (i + k) = l[k]) :
    newlineFrom mem l.length i = (newlineIndex l).map (i + ·) := by
  induction l generalizing i with
  | nil => rfl
  | cons b rest ih =>
    have hb : mem i = b := h 0 (by simp)
    have ht := ih (i + 1) fun k hk => by
      have hk' := h (k + 1) (by simp only [List.length_cons]; omega)
      rw [show i + 1 + k = i + (k + 1) by omega, hk']
      rfl
    rw [List.length_cons, newlineFrom, hb, ht, newlineIndex]
    split
    · simp
    · cases newlineIndex rest <;> simp; omega

/-- The scan for a newline sees exactly the unread bytes. -/
theorem getNextNewlinePosition_spec {b : MutableSizeTcpBuffer} (h : b.Valid) :
    b.getNextNewlinePosition = .ok ((newlineIndex b.unread).map (b.readOffset + ·)) := by
  have hr := h.read
  have hlen := h.length_unread
  rw [getReadableSize, sizeSub, if_pos hr] at hlen
  rw [getNextNewlinePosition]
  by_cases he : b.readOffset ≥ b.writeOffset
  · have hn : b.unread = [] := List.length_eq_zero_iff.mp (by omega)
    rw [if_pos he, hn]
    rfl
  · rw [if_neg he, h.pointer, if_neg Bool.false_ne_true, ← hlen,
      newlineFrom_eq _ _ _ (h.memory_eq fun _ => 0)]
    rfl

/-- The scan for `\r\n` sees exactly the unread bytes. -/
theorem getNextCrlfPosition_spec {b : MutableSizeTcpBuffer} (h : b.Valid) :
    b.getNextCrlfPosition = .ok ((crlfIndex b.unread).map (b.readOffset + ·)) := by
  have hr := h.read
  have hlen := h.length_unread
  rw [getReadableSize, sizeSub, if_pos hr] at hlen
  rw [getNextCrlfPosition]
  by_cases he : b.readOffset ≥ b.writeOffset
  · have hn : b.unread = [] := List.length_eq_zero_iff.mp (by omega)
    rw [if_pos he, hn]
    rfl
  · rw [if_neg he, if_neg (by simp [h.pointer]), ← crlfFrom_eq _ _ _ (h.memory_eq _), hlen,
      show b.writeOffset - 1 - b.readOffset = b.writeOffset - b.readOffset - 1 by omega]
    rfl

end MutableSizeTcpBuffer

end XubinhServer
