import XubinhServer.TcpBuffer

/-! The byte buffer with the storage of its string in view: the begin pointer points to a storage
that the string may have left, and the sum of two `size_t` wraps. It refines a queue of bytes as
long as `forward_read_position` is not called with a number that makes the sum wrap. -/
namespace XubinhServer

/-- A string and the storage that holds its bytes. -/
structure StoredString where
  contents : List UInt8
  capacity : Nat
  storage : Nat
  deriving DecidableEq, Repr

/-- The storage that a string gets when it grows. -/
structure Growth where
  capacity : Nat
  storage : Nat
  deriving DecidableEq, Repr

inductive BufferFault where
  /-- `std::length_error` -/
  | lengthError
  | danglingPointer
  deriving DecidableEq, Repr

namespace StoredString

/-- `max_size`. -/
def maxSize : Nat := 2 ^ 63 - 1

def empty (storage : Nat) : StoredString := ⟨[], 15, storage⟩

/-- No string and no piece of data is longer than `maxSize`, so that the sum of their lengths does
not wrap. -/
def resize (s : StoredString) (n : Nat) (growth : Growth) : Except BufferFault StoredString :=
  if maxSize < n then throw .lengthError
  else
    let contents := s.contents.take n ++ List.replicate (n - s.contents.length) 0
    if n ≤ s.capacity then pure { s with contents }
    else pure ⟨contents, max n (min growth.capacity maxSize), growth.storage⟩

end StoredString

/-- `MutableSizeTcpBuffer`; the begin pointer is the storage it points to. -/
structure StoredTcpBuffer where
  buffer : StoredString
  volatileBufferBeginPtr : Option Nat
  readOffset : Nat
  writeOffset : Nat
  deriving DecidableEq, Repr

namespace StoredTcpBuffer

def new (storage : Nat) : StoredTcpBuffer := ⟨.empty storage, some storage, 0, 0⟩

/-- `storage` is where the string that is built anew keeps its bytes. -/
def reset (b : StoredTcpBuffer) (storage : Nat) : StoredTcpBuffer :=
  let buffer := if b.volatileBufferBeginPtr.isSome then .empty storage else b.buffer
  ⟨buffer, some buffer.storage, 0, 0⟩

def getReadableSize (b : StoredTcpBuffer) : Nat := sizeSub b.writeOffset b.readOffset

def forwardReadPosition (b : StoredTcpBuffer) (numberOfBytesRead : UInt64) : StoredTcpBuffer :=
  { b with
    readOffset := min ((b.readOffset + numberOfBytesRead.toNat) % 2 ^ 64) b.writeOffset }

/-- The begin pointer points to the bytes of the string. -/
def Fresh (b : StoredTcpBuffer) : Prop := b.volatileBufferBeginPtr = some b.buffer.storage

instance (b : StoredTcpBuffer) : Decidable b.Fresh := inferInstanceAs (Decidable (_ = _))

/-- The memory that starts at the begin pointer. -/
def memory (b : StoredTcpBuffer) (i : Nat) : UInt8 := (b.buffer.contents[i]?).getD 0

/-- The readable bytes, read through `get_read_position`. -/
def readable (b : StoredTcpBuffer) : Except BufferFault (List UInt8) :=
  if b.Fresh then pure ((List.range b.getReadableSize).map fun i => b.memory (b.readOffset + i))
  else throw .danglingPointer

def newlineFrom (mem : Nat → UInt8) : (n i : Nat) → Option Nat
  | 0, _ => none
  | n + 1, i => if mem i = 10 then some i else newlineFrom mem n (i + 1)

def getNextNewlinePosition (b : StoredTcpBuffer) : Except BufferFault (Option Nat) :=
  if b.readOffset ≥ b.writeOffset then pure none
  else if b.Fresh then pure (newlineFrom b.memory (b.writeOffset - b.readOffset) b.readOffset)
  else throw .danglingPointer

def getNextCrlfPosition (b : StoredTcpBuffer) : Except BufferFault (Option Nat) :=
  if b.readOffset ≥ b.writeOffset then pure none
  else if b.Fresh then
    pure (MutableSizeTcpBuffer.crlfFrom b.memory (b.writeOffset - 1 - b.readOffset) b.readOffset)
  else throw .danglingPointer

/-- The offset of the new space from the begin pointer, and the buffer. -/
def makeSpace (b : StoredTcpBuffer) (size : Nat) (growth : Growth) :
    Except BufferFault (Nat × StoredTcpBuffer) := do
  let directlyExtendableSize := sizeSub b.buffer.capacity b.writeOffset
  if size ≤ directlyExtendableSize then
    let buffer ← b.buffer.resize (b.writeOffset + size) growth
    pure (b.writeOffset, { b with buffer, writeOffset := b.writeOffset + size })
  else if size ≤ (directlyExtendableSize + b.readOffset) % 2 ^ 64 then
    if ¬b.Fresh then throw .danglingPointer
    let unread := sizeSub b.writeOffset b.readOffset
    let moved := { b.buffer with contents :=
      (b.buffer.contents.drop b.readOffset).take unread ++ b.buffer.contents.drop unread }
    let buffer ← moved.resize (unread + size) growth
    pure (unread, { b with buffer, readOffset := 0, writeOffset := unread + size })
  else
    let buffer ← b.buffer.resize (b.writeOffset + size) growth
    pure (b.writeOffset, { b with
      buffer
      volatileBufferBeginPtr := some buffer.storage
      writeOffset := b.writeOffset + size })

/-- `memcpy` of `data` to `start` bytes behind the begin pointer. -/
def copyIn (b : StoredTcpBuffer) (start : Nat) (data : List UInt8) :
    Except BufferFault StoredTcpBuffer :=
  if b.Fresh then
    pure { b with buffer.contents := b.buffer.contents.take start ++ data ++
      b.buffer.contents.drop (start + data.length) }
  else throw .danglingPointer

/-- An empty piece of data makes no space and copies nothing. -/
def append (b : StoredTcpBuffer) (data : List UInt8) (growth : Growth) :
    Except BufferFault StoredTcpBuffer := do
  if data = [] then pure b
  else
    let (start, b) ← b.makeSpace data.length growth
    b.copyIn start data

inductive Operation where
  | append (data : List UInt8) (growth : Growth)
  | forwardReadPosition (numberOfBytesRead : UInt64)
  | reset (storage : Nat)

def step (b : StoredTcpBuffer) : Operation → Except BufferFault StoredTcpBuffer
  | .append data growth => b.append data growth
  | .forwardReadPosition n => pure (b.forwardReadPosition n)
  | .reset storage => pure (b.reset storage)

/-- The same operation on a queue of bytes. -/
def Operation.onQueue (queue : List UInt8) : Operation → List UInt8
  | .append data _ => queue ++ data
  | .forwardReadPosition n => queue.drop n.toNat
  | .reset _ => []

def newlineIndex (queue : List UInt8) : Option Nat := queue.findIdx? (· = 10)

/-- What a user of the buffer sees of the queue. -/
structure Shows (b : StoredTcpBuffer) (queue : List UInt8) : Prop where
  readable : b.readable = .ok queue
  newline : b.getNextNewlinePosition = .ok ((newlineIndex queue).map (b.readOffset + ·))
  crlf : b.getNextCrlfPosition =
    .ok ((MutableSizeTcpBuffer.crlfIndex queue).map (b.readOffset + ·))

/-- Before and after every operation the buffer shows the queue, unless the string has become too
long. -/
def Refines : StoredTcpBuffer → List UInt8 → List Operation → Prop
  | b, queue, [] => Shows b queue
  | b, queue, operation :: rest => Shows b queue ∧
    match b.step operation with
    | .ok c => Refines c (operation.onQueue queue) rest
    | .error e => e = .lengthError

/-- No sum of the read offset and a number of bytes wraps. -/
def NoWrap : StoredTcpBuffer → List Operation → Prop
  | _, [] => True
  | b, operation :: rest =>
    (∀ n, operation = .forwardReadPosition n → b.readOffset + n.toNat < 2 ^ 64) ∧
    ∀ c, b.step operation = .ok c → NoWrap c rest

/-- The string is as long as the write offset, and the begin pointer is fresh. -/
structure Valid (b : StoredTcpBuffer) : Prop where
  size : b.buffer.contents.length = b.writeOffset
  read : b.readOffset ≤ b.writeOffset
  room : b.writeOffset ≤ b.buffer.capacity
  short : b.buffer.capacity ≤ StoredString.maxSize
  fresh : b.Fresh

section Specs

variable {b c : StoredTcpBuffer} {data queue : List UInt8} {growth : Growth}

/-- The queue that a valid buffer holds. -/
def contents (b : StoredTcpBuffer) : List UInt8 := b.buffer.contents.drop b.readOffset

theorem valid_new (storage : Nat) : Valid (new storage) := 
  ⟨rfl, Nat.le_refl 0, Nat.zero_le _, (by decide : 15 ≤ StoredString.maxSize), rfl⟩

theorem Valid.length_contents (h : Valid b) : b.contents.length = b.getReadableSize := by
  rw [contents, List.length_drop, h.size, getReadableSize, sizeSub, if_pos h.read]

theorem memory_eq (b : StoredTcpBuffer) (k : Nat) (hk : k < b.contents.length) :
    b.memory (b.readOffset + k) = b.contents[k] := by
  have hlen : b.readOffset + k < b.buffer.contents.length := by
    rw [contents, List.length_drop] at hk
    omega
  rw [memory, List.getElem?_eq_getElem hlen]
  simp [contents]

theorem newlineFrom_eq (mem : Nat → UInt8) (queue : List UInt8) (i : Nat)
    (h : ∀ k, (hk : k < queue.length) → mem (i + k) = queue[k]) :
    newlineFrom mem queue.length i = (newlineIndex queue).map (i + ·) := by
  induction queue generalizing i with
  | nil => rfl
  | cons x rest ih =>
    have hx : mem i = x := h 0 (by simp)
    have hrest := ih (i + 1) fun k hk => by
      have hk' := h (k + 1) (by rw [List.length_cons]; omega)
      rw [show i + 1 + k = i + (k + 1) by omega, hk']
      rfl
    rw [List.length_cons, newlineFrom, hx, hrest, newlineIndex, newlineIndex, List.findIdx?_cons]
    by_cases hn : x = 10
    · simp [hn]
    · simp only [hn, if_false, decide_false, Bool.false_eq_true, Option.map_map]
      congr 1
      funext k
      simp only [Function.comp]
      omega

/-- A valid buffer shows the bytes behind its read offset. -/
theorem Valid.shows (h : Valid b) : Shows b b.contents := by
  have hlen := h.length_contents
  have hsize : b.getReadableSize = b.writeOffset - b.readOffset := if_pos h.read
  constructor
  · rw [readable, if_pos h.fresh, ← hlen]
    congr 1
    apply List.ext_getElem
    · simp
    · intro k hk hk'
      simp [b.memory_eq k hk']
  · rw [getNextNewlinePosition]
    by_cases he : b.readOffset ≥ b.writeOffset
    · have hnil : b.contents = [] := List.length_eq_zero_iff.mp (by omega)
      rw [if_pos he, hnil]
      rfl
    · rw [if_neg he, if_pos h.fresh, ← newlineFrom_eq _ _ _ b.memory_eq, hlen, hsize]
      rfl
  · rw [getNextCrlfPosition]
    by_cases he : b.readOffset ≥ b.writeOffset
    · have hnil : b.contents = [] := List.length_eq_zero_iff.mp (by omega)
      rw [if_pos he, hnil]
      rfl
    · rw [if_neg he, if_pos h.fresh, ← MutableSizeTcpBuffer.crlfFrom_eq _ _ _ b.memory_eq, hlen,
        hsize, show b.writeOffset - 1 - b.readOffset = b.writeOffset - b.readOffset - 1 by omega]
      rfl

theorem Valid.reset (h : Valid b) (storage : Nat) :
    Valid (b.reset storage) ∧ (b.reset storage).contents = [] := by
  have hfresh := h.fresh
  rw [Fresh] at hfresh
  simp only [StoredTcpBuffer.reset, hfresh, Option.isSome_some, if_true]
  exact ⟨valid_new storage, rfl⟩

theorem Valid.forwardReadPosition (h : Valid b) {n : UInt64}
    (hn : b.readOffset + n.toNat < 2 ^ 64) :
    Valid (b.forwardReadPosition n) ∧
      (b.forwardReadPosition n).contents = b.contents.drop n.toNat := by
  have hr := h.read
  have hs := h.size
  rw [StoredTcpBuffer.forwardReadPosition, Nat.mod_eq_of_lt hn]
  refine ⟨⟨hs, Nat.min_le_right _ _, h.room, h.short, h.fresh⟩, ?_⟩
  simp only [contents, List.drop_drop]
  by_cases hle : b.readOffset + n.toNat ≤ b.writeOffset
  · rw [Nat.min_eq_left hle]
  · rw [Nat.min_eq_right (by omega), List.drop_of_length_le (by omega),
      List.drop_of_length_le (by omega)]

/-- A string that is resized keeps its first bytes, and its storage where it has room. -/
theorem resize_cases {s : StoredString} (hs : s.capacity ≤ StoredString.maxSize) (n : Nat)
    (growth : Growth) :
    s.resize n growth = .error .lengthError ∨ ∃ t, s.resize n growth = .ok t ∧
      t.contents = s.contents.take n ++ List.replicate (n - s.contents.length) 0 ∧
      n ≤ t.capacity ∧ t.capacity ≤ StoredString.maxSize ∧
      (n ≤ s.capacity → t.storage = s.storage) := by
  rw [StoredString.resize]
  by_cases hlong : StoredString.maxSize < n
  · left
    rw [if_pos hlong]
    rfl
  · right
    rw [if_neg hlong]
    by_cases hroom : n ≤ s.capacity
    · rw [if_pos hroom]
      exact ⟨_, rfl, rfl, hroom, hs, fun _ => rfl⟩
    · rw [if_neg hroom]
      refine ⟨_, rfl, rfl, Nat.le_max_left _ _, ?_, fun h => absurd h hroom⟩
      exact Nat.max_le.mpr ⟨by omega, Nat.min_le_right _ _⟩

/-- What `makeSpace` leaves behind: `start` is where the new space begins. -/
structure Extended (b c : StoredTcpBuffer) (size start : Nat) : Prop where
  valid : Valid c
  space : start + size = c.writeOffset
  read : c.readOffset ≤ start
  old : (c.buffer.contents.take start).drop c.readOffset = b.contents

/-- A string that grows behind its `start` bytes. -/
theorem extended_of_resize {s t : StoredString} {r start size : Nat}
    (hle : start ≤ s.contents.length) (hr : r ≤ start)
    (hold : (s.contents.take start).drop r = b.contents)
    (ht : t.contents = s.contents.take (start + size) ++
      List.replicate (start + size - s.contents.length) 0)
    (hroom : start + size ≤ t.capacity) (hshort : t.capacity ≤ StoredString.maxSize)
    {ptr : Option Nat} (hptr : ptr = some t.storage) :
    Extended b ⟨t, ptr, r, start + size⟩ size start := by
  have htlen : t.contents.length = start + size := by
    rw [ht, List.length_append, List.length_take, List.length_replicate]
    omega
  refine ⟨⟨htlen, by simp only; omega, hroom, hshort, hptr⟩, rfl, hr, ?_⟩
  rw [← hold]
  simp only
  rw [ht, List.take_append_of_le_length (by rw [List.length_take]; omega), List.take_take,
    Nat.min_eq_left (by omega)]

theorem Valid.makeSpace (h : Valid b) (size : Nat) (growth : Growth) :
    b.makeSpace size growth = .error .lengthError ∨
      ∃ start c, b.makeSpace size growth = .ok (start, c) ∧ Extended b c size start := by
  obtain ⟨buffer, ptr, r, w⟩ := b
  obtain ⟨hs, hr, hroom, hshort, hfresh⟩ := h
  simp only [Fresh] at hs hr hroom hshort hfresh
  subst hfresh
  have hold : (buffer.contents.take w).drop r =
      contents ⟨buffer, some buffer.storage, r, w⟩ := by
    rw [← hs, List.take_length]
    rfl
  have hsub : sizeSub buffer.capacity w = buffer.capacity - w := if_pos hroom
  have hunread : sizeSub w r = w - r := if_pos hr
  have hsum : (buffer.capacity - w + r) % 2 ^ 64 = buffer.capacity - w + r := by
    apply Nat.mod_eq_of_lt
    simp only [StoredString.maxSize] at hshort
    omega
  simp only [StoredTcpBuffer.makeSpace, hsub, hunread, hsum, Fresh, not_true_eq_false, if_false]
  by_cases hend : size ≤ buffer.capacity - w
  · rw [if_pos hend]
    cases resize_cases hshort (w + size) growth with
    | inl herror =>
      left
      rw [herror]
      rfl
    | inr hok =>
      obtain ⟨t, ht, hcontents, hcapacity, hmax, hstorage⟩ := hok
      right
      rw [ht]
      refine ⟨w, _, rfl, extended_of_resize (by omega) hr hold hcontents hcapacity hmax ?_⟩
      rw [hstorage (by omega)]
  · rw [if_neg hend]
    by_cases hcompact : size ≤ buffer.capacity - w + r
    · rw [if_pos hcompact]
      have hmoved : ((buffer.contents.drop r).take (w - r) ++
          buffer.contents.drop (w - r)).take (w - r) = buffer.contents.drop r := by
        have hall : (buffer.contents.drop r).take (w - r) = buffer.contents.drop r :=
          List.take_of_length_le (by rw [List.length_drop]; omega)
        rw [hall, List.take_append_of_le_length (by rw [List.length_drop]; omega),
          List.take_of_length_le (by rw [List.length_drop]; omega)]
      have hmovedShort : ({ buffer with
          contents := (buffer.contents.drop r).take (w - r) ++ buffer.contents.drop (w - r) } :
          StoredString).capacity ≤ StoredString.maxSize := hshort
      cases resize_cases hmovedShort (w - r + size) growth with
      | inl herror =>
        left
        rw [herror]
        rfl
      | inr hok =>
        obtain ⟨t, ht, hcontents, hcapacity, hmax, hstorage⟩ := hok
        right
        rw [ht]
        refine ⟨w - r, _, rfl, extended_of_resize ?_ (Nat.zero_le _) ?_ hcontents hcapacity hmax ?_⟩
        · simp only [List.length_append, List.length_take, List.length_drop]
          omega
        · rw [List.drop_zero]
          exact hmoved
        · rw [hstorage (by simp only; omega)]
    · rw [if_neg hcompact]
      cases resize_cases hshort (w + size) growth with
      | inl herror =>
        left
        rw [herror]
        rfl
      | inr hok =>
        obtain ⟨t, ht, hcontents, hcapacity, hmax, _⟩ := hok
        right
        rw [ht]
        exact ⟨w, _, rfl, extended_of_resize (by omega) hr hold hcontents hcapacity hmax rfl⟩

theorem Valid.append (h : Valid b) (data : List UInt8) (growth : Growth) :
    b.append data growth = .error .lengthError ∨
      ∃ c, b.append data growth = .ok c ∧ Valid c ∧ c.contents = b.contents ++ data := by
  rw [StoredTcpBuffer.append]
  by_cases hdata : data = []
  · right
    rw [if_pos hdata]
    exact ⟨b, rfl, h, by rw [hdata, List.append_nil]⟩
  · rw [if_neg hdata]
    cases h.makeSpace data.length growth with
    | inl herror =>
      left
      rw [herror]
      rfl
    | inr hok =>
      obtain ⟨start, c, hc, hvalid, hspace, hread, hold⟩ := hok
      right
      have hsize := hvalid.size
      have hcopy : c.copyIn start data = .ok { c with
          buffer.contents := c.buffer.contents.take start ++ data ++
            c.buffer.contents.drop (start + data.length) } := if_pos hvalid.fresh
      have hdrop : c.buffer.contents.drop (start + data.length) = [] :=
        List.drop_of_length_le (by omega)
      rw [hdrop, List.append_nil] at hcopy
      rw [hc]
      refine ⟨_, hcopy, ⟨?_, hvalid.read, hvalid.room, hvalid.short, hvalid.fresh⟩, ?_⟩
      · simp only [List.length_append, List.length_take]
        omega
      · have hle : c.readOffset ≤ (c.buffer.contents.take start).length := by
          rw [List.length_take]
          omega
        rw [← hold]
        exact List.drop_append_of_le_length hle

/-- One operation on a valid buffer does to the bytes what it does to the queue. -/
theorem Valid.step (h : Valid b) {operation : Operation}
    (hn : ∀ n, operation = .forwardReadPosition n → b.readOffset + n.toNat < 2 ^ 64) :
    b.step operation = .error .lengthError ∨ ∃ c, b.step operation = .ok c ∧ Valid c ∧
      c.contents = operation.onQueue b.contents := by
  cases operation with
  | append data growth => exact h.append data growth
  | forwardReadPosition n =>
    obtain ⟨hvalid, hcontents⟩ := h.forwardReadPosition (hn n rfl)
    exact .inr ⟨_, rfl, hvalid, hcontents⟩
  | reset storage =>
    obtain ⟨hvalid, hcontents⟩ := h.reset storage
    exact .inr ⟨_, rfl, hvalid, hcontents⟩

theorem Shows.unique {queue' : List UInt8} (h : Shows b queue) (h' : Shows b queue') :
    queue = queue' := by
  have heq := h.readable.symm.trans h'.readable
  cases heq
  rfl

/-- Where the sum wraps, the read offset moves back, and bytes that were read become readable. -/
theorem Valid.not_shows (h : Valid b) {n : UInt64} (hn : 2 ^ 64 ≤ b.readOffset + n.toNat) :
    ¬Shows (b.forwardReadPosition n) (b.contents.drop n.toNat) := by
  intro hshows
  have hr := h.read
  have hroom := h.room
  have hshort := h.short
  simp only [StoredString.maxSize] at hshort
  have hlt := n.toNat_lt
  have hback : (b.readOffset + n.toNat) % 2 ^ 64 = b.readOffset + n.toNat - 2 ^ 64 := by omega
  have hvalid : Valid (b.forwardReadPosition n) :=
    ⟨h.size, Nat.min_le_right _ _, h.room, h.short, h.fresh⟩
  have hlen : b.contents.length = b.writeOffset - b.readOffset := by
    rw [contents, List.length_drop, h.size]
  have hempty : b.contents.drop n.toNat = [] := List.drop_of_length_le (by omega)
  have heq := hshows.unique hvalid.shows
  have hlength := congrArg List.length heq
  rw [hempty, contents, List.length_drop, hvalid.size, List.length_nil] at hlength
  simp only [StoredTcpBuffer.forwardReadPosition, hback] at hlength
  omega

theorem Refines.shows {operations : List Operation} (h : Refines b queue operations) :
    Shows b queue := by
  cases operations with
  | nil => exact h
  | cons operation rest => exact h.1

/-- The sums that wrap are what goes wrong, step by step. -/
theorem Valid.refines_contents_iff (h : Valid b) (operations : List Operation) :
    Refines b b.contents operations ↔ NoWrap b operations := by
  induction operations generalizing b with
  | nil => exact ⟨fun _ => trivial, fun _ => h.shows⟩
  | cons operation rest ih =>
    constructor
    · intro hrefines
      obtain ⟨_, hrest⟩ := hrefines
      have hn : ∀ n, operation = .forwardReadPosition n → b.readOffset + n.toNat < 2 ^ 64 := by
        intro n heq
        subst heq
        by_contra hwrap
        exact h.not_shows (by omega) (Refines.shows hrest)
      refine ⟨hn, fun c hc => ?_⟩
      rw [hc] at hrest
      obtain herror | ⟨d, hd, hvalid, hcontents⟩ := h.step hn
      · rw [hc] at herror
        cases herror
      · rw [hc] at hd
        cases hd
        rw [← ih hvalid, hcontents]
        exact hrest
    · intro hnoWrap
      obtain ⟨hn, hrest⟩ := hnoWrap
      refine ⟨h.shows, ?_⟩
      obtain herror | ⟨c, hc, hvalid, hcontents⟩ := h.step hn
      · rw [herror]
      · rw [hc, ← hcontents]
        exact (ih hvalid).mpr (hrest c hc)

end Specs

/-- A buffer refines a queue of bytes over a run if and only if no `forward_read_position` of the
run makes the sum of the offset and the number wrap. -/
theorem refines_iff (storage : Nat) (operations : List Operation) :
    Refines (new storage) [] operations ↔ NoWrap (new storage) operations :=
  (valid_new storage).refines_contents_iff operations

/-- Two bytes are appended, one is read, and a number that wraps to zero brings it back. -/
theorem not_refines_of_wrap :
    ¬Refines (new 0) [] [.append [97, 98] ⟨0, 0⟩, .forwardReadPosition 1,
      .forwardReadPosition 0xffffffffffffffff] := by
  intro hrefines
  obtain ⟨_, _, _, hshows⟩ := hrefines
  have hreadable := hshows.readable
  revert hreadable
  decide

end StoredTcpBuffer

end XubinhServer
