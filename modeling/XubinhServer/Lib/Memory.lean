import Mathlib.Data.List.TakeDrop

/-! Arrays of bytes that are written at an offset. A write outside has no result. -/
namespace XubinhServer.Memory

def put (memory : List UInt8) (pointer : Nat) (byte : UInt8) : Option (List UInt8) :=
  if pointer < memory.length then some (memory.set pointer byte) else none

/-- The bytes one after the other, from `pointer` on. -/
def putAll (memory : List UInt8) (pointer : Nat) : List UInt8 → Option (List UInt8)
  | [] => some memory
  | byte :: rest => do
    let memory ← put memory pointer byte
    putAll memory (pointer + 1) rest

/-- The array with `data` from `pointer` on. -/
def splice (memory : List UInt8) (pointer : Nat) (data : List UInt8) : List UInt8 :=
  memory.take pointer ++ data ++ memory.drop (pointer + data.length)

/-- `std::reverse` of what lies between two positions. -/
def reverse (memory : List UInt8) (first last : Nat) : List UInt8 :=
  memory.take first ++ ((memory.take last).drop first).reverse ++ memory.drop last

variable {memory s t : List UInt8} {p : Nat}

theorem splice_nil : splice memory p [] = memory := by
  rw [splice, List.append_nil, List.length_nil, Nat.add_zero, List.take_append_drop]

theorem length_splice (hroom : p + s.length ≤ memory.length) :
    (splice memory p s).length = memory.length := by
  rw [splice, List.length_append, List.length_append, List.length_take, List.length_drop]
  omega

theorem take_splice_self (hp : p ≤ memory.length) :
    (splice memory p s).take p = memory.take p := by
  rw [splice, List.append_assoc, List.take_left' (List.length_take_of_le hp)]

theorem take_splice_append (hp : p ≤ memory.length) :
    (splice memory p (s ++ t)).take (p + s.length) = memory.take p ++ s := by
  have hlength : p + s.length = (memory.take p ++ s).length := by
    rw [List.length_append, List.length_take_of_le hp]
  rw [splice, hlength, ← List.append_assoc, List.append_assoc _ t, List.take_left]

theorem take_splice (hp : p ≤ memory.length) :
    (splice memory p s).take (p + s.length) = memory.take p ++ s := by
  have htake := take_splice_append (s := s) (t := []) hp
  rwa [List.append_nil] at htake

theorem drop_splice (hp : p ≤ memory.length) :
    (splice memory p s).drop (p + s.length) = memory.drop (p + s.length) := by
  have hlength : (memory.take p ++ s).length = p + s.length := by
    rw [List.length_append, List.length_take_of_le hp]
  rw [splice, List.drop_append_of_le_length (by omega), List.drop_of_length_le (by omega),
    List.nil_append]

/-- What is written right behind other data continues it. -/
theorem splice_splice (hp : p ≤ memory.length) :
    splice (splice memory p s) (p + s.length) t = splice memory p (s ++ t) := by
  have hdrop : (splice memory p s).drop (p + s.length + t.length) =
      memory.drop (p + (s ++ t).length) := by
    rw [← List.drop_drop, drop_splice hp, List.drop_drop, List.length_append, Nat.add_assoc]
  rw [splice, take_splice hp, hdrop, splice, List.append_assoc (memory.take p)]

theorem put_eq {byte : UInt8} (hp : p < memory.length) :
    put memory p byte = some (splice memory p [byte]) := by
  rw [put, if_pos hp, List.set_eq_take_append_cons_drop, if_pos hp, splice, List.append_assoc]
  rfl

theorem putAll_eq (hroom : p + s.length ≤ memory.length) :
    putAll memory p s = some (splice memory p s) := by
  induction s generalizing memory p with
  | nil => rw [putAll, splice_nil]
  | cons byte s ih =>
    rw [List.length_cons] at hroom
    have hput : p + [byte].length ≤ memory.length := by
      rw [List.length_singleton]
      omega
    have hlength := length_splice hput
    rw [putAll, put_eq hput, Option.bind_eq_bind, Option.bind_some, ih (by omega)]
    exact congrArg some (splice_splice (Nat.le_of_lt hput))

theorem reverse_splice (hp : p ≤ memory.length) :
    reverse (splice memory p (s ++ t)) p (p + s.length) = splice memory p (s.reverse ++ t) := by
  have hprefix : (splice memory p (s ++ t)).take p = memory.take p := take_splice_self hp
  have hboth : splice memory p (s ++ t) = (memory.take p ++ s) ++ (t ++ memory.drop
      (p + (s ++ t).length)) := by
    rw [splice, List.append_assoc, List.append_assoc, List.append_assoc]
  have hlength : (memory.take p ++ s).length = p + s.length := by
    rw [List.length_append, List.length_take_of_le hp]
  have hmiddle : ((splice memory p (s ++ t)).take (p + s.length)).drop p = s := by
    rw [hboth, List.take_left' hlength, List.drop_left' (List.length_take_of_le hp)]
  have hsuffix : (splice memory p (s ++ t)).drop (p + s.length) =
      t ++ memory.drop (p + (s ++ t).length) := by
    rw [hboth, List.drop_left' hlength]
  rw [reverse, hprefix, hmiddle, hsuffix, splice, List.length_append, List.length_append,
    List.length_reverse, List.append_assoc, List.append_assoc, List.append_assoc]

end XubinhServer.Memory
