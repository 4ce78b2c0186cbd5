import XubinhServer.Lib.Decimal
import XubinhServer.Lib.Memory
import XubinhServer.Process

/-! Points of time as text. Each thread keeps the text of a second in two arrays, and writes the
nanoseconds behind it. -/
namespace XubinhServer.TimePoint

open Memory

inductive Purpose where
  | RENAMING
  | PRINTING
  deriving DecidableEq, Repr

def SECOND : Int := 1000 * 1000 * 1000

structure Timespec where
  seconds : Int
  nanoseconds : Int
  deriving DecidableEq, Repr

def getTimespec (nanosecondsFromEpoch : Int) : Timespec :=
  ⟨nanosecondsFromEpoch.tdiv SECOND, nanosecondsFromEpoch.tmod SECOND⟩

/-- The text of `".%09ld"`: at least nine characters, with the sign among them. -/
def nanosecondsText (nanoseconds : Int) : List UInt8 :=
  let sign : List UInt8 := if nanoseconds < 0 then [45] else []
  let digits := Decimal.print nanoseconds.natAbs
  46 :: (sign ++ List.replicate (9 - sign.length - digits.length) 48 ++ digits)

def CACHE_SIZE : Nat := 32

/-- An array of the thread, and how much of it is the text of the second. -/
structure Cache where
  datetimeString : List UInt8
  length : Nat

structure Caches where
  secondsFromEpoch : Int
  forRenaming : Cache
  forPrinting : Cache

def Caches.initial : Caches :=
  ⟨0, ⟨List.replicate CACHE_SIZE 0, 0⟩, ⟨List.replicate CACHE_SIZE 0, 0⟩⟩

def Caches.cache (c : Caches) : Purpose → Cache
  | .RENAMING => c.forRenaming
  | .PRINTING => c.forPrinting

/-- The text of a second, and its terminator. -/
def Cache.fill (cache : Cache) (text : List UInt8) : Option Cache :=
  (putAll cache.datetimeString 0 (text ++ [0])).map (⟨·, text.length⟩)

/-- `snprintf` behind the text of the second. It is told the size of the whole array. -/
def Cache.append (cache : Cache) (text : List UInt8) : Option Cache :=
  (putAll cache.datetimeString cache.length (text.take (CACHE_SIZE - 1) ++ [0])).map
    (⟨·, cache.length⟩)

def Cache.read (cache : Cache) (length : Nat) : Option (List UInt8) :=
  if length ≤ cache.datetimeString.length then some (cache.datetimeString.take length) else none

section

-- `strftime` behind `localtime_r`, with the format of each purpose
variable (strftime : Purpose → Int → List UInt8)

def Caches.update (c : Caches) (seconds : Int) : Option Caches :=
  if c.secondsFromEpoch = seconds then some c
  else do
    let forRenaming ← c.forRenaming.fill (strftime .RENAMING seconds)
    let forPrinting ← c.forPrinting.fill (strftime .PRINTING seconds)
    some ⟨seconds, forRenaming, forPrinting⟩

/-- The nanoseconds behind the text of the second, and the copy of both. -/
def Caches.write (c : Caches) (text : List UInt8) : Purpose → Option (Caches × List UInt8)
  | .RENAMING => do
    let forRenaming ← c.forRenaming.append text
    let result ← forRenaming.read (forRenaming.length + text.length)
    some ({ c with forRenaming := forRenaming }, result)
  | .PRINTING => do
    let forPrinting ← c.forPrinting.append text
    let result ← forPrinting.read (forPrinting.length + text.length)
    some ({ c with forPrinting := forPrinting }, result)

/-- A write or a read outside of an array has no result. -/
def getDatetimeString (c : Caches) (nanosecondsFromEpoch : Int) (purpose : Purpose) :
    Option (Caches × List UInt8) := do
  let timespec := getTimespec nanosecondsFromEpoch
  let c ← c.update strftime timespec.seconds
  c.write (nanosecondsText timespec.nanoseconds) purpose

structure Call where
  nanosecondsFromEpoch : Int
  purpose : Purpose

/-- The calls of a thread, one after the other. -/
def runCalls (c : Caches) : List Call → Option (Caches × List (List UInt8))
  | [] => some (c, [])
  | call :: rest => do
    let (c, result) ← getDatetimeString strftime c call.nanosecondsFromEpoch call.purpose
    let (c, results) ← runCalls c rest
    some (c, result :: results)

/-- What a call without caches would give. -/
def uncached (call : Call) : List UInt8 :=
  let timespec := getTimespec call.nanosecondsFromEpoch
  strftime call.purpose timespec.seconds ++ nanosecondsText timespec.nanoseconds

end

/-- An array whose first bytes are the text of a second. -/
structure Cache.Holds (cache : Cache) (text : List UInt8) : Prop where
  size : cache.datetimeString.length = CACHE_SIZE
  length : cache.length = text.length
  text : cache.datetimeString.take cache.length = text

def Caches.Hold (c : Caches) (texts : Purpose → List UInt8) : Prop :=
  ∀ purpose, (c.cache purpose).Holds (texts purpose)

variable {strftime : Purpose → Int → List UInt8} {cache : Cache} {c : Caches}
  {text rest : List UInt8} {seconds : Int}

theorem length_nanosecondsText {nanoseconds : Int} (hlow : -SECOND < nanoseconds)
    (hhigh : nanoseconds < SECOND) :
    0 < (nanosecondsText nanoseconds).length ∧ (nanosecondsText nanoseconds).length ≤ 11 := by
  have hsmall : nanoseconds.natAbs < 10 ^ 9 := by
    rw [SECOND] at hlow hhigh
    omega
  have hdigits : (Decimal.print nanoseconds.natAbs).length ≤ 9 :=
    Decimal.length_print_le_of_lt (by decide) hsmall
  simp only [nanosecondsText, List.length_cons, List.length_append, List.length_replicate]
  split
  · rw [List.length_singleton]
    omega
  · rw [List.length_nil]
    omega

theorem Cache.Holds.fill (h : cache.Holds rest) (hroom : text.length < CACHE_SIZE) :
    ∃ cache', cache.fill text = some cache' ∧ cache'.Holds text := by
  have hsize := h.size
  have hwritten : 0 + (text ++ [0]).length ≤ cache.datetimeString.length := by
    rw [List.length_append, List.length_singleton]
    omega
  have hfill : cache.fill text = some ⟨splice cache.datetimeString 0 (text ++ [0]),
      text.length⟩ := by
    rw [Cache.fill, putAll_eq hwritten]
    rfl
  have htake := take_splice_append (s := text) (t := [0]) (Nat.zero_le cache.datetimeString.length)
  rw [Nat.zero_add] at htake
  exact ⟨_, hfill, (length_splice hwritten).trans hsize, rfl, htake⟩

theorem Cache.Holds.append (h : cache.Holds text)
    (hroom : text.length + rest.length < CACHE_SIZE) :
    ∃ cache', cache.append rest = some cache' ∧ cache'.Holds text ∧
      cache'.read (cache'.length + rest.length) = some (text ++ rest) := by
  have hsize := h.size
  have hlength := h.length
  have hwhole : rest.take (CACHE_SIZE - 1) = rest := List.take_of_length_le (by omega)
  have hwritten : cache.length + (rest ++ [0]).length ≤ cache.datetimeString.length := by
    rw [List.length_append, List.length_singleton]
    omega
  have happend : cache.append rest = some ⟨splice cache.datetimeString cache.length (rest ++ [0]),
      cache.length⟩ := by
    rw [Cache.append, hwhole, putAll_eq hwritten]
    rfl
  have hp : cache.length ≤ cache.datetimeString.length := by omega
  have hsame : (splice cache.datetimeString cache.length (rest ++ [0])).length = CACHE_SIZE :=
    (length_splice hwritten).trans hsize
  have hinside : cache.length + rest.length ≤
      (splice cache.datetimeString cache.length (rest ++ [0])).length := by
    rw [hsame]
    omega
  have htake : (splice cache.datetimeString cache.length (rest ++ [0])).take
      (cache.length + rest.length) = text ++ rest := by
    rw [take_splice_append hp, h.text]
  exact ⟨_, happend, ⟨hsame, hlength, (take_splice_self hp).trans h.text⟩,
    (if_pos hinside).trans (congrArg some htake)⟩

theorem Caches.Hold.write {texts : Purpose → List UInt8} (h : c.Hold texts)
    (hroom : ∀ purpose, (texts purpose).length + text.length < CACHE_SIZE) (purpose : Purpose) :
    ∃ c', c.write text purpose = some (c', texts purpose ++ text) ∧
      c'.secondsFromEpoch = c.secondsFromEpoch ∧ c'.Hold texts := by
  obtain ⟨cache, happend, hholds, hread⟩ := (h purpose).append (hroom purpose)
  cases purpose with
  | RENAMING =>
    have hwrite : c.write text .RENAMING =
        some ({ c with forRenaming := cache }, texts .RENAMING ++ text) := by
      rw [Caches.write, show c.forRenaming.append text = some cache from happend,
        Option.bind_eq_bind, Option.bind_some, hread]
      rfl
    refine ⟨_, hwrite, rfl, fun purpose => ?_⟩
    cases purpose with
    | RENAMING => exact hholds
    | PRINTING => exact h .PRINTING
  | PRINTING =>
    have hwrite : c.write text .PRINTING =
        some ({ c with forPrinting := cache }, texts .PRINTING ++ text) := by
      rw [Caches.write, show c.forPrinting.append text = some cache from happend,
        Option.bind_eq_bind, Option.bind_some, hread]
      rfl
    refine ⟨_, hwrite, rfl, fun purpose => ?_⟩
    cases purpose with
    | RENAMING => exact h .RENAMING
    | PRINTING => exact hholds

/-- What the arrays hold behind a call for a second. -/
def textsAt (strftime : Purpose → Int → List UInt8) (c : Caches) (texts : Purpose → List UInt8)
    (seconds : Int) : Purpose → List UInt8 :=
  if c.secondsFromEpoch = seconds then texts else (strftime · seconds)

theorem Caches.Hold.update {texts : Purpose → List UInt8} (h : c.Hold texts)
    (hstrftime : ∀ purpose seconds, (strftime purpose seconds).length = 19) (seconds : Int) :
    ∃ c', c.update strftime seconds = some c' ∧ c'.secondsFromEpoch = seconds ∧
      c'.Hold (textsAt strftime c texts seconds) := by
  rw [Caches.update, textsAt]
  split
  · rename_i hsame
    exact ⟨c, rfl, hsame, h⟩
  · have hroom : ∀ purpose, (strftime purpose seconds).length < CACHE_SIZE := by
      intro purpose
      rw [hstrftime]
      decide
    obtain ⟨forRenaming, hrenaming, hholds⟩ := (h .RENAMING).fill (hroom .RENAMING)
    obtain ⟨forPrinting, hprinting, hholds'⟩ := (h .PRINTING).fill (hroom .PRINTING)
    rw [show c.forRenaming.fill _ = some forRenaming from hrenaming,
      show c.forPrinting.fill _ = some forPrinting from hprinting]
    refine ⟨_, rfl, rfl, fun purpose => ?_⟩
    cases purpose with
    | RENAMING => exact hholds
    | PRINTING => exact hholds'

/-- No call writes or reads outside of the arrays, and each returns what they hold. -/
theorem Caches.Hold.call {texts : Purpose → List UInt8} (h : c.Hold texts)
    (hstrftime : ∀ purpose seconds, (strftime purpose seconds).length = 19)
    (htexts : ∀ purpose, (texts purpose).length ≤ 19) (call : Call) :
    ∃ c', getDatetimeString strftime c call.nanosecondsFromEpoch call.purpose = some (c',
        textsAt strftime c texts (getTimespec call.nanosecondsFromEpoch).seconds call.purpose ++
          nanosecondsText (getTimespec call.nanosecondsFromEpoch).nanoseconds) ∧
      c'.secondsFromEpoch = (getTimespec call.nanosecondsFromEpoch).seconds ∧
      c'.Hold (textsAt strftime c texts (getTimespec call.nanosecondsFromEpoch).seconds) := by
  obtain ⟨c', hupdate, hseconds, hholds⟩ :=
    h.update hstrftime (getTimespec call.nanosecondsFromEpoch).seconds
  have hnanoseconds := length_nanosecondsText
    (Int.lt_tmod_of_pos call.nanosecondsFromEpoch (by decide : 0 < SECOND))
    (Int.tmod_lt_of_pos call.nanosecondsFromEpoch (by decide))
  have hroom : ∀ purpose, (textsAt strftime c texts
      (getTimespec call.nanosecondsFromEpoch).seconds purpose).length +
      (nanosecondsText (getTimespec call.nanosecondsFromEpoch).nanoseconds).length <
        CACHE_SIZE := by
    intro purpose
    have htext : (textsAt strftime c texts
        (getTimespec call.nanosecondsFromEpoch).seconds purpose).length ≤ 19 := by
      rw [textsAt]
      split
      · exact htexts purpose
      · exact Nat.le_of_eq (hstrftime _ _)
    exact Nat.lt_of_le_of_lt (Nat.add_le_add htext hnanoseconds.2) (by decide)
  obtain ⟨c'', hwrite, hsame, hholds'⟩ := hholds.write hroom call.purpose
  rw [getDatetimeString, hupdate, Option.bind_eq_bind, Option.bind_some, hwrite]
  exact ⟨c'', rfl, hsame.trans hseconds, hholds'⟩

/-- The arrays hold the text of the second that is remembered. -/
def Caches.Current (strftime : Purpose → Int → List UInt8) (c : Caches) : Prop :=
  c.Hold (strftime · c.secondsFromEpoch)

/-- The arrays hold no text yet. The second that is remembered is the epoch. -/
def Caches.Unused (c : Caches) : Prop := c.secondsFromEpoch = 0 ∧ c.Hold fun _ => []

theorem unused_initial : Caches.initial.Unused := by
  refine ⟨rfl, fun purpose => ?_⟩
  cases purpose <;> exact ⟨rfl, rfl, rfl⟩

theorem Caches.Current.call (h : c.Current strftime)
    (hstrftime : ∀ purpose seconds, (strftime purpose seconds).length = 19) (call : Call) :
    ∃ c', getDatetimeString strftime c call.nanosecondsFromEpoch call.purpose =
      some (c', uncached strftime call) ∧ c'.Current strftime := by
  obtain ⟨c', hcall, hseconds, hholds⟩ :=
    Caches.Hold.call h hstrftime (fun _ => Nat.le_of_eq (hstrftime _ _)) call
  have htexts : textsAt strftime c (strftime · c.secondsFromEpoch)
      (getTimespec call.nanosecondsFromEpoch).seconds =
      (strftime · (getTimespec call.nanosecondsFromEpoch).seconds) := by
    rw [textsAt]
    split
    · rename_i hsame
      rw [hsame]
    · rfl
  rw [htexts] at hcall hholds
  rw [← hseconds] at hholds
  exact ⟨c', hcall, hholds⟩

/-- The first call for another second than the epoch fills the arrays. -/
theorem Caches.Unused.call_of_ne (h : c.Unused)
    (hstrftime : ∀ purpose seconds, (strftime purpose seconds).length = 19) {call : Call}
    (hne : (getTimespec call.nanosecondsFromEpoch).seconds ≠ 0) :
    ∃ c', getDatetimeString strftime c call.nanosecondsFromEpoch call.purpose =
      some (c', uncached strftime call) ∧ c'.Current strftime := by
  obtain ⟨c', hcall, hseconds, hholds⟩ :=
    h.2.call hstrftime (fun _ => Nat.zero_le 19) call
  have htexts : textsAt strftime c (fun _ => []) (getTimespec call.nanosecondsFromEpoch).seconds =
      (strftime · (getTimespec call.nanosecondsFromEpoch).seconds) := by
    rw [textsAt, h.1, if_neg (Ne.symm hne)]
  rw [htexts] at hcall hholds
  rw [← hseconds] at hholds
  exact ⟨c', hcall, hholds⟩

/-- A call for the epoch finds the second in the cache, which has no text of it. -/
theorem Caches.Unused.call_of_eq (h : c.Unused)
    (hstrftime : ∀ purpose seconds, (strftime purpose seconds).length = 19) {call : Call}
    (heq : (getTimespec call.nanosecondsFromEpoch).seconds = 0) :
    ∃ c', getDatetimeString strftime c call.nanosecondsFromEpoch call.purpose =
      some (c', nanosecondsText (getTimespec call.nanosecondsFromEpoch).nanoseconds) ∧
      c'.Unused := by
  obtain ⟨c', hcall, hseconds, hholds⟩ :=
    h.2.call hstrftime (fun _ => Nat.zero_le 19) call
  have htexts : textsAt strftime c (fun _ => [])
      (getTimespec call.nanosecondsFromEpoch).seconds = fun _ => [] := by
    rw [textsAt, h.1, if_pos heq.symm]
  rw [htexts] at hcall hholds
  exact ⟨c', hcall, hseconds.trans heq, hholds⟩

theorem runCalls_cons {call : Call} {calls : List Call} {c' : Caches} {result : List UInt8}
    (hcall : getDatetimeString strftime c call.nanosecondsFromEpoch call.purpose =
      some (c', result)) {r : Caches × List (List UInt8)}
    (hrest : runCalls strftime c' calls = some r) :
    runCalls strftime c (call :: calls) = some (r.1, result :: r.2) := by
  simp only [runCalls, hcall, hrest, Option.bind_eq_bind, Option.bind_some]

theorem runCalls_current (h : c.Current strftime)
    (hstrftime : ∀ purpose seconds, (strftime purpose seconds).length = 19)
    (calls : List Call) :
    ∃ c', runCalls strftime c calls = some (c', calls.map (uncached strftime)) := by
  induction calls generalizing c with
  | nil => exact ⟨c, rfl⟩
  | cons call calls ih =>
    obtain ⟨c', hcall, hcurrent⟩ := h.call hstrftime call
    obtain ⟨c'', hrest⟩ := ih hcurrent
    exact ⟨c'', runCalls_cons hcall hrest⟩

/-- Whatever the results are, there are some. -/
theorem runCalls_unused (h : c.Unused)
    (hstrftime : ∀ purpose seconds, (strftime purpose seconds).length = 19)
    (calls : List Call) : ∃ r, runCalls strftime c calls = some r := by
  induction calls generalizing c with
  | nil => exact ⟨_, rfl⟩
  | cons call calls ih =>
    by_cases hepoch : (getTimespec call.nanosecondsFromEpoch).seconds = 0
    · obtain ⟨c', hcall, hunused⟩ := h.call_of_eq hstrftime hepoch
      obtain ⟨r, hrest⟩ := ih hunused
      exact ⟨_, runCalls_cons hcall hrest⟩
    · obtain ⟨c', hcall, hcurrent⟩ := h.call_of_ne hstrftime hepoch
      obtain ⟨c'', hrest⟩ := runCalls_current hcurrent hstrftime calls
      exact ⟨_, runCalls_cons hcall hrest⟩

/-- The calls of a thread stay inside of the arrays, and return what calls without caches would
return if and only if the first one is for another second than the epoch. -/
theorem runCalls_eq_uncached_iff
    (hstrftime : ∀ purpose seconds, (strftime purpose seconds).length = 19)
    (calls : List Call) : ∃ c results, runCalls strftime .initial calls = some (c, results) ∧
      (results = calls.map (uncached strftime) ↔
        ∀ call ∈ calls.head?, (getTimespec call.nanosecondsFromEpoch).seconds ≠ 0) := by
  cases calls with
  | nil => exact ⟨_, _, rfl, iff_of_true rfl fun _ hcall => by cases hcall⟩
  | cons call calls =>
    by_cases hepoch : (getTimespec call.nanosecondsFromEpoch).seconds = 0
    · obtain ⟨c', hcall, hunused⟩ := unused_initial.call_of_eq hstrftime hepoch
      obtain ⟨r, hrest⟩ := runCalls_unused hunused hstrftime calls
      refine ⟨_, _, runCalls_cons hcall hrest, iff_of_false (fun heq => ?_) fun hfirst => ?_⟩
      · have hfirst := (List.cons.inj heq).1
        have hlength := congrArg List.length hfirst
        rw [uncached, List.length_append, hstrftime] at hlength
        omega
      · exact hfirst call rfl hepoch
    · obtain ⟨c', hcall, hcurrent⟩ := unused_initial.call_of_ne hstrftime hepoch
      obtain ⟨c'', hrest⟩ := runCalls_current hcurrent hstrftime calls
      refine ⟨_, _, runCalls_cons hcall hrest, iff_of_true rfl fun first hfirst => ?_⟩
      cases hfirst
      exact hepoch

/-- A `strftime` in UTC, for two seconds. -/
def exampleStrftime (purpose : Purpose) (seconds : Int) : List UInt8 :=
  match purpose with
  | .RENAMING => bytes (if seconds = 1704067200 then "2024_01_01_00_00_00" else
      "1970_01_01_00_00_00")
  | .PRINTING => bytes (if seconds = 1704067200 then "2024-01-01 00:00:00" else
      "1970-01-01 00:00:00")

theorem length_exampleStrftime (purpose : Purpose) (seconds : Int) :
    (exampleStrftime purpose seconds).length = 19 := by
  cases purpose <;> rw [exampleStrftime] <;> split <;> rfl

/-- Two calls in a later second, and one for the epoch. -/
theorem runCalls_eq_uncached_iff_utc : ∃ c results, runCalls exampleStrftime .initial
      [⟨1704067200000000005, .PRINTING⟩, ⟨1704067200000000006, .RENAMING⟩, ⟨0, .PRINTING⟩] =
        some (c, results) ∧
      results = [⟨1704067200000000005, .PRINTING⟩, ⟨1704067200000000006, .RENAMING⟩,
        ⟨0, .PRINTING⟩].map (uncached exampleStrftime) := by
  obtain ⟨c, results, hrun, hiff⟩ := runCalls_eq_uncached_iff length_exampleStrftime
    [⟨1704067200000000005, .PRINTING⟩, ⟨1704067200000000006, .RENAMING⟩, ⟨0, .PRINTING⟩]
  refine ⟨c, results, hrun, hiff.mpr fun call hcall => ?_⟩
  cases hcall
  decide

/-- The first call of a thread for the epoch itself returns `.000000000`. -/
theorem not_runCalls_eq_uncached : ¬∀ (strftime : Purpose → Int → List UInt8),
    (∀ purpose seconds, (strftime purpose seconds).length = 19) → ∀ calls,
      ∃ c, runCalls strftime .initial calls = some (c, calls.map (uncached strftime)) := by
  intro hcached
  obtain ⟨c, hrun⟩ := hcached exampleStrftime length_exampleStrftime [⟨0, .PRINTING⟩]
  obtain ⟨c', hcall, _⟩ := unused_initial.call_of_eq length_exampleStrftime
    (by decide : (getTimespec (Call.mk 0 .PRINTING).nanosecondsFromEpoch).seconds = 0)
  have hnil : runCalls exampleStrftime c' [] = some (c', []) := rfl
  have hone := runCalls_cons hcall hnil
  rw [hone, Option.some.injEq, Prod.mk.injEq, List.map_singleton, List.cons.injEq] at hrun
  have hlength := congrArg List.length hrun.2.1
  rw [uncached, List.length_append, length_exampleStrftime] at hlength
  omega

end XubinhServer.TimePoint
