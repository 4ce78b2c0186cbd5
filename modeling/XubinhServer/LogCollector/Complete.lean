import XubinhServer.LogCollector

/-! What becomes of the entries: every buffer shows the entries that it holds, in the order in
which they have been taken, and the buffers stay in their order up to the log file. -/
namespace XubinhServer.LogCollector

open Transition

/-- The data is made of the entries, whole and in their order, and of whole `flush` lines. -/
inductive Lines : List UInt8 → List (List UInt8) → Prop
  | nil : Lines [] []
  | entry {data : List UInt8} {entries : List (List UInt8)} (h : Lines data entries)
      (entry : List UInt8) : Lines (data ++ entry) (entries ++ [entry])
  | flush {data : List UInt8} {entries : List (List UInt8)} (h : Lines data entries) :
      Lines (data ++ bytes "flush\n") entries

theorem Lines.append {data data' : List UInt8} {entries entries' : List (List UInt8)}
    (h : Lines data entries) (h' : Lines data' entries') :
    Lines (data ++ data') (entries ++ entries') := by
  induction h' with
  | nil =>
    rw [List.append_nil, List.append_nil]
    exact h
  | entry _ entry ih =>
    rw [← List.append_assoc, ← List.append_assoc]
    exact ih.entry entry
  | flush _ ih =>
    rw [← List.append_assoc]
    exact ih.flush

/-- The bytes behind a pointer. -/
def contents (pointer : ChunkBufferPtr) : List UInt8 :=
  match pointer with
  | none => []
  | some buffer => buffer.data

/-- A pointer that is not null, with the entries of its buffer. -/
def Shows (pointer : ChunkBufferPtr) (entries : List (List UInt8)) : Prop :=
  pointer ≠ none ∧ Lines (contents pointer) entries

/-- A new buffer has room for the entry. Any other entry is thrown away. -/
def fits (entry : List UInt8) : Bool := entry.length ≤ LOG_CHUNK_BUFFER_SIZE - 1

/-- What a pass writes: a message if it drops buffers, and sixteen buffers at most. -/
def Pass.output (p : Pass) : List UInt8 :=
  (if p.buffers.length > dropThresholdOfChunkBuffersToBeWritten then
      droppedMessage (toInt (p.buffers.length - dropThresholdOfChunkBuffersToBeWritten)) p.date
    else []) ++
  (p.buffers.take dropThresholdOfChunkBuffersToBeWritten).flatMap contents

/-- The entries of the buffers, in their places. -/
structure Entries where
  current : List (List UInt8)
  fulled : List (List (List UInt8))
  toBeWritten : List (List (List UInt8))
  passes : List (List (List (List UInt8)))

def Entries.all (e : Entries) : List (List UInt8) :=
  e.passes.flatten.flatten ++ (e.toBeWritten.flatten ++ (e.fulled.flatten ++ e.current))

/-- The spares of the background thread are empty, or in use while it writes. -/
def Background.Ready (b : Background) (output : List UInt8)
    (entries : List (List UInt8)) : Prop :=
  match b.phase with
  | .collecting | .waiting => b.toBeWritten = [] ∧ b.spareForCurrent = some .new ∧
      b.spareForSpare = some .new ∧ b.logFile = output
  | .writing => 2 ≤ b.toBeWritten.length ∧ b.spareForCurrent = none ∧ b.spareForSpare = none ∧
      b.logFile = output
  | .returned entriesTaken => ∃ last lastEntries, Lines last lastEntries ∧
      entries ++ lastEntries = entriesTaken.filter fits ∧ b.logFile = output ++ last

/-- The spare is null exactly when a full buffer is waiting. -/
def SpareKept (c : LogCollector) : Prop :=
  c.spareChunkBufferPtr = if c.fulledChunkBuffers = [] then some .new else none

structure Sound (s : State) (e : Entries) : Prop where
  fault : s.fault = none
  current : Shows s.collector.currentChunkBufferPtr e.current
  spare : SpareKept s.collector
  fulled : List.Forall₂ Shows s.collector.fulledChunkBuffers e.fulled
  toBeWritten : List.Forall₂ Shows s.background.toBeWritten e.toBeWritten
  passes : List.Forall₂ (fun pass entries => List.Forall₂ Shows pass.buffers entries)
    s.passes e.passes
  ready : s.background.Ready (s.passes.flatMap Pass.output) e.passes.flatten.flatten
  all : e.all = s.entriesTaken.filter fits

variable {s s' : State} {e : Entries} {c : LogCollector} {b : Background} {entry : List UInt8}
  {buffer : LogChunkBuffer} {pointers : List ChunkBufferPtr} {entries : List (List (List UInt8))}

theorem fits_of_small (h : entry.length < LOG_ENTRY_BUFFER_SIZE) : fits entry := by
  rw [LOG_ENTRY_BUFFER_SIZE] at h
  rw [fits, LOG_CHUNK_BUFFER_SIZE, decide_eq_true_iff]
  omega

theorem append_new (h : fits entry) :
    ((FixedSizeLogBuffer.new : LogChunkBuffer).append entry).data = entry :=
  FixedSizeLogBuffer.append_data (of_decide_eq_true h)

theorem append_new_of_not_fits (h : ¬fits entry) :
    ((FixedSizeLogBuffer.new : LogChunkBuffer).append entry).data = [] := by
  have hlarge : entry.length > (FixedSizeLogBuffer.new : LogChunkBuffer).lengthOfSpare := by
    rw [fits, decide_eq_true_iff] at h
    exact Nat.lt_of_not_le h
  rw [FixedSizeLogBuffer.append, dif_pos hlarge]
  rfl

theorem fits_of_lt_lengthOfSpare (h : entry.length < buffer.lengthOfSpare) : fits entry := by
  rw [FixedSizeLogBuffer.lengthOfSpare] at h
  rw [fits, decide_eq_true_iff]
  omega

/-- An entry goes to the end of the current buffer, or to the beginning of a new one if that has
room for it. -/
theorem takeThisLog_cases (hcurrent : c.currentChunkBufferPtr = some buffer)
    (hspare : SpareKept c) (entry : List UInt8) :
    ∃ next : LogChunkBuffer,
      (fits entry ∧ next.data = buffer.data ++ entry ∧
        c.takeThisLog entry = .ok { c with currentChunkBufferPtr := some next }) ∨
      (next.data = (if fits entry then entry else []) ∧
        c.takeThisLog entry = .ok { c with
          fulledChunkBuffers := c.fulledChunkBuffers ++ [some buffer]
          spareChunkBufferPtr := none
          currentChunkBufferPtr := some next }) := by
  by_cases hfits : entry.length < buffer.lengthOfSpare
  · refine ⟨buffer.append entry, .inl ⟨fits_of_lt_lengthOfSpare hfits,
      FixedSizeLogBuffer.append_data (Nat.le_of_lt hfits), ?_⟩⟩
    simp [takeThisLog, hcurrent, deref, hfits, bind, Except.bind, pure, Except.pure]
  · have hdata : ((FixedSizeLogBuffer.new : LogChunkBuffer).append entry).data =
        if fits entry then entry else [] := by
      split
      · rename_i hnew
        exact append_new hnew
      · rename_i hnew
        exact append_new_of_not_fits hnew
    refine ⟨FixedSizeLogBuffer.new.append entry, .inr ⟨hdata, ?_⟩⟩
    rw [SpareKept] at hspare
    by_cases hfulled : c.fulledChunkBuffers = []
    · rw [if_pos hfulled] at hspare
      simp [takeThisLog, hcurrent, deref, hfits, hspare, bind, Except.bind, pure, Except.pure]
    · rw [if_neg hfulled] at hspare
      simp [takeThisLog, hcurrent, deref, hfits, hspare, bind, Except.bind, pure, Except.pure]

theorem swapOut_eq (h : c.spareChunkBufferPtr = none) :
    swapOut c b = .ok ({ c with
        fulledChunkBuffers := b.toBeWritten
        currentChunkBufferPtr := b.spareForCurrent
        spareChunkBufferPtr := b.spareForSpare },
      { b with
        toBeWritten := c.fulledChunkBuffers ++ [c.currentChunkBufferPtr]
        spareForCurrent := none
        spareForSpare := none
        phase := .writing }) := by
  simp [swapOut, h, pure, Except.pure]

theorem reset_eq (buffer : LogChunkBuffer) : buffer.reset = .new := rfl

theorem writeAll_eq {logFile : List UInt8} (h : List.Forall₂ Shows pointers entries) :
    writeAll logFile pointers = .ok (logFile ++ pointers.flatMap contents) := by
  induction h generalizing logFile with
  | nil => simp [writeAll, pure, Except.pure]
  | @cons pointer _ rest _ hpointer _ ih =>
    obtain ⟨hnull, _⟩ := hpointer
    cases pointer with
    | none => exact absurd rfl hnull
    | some buffer =>
      simp only [writeAll, deref, bind, Except.bind, pure, Except.pure]
      rw [ih, List.flatMap_cons, List.append_assoc]
      rfl

theorem output_of_le (date : String)
    (h : ¬pointers.length > dropThresholdOfChunkBuffersToBeWritten) :
    Pass.output ⟨pointers, date⟩ = pointers.flatMap contents := by
  rw [Pass.output, if_neg h, List.nil_append, List.take_of_length_le (Nat.not_lt.mp h)]

theorem output_of_gt (date : String)
    (h : pointers.length > dropThresholdOfChunkBuffersToBeWritten) :
    Pass.output ⟨pointers, date⟩ =
      droppedMessage (toInt (pointers.length - dropThresholdOfChunkBuffersToBeWritten)) date ++
        (pointers.take dropThresholdOfChunkBuffersToBeWritten).flatMap contents := by
  rw [Pass.output, if_pos h]

/-- A pass writes its output, and recycles the first two of its buffers. -/
theorem writePass_eq {entries : List (List (List UInt8))} (date : String)
    (hlength : 2 ≤ b.toBeWritten.length) (hshows : List.Forall₂ Shows b.toBeWritten entries)
    (hforCurrent : b.spareForCurrent = none) (hforSpare : b.spareForSpare = none) :
    writePass date b = .ok { b with
      spareForCurrent := some .new
      spareForSpare := some .new
      toBeWritten := []
      logFile := b.logFile ++ Pass.output ⟨b.toBeWritten, date⟩
      phase := .collecting } := by
  obtain ⟨first, second, rest, hsplit⟩ :
      ∃ first second rest, b.toBeWritten = first :: second :: rest := by
    cases htwo : b.toBeWritten with
    | nil => simp [htwo] at hlength
    | cons first rest =>
      cases rest with
      | nil => simp [htwo] at hlength
      | cons second rest => exact ⟨first, second, rest, rfl⟩
  rw [hsplit] at hshows
  obtain ⟨buffer, hfirst⟩ : ∃ buffer, first = some buffer := by
    cases hshows with
    | cons hfirst _ => exact Option.ne_none_iff_exists'.mp hfirst.1
  obtain ⟨buffer', hsecond⟩ : ∃ buffer, second = some buffer := by
    cases hshows with
    | cons _ hrest =>
      cases hrest with
      | cons hsecond _ => exact Option.ne_none_iff_exists'.mp hsecond.1
  subst hfirst hsecond
  by_cases hdrop :
      (some buffer :: some buffer' :: rest).length > dropThresholdOfChunkBuffersToBeWritten
  · have hwrite := List.forall₂_take dropThresholdOfChunkBuffersToBeWritten hshows
    have hget : (List.take dropThresholdOfChunkBuffersToBeWritten
        (some buffer :: some buffer' :: rest))[0]? = some (some buffer) := rfl
    have hget' : (List.take dropThresholdOfChunkBuffersToBeWritten
        (some buffer :: some buffer' :: rest))[1]? = some (some buffer') := rfl
    rw [hsplit, output_of_gt date hdrop]
    simp only [writePass, hsplit, hdrop, if_true, bind, Except.bind, writeAll_eq hwrite]
    simp [hget, hget', hforCurrent, hforSpare, deref, reset_eq, pure, Except.pure]
  · rw [hsplit, output_of_le date hdrop]
    simp only [writePass, hsplit, hdrop, if_false, bind, Except.bind, writeAll_eq hshows]
    simp [hforCurrent, hforSpare, deref, reset_eq, pure, Except.pure]

namespace Sound

theorem take (h : Sound s e) (entry : List UInt8) : ∃ e', Sound (s.take entry) e' := by
  obtain ⟨hnull, hlines⟩ := h.current
  obtain ⟨buffer, hbuffer⟩ := Option.ne_none_iff_exists'.mp hnull
  rw [hbuffer] at hlines
  have hall := h.all
  obtain ⟨next, ⟨hfits, hdata, htake⟩ | ⟨hdata, htake⟩⟩ :=
    takeThisLog_cases hbuffer h.spare entry
  · rw [State.take, htake]
    refine ⟨{ e with current := e.current ++ [entry] }, h.fault, ⟨nofun, ?_⟩, h.spare, h.fulled,
      h.toBeWritten, h.passes, h.ready, ?_⟩
    · rw [contents, hdata]
      exact hlines.entry entry
    · rw [List.filter_append, ← hall, List.filter_cons_of_pos hfits]
      simp [Entries.all]
  · rw [State.take, htake]
    refine ⟨{ e with fulled := e.fulled ++ [e.current], current := [entry].filter fits }, h.fault,
      ⟨nofun, ?_⟩, ?_, ?_, h.toBeWritten, h.passes, h.ready, ?_⟩
    · rw [contents, hdata]
      by_cases hnew : fits entry
      · rw [if_pos hnew, List.filter_cons_of_pos hnew]
        exact Lines.nil.entry entry
      · rw [if_neg hnew, List.filter_cons_of_neg hnew]
        exact Lines.nil
    · simp [SpareKept]
    · exact List.rel_append h.fulled (.cons ⟨nofun, hlines⟩ .nil)
    · rw [List.filter_append, ← hall]
      simp [Entries.all]

theorem of_flags (h : Sound s e) (needFlush needStop : Bool) :
    Sound { s with collector := { s.collector with
      needFlush := needFlush, needStop := needStop } } e :=
  ⟨h.fault, h.current, h.spare, h.fulled, h.toBeWritten, h.passes, h.ready, h.all⟩

theorem ready_of_phase (h : Sound s e) (hphase : s.background.phase = .collecting ∨
    s.background.phase = .waiting) :
    s.background.toBeWritten = [] ∧ s.background.spareForCurrent = some .new ∧
      s.background.spareForSpare = some .new ∧
      s.background.logFile = s.passes.flatMap Pass.output := by
  have hready := h.ready
  rw [Background.Ready] at hready
  cases hphase with
  | inl hcollecting =>
    rw [hcollecting] at hready
    exact hready
  | inr hwaiting =>
    rw [hwaiting] at hready
    exact hready

/-- The spares of the background thread come into use, and the buffers are swapped out. -/
theorem swapOut (h : Sound s e) (hphase : s.background.phase = .collecting ∨
      s.background.phase = .waiting) {c : LogCollector} (entries : List (List (List UInt8)))
    (hcurrent : c.currentChunkBufferPtr = s.collector.currentChunkBufferPtr)
    (hspare : c.spareChunkBufferPtr = none) (hfulled : c.fulledChunkBuffers ≠ [])
    (hshows : List.Forall₂ Shows c.fulledChunkBuffers entries)
    (hentries : entries.flatten = e.fulled.flatten) :
    ∃ c' b' e', LogCollector.swapOut c s.background = .ok (c', b') ∧
      Sound { s with collector := c', background := b' } e' := by
  obtain ⟨hnil, hforCurrent, hforSpare, hlog⟩ := h.ready_of_phase hphase
  have hwritten := h.toBeWritten
  rw [hnil] at hwritten
  have hall := h.all
  refine ⟨_, _, ⟨[], [], entries ++ [e.current], e.passes⟩, swapOut_eq hspare, h.fault, ?_, ?_, ?_,
    ?_, h.passes, ?_, ?_⟩
  · simp only [hforCurrent]
    exact ⟨nofun, .nil⟩
  · simp [SpareKept, hnil, hforSpare]
  · simp only [hnil]
    exact .nil
  · refine List.rel_append hshows (.cons ?_ .nil)
    rw [hcurrent]
    exact h.current
  · refine ⟨?_, rfl, rfl, hlog⟩
    rw [List.length_append, List.length_singleton]
    have hpos := List.length_pos_iff.mpr hfulled
    omega
  · rw [← hall]
    have hempty := List.forall₂_nil_left_iff.mp hwritten
    simp [Entries.all, hempty, hentries]

/-- The end: the current buffer is written. -/
theorem collect_stop (h : Sound s e) (hphase : s.background.phase = .collecting ∨
      s.background.phase = .waiting) (hempty : s.collector.fulledChunkBuffers = [])
    (hstop : s.collector.needStop) : ∃ e', Sound s.collect e' := by
  obtain ⟨hnull, hlines⟩ := h.current
  obtain ⟨buffer, hbuffer⟩ := Option.ne_none_iff_exists'.mp hnull
  rw [hbuffer] at hlines
  obtain ⟨hnil, _, _, hlog⟩ := h.ready_of_phase hphase
  have hfulled := h.fulled
  rw [hempty] at hfulled
  have hwritten := h.toBeWritten
  rw [hnil] at hwritten
  have hlength : buffer.length ≠ 0 ∨ buffer.data = [] := by
    rw [FixedSizeLogBuffer.length]
    cases buffer.data with
    | nil => exact .inr rfl
    | cons x rest => exact .inl (Nat.succ_ne_zero _)
  have hcollect : s.collect = { s with background := { s.background with
      logFile := s.background.logFile ++ buffer.data
      phase := .returned s.entriesTaken } } := by
    cases hlength with
    | inl hlength =>
      simp [State.collect, criticalSection, hempty, hstop, hbuffer, deref, hlength, bind,
        Except.bind, pure, Except.pure]
    | inr hdata =>
      simp [State.collect, criticalSection, hempty, hstop, hbuffer, deref, hdata,
        FixedSizeLogBuffer.length, bind, Except.bind, pure, Except.pure]
  rw [hcollect]
  refine ⟨e, h.fault, h.current, h.spare, h.fulled, h.toBeWritten, h.passes, ?_, h.all⟩
  refine ⟨buffer.data, e.current, hlines, ?_, by rw [hlog]⟩
  rw [← h.all, Entries.all, List.forall₂_nil_left_iff.mp hfulled,
    List.forall₂_nil_left_iff.mp hwritten]
  simp

/-- A flush: the spare becomes a full buffer with a line of its own. -/
theorem collect_flush (h : Sound s e) (hphase : s.background.phase = .collecting ∨
      s.background.phase = .waiting) (hempty : s.collector.fulledChunkBuffers = [])
    (hstop : ¬s.collector.needStop) (hflush : s.collector.needFlush) :
    ∃ e', Sound s.collect e' := by
  have hspare := h.spare
  rw [SpareKept, if_pos hempty] at hspare
  have hdata : ((FixedSizeLogBuffer.new : LogChunkBuffer).append (bytes "flush\n")).data =
      bytes "flush\n" := append_new (by decide)
  have hline : Shows (some (FixedSizeLogBuffer.new.append (bytes "flush\n"))) [] := by
    refine ⟨nofun, ?_⟩
    rw [contents, hdata]
    exact Lines.nil.flush
  obtain ⟨c', b', e', hswap, hsound⟩ := h.swapOut hphase
    (c := { s.collector with
      needFlush := false
      fulledChunkBuffers := s.collector.fulledChunkBuffers ++
        [some (FixedSizeLogBuffer.new.append (bytes "flush\n"))]
      spareChunkBufferPtr := none })
    (e.fulled ++ [[]]) rfl rfl (by simp) (List.rel_append h.fulled (.cons hline .nil)) (by simp)
  have hsection : criticalSection s.entriesTaken s.collector s.background = .ok (c', b') := by
    rw [← hswap]
    simp [criticalSection, hempty, hstop, hflush, hspare, deref, bind, Except.bind, pure,
      Except.pure]
  have hcollect : s.collect = { s with collector := c', background := b' } := by
    rw [State.collect, hsection]
  rw [hcollect]
  exact ⟨e', hsound⟩

theorem collect (h : Sound s e) (hphase : s.background.phase = .collecting ∨
    s.background.phase = .waiting) : ∃ e', Sound s.collect e' := by
  by_cases hempty : s.collector.fulledChunkBuffers = []
  · by_cases hstop : s.collector.needStop
    · exact h.collect_stop hphase hempty hstop
    · by_cases hflush : s.collector.needFlush
      · exact h.collect_flush hphase hempty hstop hflush
      · have hcollect : s.collect =
            { s with background := { s.background with phase := .collecting } } := by
          simp [State.collect, criticalSection, hempty, hstop, hflush, pure, Except.pure]
        rw [hcollect]
        exact ⟨e, h.fault, h.current, h.spare, h.fulled, h.toBeWritten, h.passes,
          h.ready_of_phase hphase, h.all⟩
  · have hspare := h.spare
    rw [SpareKept, if_neg hempty] at hspare
    obtain ⟨c', b', e', hswap, hsound⟩ := h.swapOut hphase e.fulled rfl hspare hempty
      h.fulled rfl
    have hcollect : s.collect = { s with collector := c', background := b' } := by
      simp [State.collect, criticalSection, hempty, hswap]
    rw [hcollect]
    exact ⟨e', hsound⟩

theorem enter (h : Sound s e) (hphase : s.background.phase = .collecting) :
    ∃ e', Sound s.enter e' := by
  by_cases hempty : s.collector.fulledChunkBuffers.isEmpty
  · rw [State.enter, if_pos hempty]
    exact ⟨e, h.fault, h.current, h.spare, h.fulled, h.toBeWritten, h.passes,
      h.ready_of_phase (.inl hphase), h.all⟩
  · rw [State.enter, if_neg hempty]
    exact h.collect (.inl hphase)

theorem ready_of_writing (h : Sound s e) (hphase : s.background.phase = .writing) :
    2 ≤ s.background.toBeWritten.length ∧ s.background.spareForCurrent = none ∧
      s.background.spareForSpare = none ∧
      s.background.logFile = s.passes.flatMap Pass.output := by
  have hready := h.ready
  rw [Background.Ready, hphase] at hready
  exact hready

theorem write (h : Sound s e) (hphase : s.background.phase = .writing) (date : String) :
    ∃ e', Sound (s.write date) e' := by
  obtain ⟨hlength, hforCurrent, hforSpare, hlog⟩ := h.ready_of_writing hphase
  rw [State.write, writePass_eq date hlength h.toBeWritten hforCurrent hforSpare]
  refine ⟨⟨e.current, e.fulled, [], e.passes ++ [e.toBeWritten]⟩, h.fault, h.current, h.spare,
    h.fulled, .nil, List.rel_append h.passes (.cons h.toBeWritten .nil), ⟨rfl, rfl, rfl, ?_⟩, ?_⟩
  · rw [List.flatMap_append, ← hlog]
    simp
  · rw [← h.all]
    simp [Entries.all]

theorem step (h : Sound s e) (hstep : Step s s') : ∃ e', Sound s' e' := by
  cases hstep with
  | take entry hs => exact h.take entry
  | flush hs => exact ⟨e, h.of_flags true s.collector.needStop⟩
  | stop hs => exact ⟨e, h.of_flags s.collector.needFlush true⟩
  | enter hs hphase => exact h.enter hphase
  | wake hs hphase => exact h.collect (.inr hphase)
  | write date hs hphase => exact h.write hphase date

theorem initial : Sound State.initial ⟨[], [], [], []⟩ :=
  ⟨rfl, ⟨nofun, .nil⟩, rfl, .nil, .nil, .nil, ⟨rfl, rfl, rfl, rfl⟩, rfl⟩

end Sound

theorem exists_sound (h : Reaches Step State.initial s) : ∃ e, Sound s e :=
  h.invariant (I := fun s => ∃ e, Sound s e) ⟨_, Sound.initial⟩ fun _ _ hsound hstep => by
    obtain ⟨e, hsound⟩ := hsound
    exact hsound.step hstep

theorem not_null_of_shows (h : List.Forall₂ Shows pointers entries) :
    ∀ pointer ∈ pointers, pointer ≠ none := by
  induction h with
  | nil => exact nofun
  | cons hshows _ ih => exact List.forall_mem_cons.mpr ⟨hshows.1, ih⟩

theorem Lines.of_buffers (h : List.Forall₂ Shows pointers entries) :
    Lines (pointers.flatMap contents) entries.flatten := by
  induction h with
  | nil => exact .nil
  | cons hshows _ ih =>
    rw [List.flatMap_cons, List.flatten_cons]
    exact hshows.2.append ih

theorem Lines.of_passes {passes : List Pass} {entries : List (List (List (List UInt8)))}
    (h : List.Forall₂ (fun pass entries => List.Forall₂ Shows pass.buffers entries) passes entries)
    (hfew : ∀ pass ∈ passes, pass.buffers.length ≤ dropThresholdOfChunkBuffersToBeWritten) :
    Lines (passes.flatMap Pass.output) entries.flatten.flatten := by
  induction h with
  | nil => exact .nil
  | @cons pass _ rest _ hshows _ ih =>
    rw [List.flatMap_cons, List.flatten_cons, List.flatten_append]
    refine Lines.append ?_ (ih fun p hp => hfew p (List.mem_cons_of_mem pass hp))
    have hle := hfew pass List.mem_cons_self
    rw [show pass.output = Pass.output ⟨pass.buffers, pass.date⟩ from rfl,
      output_of_le pass.date (by omega)]
    exact .of_buffers hshows

theorem toInt_eq {n : Nat} (h : n < 2 ^ 31) : toInt n = n := by
  have hpow : ((2 ^ 32 : Nat) : Int) = 2 * 2147483648 := rfl
  refine Int.bmod_eq_of_le_mul_two ?_ ?_
  · rw [hpow]
    omega
  · rw [hpow]
    omega

/-- When the background thread returns, the buffers of its passes and a last one hold the entries
that have been taken, whole and in their order. What it has written is what each pass writes, which
are all buffers of the pass, or the first sixteen and the number of the others. -/
theorem log_complete {entriesTaken : List (List UInt8)} (h : Reaches Step State.initial s)
    (hreturned : s.background.phase = .returned entriesTaken)
    (hentries : ∀ entry ∈ entriesTaken, entry.length < LOG_ENTRY_BUFFER_SIZE) :
    ((∀ pass ∈ s.passes, pass.buffers.length ≤ 16) → Lines s.background.logFile entriesTaken) ∧
    ∃ entries last lastEntries,
      List.Forall₂ (fun pass es => List.Forall₂ Shows pass.buffers es) s.passes entries ∧
      Lines last lastEntries ∧ entries.flatten.flatten ++ lastEntries = entriesTaken ∧
      s.background.logFile = s.passes.flatMap Pass.output ++ last ∧
      ∀ pass ∈ s.passes, 16 < pass.buffers.length →
        pass.output =
          droppedMessage (toInt (pass.buffers.length - 16)) pass.date ++
            (pass.buffers.take 16).flatMap contents ∧
        (pass.buffers.length - 16 < 2 ^ 31 →
          toInt (pass.buffers.length - 16) = (pass.buffers.drop 16).length) := by
  obtain ⟨e, hsound⟩ := exists_sound h
  have hready := hsound.ready
  rw [Background.Ready, hreturned] at hready
  obtain ⟨last, lastEntries, hlast, hall, hlog⟩ := hready
  rw [List.filter_eq_self.mpr fun entry hentry => fits_of_small (hentries entry hentry)] at hall
  refine ⟨fun hfew => ?_, e.passes, last, lastEntries, hsound.passes, hlast, hall, hlog,
    fun pass _ hmany => ⟨output_of_gt pass.date hmany, fun hint => ?_⟩⟩
  · rw [hlog, ← hall]
    exact (Lines.of_passes hsound.passes hfew).append hlast
  · rw [List.length_drop]
    exact toInt_eq hint

/-- An entry is taken, the end is asked for, and the background thread waits and returns. -/
def oneEntry : State :=
  let s := State.initial.take [65]
  { s with collector := { s.collector with needStop := true } }.enter.collect

theorem log_complete_oneEntry : Lines oneEntry.background.logFile [[65]] := by
  have htake : Step State.initial (State.initial.take [65]) :=
    .take [65] rfl
  have hreaches : Reaches Step State.initial oneEntry :=
    .tail (.tail (.tail (.single htake) (.stop rfl)) (.enter rfl rfl)) (.wake rfl rfl)
  exact (log_complete hreaches rfl (by decide)).1 nofun

/-- No pointer that is followed is null, and nothing is thrown. -/
theorem no_null_pointer (h : Reaches Step State.initial s) :
    s.fault = none ∧ s.collector.currentChunkBufferPtr ≠ none ∧
    (s.collector.spareChunkBufferPtr = none ↔ s.collector.fulledChunkBuffers ≠ []) ∧
    (s.background.phase = .writing → 2 ≤ s.background.toBeWritten.length ∧
      (∀ pointer ∈ s.background.toBeWritten, pointer ≠ none) ∧
      s.background.spareForCurrent = none ∧ s.background.spareForSpare = none) := by
  obtain ⟨e, hsound⟩ := exists_sound h
  refine ⟨hsound.fault, hsound.current.1, ?_, fun hphase => ?_⟩
  · have hspare := hsound.spare
    rw [SpareKept] at hspare
    rw [hspare]
    split
    · rename_i hempty
      simp [hempty]
    · rename_i hempty
      simp [hempty]
  · obtain ⟨hlength, hforCurrent, hforSpare, _⟩ := hsound.ready_of_writing hphase
    refine ⟨hlength, fun pointer hpointer => ?_, hforCurrent, hforSpare⟩
    exact not_null_of_shows hsound.toBeWritten pointer hpointer

theorem no_null_pointer_oneEntry : (State.initial.take [65]).fault = none :=
  (no_null_pointer (.single (.take [65] rfl))).1

end XubinhServer.LogCollector
