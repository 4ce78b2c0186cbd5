import XubinhServer.EventLoop.Timers
import XubinhServer.EventLoop.WakeUp

/-! The turns of an event loop with its functor queues and its timers: other threads post
functors, the loop thread runs functors and timer callbacks, and both may create and cancel
timers. -/
namespace XubinhServer.EventLoop

open Transition

open Function (update)

/-- What is put into the functor queues. -/
inductive Functor where
  | addATimer (timer : Timer)
  | cancelATimer (address : Nat)
  | other
  deriving DecidableEq, Repr

inductive Thread where
  | loop
  | producer (p : Nat)
  deriving DecidableEq, Repr

inductive Event where
  /-- `expire_once` enters the callback. -/
  | started (address : Nat)
  /-- `_cancel_a_timer_and_update_alarm` runs. -/
  | cancelled (address : Nat)
  deriving DecidableEq, Repr

/-- What calls `_expire_timers_and_update_alarm`: the loop when the timerfd has been triggered,
the loop before it returns, or a callback. -/
inductive Caller where
  | loop
  | exit
  | callback
  deriving DecidableEq, Repr

/-- A pass of `_expire_timers_and_update_alarm`. -/
structure Pass where
  caller : Caller
  timePoint : Int
  running : Option Timer
  expiredTimers : List Timer
  timersThatAreStillValid : List Timer

/-- The loop as a whole. A timer is created by one thread, at an address of its own. -/
structure Loop where
  wakeUp : State Functor
  clock : Int
  timers : Timers
  pass : Option Pass
  exitPassBegun : Bool
  creator : Nat → Option Thread
  history : List Event

namespace Loop

/-- The loop thread is in code of the user: an event callback, a functor or a timer callback. -/
def InUserCode (s : Loop) : Prop :=
  match s.pass with
  | some pass => pass.running.isSome
  | none =>
    match s.wakeUp.loopThread with
    | .dispatching _ => True
    | .executing _ _ _ => True
    | _ => False

/-- Where a pass may begin, for each caller. -/
def MayBegin (s : Loop) (timePoint : Int) : Caller → Prop
  | .loop => s.wakeUp.loopThread = .checking ∧ s.timers.timerfdTriggered = true ∧
      timePoint = s.clock
  | .exit => s.wakeUp.loopThread = .returned ∧ s.exitPassBegun = false ∧ timePoint = s.clock
  | .callback => s.InUserCode

def create (s : Loop) (thread : Thread) (address : Nat) : Loop :=
  { s with creator := update s.creator address (some thread) }

def add (alarmAdvancingThreshold : Int) (s : Loop) (timer : Timer) : Loop :=
  { s with timers := s.timers.addATimerAndUpdateAlarm alarmAdvancingThreshold timer }

def cancel (s : Loop) (address : Nat) : Loop := { s with
  timers := s.timers.cancelATimerAndUpdateAlarm address
  history := s.history ++ [.cancelled address] }

def runFunctor (alarmAdvancingThreshold : Int) (s : Loop) : Functor → Loop
  | .addATimer timer => s.add alarmAdvancingThreshold timer
  | .cancelATimer address => s.cancel address
  | .other => s

def beginPass (s : Loop) (caller : Caller) (timePoint : Int) : Loop :=
  let (expiredTimers, timers) := s.timers.moveOutExpiredTimers timePoint
  { s with
    timers := timers
    pass := some ⟨caller, timePoint, none, expiredTimers, []⟩
    exitPassBegun := s.exitPassBegun || caller = .exit }

def start (s : Loop) (pass : Pass) (timer : Timer) : Loop := { s with
  pass := some { pass with running := some timer }
  history := s.history ++ [.started timer.address] }

/-- `expire_until` after a callback: the timer is deleted, starts again, or is left for
`insert_all`. -/
def afterCallback (s : Loop) (pass : Pass) (timer : Timer) : Loop :=
  match timer.afterCallback with
  | none => { s with pass := some { pass with running := none } }
  | some next =>
    if next.expirationTimePoint > pass.timePoint then
      { s with pass := some { pass with
          running := none
          timersThatAreStillValid := pass.timersThatAreStillValid ++ [next] } }
    else s.start pass next

/-- The loop also takes note that it has seen the timerfd. -/
def endPass (alarmAdvancingThreshold : Int) (s : Loop) (pass : Pass) : Loop :=
  let timers := s.timers.insertValidTimers alarmAdvancingThreshold pass.timersThatAreStillValid
  { s with
    timers := { timers with
      timerfdTriggered := timers.timerfdTriggered && pass.caller ≠ .loop }
    pass := none }

/-- The constructor adds a timer of its own, whose identifier it drops. -/
def initial (alarmAdvancingThreshold clock : Int) : Loop :=
  Loop.add alarmAdvancingThreshold
    { wakeUp := State.initial Functor
      clock := clock
      timers := .initial
      pass := none
      exitPassBegun := false
      creator := update (fun _ => none) 0 (some .loop)
      history := [] }
    (.new 0 (clock + 3000000000) 3000000000 (-1))

end Loop

/-- One step of a thread, of the clock or of the timerfd. -/
inductive Turn (θ : Int) (n capacity : Nat) : Loop → Loop → Prop
  /-- A step of the queues. The loop thread has left its pass, and looks at the timerfd before
  the next turn. -/
  | queues {s} (w : State Functor) (h : Step n capacity s.wakeUp w)
      (hpushed : w.pushed = s.wakeUp.pushed) (hexecuted : w.executed = s.wakeUp.executed)
      (hloop : w.loopThread = s.wakeUp.loopThread ∨ s.pass = none ∧
        (s.wakeUp.loopThread = .checking → s.timers.timerfdTriggered = false)) :
      Turn θ n capacity s { s with wakeUp := w }
  | post {s} (p i : Nat) (h : Step n capacity s.wakeUp (s.wakeUp.push p i .other)) :
      Turn θ n capacity s { s with wakeUp := s.wakeUp.push p i .other }
  /-- `run_at_time_point` in another thread -/
  | createElsewhere {s} (p i address : Nat) (timePoint interval repetitions : Int)
      (hfresh : s.creator address = none)
      (h : Step n capacity s.wakeUp (s.wakeUp.push p i
        (.addATimer (.new address timePoint interval repetitions)))) :
      Turn θ n capacity s { s.create (.producer p) address with
        wakeUp := s.wakeUp.push p i (.addATimer (.new address timePoint interval repetitions)) }
  /-- `cancel_a_timer` in another thread -/
  | cancelElsewhere {s} (p address : Nat) (hc : s.creator address = some (.producer p))
      (h : Step n capacity s.wakeUp (s.wakeUp.push p 0 (.cancelATimer address))) :
      Turn θ n capacity s { s with wakeUp := s.wakeUp.push p 0 (.cancelATimer address) }
  | create {s} (address : Nat) (timePoint interval repetitions : Int) (hcode : s.InUserCode)
      (hfresh : s.creator address = none) :
      Turn θ n capacity s
        ((s.create .loop address).add θ (.new address timePoint interval repetitions))
  | cancel {s} (address : Nat) (hcode : s.InUserCode) (hc : s.creator address = some .loop) :
      Turn θ n capacity s (s.cancel address)
  | runFunctor {s} (i : Nat) (f : Functor) (rest : List Functor) (resume : Option (List Nat))
      (hl : s.wakeUp.loopThread = .executing i (f :: rest) resume) (hpass : s.pass = none) :
      Turn θ n capacity s
        { s.runFunctor θ f with wakeUp := s.wakeUp.execute i f rest resume }
  | tick {s} (clock : Int) (h : s.clock ≤ clock) :
      Turn θ n capacity s { s with clock := clock }
  | fire {s} (timePoint : Int) (h : s.timers.timerfd = .armed timePoint)
      (hclock : timePoint ≤ s.clock) :
      Turn θ n capacity s { s with timers.timerfd := .fired timePoint }
  /-- The alarm may have been set anew since the poll, so that there is nothing to read. -/
  | readTimerfd {s} (ready : List Nat) (hl : s.wakeUp.loopThread = .dispatching ready)
      (hpass : s.pass = none) :
      Turn θ n capacity s { s with
        timers.timerfd :=
          match s.timers.timerfd with
          | .fired _ => .disarmed
          | other => other
        timers.timerfdTriggered := true }
  | beginPass {s} (caller : Caller) (timePoint : Int) (hpass : s.pass = none)
      (hbegin : s.MayBegin timePoint caller) :
      Turn θ n capacity s (s.beginPass caller timePoint)
  | start {s} (pass : Pass) (timer : Timer) (rest : List Timer) (hpass : s.pass = some pass)
      (hrunning : pass.running = none) (hexpired : pass.expiredTimers = timer :: rest) :
      Turn θ n capacity s (s.start { pass with expiredTimers := rest } timer)
  | afterCallback {s} (pass : Pass) (timer : Timer) (hpass : s.pass = some pass)
      (hrunning : pass.running = some timer) :
      Turn θ n capacity s (s.afterCallback pass timer)
  | endPass {s} (pass : Pass) (hpass : s.pass = some pass) (hrunning : pass.running = none)
      (hexpired : pass.expiredTimers = []) :
      Turn θ n capacity s (s.endPass θ pass)

end XubinhServer.EventLoop
