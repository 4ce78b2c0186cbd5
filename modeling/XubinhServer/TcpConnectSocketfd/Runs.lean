import XubinhServer.Lib.Transition
import XubinhServer.TcpConnectSocketfd.Kept

/-! The runs of one connection: its owner calls it, its poller dispatches to it, and the
kernel answers as it likes. -/
namespace XubinhServer.TcpConnectSocketfd

open Halting EventPoller Transition

variable {κ ρ : Type}

/-- A message callback that consumes some of the input and makes `calls`. -/
def userMessageCallback (writeComplete : Comp κ ρ Unit) (consumed : Nat) (calls : List Call) :
    Comp κ ρ Unit := do
  modify fun s => { s with conn.inputBuffer := s.conn.inputBuffer.forwardReadPosition consumed }
  runCalls writeComplete calls

/-- One turn of the loop that owns the connection. -/
inductive Operation where
  | call (call : Call)
  | dispatch (activeEvents : UInt32) (recvs : List RecvResult) (consumed : Nat)
      (calls : List Call)

def Operation.run (writeComplete : Comp κ ρ Unit) : Operation → Comp κ ρ Unit
  | .call c => runCall writeComplete c
  | .dispatch activeEvents recvs consumed calls =>
    dispatchActiveEvents writeComplete activeEvents recvs
      (userMessageCallback writeComplete consumed calls)

/-- A connection that its server has just started. -/
def started (timeStamp : Int) (context : Option κ)
    (writeCompleteCallback : Option WriteCompleteCallback) : State κ ρ where
  conn := (new timeStamp context writeCompleteCallback).start
  kernel := ⟨[], [], []⟩
  history := ⟨[], [], 0, 0, []⟩

/-- An operation that ends, whatever the kernel answers meanwhile. -/
def Step (writeComplete : Comp κ ρ Unit) (s t : State κ ρ) : Prop :=
  ∃ kernel operation, Operation.run writeComplete operation { s with kernel := kernel } = .ok () t

/-- The run in which the given operations meet the given answers, unless one of them halts. -/
def runOperations (writeComplete : Comp κ ρ Unit) (s : State κ ρ) :
    List (Kernel × Operation) → Option (State κ ρ)
  | [] => some s
  | (kernel, operation) :: rest =>
    match operation.run writeComplete { s with kernel := kernel } with
    | .ok _ t => runOperations writeComplete t rest
    | .error _ _ => none

theorem exists_reaches (writeComplete : Comp κ ρ Unit) (s : State κ ρ)
    (operations : List (Kernel × Operation)) (P : State κ ρ → Prop) [DecidablePred P]
    (h : (runOperations writeComplete s operations).any (P ·) = true) :
    ∃ t, Reaches (Step writeComplete) s t ∧ P t := by
  induction operations generalizing s with
  | nil => exact ⟨s, .refl, of_decide_eq_true h⟩
  | cons head rest ih =>
    obtain ⟨kernel, operation⟩ := head
    cases hrun : operation.run writeComplete { s with kernel := kernel } with
    | ok _ u =>
      rw [runOperations, hrun] at h
      obtain ⟨t, hreach, ht⟩ := ih _ h
      exact ⟨t, .head ⟨kernel, operation, hrun⟩ hreach, ht⟩
    | error e u =>
      rw [runOperations, hrun] at h
      cases h

variable {I : State κ ρ → Prop} {E : Halt → State κ ρ → Prop} {writeComplete : Comp κ ρ Unit}

theorem Kept.messageCallback {A : State κ ρ → Prop} (h : Kept A I E)
    (hA : Keeps A E writeComplete) (hw : Keeps I E writeComplete) (consumed : Nat)
    {calls : List Call} (hcalls : .shutdownWrite ∈ calls → ∀ s, I s → A s) :
    Keeps I E (userMessageCallback writeComplete consumed calls) :=
  fun s hs => wp_seq (I := I) (h.input s _ hs) fun _ => h.calls hA hw hcalls

/-- What the methods and the close event keep holds in all runs. -/
theorem Kept.reaches (h : Kept I I E) (hclose : Keeps I E closeEventCallback)
    (hkernel : ∀ s k, I s → I { s with kernel := k }) {script : Nat → List Call} {depth : Nat}
    {s t : State κ ρ} (hr : Reaches (Step (runWriteComplete script depth)) s t) (hs : I s) :
    I t := by
  have hw : Keeps I E (runWriteComplete script depth) :=
    h.callback (fun _ => id) (fun _ _ _ => id) depth
  apply hr.invariant hs
  intro a b ha hboth
  obtain ⟨kernel, operation, hb⟩ := hboth
  have ha' := hkernel a kernel ha
  cases operation with
  | call call =>
    cases call with
    | send data => exact wp_of_ok (h.send _ data hw _ ha') hb
    | shutdownWrite => exact wp_of_ok (h.shutdownWrite _ _ hw hw ha' ha') hb
  | dispatch activeEvents recvs consumed calls =>
    have hm := h.messageCallback hw hw consumed (fun (_ : .shutdownWrite ∈ calls) _ => id)
    exact wp_of_ok (h.dispatch hw hw hm ha' fun _ => hclose _ ha') hb

theorem reaches_outputValid {timeStamp : Int} {context : Option κ}
    {callback : Option WriteCompleteCallback} {script : Nat → List Call} {depth : Nat}
    {s : State κ ρ}
    (hr : Reaches (Step (runWriteComplete script depth)) (started timeStamp context callback) s) :
    OutputValid s :=
  kept_outputValid.reaches (fun _ hs => hs) (fun _ _ hs => hs) hr
    fun _ => MutableSizeTcpBuffer.valid_new

end XubinhServer.TcpConnectSocketfd
