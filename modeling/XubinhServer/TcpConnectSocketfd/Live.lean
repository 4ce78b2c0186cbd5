import XubinhServer.TcpConnectSocketfd.OutputOrder

/-! A connection is live until it is detached or its write end is shut. What happens behind that is
never undone. -/
namespace XubinhServer.TcpConnectSocketfd

open Halting

variable {κ ρ : Type}

/-- The connection has been detached, or its write end is shut. -/
def Closed (s : State κ ρ) : Prop :=
  s.conn.pollable.isDetached = true ∨ s.conn.isWriteEndShutdown = true

theorem kept_closed : Kept (κ := κ) (ρ := ρ) Closed Closed Anything := by
  have hstable : Stable (κ := κ) (ρ := ρ) Closed :=
    { count := fun _ hs => hs
      record := fun _ _ hs => hs
      took := fun _ _ _ hs => hs
      answered := fun _ _ hs => hs
      pollable := fun _ _ _ hd hs => hs.imp_left hd
      input := fun _ _ hs => hs
      output := fun _ _ _ hs => hs
      closed := fun _ _ hs => hs
      aborted := fun _ _ => .inr rfl }
  exact hstable.kept_of_shut (fun _ _ _ => trivial) fun _ _ _ => .inr rfl

theorem runWriteComplete_closed {script : Nat → List Call} {depth : Nat} :
    Keeps Closed Anything (runWriteComplete (κ := κ) (ρ := ρ) script depth) :=
  kept_closed.callback (fun _ => id) (fun _ _ _ => id) depth

/-- Whatever `shutdown_write` meets, no more is sent behind it. -/
theorem shutdownWrite_closed {script : Nat → List Call} {depth : Nat} (s : State κ ρ) :
    wp (shutdownWrite (runWriteComplete script depth)) (fun _ => Closed) Anything s := by
  simp only [shutdownWrite, record, nextShutdown, closeEventCallback, detachFromPoller,
    runCloseCallback, disableWriteEvent, wp_bind, wp_modify, wp_modifyGet, wp_get, wp_ite, wp_pure]
  split
  · rename_i hshut
    exact .inr hshut
  · split
    · exact wp_abort fun _ ht => .inl ht
    · split
      · exact wp_mono (wp_true _ _) (fun _ _ _ => .inr rfl) fun _ _ _ => trivial
      · exact wp_mono (wp_true _ _) (fun _ _ _ => .inr rfl) fun _ _ _ => trivial

/-- While a connection is live, nobody has called `shutdown_write`, and its output is in order. -/
theorem inOrder_of_live {s : State κ ρ} (h : Ordered s) (hs : ShutRecorded s)
    (hd : s.conn.pollable.isDetached = false) (ho : s.conn.isWriteEndShutdown = false) :
    InOrder s := by
  have hcalls : .shutdownWrite ∉ s.history.calls := by
    intro hmem
    rw [hs hmem] at ho
    cases ho
  refine h hd ho (List.pairwise_iff_forall_sublist.mpr fun hsub heq => ?_) hcalls
  exact absurd (heq ▸ hsub.subset (by simp)) hcalls

end XubinhServer.TcpConnectSocketfd
