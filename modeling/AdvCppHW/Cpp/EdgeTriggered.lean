import AdvCppHW.Cpp.SystemCalls

/-!
# Sockets that are watched edge-triggered

The kernel's side of a non-blocking socket that is registered with `EPOLLET`: the bytes that were
received and not read yet, and whether there is an event to report.  An arrival, the end of the
stream and new send space each make an event; events that were not reported yet are merged into one.

* `Happens` — what happens at a socket; `Reading` — reads of its owner, and what happens in between.
* `Reading.quiet` — a read that found nothing leaves the socket empty, or with an event to report.
-/

namespace AdvCppHW

structure WatchedSocket where
  /-- Received and not read. -/
  received : Bytes := []
  /-- The peer has closed its side. -/
  ended : Bool := false
  /-- An event that `epoll_wait` has not reported yet. -/
  pending : Bool := false
deriving DecidableEq

/-- What happens at a socket by itself. -/
inductive Happens (k : WatchedSocket) : WatchedSocket → Prop
  | arrives (bytes : Bytes) (hopen : k.ended = false) :
      Happens k { k with received := k.received ++ bytes, pending := true }
  | closes : Happens k { k with ended := true, pending := true }
  | writable : Happens k { k with pending := true }

/-- Nothing is there to be read, or there is an event to report. -/
def WatchedSocket.Quiet (k : WatchedSocket) : Prop := k.pending = true ∨ k.received = []

theorem Happens.pending {k k' : WatchedSocket} (h : Happens k k') : k'.pending = true := by
  cases h with
  | arrives bytes hopen => rfl
  | closes => rfl
  | writable => rfl

/-- Reads of at most `size` bytes with the listed outcomes lead from `k` to `k'`, with whatever
happens before, between and behind them. -/
inductive Reading (size : Nat) : WatchedSocket → List SysRead → WatchedSocket → Prop
  | done (k : WatchedSocket) : Reading size k [] k
  | happens {k k₁ k' : WatchedSocket} {calls : List SysRead} (h : Happens k k₁)
      (hrest : Reading size k₁ calls k') : Reading size k calls k'
  | data {k k' : WatchedSocket} {bytes rest : Bytes} {calls : List SysRead} (hne : bytes ≠ [])
      (hlen : bytes.length ≤ size) (hreceived : k.received = bytes ++ rest)
      (hrest : Reading size { k with received := rest } calls k') :
      Reading size k (.data bytes :: calls) k'
  | wouldBlock {k k' : WatchedSocket} {calls : List SysRead} (hreceived : k.received = [])
      (hopen : k.ended = false) (hrest : Reading size k calls k') :
      Reading size k (.wouldBlock :: calls) k'
  | eof {k k' : WatchedSocket} {calls : List SysRead} (hreceived : k.received = [])
      (hended : k.ended = true) (hrest : Reading size k calls k') :
      Reading size k (.eof :: calls) k'

/-- The last call stores no bytes, and has not failed. -/
def LastBringsNothing (calls : List SysRead) : Prop :=
  ∃ sys, calls.getLast? = some sys ∧ (sys = .wouldBlock ∨ sys = .eof ∨ sys = .data [])

theorem Reading.quiet_of_quiet {size : Nat} {k k' : WatchedSocket} {calls : List SysRead}
    (h : Reading size k calls k') (hcalls : calls = []) (hk : k.Quiet) : k'.Quiet := by
  induction h with
  | done k => exact hk
  | happens h hrest ih => exact ih hcalls (Or.inl h.pending)
  | data hne hlen hreceived hrest ih => cases hcalls
  | wouldBlock hreceived hopen hrest ih => cases hcalls
  | eof hreceived hended hrest ih => cases hcalls

/-- After a call that has found nothing, what can be read has come with an event. -/
theorem Reading.quiet {size : Nat} {k k' : WatchedSocket} {calls : List SysRead}
    (h : Reading size k calls k') (hlast : LastBringsNothing calls) : k'.Quiet := by
  induction h with
  | done k =>
      obtain ⟨sys, hsys, -⟩ := hlast
      cases hsys
  | happens h hrest ih => exact ih hlast
  | @data k k' bytes rest calls hne hlen hreceived hrest ih =>
      obtain ⟨sys, hsys, hnothing⟩ := hlast
      cases calls with
      | nil =>
          cases hsys
          rcases hnothing with hsys | hsys | hsys
          · cases hsys
          · cases hsys
          · cases hsys
            exact absurd rfl hne
      | cons call calls => exact ih ⟨sys, by rwa [List.getLast?_cons_cons] at hsys, hnothing⟩
  | @wouldBlock k k' calls hreceived hopen hrest ih =>
      cases calls with
      | nil => exact hrest.quiet_of_quiet rfl (Or.inr hreceived)
      | cons call calls =>
          obtain ⟨sys, hsys, hnothing⟩ := hlast
          exact ih ⟨sys, by rwa [List.getLast?_cons_cons] at hsys, hnothing⟩
  | @eof k k' calls hreceived hended hrest ih =>
      cases calls with
      | nil => exact hrest.quiet_of_quiet rfl (Or.inr hreceived)
      | cons call calls =>
          obtain ⟨sys, hsys, hnothing⟩ := hlast
          exact ih ⟨sys, by rwa [List.getLast?_cons_cons] at hsys, hnothing⟩

end AdvCppHW
