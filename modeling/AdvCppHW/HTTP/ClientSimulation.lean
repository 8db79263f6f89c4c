import AdvCppHW.HTTP.Client
import AdvCppHW.HTTP.ClientView
import AdvCppHW.HTTP.WorkerRun

/-!
# A client in its worker

`Client.handle` is `handleConnection` as one client sees it.  Here a worker holds the client, and
its `handleConnection` does to the client's connection and coroutine what `Client.handle` does, as
long as the coroutine is the client's own and the routine table has not moved since it was entered.

* `Holds` — a worker holds a client under a descriptor.
* `handleConnection_serves` — one event in the worker is one event of the client.
* `exception_ends_batch` — the coroutine's exception takes the rest of the batch with it.
-/

namespace AdvCppHW
namespace HTTP

open Coroutine ThreadWork Worker

/-- A worker holds a client under a descriptor: its connection, and a coroutine of its own that
continues at the client's frame, or is marked as finished. -/
structure Holds (w : Worker) (fd : Int) (client : Client) (uid id : Nat)
    (r : Routine ConnectionRef Frame) : Prop where
  view : w.work.view fd = ⟨some ⟨uid, client.c⟩, some id, true⟩
  socket : client.c.m_socket.m_fd = fd
  routine : w.ordinator.routine? id = some r
  func : r.func = ⟨fd, uid⟩
  suspended : ∀ fr, client.frame = some fr → r.ctx ≠ .ended ∧ frame r = fr
  ended : client.frame = none → r.finished = true

/-- How a worker's handling of an event shows that of its client. -/
inductive Serves (fd : Int) : Handled → Outcome Worker → Prop
  | kept {client : Client} {called : Option HTTPRequest} {w : Worker} {uid id : Nat}
      {r : Routine ConnectionRef Frame} (h : Holds w fd client uid id r) :
      Serves fd ⟨some client, called, none⟩ (.ok w)
  | disconnected {called : Option HTTPRequest} {w : Worker} (h : w.work.view fd = .absent) :
      Serves fd ⟨none, called, none⟩ (.ok w)
  /-- A client without an idle time cannot be disconnected. -/
  | eraseOfEnd {called : Option HTTPRequest} :
      Serves fd ⟨none, called, none⟩ (.undefined .eraseOfEnd)
  | threw {client : Client} {called : Option HTTPRequest} {e : Exception} {w : Worker}
    {uid id : Nat} {r : Routine ConnectionRef Frame} (h : Holds w fd client uid id r) :
      Serves fd ⟨some client, called, some e⟩ (.threw e w)

/-- The rest of `handleConnection` is `Client.afterResume`. -/
theorem afterResume_serves (w : Worker) (ho : w.ordinator.Consistent) {fd : Int} {uid id : Nat}
    {c : ConnectionAsync} {reg : Bool} {r : Routine ConnectionRef Frame} (fr : Option Frame)
    (h : w.work.view fd = ⟨some ⟨uid, c⟩, some id, reg⟩) (hsock : SocketOf c fd)
    (hopen : c.m_opened = true → reg = true) (hr : w.ordinator.routine? id = some r)
    (hfunc : r.func = ⟨fd, uid⟩)
    (hkept : c.m_buffer ≠ [] → (∀ fr', fr = some fr' → r.ctx ≠ .ended ∧ frame r = fr') ∧
      (fr = none → r.finished = true))
    (called : Option HTTPRequest) (spare : NewSocket) :
    Serves fd ⟨Client.afterResume c fr, called, none⟩ (w.afterResume fd spare) := by
  have hcases := afterResume_cases h hsock spare
  generalize w.afterResume fd spare = res at hcases
  cases hcases with
  | eraseOfEnd hclosed hnone =>
      rw [Client.afterResume_closed hclosed]
      exact .eraseOfEnd
  | disconnected hclosed htime hidle hview hsame =>
      rw [Client.afterResume_closed hclosed]
      exact .disconnected hview
  | created hop hempty hidle hview hsame =>
      rw [Client.afterResume_empty hop hempty]
      refine .kept (r := { func := ⟨fd, uid⟩ }) ⟨hopen hop ▸ hview, hsock.opened hop,
        Ordinator.routine?_create ho _, rfl, ?_, nofun⟩
      intro fr' hfr
      cases hfr
      exact ⟨nofun, rfl⟩
  | kept hop hne hidle hview hsame =>
      rw [Client.afterResume_kept hop hne]
      exact .kept ⟨hopen hop ▸ hview, hsock.opened hop, hr, hfunc, (hkept hne).1, (hkept hne).2⟩

/-- One event in the worker is one event of the client. -/
theorem handleConnection_serves {w : Worker} (ho : w.ordinator.Consistent) {fd : Int}
    {client : Client} {uid id : Nat} {r : Routine ConnectionRef Frame}
    (h : Holds w fd client uid id r) (hbound : w.ordinator.boundIn r.ctx = w.ordinator.storage)
    (events : UInt32) (env : Env) :
    Serves fd (client.handle ⟨events, env.script⟩) (w.handleConnection fd events env) := by
  obtain ⟨c, fr⟩ := client
  obtain ⟨hview, hsock, hr, hfunc, hsuspended, hended⟩ := h
  cases fr with
  | none =>
      have hfinished : ∀ r', w.ordinator.routine? id = some r' → r'.finished = true := by
        intro r' hr'
        rw [hr] at hr'
        cases hr'
        exact hended rfl
      obtain ⟨hview', -⟩ := view_atResume hview hsock events
      rw [handleConnection_finished hview hfinished]
      exact afterResume_serves ⟨w.atResume fd ⟨uid, c⟩ events, w.ordinator⟩ ho none hview'
        (socketOf_setEvent hsock events) (fun _ => rfl) hr hfunc
        (fun _ => ⟨nofun, fun _ => hended rfl⟩) none env.spare
  | some fr =>
      obtain ⟨hctx, rfl⟩ := hsuspended fr rfl
      let s := stretchOf ⟨uid, c⟩ r events env.script
      let bound := w.ordinator.boundIn r.ctx
      let w₁ : Worker := ⟨w.afterStretch fd ⟨uid, c⟩ events s,
        w.ordinator.afterStretch id bound s.ended.toEnded⟩
      obtain ⟨hsocket, -, -, reg, hview', hkept⟩ :=
        view_afterStretch hview hsock r events env.script
      have hends := handleConnection_own ho hview hr hctx hfunc events env
      have ho₁ : w₁.ordinator.Consistent := ho.afterStretch hr hctx bound s.ended.toEnded
      have hsound := connectionCallback_sound (c.setEvent events) env.script (frame r)
      have hhandle : Client.handle ⟨c, some (frame r)⟩ ⟨events, env.script⟩ =
          Client.afterStretch s := rfl
      rw [hhandle, Client.afterStretch]
      cases hended' : s.ended with
      | yielded fr' =>
          have hnothrow : ∀ e, s.ended ≠ .threw e := hended' ▸ nofun
          have hres := (hends.resolve_right fun ⟨e, hthrew, _⟩ => hnothrow e hthrew).1
          have hr₁ : w₁.ordinator.routine? id = some { r with ctx := .saved fr' bound } := by
            show (w.ordinator.afterStretch id bound s.ended.toEnded).routine? id = _
            rw [hended']
            exact Ordinator.routine?_yield hr fr' bound
          rw [hres]
          refine afterResume_serves w₁ ho₁ (some fr') hview' hsocket
            (fun hop => (hkept (Or.inl hop)).1)
            hr₁ hfunc (fun _ => ⟨fun fr'' hfr => ?_, nofun⟩) s.called env.spare
          cases hfr
          exact ⟨nofun, rfl⟩
      | returned =>
          have hnothrow : ∀ e, s.ended ≠ .threw e := hended' ▸ nofun
          have hres := (hends.resolve_right fun ⟨e, hthrew, _⟩ => hnothrow e hthrew).1
          have hr₁ : w₁.ordinator.routine? id =
              some { r with finished := true, exception := r.exception, ctx := .ended } := by
            show (w.ordinator.afterStretch id bound s.ended.toEnded).routine? id = _
            rw [hended']
            exact (Ordinator.routine?_finish hr bound none).trans (by rw [if_pos hbound]; rfl)
          rw [hres]
          exact afterResume_serves w₁ ho₁ none hview' hsocket
            (fun hop => (hkept (Or.inl hop)).1) hr₁
            hfunc (fun hne => absurd (hsound.buffer hended') hne) s.called env.spare
      | threw e =>
          obtain ⟨e', hthrew, -, hres⟩ := hends.resolve_left fun ⟨_, hmoved⟩ =>
            hmoved e hended' hbound
          obtain rfl : e' = e := CallbackEnd.threw.inj (hthrew.symm.trans hended')
          obtain ⟨rfl, hfd⟩ := hkept (Or.inr (by rw [hended']; nofun))
          have hr₁ : w₁.ordinator.routine? id =
              some { r with finished := true, exception := some e', ctx := .ended } := by
            show (w.ordinator.afterStretch id bound s.ended.toEnded).routine? id = _
            rw [hended']
            exact (Ordinator.routine?_finish hr bound (some e')).trans (by rw [if_pos hbound]; rfl)
          rw [hres]
          exact .threw ⟨hview', hfd, hr₁, hfunc, nofun, fun _ => rfl⟩

/-- When a client's coroutine ends by an exception, the rest of the batch is not handled. -/
theorem exception_ends_batch {server : BaseHTTPServer} {w : Worker} (ho : w.ordinator.Consistent)
    {ready : Ready} {client : Client} {uid id : Nat} {r : Routine ConnectionRef Frame}
    (h : Holds w ready.fd client uid id r)
    (hbound : w.ordinator.boundIn r.ctx = w.ordinator.storage)
    (hclient : ready.fd ≠ server.m_socket.m_fd) {env : Env} {e : Exception}
    (hthrew : (client.handle ⟨ready.events, env.script⟩).threw = some e)
    (rest : List (Ready × Env)) : (batch server w ((ready, env) :: rest)).1 = [ready] := by
  have hserves := handleConnection_serves ho h hbound ready.events env
  generalize client.handle ⟨ready.events, env.script⟩ = handled at hserves hthrew
  have hdispatch : w.dispatch server ready env =
      (w.handleConnection ready.fd ready.events env).andThen fun w =>
        if ready.fd ∈ w.work.m_connections then
          (w.work.resetConnectionTime ready.fd env.now).map (Worker.mk · w.ordinator)
        else .ok w := if_neg hclient
  generalize w.handleConnection ready.fd ready.events env = res at hserves hdispatch
  cases hserves with
  | kept h' => cases hthrew
  | disconnected hview => cases hthrew
  | eraseOfEnd => cases hthrew
  | threw h' =>
      rw [batch_threw hdispatch]

end HTTP
end AdvCppHW
