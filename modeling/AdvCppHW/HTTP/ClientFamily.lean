import AdvCppHW.Support.Family
import AdvCppHW.HTTP.Client
import AdvCppHW.HTTP.EachClient
import AdvCppHW.HTTP.ResponseCycle

/-!
# A worker as a family of clients

`m_connections`, `m_coroutines` and the routine table of the thread are shared by all clients of a
worker.  As long as no two clients have one coroutine, and no exception of a coroutine is lost, they
show a family of `Client`s that have nothing to do with one another.  A sweep that drops clients
goes on behind the elements it erases, as in `ThreadWork.sweep`.

* `clientAt` — the client under a descriptor; `Running.seen` — what a step is to the family.
* `handleConnection_family`, `accept_family`, `sweep_family` — what the members do to it;
  `step_family` — what a step of the loop does.
* `clients_independent` — whole runs: each client is as if it were alone with the worker.
-/

namespace AdvCppHW
namespace HTTP

open Coroutine ThreadWork Worker Support

/-! ## Clients -/

/-- What a client puts out: the requests that are handed to `onRequest`, and what is done to its
socket. -/
inductive ClientOutput where
  | request (req : HTTPRequest)
  | socket (event : SocketEvent)

/-- What a stretch of `connectionCallback` puts out. -/
def stretchOutput (c : ConnectionAsync) (script : Script) (frame : Frame) : List ClientOutput :=
  (connectionCallback c script frame).called.toList.map .request ++
    (callbackEvents c script frame).map .socket

namespace Client

/-- What an event leaves of a client. -/
def next (client : Client) (ev : ClientEvent) : Option Client := (client.handle ev).client

def output (client : Client) (ev : ClientEvent) : List ClientOutput :=
  match client.frame with
  | none => []
  | some frame => stretchOutput (client.c.setEvent ev.events) ev.script frame

end Client

/-- The client that the tables hold under a descriptor. -/
def clientOf (o : Ordinator ConnectionRef Frame) (v : View) : Option Client :=
  v.element.bind fun el => (v.routine.bind o.routine?).map fun r =>
    ⟨el.conn, if r.finished then none else some (frame r)⟩

def clientAt (w : Worker) (fd : Int) : Option Client := clientOf w.ordinator (w.work.view fd)

/-! ## What is seen of a worker -/

/-- The connection that an event of `fd` leads to, and where its coroutine goes on: the coroutine is
the one that `m_coroutines` holds for `fd`, the connection the one that this was bound to. -/
def Worker.resumes (w : Worker) (fd : Int) (events : UInt32) :
    Option (Int × ConnectionAsync × Frame) :=
  ((w.work.m_coroutines.lookup fd).bind w.ordinator.routine?).bind fun r =>
    (w.work.m_connections.lookup r.func.fd).bind fun el =>
      if r.finished = false ∧ el.uid = r.func.uid then
        some (r.func.fd, if r.func.fd = fd then el.conn.setEvent events else el.conn, frame r)
      else none

/-- What is seen of a worker: an action of the family, and all that was put out. -/
structure Seen where
  act : FamilyAct Int Client ClientEvent
  out : List (Int × ClientOutput) := []

/-- What is seen of the handling of one event. -/
def Worker.seen (server : BaseHTTPServer) (w : Worker) (ready : Ready) (env : Env) : List Seen :=
  if ready.fd = server.m_socket.m_fd then
    if 0 ≤ env.accepted.fd ∧ env.added = true then
      [⟨.began env.accepted.fd (Client.new env.accepted.fd env.accepted.garbage), []⟩]
    else []
  else
    [⟨.acted ready.fd ⟨ready.events, env.script⟩,
      (w.resumes ready.fd ready.events).elim [] fun (fd, c, frame) =>
        (stretchOutput c env.script frame).map (Prod.mk fd)⟩]

/-- What is seen of a step of the loop. -/
def Running.seen (server : BaseHTTPServer) (s : Running) (act : Act) : List Seen :=
  match s.point, act with
  | .top, .drop _ clock =>
      (timedOut server clock s.worker.work.m_idleTime.entries).map fun fd => ⟨.ended fd, []⟩
  | .handling (ready :: _), .handle env => s.worker.seen server ready env
  | _, _ => []

/-! ## Conditions -/

/-- No two clients have one coroutine. -/
def Apart (w : Worker) : Prop :=
  ∀ fd fd' id, w.work.m_coroutines.lookup fd = some id → w.work.m_coroutines.lookup fd' = some id →
    fd = fd'

/-- When the event of `fd` ends a stretch by an exception, the table has not moved since the
coroutine was entered, so that the exception comes back. -/
def ExceptionReturns (w : Worker) (fd : Int) (events : UInt32) (script : Script) : Prop :=
  ∀ el id r, w.work.m_connections.lookup fd = some el → w.work.m_coroutines.lookup fd = some id →
    w.ordinator.routine? id = some r → ∀ e, (stretchOf el r events script).ended = .threw e →
      w.ordinator.boundIn r.ctx = w.ordinator.storage

/-- The same at a step of the loop. -/
def ExceptionsReturn (server : BaseHTTPServer) (s : Running) : Act → Prop
  | .handle env => ∀ ready rest, s.point = .handling (ready :: rest) →
      ready.fd ≠ server.m_socket.m_fd → ExceptionReturns s.worker ready.fd ready.events env.script
  | _ => True

/-- A step behind which no two clients have one coroutine. -/
def ApartStep (server : BaseHTTPServer) (s : Running) (act : Act) (s' : Running) : Prop :=
  Running.Step server s act s' ∧ Apart s'.worker

/-! ## The invariant -/

/-- The tables hold a client with a coroutine that is its own or has ended, or one that could not be
registered. -/
inductive View.Followed (o : Ordinator ConnectionRef Frame) (fd : Int) : View → Prop
  | client {el : Element} {id : Nat} {r : Routine ConnectionRef Frame}
    (hsock : el.conn.m_socket.m_fd = fd) (hr : o.routine? id = some r)
      (hown : r.ctx ≠ .ended ∧ r.func = ⟨fd, el.uid⟩ ∨ r.finished = true) :
      View.Followed o fd ⟨some el, some id, true⟩
  | unregistered {el : Element} (hsock : el.conn.m_socket.m_fd = fd) :
      View.Followed o fd ⟨some el, none, false⟩

theorem seated_followed : ClientProperty.Seated View.Followed := by
  intro o fd v h
  cases h with
  | client hsock hr hown => exact ⟨_, rfl, hsock⟩
  | unregistered hsock => exact ⟨_, rfl, hsock⟩

structure WorkerFollowed (w : Worker) : Prop where
  each : Each View.Followed w
  consistent : w.ordinator.Consistent
  apart : Apart w

theorem workerFollowed_new : WorkerFollowed {} where
  each := each_new
  consistent := Ordinator.consistent_new
  apart fd fd' id h := by cases h

/-- A client that is known to the tables. -/
theorem clientOf_client {o : Ordinator ConnectionRef Frame} {el : Element} {id : Nat} {reg : Bool}
    {r : Routine ConnectionRef Frame} (hr : o.routine? id = some r) :
    clientOf o ⟨some el, some id, reg⟩ =
      some ⟨el.conn, if r.finished then none else some (frame r)⟩ := by
  simp [clientOf, hr]

/-- Behind a step for `fd`, the routines of all other clients are as before. -/
def KeepsRoutines (fd : Int) (w : Worker) (o : Ordinator ConnectionRef Frame) : Prop :=
  ∀ j, j ≠ fd → ∀ id, w.work.m_coroutines.lookup j = some id →
    o.routine? id = w.ordinator.routine? id

section Others

variable {fd : Int} {w : Worker} {o : Ordinator ConnectionRef Frame} (h : KeepsRoutines fd w o)
include h

theorem KeepsRoutines.followed (j : Int) (hj : j ≠ fd)
    (hv : View.Followed w.ordinator j (w.work.view j)) : View.Followed o j (w.work.view j) := by
  have hroutine := h j hj
  generalize hview : w.work.view j = v at hv
  cases hv with
  | client hsock hr hown =>
      exact .client hsock ((hroutine _ (congrArg View.routine hview)).trans hr) hown
  | unregistered hsock => exact .unregistered hsock

theorem KeepsRoutines.clientOf (j : Int) (hj : j ≠ fd) :
    clientOf o (w.work.view j) = clientAt w j := by
  have hroutine := h j hj
  show HTTP.clientOf o (w.work.view j) = HTTP.clientOf w.ordinator (w.work.view j)
  unfold HTTP.clientOf
  cases hid : (w.work.view j).routine with
  | none => rfl
  | some id => rw [Option.bind_some, Option.bind_some, hroutine id hid]

/-- The family behind a step for `fd`. -/
theorem KeepsRoutines.family (w' : Worker) (ho : w'.ordinator = o)
    (hsame : SameBut fd w.work w'.work) :
    clientAt w' = Function.update (clientAt w) fd (clientAt w' fd) := by
  subst ho
  funext j
  by_cases hj : j = fd
  · rw [hj, Function.update_self]
  · rw [Function.update_of_ne hj, clientAt, hsame j hj]
    exact h.clientOf j hj

end Others

/-! ## Handling an event -/

/-- What a member for `fd` leaves of the family, unless two clients have one coroutine then. -/
structure LeftFamily (fd : Int) (client : Option Client) (w w' : Worker) : Prop where
  same : SameBut fd w.work w'.work
  family : Apart w' → WorkerFollowed w' ∧ clientAt w' = Function.update (clientAt w) fd client

theorem keepsRoutines_afterStretch {w : Worker} (h : Apart w) {fd : Int} {id : Nat}
    (hid : w.work.m_coroutines.lookup fd = some id) {r : Routine ConnectionRef Frame}
    (hr : w.ordinator.routine? id = some r) (bound : Nat) (ended : Ended Frame) :
    KeepsRoutines fd w (w.ordinator.afterStretch id bound ended) := by
  intro j hj id' hid'
  refine Ordinator.routine?_afterStretch_ne (Ordinator.routine?_eq_some.mp hr).1 ?_ bound ended
  rintro rfl
  exact hj (h j fd id' hid' hid)

/-- A new routine is none of another client's when no two clients have one coroutine afterwards. -/
theorem KeepsRoutines.create {w : Worker} {fd : Int} {o : Ordinator ConnectionRef Frame}
    (h : KeepsRoutines fd w o) (w' : Worker) (ho : o.Consistent) (f : ConnectionRef)
    (hapart : Apart w') (hfd : (w'.work.view fd).routine = some (o.create f).1)
    (hsame : SameBut fd w.work w'.work) : KeepsRoutines fd w (o.create f).2 := by
  intro j hj id hid
  have hid' : w'.work.m_coroutines.lookup j = some id :=
    (congrArg View.routine (hsame j hj)).trans hid
  have hne : id ≠ (o.create f).1 := by
    rintro rfl
    exact hj (hapart j fd _ hid' hfd)
  exact (Ordinator.routine?_create_of_ne ho f hne).trans (h j hj id hid)

section Ran

variable {w : Worker} {fd : Int} {el el₁ : Element} {id : Nat} {events : UInt32} {script : Script}
  {o₁ : Ordinator ConnectionRef Frame} (h : Ran w fd el id events script el₁ o₁)
include h

theorem Ran.keepsRoutines (hapart : Apart w) (hid : w.work.m_coroutines.lookup fd = some id) :
    KeepsRoutines fd w o₁ := by
  cases h with
  | refused hfinished => exact fun _ _ _ _ => rfl
  | resumed hr' hctx hfunc hthrew => exact keepsRoutines_afterStretch hapart hid hr' _ _

/-- Whatever `Coroutine::resume` has led to, the client is where its event leaves it. -/
theorem Ran.client {r : Routine ConnectionRef Frame} (hr : w.ordinator.routine? id = some r)
    (ho : w.ordinator.Consistent) (hreturns : ∀ e,
      (stretchOf el r events script).ended = .threw e →
        w.ordinator.boundIn r.ctx = w.ordinator.storage) :
    ∃ fr r₁, (⟨el.conn, if r.finished then none else some (frame r)⟩ : Client).next
      ⟨events, script⟩ = Client.afterResume el₁.conn fr ∧
      o₁.routine? id = some r₁ ∧ (el₁.conn.m_buffer ≠ [] →
        fr = (if r₁.finished then none else some (frame r₁)) ∧
          (r₁.ctx ≠ .ended ∧ r₁.func = ⟨fd, el₁.uid⟩ ∨ r₁.finished = true)) := by
  cases h with
  | refused hfinished =>
      have hfin := hfinished r hr
      refine ⟨none, r, ?_, hr, fun _ => ⟨by rw [if_pos hfin], Or.inr hfin⟩⟩
      rw [if_pos hfin]
      rfl
  | @resumed r' hr' hctx hfunc hthrew =>
      rw [hr] at hr'
      cases hr'
      have hunfinished := (ho.unfinished hr hctx).1
      have hsound := connectionCallback_sound (el.conn.setEvent events) script (frame r)
      have hnext : (⟨el.conn, if r.finished then none else some (frame r)⟩ : Client).next
          ⟨events, script⟩ = (Client.afterStretch (stretchOf el r events script)).client := by
        rw [hunfinished]
        rfl
      rw [hnext, Client.afterStretch]
      cases hended : (stretchOf el r events script).ended with
      | yielded fr =>
          refine ⟨some fr, _, rfl, Ordinator.routine?_yield hr fr _, fun _ => ⟨?_, ?_⟩⟩
          · simp [hunfinished, frame, Context.frame?]
          · exact Or.inl ⟨Context.saved_ne_ended _ _, hfunc⟩
      | returned =>
          exact ⟨none, _, rfl, Ordinator.routine?_finish hr _ none,
            fun hkept => absurd (hsound.buffer hended) hkept⟩
      | threw e => exact absurd (hreturns e hended) (hthrew e hended)

end Ran

/-- An event in the worker is an event of its client. -/
theorem handleConnection_family {w : Worker} (h : WorkerFollowed w) {fd : Int}
    (hmem : fd ∈ w.work.registered) {events : UInt32} {env : Env}
    (hreturns : ExceptionReturns w fd events env.script) :
    (w.handleConnection fd events env).Leaves True
      (LeftFamily fd ((clientAt w fd).bind (Client.next · ⟨events, env.script⟩)) w) := by
  obtain ⟨hQ, honce⟩ := (h.each fd).client (Or.inr (Or.inl hmem))
  generalize hview : w.work.view fd = v at hQ
  cases hQ with
  | unregistered hsock =>
      have hreg : decide (fd ∈ w.work.registered) = false := congrArg View.registered hview
      exact absurd hmem (of_decide_eq_false hreg)
  | @client el id r hsock hr hown =>
      have hid : w.work.m_coroutines.lookup fd = some id := congrArg View.routine hview
      have hclient : clientAt w fd =
          some ⟨el.conn, if r.finished then none else some (frame r)⟩ := by
        rw [clientAt, hview]
        exact clientOf_client hr
      have hreturns' := hreturns el id r (lookup_of_view hview) hid hr
      have houtcome := handleConnection_outcome events env h.consistent hview hsock
        fun r' hr' => by
          rw [hr] at hr'
          cases hr'
          exact hown.elim (fun hfunc => Or.inr (by rw [hfunc.2])) Or.inl
      rw [hclient]
      generalize w.handleConnection fd events env = res at houtcome
      cases houtcome with
      | undefined why => trivial
      | @disconnected el₁ o₁ t time hran hclosed htime hidle hview' hsame =>
          obtain ⟨fr, r₁, hnext, -, -⟩ := hran.client hr h.consistent hreturns'
          have hkeeps := hran.keepsRoutines h.apart hid
          refine ⟨hsame, fun hapart => ⟨⟨?_, hran.consistent h.consistent, hapart⟩, ?_⟩⟩
          · exact h.each.erased ⟨_, _⟩ hkeeps.followed htime hidle hview' hsame
          · rw [hkeeps.family ⟨t, o₁⟩ rfl hsame, Option.bind_some, hnext,
              Client.afterResume_closed hclosed, clientAt, hview']
            rfl
      | @created el₁ o₁ t hran hopen hempty hsock' hidle hview' hsame =>
          have ho₁ := hran.consistent h.consistent
          obtain ⟨fr, r₁, hnext, -, -⟩ := hran.client hr h.consistent hreturns'
          have hnew := Ordinator.routine?_create ho₁ ⟨fd, el₁.uid⟩
          refine ⟨hsame, fun hapart => ?_⟩
          have hkeeps := (hran.keepsRoutines h.apart hid).create ⟨t, _⟩ ho₁ ⟨fd, el₁.uid⟩ hapart
            (congrArg View.routine hview') hsame
          refine ⟨⟨?_, ho₁.create _, hapart⟩, ?_⟩
          · refine h.each.kept ⟨t, _⟩ hsame hidle hkeeps.followed ?_ honce
            rw [hview']
            exact .client hsock' hnew (Or.inl ⟨Context.made_ne_ended, rfl⟩)
          · rw [hkeeps.family ⟨t, _⟩ rfl hsame, Option.bind_some, hnext,
              Client.afterResume_empty hopen hempty, clientAt, hview', clientOf_client hnew]
            rfl
      | @kept el₁ o₁ t hran hopen hkept hsock' hidle hview' hsame =>
          obtain ⟨fr, r₁, hnext, hr₁, hkept'⟩ := hran.client hr h.consistent hreturns'
          obtain ⟨hfr, hown₁⟩ := hkept' hkept
          have hkeeps := hran.keepsRoutines h.apart hid
          refine ⟨hsame, fun hapart => ⟨⟨?_, hran.consistent h.consistent, hapart⟩, ?_⟩⟩
          · refine h.each.kept ⟨t, _⟩ hsame hidle hkeeps.followed ?_ honce
            rw [hview']
            exact .client hsock' hr₁ hown₁
          · rw [hkeeps.family ⟨t, _⟩ rfl hsame, Option.bind_some, hnext,
              Client.afterResume_kept hopen hkept, clientAt, hview', clientOf_client hr₁, hfr]
      | @threw r' e t hr' hctx hfunc hthrew hbound hsock' hidle hview' hsame =>
          rw [hr] at hr'
          cases hr'
          have hkeeps : KeepsRoutines fd w (w.ordinator.finish id w.ordinator.storage (some e)) :=
            keepsRoutines_afterStretch h.apart hid hr w.ordinator.storage (.threw e)
          have hended := (Ordinator.routine?_finish hr w.ordinator.storage (some e)).trans
            (congrArg some (if_pos rfl))
          have hunfinished := (h.consistent.unfinished hr hctx).1
          refine ⟨hsame, fun hapart => ⟨⟨?_, h.consistent.finish hr hctx _ _, hapart⟩, ?_⟩⟩
          · refine h.each.kept ⟨t, _⟩ hsame hidle hkeeps.followed ?_ honce
            rw [hview']
            exact .client hsock' hended (Or.inr rfl)
          · have hnext : (⟨el.conn, if r.finished then none else some (frame r)⟩ : Client).next
                ⟨events, env.script⟩ =
                  (Client.afterStretch (stretchOf el r events env.script)).client := by
              rw [hunfinished]
              rfl
            rw [hkeeps.family ⟨t, w.ordinator.finish id w.ordinator.storage (some e)⟩ rfl hsame,
              Option.bind_some, hnext, clientAt, hview', clientOf_client hended,
              Client.afterStretch, hthrew]
            rfl

/-! ## Accepting -/

/-- The client that `accept` leaves under the descriptor it got. -/
def acceptedClient (w : Worker) (env : Env) : Option Client :=
  if 0 ≤ env.accepted.fd ∧ env.added = true then
    some (Client.new env.accepted.fd env.accepted.garbage)
  else clientAt w env.accepted.fd

theorem accept_family {w : Worker} (h : WorkerFollowed w) {env : Env}
    (hunused : 0 ≤ env.accepted.fd → ∀ fd el, w.work.m_connections.lookup fd = some el →
      el.conn.m_socket.m_fd ≠ env.accepted.fd) :
    (w.accept env).Leaves True fun w' =>
      (∀ fd, KeepsRegistered fd w.work w'.work) ∧
        LeftFamily env.accepted.fd (acceptedClient w env) w w' := by
  by_cases hfd : 0 ≤ env.accepted.fd
  swap
  · rw [accept_refused (not_le.mp hfd)]
    refine ⟨fun _ _ _ hj => hj, .refl _ _, fun _ => ⟨h, ?_⟩⟩
    rw [acceptedClient, if_neg fun hnew => hfd hnew.1, Function.update_eq_self]
  obtain ⟨habsent, hnone⟩ := h.each.absent_of_unused seated_followed (hunused hfd)
  cases hadded : env.added with
  | true =>
      obtain ⟨t, hok, hview, hsame, hidle⟩ := accept_fresh hfd habsent hadded
      have hnew := Ordinator.routine?_create h.consistent
        ⟨env.accepted.fd, (w.newElement env.accepted).uid⟩
      rw [hok]
      refine ⟨keepsRegistered_of_absent hsame habsent, hsame, fun hapart => ?_⟩
      have hkeeps : KeepsRoutines env.accepted.fd w _ :=
        KeepsRoutines.create (fun _ _ _ _ => rfl) ⟨t, _⟩ h.consistent _ hapart
          (congrArg View.routine hview) hsame
      refine ⟨⟨?_, h.consistent.create _, hapart⟩, ?_⟩
      · refine h.each.accepted ⟨t, _⟩ env.now hsame hnone (fun j time htime => ?_)
          hkeeps.followed ?_
        · rw [mem_times, hidle] at htime
          exact mem_times_of_insertNew htime
        · rw [hview]
          exact .client rfl hnew (Or.inl ⟨Context.made_ne_ended, rfl⟩)
      · rw [hkeeps.family ⟨t, _⟩ rfl hsame, acceptedClient, if_pos ⟨hfd, hadded⟩, clientAt, hview,
          clientOf_client hnew]
        rfl
  | false =>
      -- the new client stays in `m_connections`, and gets no events
      obtain ⟨t, hthrew, hview, hsame, hidle⟩ := accept_unregistered hfd habsent hadded
      have hkeeps : KeepsRoutines env.accepted.fd w w.ordinator := fun _ _ _ _ => rfl
      rw [hthrew]
      refine ⟨keepsRegistered_of_absent hsame habsent, hsame, fun hapart =>
        ⟨⟨?_, h.consistent, hapart⟩, ?_⟩⟩
      · refine h.each.accepted ⟨t, _⟩ env.now hsame hnone (fun j time htime => ?_)
          hkeeps.followed ?_
        · right
          rwa [mem_times, hidle] at htime
        · rw [hview]
          exact .unregistered rfl
      · rw [hkeeps.family ⟨t, _⟩ rfl hsame, acceptedClient, clientAt, clientAt, hview, habsent]
        simp [clientOf, View.absent, hadded]

/-! ## Dropping clients -/

theorem apart_of_erased {t t' : ThreadWork} {o : Ordinator ConnectionRef Frame} {fd : Int}
    (h : Apart ⟨t, o⟩) (hview : t'.view fd = .absent) (hsame : SameBut fd t t') :
    Apart ⟨t', o⟩ := by
  have hlookup : ∀ (j : Int) (id : Nat), t'.m_coroutines.lookup j = some id →
      t.m_coroutines.lookup j = some id := by
    intro j id hid
    have hj : j ≠ fd := by
      rintro rfl
      rw [show t'.m_coroutines.lookup j = none from congrArg View.routine hview] at hid
      cases hid
    exact (congrArg View.routine (hsame j hj)).symm.trans hid
  exact fun j j' id hid hid' => h j j' id (hlookup j id hid) (hlookup j' id hid')

/-- The loop of `dropTimeoutedConnections` ends the clients that have been idle for too long.
Induction on the elements from the iterator on. -/
theorem sweep_family (server : BaseHTTPServer) (spare : NewSocket) {entries : List (Int × Int)}
    {t : ThreadWork} {o : Ordinator ConnectionRef Frame} (h : WorkerFollowed ⟨t, o⟩)
    (hentries : t.m_idleTime.entries = entries) (clock : Nat → Int) :
    (sweep server spare clock entries t).Leaves True fun t' =>
      WorkerFollowed ⟨t', o⟩ ∧ clientAt ⟨t', o⟩ =
        FamilyAct.run Client.next (clientAt ⟨t, o⟩)
          ((timedOut server clock entries).map .ended) := by
  induction entries generalizing t clock with
  | nil => exact ⟨h, rfl⟩
  | cons entry rest ih =>
      obtain ⟨since, fd⟩ := entry
      have hsince : since ∈ t.times fd :=
        OrdMap.lookup_eq_some_iff.mpr (hentries ▸ List.mem_cons_self)
      rw [sweep, if_neg (not_not_intro (OrdMap.mem_of_lookup hsince)), timedOut]
      split
      · next hlate =>
        rcases disconnectClient_each seated_followed h.each hsince spare with
          hundef | ⟨t₁, hok, hidle, habsent, hsame, heach⟩
        · rw [hundef]
          trivial
        · have hrest : t₁.m_idleTime.entries = rest := by
            rw [hidle, OrdMap.entries_erase_head hentries]
          have hfirst : clientAt ⟨t₁, o⟩ = Function.update (clientAt ⟨t, o⟩) fd none := by
            have hkeeps : KeepsRoutines fd ⟨t, o⟩ o := fun _ _ _ _ => rfl
            rw [hkeeps.family ⟨t₁, o⟩ rfl hsame, clientAt, habsent]
            rfl
          rw [hok, Outcome.andThen_ok]
          refine (ih ⟨heach, h.consistent, apart_of_erased h.apart habsent hsame⟩ hrest _).mono ?_
          rintro t' ⟨h', hfamily⟩
          exact ⟨h', by rw [hfamily, hfirst]; rfl⟩
      · -- the elements in front of the iterator are gone already
        have hsame : (⟨t.m_idleTime.entries.filter fun i => decide (since ≤ i.1),
            t.m_idleTime.sorted.filter _⟩ : OrdMap Int Int) = t.m_idleTime :=
          OrdMap.ext (OrdMap.filter_le_head hentries)
        rw [hsame]
        exact ⟨h, rfl⟩

/-! ## Steps and runs -/

/-- What a step leaves: the invariant, and the family that is seen. -/
def FollowsFamily (seen : List Seen) (w w' : Worker) : Prop :=
  WorkerFollowed w' ∧ clientAt w' = FamilyAct.run Client.next (clientAt w) (seen.map Seen.act)

theorem apart_of_view {t t' : ThreadWork} {o o' : Ordinator ConnectionRef Frame}
    (hview : ∀ j, t'.view j = t.view j) (h : Apart ⟨t, o⟩) : Apart ⟨t', o'⟩ := by
  have hlookup : ∀ j, t'.m_coroutines.lookup j = t.m_coroutines.lookup j :=
    fun j => congrArg View.routine (hview j)
  intro j j' id hid hid'
  exact h j j' id ((hlookup j).symm.trans hid) ((hlookup j').symm.trans hid')

theorem clientAt_of_view {t t' : ThreadWork} {o : Ordinator ConnectionRef Frame}
    (hview : ∀ j, t'.view j = t.view j) : clientAt ⟨t', o⟩ = clientAt ⟨t, o⟩ := by
  funext j
  rw [clientAt, hview j, clientAt]

theorem resetConnectionTime_family {w : Worker} (h : Apart w → WorkerFollowed w) (fd now : Int) :
    (w.work.resetConnectionTime fd now).Leaves True fun t =>
      (∀ j, t.view j = w.work.view j) ∧
        (Apart ⟨t, w.ordinator⟩ → WorkerFollowed ⟨t, w.ordinator⟩) := by
  have heach := fun hapart => resetConnectionTime_each (h hapart).each fd now
  unfold resetConnectionTime at heach ⊢
  rcases eraseIdle_cases w.work fd with ⟨hundef, -⟩ | ⟨time, -, hok⟩
  · rw [hundef]
    trivial
  · rw [hok] at heach ⊢
    refine ⟨fun _ => rfl, fun hapart => ?_⟩
    have hbefore : Apart w := apart_of_view (fun _ => rfl) hapart
    exact ⟨(heach hbefore).1, (h hbefore).consistent, hapart⟩

/-- What is seen of an event is what it does to the family. -/
theorem run_seen {server : BaseHTTPServer} {w : Worker} {ready : Ready} {env : Env} :
    FamilyAct.run Client.next (clientAt w) ((w.seen server ready env).map Seen.act) =
      if ready.fd = server.m_socket.m_fd then
        Function.update (clientAt w) env.accepted.fd (acceptedClient w env)
      else Function.update (clientAt w) ready.fd
        ((clientAt w ready.fd).bind (Client.next · ⟨ready.events, env.script⟩)) := by
  unfold Worker.seen acceptedClient
  split
  · split
    · rfl
    · rw [Function.update_eq_self]
      rfl
  · rfl

/-- Handling an event. -/
theorem dispatch_family {server : BaseHTTPServer} {w : Worker} (h : WorkerFollowed w)
    {ready : Ready} (hready : ready.fd = server.m_socket.m_fd ∨ ready.fd ∈ w.work.registered)
    {env : Env}
    (hunused : 0 ≤ env.accepted.fd → ∀ fd el, w.work.m_connections.lookup fd = some el →
      el.conn.m_socket.m_fd ≠ env.accepted.fd)
    (hreturns : ready.fd ≠ server.m_socket.m_fd →
      ExceptionReturns w ready.fd ready.events env.script) :
    (w.dispatch server ready env).Leaves True fun w' => KeepsRegistered ready.fd w.work w'.work ∧
      (Apart w' → FollowsFamily (w.seen server ready env) w w') := by
  unfold FollowsFamily
  rw [run_seen]
  refine dispatch_leaves (P := fun w₁ => ready.fd ≠ server.m_socket.m_fd ∧ LeftFamily ready.fd
      ((clientAt w ready.fd).bind (Client.next · ⟨ready.events, env.script⟩)) w w₁)
    (fun hlisten => ?_) (fun hclient => ?_) (fun w₁ hclient hleft hmem => ?_) fun w₁ hleft => ?_
  · rw [if_pos hlisten]
    exact (accept_family h hunused).mono fun w' h' => ⟨h'.1 ready.fd, h'.2.family⟩
  · exact (handleConnection_family h (hready.resolve_left hclient) (hreturns hclient)).mono
      fun w₁ h₁ => ⟨hclient, h₁⟩
  · rw [if_neg hclient]
    refine (resetConnectionTime_family (fun hapart => (hleft.2.family hapart).1) ready.fd
      env.now).mono ?_
    rintro t ⟨hview, hfollowed⟩
    refine ⟨keepsRegistered_of_sameBut (hleft.2.same.trans fun j _ => hview j), fun hapart => ?_⟩
    refine ⟨hfollowed hapart, (clientAt_of_view hview).trans ?_⟩
    exact (hleft.2.family (apart_of_view (fun j => (hview j).symm) hapart)).2
  · rw [if_neg hleft.1]
    exact ⟨keepsRegistered_of_sameBut hleft.2.same, hleft.2.family⟩

/-! ### What is put out -/

/-- What an event puts out is what its client does. -/
theorem out_seen {server : BaseHTTPServer} {w : Worker} (h : WorkerFollowed w) {ready : Ready}
    (hready : ready.fd = server.m_socket.m_fd ∨ ready.fd ∈ w.work.registered) (env : Env) :
    (w.seen server ready env).flatMap Seen.out =
      FamilyAct.outputs Client.next Client.output (clientAt w)
        ((w.seen server ready env).map Seen.act) := by
  unfold Worker.seen
  split
  · split
    · rfl
    · rfl
  · next hclient =>
      have hmem := hready.resolve_left hclient
      obtain ⟨hQ, -⟩ := (h.each ready.fd).client (Or.inr (Or.inl hmem))
      generalize hview : w.work.view ready.fd = v at hQ
      cases hQ with
      | unregistered hsock =>
          exact absurd hmem (of_decide_eq_false (congrArg View.registered hview))
      | @client el id r hsock hr hown =>
          have hid : w.work.m_coroutines.lookup ready.fd = some id := congrArg View.routine hview
          have hclient : clientAt w ready.fd =
              some ⟨el.conn, if r.finished then none else some (frame r)⟩ := by
            rw [clientAt, hview]
            exact clientOf_client hr
          simp only [List.flatMap_cons, List.flatMap_nil, List.append_nil,
            List.map_cons, List.map_nil,
            FamilyAct.outputs, FamilyAct.index, hclient, FamilyAct.putOut, Option.elim_some]
          rw [Worker.resumes, hid, Option.bind_some, hr, Option.bind_some, Client.output]
          cases hfin : r.finished with
          | true => simp
          | false =>
              have hfunc := (hown.resolve_right (by simp [hfin])).2
              simp [hfunc, lookup_of_view hview]

theorem act_drop (clients : List Int) :
    (clients.map fun fd => (⟨.ended fd, []⟩ : Seen)).map Seen.act = clients.map .ended :=
  List.map_map

theorem out_drop (clients : List Int) (f : Int → Option Client) :
    (clients.map fun fd => (⟨.ended fd, []⟩ : Seen)).flatMap Seen.out =
      FamilyAct.outputs Client.next Client.output f
        ((clients.map fun fd => (⟨.ended fd, []⟩ : Seen)).map Seen.act) := by
  induction clients generalizing f with
  | nil => rfl
  | cons fd clients ih => exact ih _

/-! ### Runs -/

/-- A step from `w` to `s'` does to the family what is seen of it, and puts
out what the family does. -/
structure ShowsFamily (server : BaseHTTPServer) (seen : List Seen) (w : Worker) (s' : Running) :
    Prop where
  inRun : InRun server WorkerFollowed s'
  family : clientAt s'.worker = FamilyAct.run Client.next (clientAt w) (seen.map Seen.act)
  output : seen.flatMap Seen.out =
    FamilyAct.outputs Client.next Client.output (clientAt w) (seen.map Seen.act)

/-- Nothing is seen of a step that leaves the worker alone. -/
theorem showsFamily_of_same {server : BaseHTTPServer} {w : Worker} {point : Point}
    (h : InRun server WorkerFollowed ⟨w, point⟩) : ShowsFamily server [] w ⟨w, point⟩ :=
  ⟨h, rfl, rfl⟩

theorem showsFamily_of_dropped {server : BaseHTTPServer} {w : Worker} {clock : Nat → Int}
    {t : ThreadWork} (hinv : WorkerFollowed ⟨t, w.ordinator⟩)
    (hfamily : clientAt ⟨t, w.ordinator⟩ = FamilyAct.run Client.next (clientAt w)
      ((timedOut server clock w.work.m_idleTime.entries).map .ended))
    {point : Point} (hpoint : ∀ rest, point ≠ .handling rest) :
    ShowsFamily server ((timedOut server clock w.work.m_idleTime.entries).map
      fun fd => ⟨.ended fd, []⟩) w ⟨⟨t, w.ordinator⟩, point⟩ where
  inRun := ⟨hinv, fun rest hrest => absurd hrest (hpoint rest)⟩
  family := by rw [act_drop, hfamily]
  output := out_drop _ _

theorem step_family {server : BaseHTTPServer} {s s' : Running} (h : InRun server WorkerFollowed s)
    {act : Act} (hpromised : s.Promised server act) (hreturns : ExceptionsReturn server s act)
    (hstep : ApartStep server s act s') : ShowsFamily server (s.seen server act) s.worker s' := by
  obtain ⟨hstep, hapart⟩ := hstep
  obtain ⟨w, point⟩ := s
  obtain ⟨hinv, hpending⟩ := h
  have hhandled : ∀ ready rest env, point = .handling (ready :: rest) → act = .handle env →
      (w.dispatch server ready env).Leaves True fun w' => KeepsRegistered ready.fd w.work w'.work ∧
        (Apart w' → FollowsFamily (w.seen server ready env) w w') := by
    rintro ready rest env rfl rfl
    exact dispatch_family hinv ((hpending _ rfl).2 ready List.mem_cons_self) hpromised
      (hreturns ready rest rfl)
  have hout : ∀ ready rest env, point = .handling (ready :: rest) →
      (w.seen server ready env).flatMap Seen.out = FamilyAct.outputs Client.next Client.output
      (clientAt w) ((w.seen server ready env).map Seen.act) := by
    rintro ready rest env rfl
    exact out_seen hinv ((hpending _ rfl).2 ready List.mem_cons_self) env
  cases hstep.cases with
  | @dropped spare clock t hpoint hdrop =>
      cases hpoint
      have hkept := sweep_family server spare hinv rfl clock
      rw [show sweep server spare clock _ w.work = .ok t from hdrop] at hkept
      exact showsFamily_of_dropped hkept.1 hkept.2 Point.waiting_ne_handling
  | @dropThrew spare clock e t hpoint hdrop =>
      cases hpoint
      have hkept := sweep_family server spare hinv rfl clock
      rw [show sweep server spare clock _ w.work = .threw e t from hdrop] at hkept
      exact showsFamily_of_dropped hkept.1 hkept.2 Point.top_ne_handling
  | waitedInVain hpoint =>
      cases hpoint
      exact showsFamily_of_same (inRun_top hinv)
  | waitFailed hpoint =>
      cases hpoint
      exact showsFamily_of_same (inRun_top hinv)
  | woken hpoint =>
      cases hpoint
      refine showsFamily_of_same ⟨hinv, fun rest hrest => ?_⟩
      cases hrest
      exact hpromised
  | @handled ready rest env w' hpoint hdispatch =>
      cases hpoint
      have hkept := hhandled ready rest env rfl rfl
      rw [hdispatch] at hkept
      obtain ⟨hfollowed, hfamily⟩ := hkept.2 hapart
      refine ⟨⟨hfollowed, fun rest' hrest' => ?_⟩, hfamily, hout ready rest env rfl⟩
      cases hrest'
      exact (hpending _ rfl).tail hkept.1
  | @handleThrew ready rest env e w' hpoint hdispatch =>
      cases hpoint
      have hkept := hhandled ready rest env rfl rfl
      rw [hdispatch] at hkept
      obtain ⟨hfollowed, hfamily⟩ := hkept.2 hapart
      exact ⟨inRun_top hfollowed, hfamily, hout ready rest env rfl⟩
  | finished hpoint =>
      cases hpoint
      exact showsFamily_of_same (inRun_top hinv)

/-- A run of the loop whose steps keep all clients apart and lose no exception,
with what is seen of it. -/
abbrev SeenRun (server : BaseHTTPServer) : List Seen → Running → Prop :=
  Traced (ApartStep server) (fun s act => s.Promised server act ∧ ExceptionsReturn server s act)
    (Running.seen server) {}

/-- In a run the worker shows a family: what holds of the worker at its
end, and each client alone. -/
theorem seenRun_family {server : BaseHTTPServer} {bs : List Seen} {s : Running}
    (hrun : SeenRun server bs s) :
    InRun server WorkerFollowed s ∧ ∀ fd,
      clientAt s.worker fd =
          FamilyAct.member Client.next none (FamilyAct.about fd (bs.map Seen.act)) ∧
        ((bs.flatMap Seen.out).filter fun o => o.1 = fd).map Prod.snd =
          FamilyAct.memberOutputs Client.next Client.output none
            (FamilyAct.about fd (bs.map Seen.act)) := by
  have hinit : InRun server WorkerFollowed {} := inRun_top workerFollowed_new
  refine hrun.family (fun s : Running => clientAt s.worker) ?_ hinit
  intro s act s' hinv hadmitted hstep
  have h := step_family hinv hadmitted.1 hadmitted.2 hstep
  exact ⟨h.inRun, h.family, h.output⟩

/-- **A worker serves its clients as if each were alone with it.**  In a run in which no two
clients ever have one coroutine and no exception of a coroutine is lost, whatever is handled
in between: what the tables hold about a descriptor is the client that its own acceptance,
events and end lead to, and what was handed to `onRequest` for it and done to its socket is
what that client puts out. -/
theorem clients_independent {server : BaseHTTPServer} {bs : List Seen} {s : Running}
    (hrun : SeenRun server bs s) (fd : Int) :
    clientAt s.worker fd =
        FamilyAct.member Client.next none (FamilyAct.about fd (bs.map Seen.act)) ∧
      ((bs.flatMap Seen.out).filter fun o => o.1 = fd).map Prod.snd =
        FamilyAct.memberOutputs Client.next Client.output none
          (FamilyAct.about fd (bs.map Seen.act)) :=
  (seenRun_family hrun).2 fd

/-! ### Two clients -/

theorem apart_of_nodup {w : Worker} (h : (w.work.m_coroutines.entries.map Prod.snd).Nodup) :
    Apart w := by
  intro fd fd' id hid hid'
  have hsame := List.inj_on_of_nodup_map h (OrdMap.lookup_eq_some_iff.mp hid)
    (OrdMap.lookup_eq_some_iff.mp hid') rfl
  exact congrArg Prod.fst hsame

/-- The worker after a second client with descriptor 6 was accepted at time 2. -/
def twoClients : Worker :=
  match oneClient.accept (accepting 6 2).2 with
  | .ok w => w
  | _ => {}

/-- The worker after the peer of the first one has closed its side. -/
def firstLeft : Worker :=
  match twoClients.dispatch serverOn3 ⟨5, 1⟩ { script := peerGone, now := 3 } with
  | .threw _ w => w
  | _ => {}

/-- When the table has never moved since a coroutine was entered, all exceptions come back. -/
theorem exceptionReturns_of_bound {w : Worker}
    (h : ∀ r ∈ w.ordinator.routines, w.ordinator.boundIn r.ctx = w.ordinator.storage) (fd : Int)
    (events : UInt32) (script : Script) : ExceptionReturns w fd events script := by
  intro el id r _ _ hr e _
  exact h r (List.mem_of_getElem? (Ordinator.routine?_eq_some.mp hr).2)

/-- One event is handled, from the top of the loop to its top. -/
theorem seenRun_event {bs : List Seen} {w w' : Worker} (h : SeenRun serverOn3 bs ⟨w, .top⟩)
    (hw : Apart w) (hw' : Apart w') (ready : Ready) (env : Env)
    (hidle : timedOut serverOn3 (fun _ => env.now) w.work.m_idleTime.entries = [])
    (hdrop : Running.Step serverOn3 ⟨w, .top⟩ (.drop {} fun _ => env.now) ⟨w, .waiting⟩)
    (hready : Running.Promised serverOn3 ⟨w, .waiting⟩ (.wait (.ready [ready])))
    (hpromised : Running.Promised serverOn3 ⟨w, .handling [ready]⟩ (.handle env))
    (hreturns : ready.fd ≠ 3 → ExceptionReturns w ready.fd ready.events env.script)
    (hhandle : Running.Step serverOn3 ⟨w, .handling [ready]⟩ (.handle env) ⟨w', .handling []⟩) :
    SeenRun serverOn3 (bs ++ w.seen serverOn3 ready env) ⟨w', .top⟩ := by
  have hwaits : SeenRun serverOn3 bs ⟨w, .waiting⟩ := by
    refine h.unseen (.drop {} fun _ => env.now) ⟨trivial, trivial⟩ ⟨hdrop, hw⟩ ?_
    show (timedOut serverOn3 (fun _ => env.now) w.work.m_idleTime.entries).map _ = []
    rw [hidle, List.map_nil]
  have hwoken : SeenRun serverOn3 bs ⟨w, .handling [ready]⟩ :=
    hwaits.unseen (.wait (.ready [ready])) ⟨hready, trivial⟩ ⟨rfl, hw⟩ rfl
  have hreturns' : ExceptionsReturn serverOn3 ⟨w, .handling [ready]⟩ (.handle env) := by
    rintro ready' rest hpoint hclient
    cases hpoint
    exact hreturns hclient
  have hhandled : SeenRun serverOn3 (bs ++ w.seen serverOn3 ready env) ⟨w', .handling []⟩ :=
    hwoken.tail (.handle env) ⟨hpromised, hreturns'⟩ ⟨hhandle, hw'⟩
  exact hhandled.unseen .finish ⟨trivial, trivial⟩ ⟨rfl, hw'⟩ rfl

theorem seenRun_oneClient :
    SeenRun serverOn3 [⟨.began 5 (Client.new 5 0), []⟩] ⟨oneClient, .top⟩ :=
  seenRun_event .refl (apart_of_nodup (by decide)) (apart_of_nodup (by decide +kernel)) ⟨3, 1⟩
    (accepting 5 1).2 rfl rfl (listening_promised _) (accepting_promised_first 5 1)
    (fun hclient => absurd rfl hclient) rfl

theorem seenRun_twoClients : SeenRun serverOn3
    [⟨.began 5 (Client.new 5 0), []⟩, ⟨.began 6 (Client.new 6 0), []⟩] ⟨twoClients, .top⟩ := by
  have hunused : ∀ i ∈ oneClient.work.m_connections.entries, i.2.conn.m_socket.m_fd ≠ 6 := by
    decide +kernel
  exact seenRun_event seenRun_oneClient (apart_of_nodup (by decide +kernel))
    (apart_of_nodup (by decide +kernel)) ⟨3, 1⟩ (accepting 6 2).2 rfl rfl (listening_promised _)
    (accepting_promised fun j el h => hunused (j, el) (OrdMap.mem_of_lookup_eq_some h))
    (fun hclient => absurd rfl hclient) rfl

/-- Both clients have an event, and the first one's peer has closed its side. -/
theorem seenRun_firstLeft : ∃ bs, SeenRun serverOn3 bs ⟨firstLeft, .top⟩ := by
  have htwo : Apart twoClients := apart_of_nodup (by decide +kernel)
  have hwaits : SeenRun serverOn3 _ ⟨twoClients, .waiting⟩ :=
    seenRun_twoClients.tail (.drop {} fun _ => 2) ⟨trivial, trivial⟩ ⟨rfl, htwo⟩
  have hready : SeenRun serverOn3 _ ⟨twoClients, .handling [⟨5, 1⟩, ⟨6, 1⟩]⟩ :=
    hwaits.tail (.wait (.ready [⟨5, 1⟩, ⟨6, 1⟩])) ⟨⟨by decide, by decide +kernel⟩, trivial⟩
      ⟨rfl, htwo⟩
  have hreturns : ExceptionsReturn serverOn3 ⟨twoClients, .handling [⟨5, 1⟩, ⟨6, 1⟩]⟩
      (.handle { script := peerGone, now := 3 }) := by
    rintro ready rest hpoint -
    exact exceptionReturns_of_bound (by decide +kernel) _ _ _
  exact ⟨_, hready.tail (.handle { script := peerGone, now := 3 })
    ⟨fun h => absurd h (by decide), hreturns⟩ ⟨rfl, apart_of_nodup (by decide +kernel)⟩⟩

/-- What the tables hold about the second client is what its acceptance has led to. -/
theorem clients_independent_firstLeft :
    ∃ bs, SeenRun serverOn3 bs ⟨firstLeft, .top⟩ ∧
      clientAt firstLeft 6 =
        FamilyAct.member Client.next none (FamilyAct.about 6 (bs.map Seen.act)) ∧
      ((bs.flatMap Seen.out).filter fun o => o.1 = 6).map Prod.snd =
        FamilyAct.memberOutputs Client.next Client.output none
          (FamilyAct.about 6 (bs.map Seen.act)) := by
  obtain ⟨bs, hrun⟩ := seenRun_firstLeft
  exact ⟨bs, hrun, clients_independent hrun 6⟩

end HTTP
end AdvCppHW
