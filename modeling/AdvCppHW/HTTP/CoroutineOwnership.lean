import AdvCppHW.HTTP.EachClient

/-!
# Ownership of coroutines

Each client of a worker has a coroutine of its own, as long as no coroutine ends by an exception:
the id of one that did is queued for reuse while `m_coroutines` still holds it.

* `OwnedOn` — one descriptor owns its coroutine; `AllOwned` — all do.
* `handleConnection_owned`, `accept_owned`, `sweep_owned` — what the members keep; `step_owned` —
  what a step of the loop keeps.
* `coroutines_owned` — the invariant over whole runs; `coroutine_shared` — two clients with one
  coroutine after the first one's peer has closed its side.
-/

namespace AdvCppHW
namespace HTTP

open Coroutine ThreadWork Worker

/-- The tables hold a client whose coroutine was made for it and has not ended. -/
def View.Owning (o : Ordinator ConnectionRef Frame) (fd : Int) (v : View) : Prop :=
  ∃ el id r, v = ⟨some el, some id, true⟩ ∧ el.conn.m_socket.m_fd = fd ∧
    o.routine? id = some r ∧ r.ctx ≠ .ended ∧ r.func = ⟨fd, el.uid⟩

/-- The tables know nothing about a descriptor, or hold a client that owns its coroutine and
has at most one idle time. -/
def OwnedOn (w : Worker) (fd : Int) : Prop :=
  (w.work.view fd = .absent ∧ ∀ time, time ∉ w.work.times fd) ∨
    (View.Owning w.ordinator fd (w.work.view fd) ∧ (w.work.times fd).Subsingleton)

def AllOwned (w : Worker) : Prop := ∀ fd, OwnedOn w fd

/-- The routines of other descriptors that have not ended are as before. -/
def KeepsOthers (fd : Int) (o o' : Ordinator ConnectionRef Frame) : Prop :=
  ∀ id r, o.routine? id = some r → r.ctx ≠ .ended → r.func.fd ≠ fd → o'.routine? id = some r

theorem KeepsOthers.trans {fd : Int} {o o' o'' : Ordinator ConnectionRef Frame}
    (h : KeepsOthers fd o o') (h' : KeepsOthers fd o' o'') : KeepsOthers fd o o'' :=
  fun id r hr hctx hfd => h' id r (h id r hr hctx hfd) hctx hfd

theorem keepsOthers_create {o : Ordinator ConnectionRef Frame} (ho : o.Consistent) (fd : Int)
    (f : ConnectionRef) : KeepsOthers fd o (o.create f).2 :=
  fun _ _ hr hctx _ => Ordinator.create_keeps ho f hr hctx

theorem keepsOthers_afterStretch {o : Ordinator ConnectionRef Frame} {id : Nat}
    {r : Routine ConnectionRef Frame} (hr : o.routine? id = some r) {fd : Int}
    (hfd : r.func.fd = fd) (bound : Nat)
    (ended : Ended Frame) : KeepsOthers fd o (o.afterStretch id bound ended) := by
  intro j r' hr' _ hfd'
  have hne : j ≠ id := by
    rintro rfl
    rw [hr] at hr'
    cases hr'
    exact hfd' hfd
  rw [Ordinator.routine?_afterStretch_ne (Ordinator.routine?_eq_some.mp hr).1 hne, hr']

theorem seated_owning : ClientProperty.Seated View.Owning := by
  rintro o fd v ⟨el, id, r, rfl, hsock, -⟩
  exact ⟨el, rfl, hsock⟩

/-- A client keeps its coroutine when the routines of others are kept: it
was made for the client. -/
theorem KeepsOthers.owning {fd : Int} {o o' : Ordinator ConnectionRef Frame}
    (h : KeepsOthers fd o o') {v : Int → View} (j : Int) (hj : j ≠ fd)
    (hv : View.Owning o j (v j)) : View.Owning o' j (v j) := by
  obtain ⟨el, id, r, hview, hsock, hr, hctx, hfunc⟩ := hv
  have hother : r.func.fd ≠ fd := by
    rw [hfunc]
    exact hj
  exact ⟨el, id, r, hview, hsock, h id r hr hctx hother, hctx, hfunc⟩

theorem allOwned_new : AllOwned {} := each_new (Q := View.Owning)

/-! ## Handling an event -/

/-- The stretch that an event of `fd` leads to does not end by an exception. -/
def NoException (w : Worker) (fd : Int) (events : UInt32) (script : Script) : Prop :=
  ∀ el id r, w.work.m_connections.lookup fd = some el → w.work.m_coroutines.lookup fd = some id →
    w.ordinator.routine? id = some r → ∀ e, (stretchOf el r events script).ended ≠ .threw e

/-- After a handler all clients own their coroutines; about other descriptors the tables
hold what they held before. -/
structure LeftOwned (fd : Int) (w w' : Worker) : Prop where
  owned : AllOwned w'
  consistent : w'.ordinator.Consistent
  view : SameBut fd w.work w'.work

/-- The routines of other clients are kept when an event has resumed the client's own coroutine. -/
theorem Ran.keepsOthers {w : Worker} {fd : Int} {el el₁ : Element} {id : Nat} {events : UInt32}
    {script : Script} {o₁ : Ordinator ConnectionRef Frame}
    (h : Ran w fd el id events script el₁ o₁) : KeepsOthers fd w.ordinator o₁ := by
  cases h with
  | refused hfinished => exact fun _ _ hr _ _ => hr
  | resumed hr hctx hfunc hthrew => exact keepsOthers_afterStretch hr (by rw [hfunc]) _ _

theorem handleConnection_owned {w : Worker} (howned : AllOwned w) (ho : w.ordinator.Consistent)
    {fd : Int} (hmem : fd ∈ w.work.registered) {events : UInt32} {env : Env}
    (hgoes : NoException w fd events env.script) :
    (w.handleConnection fd events env).Leaves True (LeftOwned fd w) := by
  have heach : Each View.Owning w := howned
  obtain ⟨⟨el, id, r, hview, hsock, hr, hctx, hfunc⟩, honce⟩ :=
    (heach fd).client (Or.inr (Or.inl hmem))
  have hroutine : w.work.m_coroutines.lookup fd = some id := congrArg View.routine hview
  have houtcome := handleConnection_outcome events env ho hview hsock
    fun r' hr' => by
      rw [hr] at hr'
      cases hr'
      exact Or.inr (by rw [hfunc])
  generalize w.handleConnection fd events env = res at houtcome
  cases houtcome with
  | undefined why => trivial
  | disconnected hran hclosed htime hidle hview' hsame =>
      exact ⟨heach.erased ⟨_, _⟩ hran.keepsOthers.owning htime hidle hview' hsame,
        hran.consistent ho, hsame⟩
  | @created el₁ o₁ t hran hopen hempty hsock' hidle hview' hsame =>
      have ho₁ := hran.consistent ho
      refine ⟨heach.kept ⟨t, _⟩ hsame hidle
        (hran.keepsOthers.trans (keepsOthers_create ho₁ fd _)).owning ?_ honce, ho₁.create _, hsame⟩
      exact ⟨_, _, _, hview', hsock', Ordinator.routine?_create ho₁ _, Context.made_ne_ended, rfl⟩
  | kept hran hopen hkept hsock' hidle hview' hsame =>
      refine ⟨heach.kept ⟨_, _⟩ hsame hidle hran.keepsOthers.owning ?_ honce,
        hran.consistent ho, hsame⟩
      cases hran with
      | refused hfinished =>
          have hunfinished := (ho.unfinished hr hctx).1
          rw [hfinished r hr] at hunfinished
          cases hunfinished
      | @resumed r' hr' hctx' hfunc' hthrew =>
          -- something waits in the buffer, so the coroutine has yielded
          have hsound := connectionCallback_sound (el.conn.setEvent events) env.script (frame r')
          cases hended : (stretchOf el r' events env.script).ended with
          | returned => exact absurd (hsound.buffer hended) hkept
          | threw e => exact absurd hended (hgoes el id r' (lookup_of_view hview) hroutine hr' e)
          | yielded frame' =>
              exact ⟨_, _, _, hview', hsock', Ordinator.routine?_yield hr' frame' _,
                Context.saved_ne_ended _ _, hfunc'⟩
  | threw hr' hctx' hfunc' hthrew hbound hsock' hidle hview' hsame =>
      exact absurd hthrew (hgoes el id _ (lookup_of_view hview) hroutine hr' _)

/-! ## Accepting -/

/-- What holds of the worker in every state of a run. -/
structure WorkerOwned (w : Worker) : Prop where
  owned : AllOwned w
  consistent : w.ordinator.Consistent

theorem accept_owned {w : Worker} (h : WorkerOwned w) {env : Env}
    (hunused : 0 ≤ env.accepted.fd → ∀ fd el, w.work.m_connections.lookup fd = some el →
      el.conn.m_socket.m_fd ≠ env.accepted.fd)
    (hadded : 0 ≤ env.accepted.fd → env.added = true) :
    (w.accept env).Leaves True
      fun w' => WorkerOwned w' ∧ ∀ fd, KeepsRegistered fd w.work w'.work := by
  have heach : Each View.Owning w := h.owned
  have houtcome := accept_outcome seated_owning heach hunused
  generalize w.accept env = res at houtcome
  cases houtcome with
  | refused => exact ⟨h, fun _ _ _ hj => hj⟩
  | @fresh t hfd _ habsent hnone hview hsame hidle =>
      refine ⟨⟨?_, h.consistent.create _⟩, keepsRegistered_of_absent hsame habsent⟩
      exact heach.accepted ⟨t, _⟩ env.now hsame hnone hidle
        (keepsOthers_create h.consistent _ _).owning
        ⟨_, _, _, hview, rfl, Ordinator.routine?_create h.consistent _, Context.made_ne_ended, rfl⟩
  | unregistered hfd hnot _ _ _ _ _ =>
      rw [hadded hfd] at hnot
      cases hnot

/-! ## Steps and runs -/

/-- The condition under which handling an event keeps the ownership: an accepted descriptor is
registered, and no coroutine ends by an exception. -/
def KeepsOwnership (server : BaseHTTPServer) (s : Running) : Act → Prop
  | .handle env => ∀ ready rest, s.point = .handling (ready :: rest) →
      if ready.fd = server.m_socket.m_fd then 0 ≤ env.accepted.fd → env.added = true
      else NoException s.worker ready.fd ready.events env.script
  | _ => True

/-- Handling an event keeps the ownership, and all other descriptors registered. -/
theorem dispatch_owned {server : BaseHTTPServer} {w : Worker} (h : WorkerOwned w) {ready : Ready}
    (hready : ready.fd = server.m_socket.m_fd ∨ ready.fd ∈ w.work.registered) {env : Env}
    (hunused : 0 ≤ env.accepted.fd → ∀ fd el, w.work.m_connections.lookup fd = some el →
      el.conn.m_socket.m_fd ≠ env.accepted.fd)
    (hcond : if ready.fd = server.m_socket.m_fd then 0 ≤ env.accepted.fd → env.added = true
      else NoException w ready.fd ready.events env.script) :
    (w.dispatch server ready env).Leaves True
      fun w' => WorkerOwned w' ∧ KeepsRegistered ready.fd w.work w'.work := by
  refine dispatch_leaves (P := LeftOwned ready.fd w) (fun hlisten => ?_) (fun hclient => ?_)
    (fun w₁ hclient hleft hmem => ?_) fun w₁ hleft => ?_
  · rw [if_pos hlisten] at hcond
    exact (accept_owned h hunused hcond).mono fun w' h' => ⟨h'.1, h'.2 ready.fd⟩
  · rw [if_neg hclient] at hcond
    exact handleConnection_owned h.owned h.consistent (hready.resolve_left hclient) hcond
  · refine (resetConnectionTime_each (Q := View.Owning) hleft.owned ready.fd env.now).mono ?_
    rintro t ⟨howned', hview⟩
    exact ⟨⟨howned', hleft.consistent⟩,
      keepsRegistered_of_sameBut (hleft.view.trans fun j _ => hview j)⟩
  · exact ⟨⟨hleft.owned, hleft.consistent⟩, keepsRegistered_of_sameBut hleft.view⟩

/-- A step of the loop keeps the ownership, if the worker goes on. -/
theorem step_owned {server : BaseHTTPServer} {s : Running} (h : InRun server WorkerOwned s)
    {act : Act} (hpromised : s.Promised server act) (hcond : KeepsOwnership server s act)
    {next : Next}
    (hstep : s.step server act = some next) : next.Keeps True (InRun server WorkerOwned) := by
  refine step_keeps (fun spare clock _ hw => ?_) (fun ready rest env hpoint hact hw hready => ?_) h
    hpromised hstep
  · refine (sweep_each seated_owning (Q := View.Owning) hw.owned server spare clock).mono ?_
    exact fun t ht => ⟨ht, hw.consistent⟩
  · subst hact
    exact dispatch_owned hw hready hpromised (hcond ready rest hpoint)

/-- Each client of a worker has an unfinished coroutine of its own. -/
structure CoroutinesOwned (w : Worker) : Prop where
  distinct : ∀ fd fd' id, w.work.m_coroutines.lookup fd = some id →
    w.work.m_coroutines.lookup fd' = some id → fd = fd'
  own : ∀ fd el, w.work.m_connections.lookup fd = some el → el.conn.isOpened = true →
    ∃ id r, w.work.m_coroutines.lookup fd = some id ∧ w.ordinator.routine? id = some r ∧
      r.finished = false ∧ r.ctx ≠ .ended ∧ r.func = ⟨fd, el.uid⟩

theorem AllOwned.owning_of_routine {w : Worker} (h : AllOwned w) {fd : Int} {id : Nat}
    (hid : w.work.m_coroutines.lookup fd = some id) :
    ∃ r, w.ordinator.routine? id = some r ∧ r.func.fd = fd := by
  rcases h fd with ⟨hview, -⟩ | ⟨⟨el, id', r, hview, -, hr, -, hfunc⟩, -⟩
  · have hnone : w.work.m_coroutines.lookup fd = none := congrArg View.routine hview
    rw [hnone] at hid
    cases hid
  · have hsome : w.work.m_coroutines.lookup fd = some id' := congrArg View.routine hview
    rw [hsome] at hid
    cases hid
    exact ⟨r, hr, by rw [hfunc]⟩

theorem AllOwned.coroutines {w : Worker} (h : AllOwned w) (ho : w.ordinator.Consistent) :
    CoroutinesOwned w where
  distinct fd fd' id hfd hfd' := by
    obtain ⟨r, hr, hfunc⟩ := h.owning_of_routine hfd
    obtain ⟨r', hr', hfunc'⟩ := h.owning_of_routine hfd'
    rw [hr] at hr'
    cases hr'
    exact hfunc.symm.trans hfunc'
  own fd el hel _ := by
    obtain ⟨⟨el', id, r, hview, -, hr, hctx, hfunc⟩, -⟩ :=
      HoldsOn.client (Q := View.Owning) (h fd)
      (Or.inl (Support.OrdMap.mem_of_lookup hel))
    rw [lookup_of_view hview] at hel
    cases hel
    exact ⟨id, r, congrArg View.routine hview, hr, (ho.unfinished hr hctx).1, hctx, hfunc⟩

/-- In a run in which no coroutine ends by an exception, and every accepted descriptor is
registered, each client has an unfinished coroutine of its own in every state. -/
theorem coroutines_owned {server : BaseHTTPServer} {s : Running}
    (hrun : Support.Reaches (Running.Step server)
      (fun s act => s.Promised server act ∧ KeepsOwnership server s act) {} s) :
    CoroutinesOwned s.worker := by
  have hinv : InRun server WorkerOwned s := by
    refine hrun.invariant (fun s act s' hinv hadmitted hs => ?_)
      (inRun_top ⟨allOwned_new, Ordinator.consistent_new⟩)
    show (Next.goesOn s').Keeps True (InRun server WorkerOwned)
    exact step_owned hinv hadmitted.1 hadmitted.2 hs
  exact hinv.inv.owned.coroutines hinv.inv.consistent

/-- An event that finds nothing to read. -/
def nothingToRead : Env where
  script := { onRequest := fun _ => .error .out_of_range }
  now := 2

/-- The worker after that event of its only client. -/
def stillReading : Worker :=
  match oneClient.dispatch serverOn3 ⟨5, 1⟩ nothingToRead with
  | .ok w => w
  | _ => {}

/-- A client is accepted, and has an event with nothing to read. -/
theorem coroutines_owned_oneClient :
    ∃ s, Support.Reaches (Running.Step serverOn3)
        (fun s act => s.Promised serverOn3 act ∧ KeepsOwnership serverOn3 s act) {} s ∧
      s.worker.work.m_coroutines.lookup 5 = some 2 ∧ CoroutinesOwned s.worker := by
  have hkeeps : KeepsOwnership serverOn3 ⟨{}, .handling [⟨3, 1⟩]⟩ (.handle (accepting 5 1).2) := by
    intro ready rest hpoint
    cases hpoint
    exact fun _ => rfl
  have hgoes : KeepsOwnership serverOn3 ⟨oneClient, .handling [⟨5, 1⟩]⟩
      (.handle nothingToRead) := by
    intro ready rest hpoint
    cases hpoint
    show NoException oneClient 5 1 nothingToRead.script
    intro el id r hel hid hr e
    cases hel
    cases hid
    cases hr
    have hyields : (stretchOf ⟨0, .ofFD 5 0⟩ { func := ⟨5, 0⟩ } 1 nothingToRead.script).ended =
        .yielded .reading := by decide +kernel
    exact hyields ▸ nofun
  have hfirst : Support.Reaches (Running.Step serverOn3)
      (fun s act => s.Promised serverOn3 act ∧ KeepsOwnership serverOn3 s act)
      {} ⟨oneClient, .top⟩ :=
    reaches_oneClient ⟨trivial, trivial⟩ ⟨listening_promised _, trivial⟩
      ⟨accepting_promised_first 5 1, hkeeps⟩ ⟨trivial, trivial⟩
  have hstep : Running.Step serverOn3 ⟨oneClient, .handling [⟨5, 1⟩]⟩ (.handle nothingToRead)
      ⟨stillReading, .handling []⟩ := by
    unfold Running.Step
    decide +kernel
  have hrun : Support.Reaches (Running.Step serverOn3)
      (fun s act => s.Promised serverOn3 act ∧ KeepsOwnership serverOn3 s act) {}
      ⟨stillReading, .handling []⟩ :=
    (reaches_ready hfirst [⟨5, 1⟩] rfl ⟨trivial, trivial⟩ ⟨⟨by decide, by decide⟩, trivial⟩).tail
      ⟨.handle nothingToRead, ⟨fun h => absurd h (by decide), hgoes⟩, hstep⟩
  exact ⟨_, hrun, by decide +kernel, coroutines_owned hrun⟩

/-- The worker after the peer of its only client has closed its side. -/
def peerLeft : Worker :=
  match oneClient.dispatch serverOn3 ⟨5, 1⟩ { script := peerGone } with
  | .threw _ w => w
  | _ => {}

/-- A run in which no call fails. -/
abbrev ReachesWithoutFailure : Running → Running → Prop :=
  Support.Reaches (Running.Step serverOn3) fun s act => s.Promised serverOn3 act ∧ NoCallFails s act

theorem noCallFails_accepting (s : Running) (fd now : Int) :
    NoCallFails s (.handle (accepting fd now).2) :=
  ⟨rfl, by simp [accepting, peerGone], by simp [accepting, peerGone]⟩

theorem reaches_peerLeft : ReachesWithoutFailure {} ⟨peerLeft, .top⟩ := by
  have hfirst : ReachesWithoutFailure {} ⟨oneClient, .top⟩ :=
    reaches_oneClient ⟨trivial, trivial⟩ ⟨listening_promised _, noCallFails_ready _ _⟩
      ⟨accepting_promised_first 5 1, noCallFails_accepting _ 5 1⟩ ⟨trivial, trivial⟩
  exact (reaches_ready hfirst [⟨5, 1⟩] rfl ⟨trivial, trivial⟩
    ⟨⟨by decide, by decide⟩, noCallFails_ready _ _⟩).tail
    ⟨.handle { script := peerGone }, ⟨fun h => absurd h (by decide),
      ⟨rfl, by simp [peerGone], by simp [peerGone]⟩⟩, rfl⟩

/-- The coroutine of a client ends by an exception, and a client that is accepted afterwards gets
its id: the first client's next event resumes the second one's coroutine. -/
theorem coroutine_shared :
    ∃ s, Support.Reaches (Running.Step serverOn3)
        (fun s act => s.Promised serverOn3 act ∧ NoCallFails s act) {} s ∧
      ¬CoroutinesOwned s.worker ∧
      s.worker.work.m_coroutines.lookup 5 = some 1 ∧
      (s.worker.ordinator.routine? 1).map (·.func.fd) = some 6 := by
  have hunused : ∀ j el, peerLeft.work.m_connections.lookup j = some el →
      el.conn.m_socket.m_fd ≠ 6 := by
    intro j el h
    have hmem : (j, el) ∈ peerLeft.work.m_connections.entries :=
      Support.OrdMap.mem_of_lookup_eq_some h
    revert hmem
    have hall : ∀ i ∈ peerLeft.work.m_connections.entries, i.2.conn.m_socket.m_fd ≠ 6 := by
      decide +kernel
    exact hall (j, el)
  have hsecond : ReachesWithoutFailure {} _ :=
    (reaches_ready reaches_peerLeft [⟨3, 1⟩] rfl ⟨trivial, trivial⟩
      ⟨listening_promised _, noCallFails_ready _ _⟩).tail
      ⟨.handle (accepting 6 2).2, ⟨accepting_promised hunused, noCallFails_accepting _ 6 2⟩, rfl⟩
  refine ⟨_, hsecond, fun h => ?_, by decide +kernel, by decide +kernel⟩
  have hsame := h.distinct 5 6 1 (by decide +kernel) (by decide +kernel)
  exact absurd hsame (by decide)

end HTTP
end AdvCppHW
