import AdvCppHW.HTTP.ClientFamily
import AdvCppHW.HTTP.Shutdown

/-!
# The clients of a server

All workers of a server wait for clients on one listening socket, and each keeps those that it has
accepted in tables of its own.  The threads take their steps in any order.  As long as `accept4`
returns no descriptor that a socket of any worker has, no two clients of a worker have one
coroutine, and no exception of a coroutine is lost, a client is with one worker, and is served as if
it were alone with the server.

* `Pool.seen` — what is seen of a step of a thread.
* `step_connections`, `step_seen` — what a worker comes to know in a step, and whom it is about.
* `workerStep_shows`, `poolStep_family` — what a step does to the clients of the server.
* `clients_of_server` — whole runs.
-/

namespace AdvCppHW
namespace HTTP

open Coroutine ThreadWork Worker Support

/-! ## What a worker knows -/

theorem mem_connections_of_view {t t' : ThreadWork} {fd : Int} (h : t'.view fd = t.view fd)
    (hmem : fd ∈ t'.m_connections) : fd ∈ t.m_connections := by
  have helement : t'.m_connections.lookup fd = t.m_connections.lookup fd := congrArg View.element h
  rw [OrdMap.mem_iff, helement] at hmem
  exact OrdMap.mem_iff.mpr hmem

theorem clientAt_of_notMem {w : Worker} {fd : Int} (h : fd ∉ w.work.m_connections) :
    clientAt w fd = none := by
  have helement : (w.work.view fd).element = none := OrdMap.notMem_iff.mp h
  rw [clientAt, clientOf, helement]
  rfl

/-- Whatever a table holds, the client is in `m_connections`. -/
theorem WorkerFollowed.mem_connections {w : Worker} (h : WorkerFollowed w) {fd : Int}
    (hmem : fd ∈ w.work.registered ∨ ∃ time, time ∈ w.work.times fd) :
    fd ∈ w.work.m_connections := by
  obtain ⟨hQ, -⟩ := (h.each fd).client (Or.inr hmem)
  obtain ⟨el, hel, -⟩ := seated_followed _ _ _ hQ
  exact OrdMap.mem_of_lookup hel

/-- No client of a worker has a descriptor that no socket of it has. -/
theorem WorkerFollowed.notMem_of_unused {w : Worker} (h : WorkerFollowed w) {fd : Int}
    (hunused : ∀ j el, w.work.m_connections.lookup j = some el → el.conn.m_socket.m_fd ≠ fd) :
    fd ∉ w.work.m_connections := by
  obtain ⟨habsent, -⟩ := h.each.absent_of_unused seated_followed hunused
  exact OrdMap.notMem_iff.mpr (congrArg View.element habsent)

/-- The descriptor is the one that is accepted in this step. -/
def Act.Accepts (fd : Int) : Act → Prop
  | .handle env => 0 ≤ env.accepted.fd ∧ fd = env.accepted.fd
  | _ => False

theorem dispatch_connections {server : BaseHTTPServer} {w : Worker} (h : WorkerFollowed w)
    {ready : Ready} (hready : ready.fd = server.m_socket.m_fd ∨ ready.fd ∈ w.work.registered)
    {env : Env}
    (hunused : 0 ≤ env.accepted.fd → ∀ fd el, w.work.m_connections.lookup fd = some el →
      el.conn.m_socket.m_fd ≠ env.accepted.fd)
    (hreturns : ready.fd ≠ server.m_socket.m_fd →
      ExceptionReturns w ready.fd ready.events env.script) :
    (w.dispatch server ready env).Leaves True fun w' => ∀ fd ∈ w'.work.m_connections,
      fd ∈ w.work.m_connections ∨ (Act.handle env).Accepts fd := by
  refine dispatch_leaves (P := fun w₁ => ∀ fd ∈ w₁.work.m_connections, fd ∈ w.work.m_connections)
    (fun hlisten => ?_) (fun hclient => ?_) (fun w₁ hclient hleft hmem => ?_) fun w₁ hleft fd hfd =>
      Or.inl (hleft fd hfd)
  · by_cases hfd : 0 ≤ env.accepted.fd
    · refine (accept_family h hunused).mono fun w' h' fd hmem => ?_
      by_cases heq : fd = env.accepted.fd
      · exact Or.inr ⟨hfd, heq⟩
      · exact Or.inl (mem_connections_of_view (h'.2.same fd heq) hmem)
    · rw [accept_refused (not_le.mp hfd)]
      exact fun fd hmem => Or.inl hmem
  · have hregistered := hready.resolve_left hclient
    refine (handleConnection_family h hregistered (hreturns hclient)).mono fun w₁ h₁ fd hmem => ?_
    by_cases heq : fd = ready.fd
    · exact heq ▸ h.mem_connections (Or.inl hregistered)
    · exact mem_connections_of_view (h₁.same fd heq) hmem
  · rw [resetConnectionTime]
    rcases eraseIdle_cases w₁.work ready.fd with ⟨hundef, -⟩ | ⟨time, -, hok⟩
    · rw [hundef]
      trivial
    · rw [hok]
      exact fun fd hfd => Or.inl (hleft fd hfd)

theorem sweep_connections (server : BaseHTTPServer) {w : Worker} (h : WorkerFollowed w)
    (spare : NewSocket)
    (clock : Nat → Int) : (w.work.dropTimeoutedConnections server spare clock).Leaves True fun t =>
      ∀ fd ∈ t.m_connections, fd ∈ w.work.m_connections := by
  have hswept : (sweep server spare clock w.work.m_idleTime.entries w.work).Leaves True fun t =>
      Each View.Followed ⟨t, w.ordinator⟩ ∧ ∀ fd ∈ t.m_connections, fd ∈ w.work.m_connections := by
    refine sweep_invariant (D := fun _ => True) ?_ ⟨h.each, fun _ hfd => hfd⟩ rfl clock fun _ _ =>
      trivial
    rintro t since fd ⟨heach, hold⟩ - hsince
    rcases disconnectClient_each seated_followed heach hsince spare with
      hundef | ⟨t', hok, hidle, habsent, hsame, heach'⟩
    · rw [hundef]
      trivial
    · rw [hok]
      refine ⟨hidle, heach', fun j hj => hold j ?_⟩
      by_cases heq : j = fd
      · subst heq
        exact absurd hj (OrdMap.notMem_iff.mpr (congrArg View.element habsent))
      · exact mem_connections_of_view (hsame j heq) hj
  exact hswept.mono fun t ht => ht.2

theorem exists_time_of_timedOut {server : BaseHTTPServer} {clock : Nat → Int}
    {entries : List (Int × Int)} {fd : Int}
    (h : fd ∈ timedOut server clock entries) : ∃ time, (time, fd) ∈ entries := by
  induction entries generalizing clock with
  | nil => cases h
  | cons entry rest ih =>
      obtain ⟨since, fd'⟩ := entry
      rw [timedOut] at h
      split at h
      · rcases List.mem_cons.mp h with rfl | hrest
        · exact ⟨since, List.mem_cons_self⟩
        · obtain ⟨time, htime⟩ := ih hrest
          exact ⟨time, List.mem_cons_of_mem _ htime⟩
      · cases h

section Step

variable {server : BaseHTTPServer} {s s' : Running} {act : Act} (h : InRun server WorkerFollowed s)
include h

/-- A step brings a worker no client but the one that it accepts. -/
theorem step_connections (hpromised : s.Promised server act)
    (hreturns : ExceptionsReturn server s act) (hstep : s.Step server act s') {fd : Int}
    (hfd : fd ∈ s'.worker.work.m_connections) :
    fd ∈ s.worker.work.m_connections ∨ act.Accepts fd := by
  cases hstep.cases with
  | @dropped spare clock t hpoint hdrop =>
      have hswept := sweep_connections server h.inv spare clock
      rw [hdrop] at hswept
      exact Or.inl (hswept fd hfd)
  | @dropThrew spare clock e t hpoint hdrop =>
      have hswept := sweep_connections server h.inv spare clock
      rw [hdrop] at hswept
      exact Or.inl (hswept fd hfd)
  | waitedInVain hpoint => exact Or.inl hfd
  | waitFailed hpoint => exact Or.inl hfd
  | woken hpoint => exact Or.inl hfd
  | @handled ready rest env w hpoint hdispatch =>
      have hready := (h.pending _ hpoint).2 ready List.mem_cons_self
      have hleft := dispatch_connections h.inv hready hpromised (hreturns ready rest hpoint)
      rw [hdispatch] at hleft
      exact hleft fd hfd
  | @handleThrew ready rest env e w hpoint hdispatch =>
      have hready := (h.pending _ hpoint).2 ready List.mem_cons_self
      have hleft := dispatch_connections h.inv hready hpromised (hreturns ready rest hpoint)
      rw [hdispatch] at hleft
      exact hleft fd hfd
  | finished hpoint => exact Or.inl hfd

/-- What is seen of a step is about clients of the worker, or about the one that it accepts. -/
theorem step_seen {b : Seen} (hb : b ∈ s.seen server act) :
    b.act.index ∈ s.worker.work.m_connections ∨ act.Accepts b.act.index := by
  unfold Running.seen at hb
  split at hb
  · obtain ⟨fd, hfd, rfl⟩ := List.mem_map.mp hb
    obtain ⟨time, htime⟩ := exists_time_of_timedOut hfd
    exact Or.inl (h.inv.mem_connections (Or.inr ⟨time, OrdMap.lookup_eq_some_iff.mpr htime⟩))
  · next ready rest env hpoint =>
      unfold Worker.seen at hb
      split at hb
      · split at hb
        · next hfd =>
            rw [List.mem_singleton.mp hb]
            exact Or.inr ⟨hfd.1, rfl⟩
        · exact absurd hb List.not_mem_nil
      · next hclient =>
          have hready := (h.pending _ hpoint).2 ready List.mem_cons_self
          rw [List.mem_singleton.mp hb]
          exact Or.inl (h.inv.mem_connections (Or.inl (hready.resolve_left hclient)))
  · exact absurd hb List.not_mem_nil

end Step

/-! ## The threads -/

/-- What a worker has in its tables. -/
def WorkerPoint.worker : WorkerPoint → Worker
  | .testing w => w
  | .iterating s => s.worker
  | .initialising | .returned => {}

/-- What is seen of a step of its thread. -/
def WorkerPoint.seen (server : BaseHTTPServer) : WorkerPoint → WorkerAct → List Seen
  | .iterating s, .loop act => s.seen server act
  | _, _ => []

namespace Pool

/-- The worker `i`, which has no clients before it is started. -/
def worker (s : Pool) (i : Nat) : Worker :=
  match s.workers[i]? with
  | some p => p.worker
  | none => {}

/-- A step of the thread of the worker `i`. -/
def put (s : Pool) (i : Nat) (p : WorkerPoint) : Pool := { s with workers := s.workers.set i p }

/-- What is seen of a step. -/
def seen (server : BaseHTTPServer) (s : Pool) : PoolAct → List Seen
  | .worker i act =>
      match s.workers[i]? with
      | some p => p.seen server act
      | none => []
  | .run | .shutdown => []

/-- `accept4` returns a descriptor that no socket of any worker has. -/
def Unused (s : Pool) : PoolAct → Prop
  | .worker _ (.loop (.handle env)) => 0 ≤ env.accepted.fd →
      ∀ i fd el, (s.worker i).work.m_connections.lookup fd = some el →
        el.conn.m_socket.m_fd ≠ env.accepted.fd
  | _ => True

/-- A step behind which no two clients of a worker have one coroutine. -/
def ApartStep (server : BaseHTTPServer) (s : Pool) (act : PoolAct) (s' : Pool) : Prop :=
  Pool.Step server s act s' ∧ ∀ i, Apart (s'.worker i)

end Pool

/-- A run of all threads, from the moment `BaseHTTPServer::run` was entered,
with what is seen of it. -/
abbrev PoolRun (server : BaseHTTPServer) (size : Nat) (garbage : Bool) : List Seen → Pool → Prop :=
  Traced (Pool.ApartStep server)
    (fun s act =>
      Pool.Each (fun r act => r.Promised server act ∧ ExceptionsReturn server r act) s act ∧
      s.Unused act)
    (Pool.seen server) (entered size garbage)

/-! ## The steps of a worker's thread -/

def WorkerPoint.Followed (server : BaseHTTPServer) : WorkerPoint → Prop
  | .testing w => WorkerFollowed w
  | .iterating s => InRun server WorkerFollowed s
  | .initialising | .returned => True

theorem WorkerPoint.Followed.worker {server : BaseHTTPServer} {p : WorkerPoint}
    (h : p.Followed server) : WorkerFollowed p.worker := by
  cases p with
  | initialising => exact workerFollowed_new
  | testing w => exact h
  | iterating s => exact h.inv
  | returned => exact workerFollowed_new

/-- The descriptor is the one that is accepted in this step of a thread. -/
def WorkerAct.Accepts (fd : Int) : WorkerAct → Prop
  | .loop act => act.Accepts fd
  | .init | .test => False

/-- What a step from `p` to `p'` does to the clients of the worker. -/
structure ShowsWorker (server : BaseHTTPServer) (p : WorkerPoint) (act : WorkerAct)
    (p' : WorkerPoint) : Prop where
  followed : p'.Followed server
  family : clientAt p'.worker =
    FamilyAct.run Client.next (clientAt p.worker) ((p.seen server act).map Seen.act)
  output : (p.seen server act).flatMap Seen.out =
    FamilyAct.outputs Client.next Client.output (clientAt p.worker)
      ((p.seen server act).map Seen.act)
  connections : ∀ fd ∈ p'.worker.work.m_connections, fd ∈ p.worker.work.m_connections ∨
    act.Accepts fd
  about : ∀ b ∈ p.seen server act, b.act.index ∈ p.worker.work.m_connections ∨
    act.Accepts b.act.index

/-- Nothing is seen of a step between the iterations. -/
theorem showsWorker_of_same {server : BaseHTTPServer} {p p' : WorkerPoint} {act : WorkerAct}
    (hfollowed : p'.Followed server) (hseen : p.seen server act = [])
    (hfamily : clientAt p'.worker = clientAt p.worker)
    (hconnections : ∀ fd ∈ p'.worker.work.m_connections, fd ∈ p.worker.work.m_connections) :
    ShowsWorker server p act p' where
  followed := hfollowed
  family := by
    rw [hseen, hfamily]
    rfl
  output := by
    rw [hseen]
    rfl
  connections fd hfd := Or.inl (hconnections fd hfd)
  about b hb := by
    rw [hseen] at hb
    cases hb

theorem workerStep_shows {server : BaseHTTPServer} {m_shutdown : Bool} {p p' : WorkerPoint}
    {act : WorkerAct} (h : p.Followed server) (hadmitted : ∀ r a, p = .iterating r → act = .loop a →
      r.Promised server a ∧ ExceptionsReturn server r a)
    (hapart : Apart p'.worker) (hstep : workerStep server m_shutdown p act = some p') :
    ShowsWorker server p act p' := by
  unfold workerStep at hstep
  split at hstep
  · cases hstep
    exact showsWorker_of_same workerFollowed_new rfl rfl fun _ hfd => hfd
  · next w =>
      split at hstep
      · cases hstep
        exact showsWorker_of_same (inRun_top h) rfl rfl fun _ hfd => hfd
      · split at hstep
        · next hempty =>
            -- the worker has no clients when it returns
            have hnone : ∀ fd, fd ∉ w.work.m_connections := by
              intro fd hfd
              obtain ⟨el, hel⟩ := OrdMap.mem_iff.mp hfd
              have hentry := OrdMap.lookup_eq_some_iff.mp hel
              rw [hempty] at hentry
              cases hentry
            cases hstep
            refine showsWorker_of_same trivial rfl ?_ fun fd hfd => absurd rfl hfd
            funext fd
            exact (clientAt_of_notMem (hnone fd)).symm
        · cases hstep
  · next r a =>
      split at hstep
      · next s' hr =>
          obtain ⟨hpromised, hreturns⟩ := hadmitted r a rfl rfl
          obtain rfl : (if s'.point = .top then .testing s'.worker else .iterating s') = p' :=
            Option.some.inj hstep
          have hworker : WorkerPoint.worker
              (if s'.point = .top then .testing s'.worker else .iterating s') = s'.worker := by
            split
            · rfl
            · rfl
          rw [hworker] at hapart
          have hshows := step_family h hpromised hreturns ⟨hr, hapart⟩
          constructor
          · split
            · exact hshows.inRun.inv
            · exact hshows.inRun
          · rw [hworker]
            exact hshows.family
          · exact hshows.output
          · rw [hworker]
            exact fun fd hfd => step_connections h hpromised hreturns hr hfd
          · exact fun b hb => step_seen h hb
      · cases hstep
  · cases hstep

/-! ## The steps of all threads -/

/-- What holds of a server in every state of a run. -/
structure ServerFollowed (server : BaseHTTPServer) (s : Pool) : Prop where
  followed : ∀ p ∈ s.workers, p.Followed server
  /-- A client is with one worker. -/
  exclusive : ∀ i j fd, fd ∈ (s.worker i).work.m_connections →
    fd ∈ (s.worker j).work.m_connections → i = j

theorem Pool.worker_of_getElem? {s : Pool} {i : Nat} {p : WorkerPoint}
    (h : s.workers[i]? = some p) : s.worker i = p.worker := by
  rw [Pool.worker, h]

section Put

variable {s : Pool} {i : Nat} {p : WorkerPoint} (h : s.workers[i]? = some p) (p' : WorkerPoint)
include h

theorem Pool.getElem?_put_self : (s.put i p').workers[i]? = some p' :=
  List.getElem?_set_self (List.getElem?_eq_some_iff.mp h).1

theorem Pool.worker_put_self : (s.put i p').worker i = p'.worker :=
  Pool.worker_of_getElem? (Pool.getElem?_put_self h p')

omit h in
theorem Pool.worker_put_ne {j : Nat} (hj : j ≠ i) : (s.put i p').worker j = s.worker j := by
  show (match (s.workers.set i p')[j]? with | some p => p.worker | none => {}) = _
  rw [List.getElem?_set_ne hj.symm]
  rfl

/-- A step that leaves the tables of the worker alone. -/
theorem Pool.worker_put_same (hp : p'.worker = p.worker) (j : Nat) :
    (s.put i p').worker j = s.worker j := by
  by_cases hj : j = i
  · rw [hj, Pool.worker_put_self h, hp, Pool.worker_of_getElem? h]
  · exact Pool.worker_put_ne p' hj

end Put

theorem ServerFollowed.worker {server : BaseHTTPServer} {s : Pool} (h : ServerFollowed server s)
    (i : Nat) : WorkerFollowed (s.worker i) := by
  cases hi : s.workers[i]? with
  | some p =>
      rw [Pool.worker_of_getElem? hi]
      exact (h.followed p (List.mem_of_getElem? hi)).worker
  | none =>
      rw [Pool.worker, hi]
      exact workerFollowed_new

/-- Steps of `run` and `shutdown` bring no clients. -/
theorem serverFollowed_of_workers {server : BaseHTTPServer} {s s' : Pool}
    (h : ServerFollowed server s)
    (hworkers : s'.workers = s.workers ∨ s'.workers = s.workers ++ [.initialising]) :
    ServerFollowed server s' ∧ ∀ i, s'.worker i = s.worker i := by
  have hsame : ∀ i, s'.worker i = s.worker i := by
    intro i
    rcases hworkers with heq | heq
    · rw [Pool.worker, heq, Pool.worker]
    · rw [Pool.worker, heq, Pool.worker]
      rcases Nat.lt_trichotomy i s.workers.length with hlt | rfl | hgt
      · rw [List.getElem?_append_left hlt]
      · rw [List.getElem?_append_right (le_refl _), List.getElem?_eq_none (le_refl _), Nat.sub_self]
        rfl
      · rw [List.getElem?_eq_none (by rw [List.length_append]; exact hgt),
          List.getElem?_eq_none hgt.le]
  refine ⟨⟨fun p hp => ?_, fun i j fd hi hj => ?_⟩, hsame⟩
  · rcases hworkers with heq | heq
    · exact h.followed p (heq ▸ hp)
    · rw [heq] at hp
      rcases List.mem_append.mp hp with hold | hnew
      · exact h.followed p hold
      · rw [List.mem_singleton.mp hnew]
        trivial
  · rw [hsame] at hi hj
    exact h.exclusive i j fd hi hj

/-- What a step from `s` to `s'` does to the clients of the server, who are
those of `f` in front of it. -/
structure ShowsServer (server : BaseHTTPServer) (s : Pool) (act : PoolAct) (s' : Pool)
    (f : Int → Option Client) : Prop where
  followed : ServerFollowed server s'
  spread : Spread (fun i => clientAt (s'.worker i))
    (FamilyAct.run Client.next f ((s.seen server act).map Seen.act))
  output : (s.seen server act).flatMap Seen.out =
    FamilyAct.outputs Client.next Client.output f ((s.seen server act).map Seen.act)

/-- A step of a worker's thread: it is about clients that no other worker has. -/
theorem workerStep_family {server : BaseHTTPServer} {s : Pool} (h : ServerFollowed server s)
    {f : Int → Option Client} (hspread : Spread (fun i => clientAt (s.worker i)) f) {k : Nat}
    {p p' : WorkerPoint} {act : WorkerAct} (hp : s.workers[k]? = some p)
    (hunused : s.Unused (.worker k act))
    (hshows : ShowsWorker server p act p') :
    ShowsServer server s (.worker k act) (s.put k p') f := by
  have hself : (s.put k p').worker k = p'.worker := Pool.worker_put_self hp p'
  have hothers : ∀ j, j ≠ k → (s.put k p').worker j = s.worker j :=
    fun j hj => Pool.worker_put_ne p' hj
  have hseen : s.seen server (.worker k act) = p.seen server act := by simp only [Pool.seen, hp]
  -- what the worker has already or accepts is with no other worker
  have hmine : ∀ fd, (fd ∈ p.worker.work.m_connections ∨ act.Accepts fd) → ∀ j, j ≠ k →
      fd ∉ (s.worker j).work.m_connections := by
    rintro fd (hmem | haccepts) j hj hother
    · rw [← Pool.worker_of_getElem? hp] at hmem
      exact hj (h.exclusive j k fd hother hmem)
    · cases act with
      | init => exact haccepts
      | test => exact haccepts
      | loop a =>
          cases a with
          | drop spare clock => exact haccepts
          | wait result => exact haccepts
          | finish => exact haccepts
          | handle env =>
              obtain ⟨hfd, rfl⟩ := haccepts
              exact (h.worker j).notMem_of_unused (hunused hfd j) hother
  have hfollowed : ServerFollowed server (s.put k p') := by
    constructor
    · intro q hq
      rcases List.mem_or_eq_of_mem_set hq with hold | rfl
      · exact h.followed q hold
      · exact hshows.followed
    · intro i j fd hi hj
      by_cases hik : i = k
      · by_cases hjk : j = k
        · rw [hik, hjk]
        · subst hik
          rw [hself] at hi
          rw [hothers j hjk] at hj
          exact absurd hj (hmine fd (hshows.connections fd hi) j hjk)
      · by_cases hjk : j = k
        · subst hjk
          rw [hself] at hj
          rw [hothers i hik] at hi
          exact absurd hi (hmine fd (hshows.connections fd hj) i hik)
        · rw [hothers i hik] at hi
          rw [hothers j hjk] at hj
          exact h.exclusive i j fd hi hj
  have hacted : Spread (fun i => clientAt ((s.put k p').worker i))
        (FamilyAct.run Client.next f ((p.seen server act).map Seen.act)) ∧
      FamilyAct.outputs Client.next Client.output (clientAt (s.worker k))
          ((p.seen server act).map Seen.act) =
        FamilyAct.outputs Client.next Client.output f ((p.seen server act).map Seen.act) := by
    refine hspread.acted ?_ (fun j hj => ?_) fun a ha j hj => ?_
    · show clientAt ((s.put k p').worker k) = _
      rw [hself, Pool.worker_of_getElem? hp, hshows.family]
    · show clientAt ((s.put k p').worker j) = _
      rw [hothers j hj]
    · obtain ⟨b, hb, rfl⟩ := List.mem_map.mp ha
      exact clientAt_of_notMem (hmine _ (hshows.about b hb) j hj)
  rw [Pool.worker_of_getElem? hp, ← hshows.output] at hacted
  exact ⟨hfollowed, hseen ▸ hacted.1, hseen ▸ hacted.2⟩

theorem poolStep_family {server : BaseHTTPServer} {s s' : Pool} (h : ServerFollowed server s)
    {f : Int → Option Client} (hspread : Spread (fun i => clientAt (s.worker i)) f) {act : PoolAct}
    (heach : Pool.Each (fun r act => r.Promised server act ∧ ExceptionsReturn server r act) s act)
    (hunused : s.Unused act) (hstep : Pool.ApartStep server s act s') :
    ShowsServer server s act s' f := by
  obtain ⟨hstep, hapart⟩ := hstep
  have hunseen : s.seen server act = [] →
      (s'.workers = s.workers ∨ s'.workers = s.workers ++ [.initialising]) →
        ShowsServer server s act s' f := by
    intro hseen hworkers
    obtain ⟨hfollowed, hsame⟩ := serverFollowed_of_workers h hworkers
    refine ⟨hfollowed, ?_, ?_⟩
    · rw [hseen, funext fun i => congrArg clientAt (hsame i)]
      exact hspread
    · rw [hseen]
      rfl
  cases act with
  | run => exact hunseen rfl (runStep_workers hstep)
  | shutdown => exact hunseen rfl (Or.inl (shutdownStep_workers hstep))
  | worker k act =>
      obtain ⟨p, p', hp, hp', rfl⟩ := workerStep_cases hstep
      have hapart' : Apart p'.worker := Pool.worker_put_self hp p' ▸ hapart k
      refine workerStep_family h hspread hp hunused ?_
      refine workerStep_shows (h.followed p (List.mem_of_getElem? hp)) ?_ hapart' hp'
      rintro r a rfl rfl
      exact heach r hp

/-! ## Runs -/

theorem poolRun_family {server : BaseHTTPServer} {size : Nat} {garbage : Bool} {bs : List Seen}
    {s : Pool} (hrun : PoolRun server size garbage bs s) :
    ServerFollowed server s ∧
      Spread (fun i => clientAt (s.worker i))
        (FamilyAct.run Client.next (fun _ => none) (bs.map Seen.act)) ∧
      bs.flatMap Seen.out =
        FamilyAct.outputs Client.next Client.output (fun _ => none) (bs.map Seen.act) := by
  induction hrun with
  | refl =>
      refine ⟨⟨fun p hp => ?_, fun i j fd hi => ?_⟩,
        ⟨fun i fd client hclient => ?_, fun _ _ => rfl⟩, rfl⟩
      · cases hp
      · exact absurd rfl hi
      · cases hclient
  | @tail bs t t' _ act hadmitted hstep ih =>
      obtain ⟨hfollowed, hspread, hout⟩ := ih
      have hshows := poolStep_family hfollowed hspread hadmitted.1 hadmitted.2 hstep
      refine ⟨hshows.followed, ?_, ?_⟩
      · rw [List.map_append, FamilyAct.run_append]
        exact hshows.spread
      · rw [List.flatMap_append, List.map_append, FamilyAct.outputs_append, hout, hshows.output]

/-- A client of the server, whichever worker has it, and what was put out for it. -/
theorem poolRun_client {server : BaseHTTPServer} {size : Nat} {garbage : Bool} {bs : List Seen}
    {s : Pool} (hrun : PoolRun server size garbage bs s) (fd : Int) :
    (∀ i client, clientAt (s.worker i) fd = some client →
        FamilyAct.member Client.next none (FamilyAct.about fd (bs.map Seen.act)) = some client) ∧
      ((∀ i, clientAt (s.worker i) fd = none) →
        FamilyAct.member Client.next none (FamilyAct.about fd (bs.map Seen.act)) = none) ∧
      ((bs.flatMap Seen.out).filter fun o => o.1 = fd).map Prod.snd =
        FamilyAct.memberOutputs Client.next Client.output none
          (FamilyAct.about fd (bs.map Seen.act)) := by
  obtain ⟨-, hspread, hout⟩ := poolRun_family hrun
  have hmember : FamilyAct.run Client.next (fun _ => none) (bs.map Seen.act) fd =
      FamilyAct.member Client.next none (FamilyAct.about fd (bs.map Seen.act)) :=
        FamilyAct.run_apply _ _ _
  refine ⟨fun i client hclient => ?_, fun hnone => ?_, ?_⟩
  · exact hmember.symm.trans (hspread.shown i fd client hclient)
  · exact hmember.symm.trans (hspread.nowhere fd hnone)
  · rw [hout]
    exact FamilyAct.outputs_of _ _ _

/-- **A server serves its clients as if each were alone with it.**  The threads of `run`, of
`shutdown` and of all workers take their steps in any order; `accept4` returns no descriptor that a
socket of a worker has, no two clients of a worker have one coroutine, and no exception of one is
lost.  No two workers ever have one client; a client that one has is the one that its acceptance,
events and end lead to, whoever else was served in between, and there is none if no worker has one;
and what was handed to `onRequest` for it and done to its socket is what it puts out. -/
theorem clients_of_server {server : BaseHTTPServer} {size : Nat} {garbage : Bool} {bs : List Seen}
    {s : Pool} (hrun : PoolRun server size garbage bs s) (fd : Int) :
    (∀ i j, fd ∈ (s.worker i).work.m_connections → fd ∈ (s.worker j).work.m_connections → i = j) ∧
      (∀ i client, clientAt (s.worker i) fd = some client →
        FamilyAct.member Client.next none (FamilyAct.about fd (bs.map Seen.act)) = some client) ∧
      ((∀ i, clientAt (s.worker i) fd = none) →
        FamilyAct.member Client.next none (FamilyAct.about fd (bs.map Seen.act)) = none) ∧
      ((bs.flatMap Seen.out).filter fun o => o.1 = fd).map Prod.snd =
        FamilyAct.memberOutputs Client.next Client.output none
          (FamilyAct.about fd (bs.map Seen.act)) :=
  ⟨fun i j => (poolRun_family hrun).1.exclusive i j fd, poolRun_client hrun fd⟩

/-! ### Two workers -/

section TwoWorkers

variable {server : BaseHTTPServer} {size : Nat} {garbage : Bool} {bs : List Seen} {s : Pool}
  {i : Nat}

/-- A step of a worker's thread. -/
theorem poolRun_worker (h : PoolRun server size garbage bs s) {p : WorkerPoint}
    (hi : s.workers[i]? = some p) (p' : WorkerPoint) (act : WorkerAct)
    (hstep : workerStep server s.m_shutdown p act = some p')
    (hadmitted : ∀ r a, p = .iterating r → act = .loop a → r.Promised server a ∧
      ExceptionsReturn server r a)
    (hunused : s.Unused (.worker i act)) (hapart : Apart p'.worker) :
    PoolRun server size garbage (bs ++ p.seen server act) (s.put i p') := by
  have hseen : s.seen server (.worker i act) = p.seen server act := by simp only [Pool.seen, hi]
  have hpool : Pool.Step server s (.worker i act) (s.put i p') := by
    simp only [Pool.Step, Pool.step, hi, hstep]
    rfl
  have heach : Pool.Each (fun r act => r.Promised server act ∧ ExceptionsReturn server r act) s
      (.worker i act) := by
    cases act with
    | init => trivial
    | test => trivial
    | loop a => exact fun r hr => hadmitted r a (Option.some.inj (hi.symm.trans hr)) rfl
  have hothers := (poolRun_family h).1.worker
  rw [← hseen]
  refine h.tail (.worker i act) ⟨heach, hunused⟩ ⟨hpool, fun j => ?_⟩
  by_cases hj : j = i
  · rw [hj, Pool.worker_put_self hi]
    exact hapart
  · rw [Pool.worker_put_ne p' hj]
    exact (hothers j).apart

/-- One of which nothing is seen. -/
theorem poolRun_unseen (h : PoolRun server size garbage bs s) {p : WorkerPoint}
    (hi : s.workers[i]? = some p) (p' : WorkerPoint) (act : WorkerAct)
    (hstep : workerStep server s.m_shutdown p act = some p')
    (hadmitted : ∀ r a, p = .iterating r → act = .loop a → r.Promised server a ∧
      ExceptionsReturn server r a)
    (hunused : s.Unused (.worker i act)) (hsame : p'.worker = p.worker)
    (hseen : p.seen server act = []) : PoolRun server size garbage bs (s.put i p') := by
  have hapart : Apart p'.worker := by
    rw [hsame, ← Pool.worker_of_getElem? hi]
    exact ((poolRun_family h).1.worker i).apart
  have hlast := poolRun_worker h hi p' act hstep hadmitted hunused hapart
  rwa [hseen, List.append_nil] at hlast

theorem workerStep_loop {m_shutdown : Bool} {r r' : Running} {act : Act}
    (h : r.Step server act r') :
    workerStep server m_shutdown (.iterating r) (.loop act) =
      some (if r'.point = .top then .testing r'.worker else .iterating r') := by
  rw [Running.Step] at h
  simp only [workerStep, h]

end TwoWorkers

/-- A worker handles one event, from the test of `m_shutdown` to the next one. -/
theorem poolRun_event {size : Nat} {garbage : Bool} {bs : List Seen} {s : Pool}
    (h : PoolRun serverOn3 size garbage bs s) (hdown : s.m_shutdown = false) {i : Nat}
    {w w' : Worker} (hi : s.workers[i]? = some (.testing w)) (ready : Ready) (env : Env)
    (hidle : timedOut serverOn3 (fun _ => env.now) w.work.m_idleTime.entries = [])
    (hdrop : Running.Step serverOn3 ⟨w, .top⟩ (.drop {} fun _ => env.now) ⟨w, .waiting⟩)
    (hready : Running.Promised serverOn3 ⟨w, .waiting⟩ (.wait (.ready [ready])))
    (hunused : 0 ≤ env.accepted.fd → ∀ j fd el,
      (s.worker j).work.m_connections.lookup fd = some el → el.conn.m_socket.m_fd ≠ env.accepted.fd)
    (hreturns : ready.fd ≠ 3 → ExceptionReturns w ready.fd ready.events env.script)
    (hhandle : Running.Step serverOn3 ⟨w, .handling [ready]⟩ (.handle env) ⟨w', .handling []⟩)
    (hapart : Apart w') :
    PoolRun serverOn3 size garbage (bs ++ w.seen serverOn3 ready env) (s.put i (.testing w')) := by
  have hput : ∀ p q : WorkerPoint, (s.put i p).put i q = s.put i q := by
    intro p q
    simp only [Pool.put, List.set_set]
  have hself := fun p => Pool.getElem?_put_self hi p
  have htested : PoolRun serverOn3 size garbage bs (s.put i (.iterating ⟨w, .top⟩)) := by
    refine poolRun_unseen h hi _ .test ?_ nofun trivial rfl rfl
    rw [hdown]
    rfl
  have hdropped : PoolRun serverOn3 size garbage bs (s.put i (.iterating ⟨w, .waiting⟩)) := by
    rw [← hput (.iterating ⟨w, .top⟩)]
    refine poolRun_unseen htested (hself _) _ _ (workerStep_loop hdrop) ?_ trivial rfl ?_
    · rintro r a hr ha
      cases hr
      cases ha
      exact ⟨trivial, trivial⟩
    · show (timedOut serverOn3 (fun _ => env.now) w.work.m_idleTime.entries).map _ = []
      rw [hidle, List.map_nil]
  have hwoken : PoolRun serverOn3 size garbage bs
      (s.put i (.iterating ⟨w, .handling [ready]⟩)) := by
    have hwait : Running.Step serverOn3 ⟨w, .waiting⟩ (.wait (.ready [ready]))
        ⟨w, .handling [ready]⟩ := rfl
    rw [← hput (.iterating ⟨w, .waiting⟩)]
    refine poolRun_unseen hdropped (hself _) _ _ (workerStep_loop hwait) ?_ trivial rfl rfl
    rintro r a hr ha
    cases hr
    cases ha
    exact ⟨hready, trivial⟩
  have hhandled : PoolRun serverOn3 size garbage (bs ++ w.seen serverOn3 ready env)
      (s.put i (.iterating ⟨w', .handling []⟩)) := by
    have hothers := Pool.worker_put_same hi (.iterating ⟨w, .handling [ready]⟩) rfl
    rw [← hput (.iterating ⟨w, .handling [ready]⟩)]
    refine poolRun_worker hwoken (hself _) _ _ (workerStep_loop hhandle) ?_ ?_ hapart
    · rintro r a hr ha
      cases hr
      cases ha
      refine ⟨fun hfd fd el hel => hunused hfd i fd el ?_, ?_⟩
      · rwa [Pool.worker_of_getElem? hi]
      · rintro ready' rest hpoint hclient
        cases hpoint
        exact hreturns hclient
    · intro hfd j fd el hel
      rw [hothers j] at hel
      exact hunused hfd j fd el hel
  have hfinish : Running.Step serverOn3 ⟨w', .handling []⟩ .finish ⟨w', .top⟩ := rfl
  rw [← hput (.iterating ⟨w', .handling []⟩)]
  refine poolRun_unseen hhandled (hself _) _ _ (workerStep_loop hfinish) ?_ trivial rfl rfl
  rintro r a hr ha
  cases hr
  cases ha
  exact ⟨trivial, trivial⟩

/-- A worker accepts a client. -/
theorem poolRun_accept {size : Nat} {garbage : Bool} {bs : List Seen} {s : Pool}
    (h : PoolRun serverOn3 size garbage bs s) (hdown : s.m_shutdown = false) {i : Nat}
    {w w' : Worker} (hi : s.workers[i]? = some (.testing w)) (fd now : Int) (hfd : 0 ≤ fd)
    (hidle : timedOut serverOn3 (fun _ => now) w.work.m_idleTime.entries = [])
    (hdrop : Running.Step serverOn3 ⟨w, .top⟩ (.drop {} fun _ => now) ⟨w, .waiting⟩)
    (hunused : ∀ j fd' el, (s.worker j).work.m_connections.lookup fd' = some el →
      el.conn.m_socket.m_fd ≠ fd)
    (haccept : w.accept (accepting fd now).2 = .ok w') (hapart : Apart w') :
    PoolRun serverOn3 size garbage (bs ++ [⟨.began fd (Client.new fd 0), []⟩])
      (s.put i (.testing w')) := by
  have hlisten : (⟨3, 1⟩ : Ready).fd = serverOn3.m_socket.m_fd := rfl
  have hhandle : Running.Step serverOn3 ⟨w, .handling [⟨3, 1⟩]⟩ (.handle (accepting fd now).2)
      ⟨w', .handling []⟩ := by
    simp only [Running.Step, Running.step, Worker.dispatch, if_pos hlisten, haccept, caught]
  have hseen : w.seen serverOn3 ⟨3, 1⟩ (accepting fd now).2 =
      [⟨.began fd (Client.new fd 0), []⟩] := by
    rw [Worker.seen, if_pos hlisten, if_pos ⟨hfd, rfl⟩]
    rfl
  rw [← hseen]
  exact poolRun_event h hdown hi ⟨3, 1⟩ (accepting fd now).2 hidle hdrop (listening_promised _)
    (fun _ => hunused) (fun hclient => absurd rfl hclient) hhandle hapart

/-- `run` has started two workers, and both have initialised their epolls. -/
def twoStarted : Pool := { size := 2, m_shutdown := false, workers := [.testing {}, .testing {}] }

theorem worker_of_new {s : Pool} (h : ∀ p ∈ s.workers, p.worker = {}) (i : Nat) :
    s.worker i = {} := by
  unfold Pool.worker
  split
  · next p hp => exact h p (List.mem_of_getElem? hp)
  · rfl

theorem poolRun_twoStarted : PoolRun serverOn3 2 true [] twoStarted := by
  have hrun : ∀ {s s'}, PoolRun serverOn3 2 true [] s → s.runStep = some s' →
      (∀ p ∈ s'.workers, p.worker = {}) → PoolRun serverOn3 2 true [] s' := by
    intro s s' h hstep hnew
    refine h.unseen .run ⟨trivial, trivial⟩ ⟨hstep, fun i => ?_⟩ rfl
    rw [worker_of_new hnew]
    exact workerFollowed_new.apart
  have hstored : PoolRun serverOn3 2 true [] { size := 2, m_shutdown := false, run := .stored } :=
    hrun .refl rfl nofun
  have hfirst : PoolRun serverOn3 2 true []
      { size := 2, m_shutdown := false, workers := [.initialising] } :=
    hrun hstored rfl (by simp [WorkerPoint.worker])
  have hstored' : PoolRun serverOn3 2 true []
      { size := 2, m_shutdown := false, workers := [.initialising], run := .stored } :=
    hrun hfirst rfl (by simp [WorkerPoint.worker])
  have hboth : PoolRun serverOn3 2 true []
      { size := 2, m_shutdown := false, workers := [.initialising, .initialising] } :=
    hrun hstored' rfl (by simp [WorkerPoint.worker])
  have hone := poolRun_unseen (i := 0) hboth rfl (.testing {}) .init rfl nofun trivial rfl rfl
  exact poolRun_unseen (i := 1) hone rfl (.testing {}) .init rfl nofun trivial rfl rfl

theorem twoStarted_new (i : Nat) : twoStarted.worker i = {} :=
  worker_of_new (by simp [twoStarted, WorkerPoint.worker]) i

/-- The first worker accepts the client 5. -/
theorem poolRun_firstAccepted : PoolRun serverOn3 2 true [⟨.began 5 (Client.new 5 0), []⟩]
    (twoStarted.put 0 (.testing oneClient)) := by
  have hdrop : Running.Step serverOn3 ⟨{}, .top⟩ (.drop {} fun _ => 1) ⟨{}, .waiting⟩ := rfl
  refine poolRun_accept poolRun_twoStarted rfl rfl 5 1 (by decide) rfl hdrop ?_ rfl
    (apart_of_nodup (by decide +kernel))
  intro j fd el hel
  rw [twoStarted_new] at hel
  cases hel

/-- The worker whose only client is 6. -/
def otherClient : Worker :=
  match Worker.accept {} (accepting 6 2).2 with
  | .ok w => w
  | _ => {}

def eachOne : Pool := (twoStarted.put 0 (.testing oneClient)).put 1 (.testing otherClient)

theorem poolRun_eachOne :
    PoolRun serverOn3 2 true [⟨.began 5 (Client.new 5 0), []⟩, ⟨.began 6 (Client.new 6 0), []⟩]
      eachOne := by
  have hdrop : Running.Step serverOn3 ⟨{}, .top⟩ (.drop {} fun _ => 2) ⟨{}, .waiting⟩ := rfl
  refine poolRun_accept (i := 1) poolRun_firstAccepted rfl rfl 6 2 (by decide) rfl hdrop ?_ rfl
    (apart_of_nodup (by decide +kernel))
  intro j fd el hel
  by_cases hj : j = 0
  · have hsocket : ∀ i ∈ oneClient.work.m_connections.entries, i.2.conn.m_socket.m_fd ≠ 6 := by
      decide +kernel
    subst hj
    exact hsocket (fd, el) (OrdMap.mem_of_lookup_eq_some hel)
  · rw [Pool.worker_put_ne _ hj, twoStarted_new] at hel
    cases hel

/-- Each of two workers has accepted a client: the second one's is as if it
were alone with the server. -/
theorem clients_of_server_two : ∃ bs, PoolRun serverOn3 2 true bs eachOne ∧
    6 ∉ (eachOne.worker 0).work.m_connections ∧
    FamilyAct.member Client.next none (FamilyAct.about 6 (bs.map Seen.act)) =
      clientAt otherClient 6 := by
  have hclient : ∃ client, clientAt otherClient 6 = some client :=
    Option.isSome_iff_exists.mp (by decide +kernel)
  obtain ⟨client, hclient⟩ := hclient
  obtain ⟨hexclusive, hshown, -⟩ := clients_of_server poolRun_eachOne 6
  have hsecond : 6 ∈ (eachOne.worker 1).work.m_connections := by decide +kernel
  refine ⟨_, poolRun_eachOne, fun hmem => ?_, ?_⟩
  · exact absurd (hexclusive 0 1 hmem hsecond) (by decide)
  · rw [hclient]
    exact hshown 1 client hclient

end HTTP
end AdvCppHW
