import AdvCppHW.HTTP.ErasingLoops

/-!
# A server without a timeout

The constructor of `BaseHTTPServer` gives no value to `m_timeout`, and `setTimeout` is the only
function that does.  On a server on which it is not called, `dropTimeoutedConnections` compares the
idle times with whatever the memory of the field held.

* `TimesOfClients` — whoever has an idle time is a client; no step of a worker changes that.
* `Server` — the server with its workers; `Server.construct` — its constructor.
* `Server.disconnectsNobody_iff` — the runs without `setTimeout` in which no
  sweep disconnects a client.
-/

namespace AdvCppHW
namespace HTTP

open Support Coroutine ThreadWork

/-! ## Idle times are of clients -/

/-- Whoever has an idle time is a client, and has no other idle time. -/
def TimesOfClients (t : ThreadWork) : Prop :=
  ∀ fd time, time ∈ t.times fd → fd ∈ t.m_connections ∧ ∀ time', time' ∈ t.times fd → time' = time

/-- No client is lost, and no idle time has changed. -/
structure Gained (t t' : ThreadWork) : Prop where
  connections : ∀ fd, fd ∈ t.m_connections → fd ∈ t'.m_connections
  idle : t'.m_idleTime = t.m_idleTime

theorem Gained.refl (t : ThreadWork) : Gained t t := ⟨fun _ h => h, rfl⟩

theorem Gained.trans {t t' t'' : ThreadWork} (h : Gained t t') (h' : Gained t' t'') :
    Gained t t'' :=
  ⟨fun fd hfd => h'.connections fd (h.connections fd hfd), h'.idle.trans h.idle⟩

theorem TimesOfClients.gained {t t' : ThreadWork} (h : TimesOfClients t) (hgained : Gained t t') :
    TimesOfClients t' := by
  intro fd time htime
  rw [mem_times, hgained.idle] at htime
  obtain ⟨hmem, hone⟩ := h fd time htime
  constructor
  · exact hgained.connections fd hmem
  · intro time' htime'
    rw [mem_times, hgained.idle] at htime'
    exact hone time' htime'

theorem gained_assign (t : ThreadWork) (fd : Int) (el : Element) {t' : ThreadWork}
    (hconnections : t'.m_connections = t.m_connections.assign fd el)
    (hidle : t'.m_idleTime = t.m_idleTime) : Gained t t' := by
  constructor
  · intro j hj
    rw [hconnections]
    exact OrdMap.mem_assign.mpr (Or.inr hj)
  · exact hidle

theorem update_gained (t : ThreadWork) (fd : Int) (el : Element) (c : ConnectionAsync) :
    Gained t (t.update fd el c) :=
  gained_assign t fd { el with conn := c } rfl rfl

theorem element_gained (t : ThreadWork) (fd : Int) (spare : NewSocket) :
    Gained t (t.element fd spare).2 ∧
      (t.element fd spare).2.m_connections.lookup fd = some (t.element fd spare).1 := by
  unfold element
  cases hlookup : t.m_connections.lookup fd with
  | some el => exact ⟨.refl t, hlookup⟩
  | none => exact ⟨gained_assign t fd _ rfl rfl, OrdMap.lookup_assign_self _ _ _⟩

theorem coroutine_gained (t : ThreadWork) (fd : Int) : Gained t (t.coroutine fd).2 := by
  unfold coroutine
  split
  · exact .refl t
  · exact ⟨fun _ h => h, rfl⟩

theorem runCallback_gained {script : Script} {ref : ConnectionRef} {frame : Option Frame}
    {t t' : ThreadWork} {ended : Ended Frame}
    (h : runCallback script ref frame t = .ok (ended, t')) : Gained t t' := by
  unfold runCallback at h
  split at h
  · cases h
  · split at h
    · cases h
      exact update_gained t ref.fd _ _
    · cases h

/-- `disconnectClient` of a client takes out its idle time, too. -/
theorem disconnectClient_timesOfClients {t : ThreadWork} (h : TimesOfClients t) {fd : Int}
    (hmem : fd ∈ t.m_connections) (spare : NewSocket) :
    (t.disconnectClient fd spare).Leaves True fun t' => TimesOfClients t' ∧
      (∀ j, t'.m_connections.lookup j = if j = fd then none else t.m_connections.lookup j) ∧
        ∃ time ∈ t.times fd, t'.m_idleTime = t.m_idleTime.erase time := by
  obtain ⟨el, hlookup⟩ := OrdMap.mem_iff.mp hmem
  have hidle := idle_withoutClient t fd el
  rw [disconnectClient_of_lookup hlookup]
  rcases eraseIdle_cases (t.withoutClient fd el) fd with ⟨hundef, -⟩ | ⟨time, htime, hok⟩
  · rw [hundef]
    trivial
  · rw [mem_times, hidle] at htime
    rw [hok]
    refine ⟨?_, connections_withoutClient t fd el, time, htime, congrArg (·.erase time) hidle⟩
    intro j since hsince
    rw [mem_times_erase, mem_times, hidle] at hsince
    obtain ⟨hne, hsince⟩ := hsince
    obtain ⟨hj, hone⟩ := h j since hsince
    constructor
    · -- the client that is gone had no other idle time
      have hother : j ≠ fd := by
        rintro rfl
        exact hne (hone time htime).symm
      rw [OrdMap.mem_iff, connections_withoutClient, if_neg hother]
      exact OrdMap.mem_iff.mp hj
    · intro since' hsince'
      rw [mem_times_erase, mem_times, hidle] at hsince'
      exact hone since' hsince'.2

/-- A client without an idle time is given one. -/
theorem insertNew_timesOfClients {t : ThreadWork} (h : TimesOfClients t) {fd : Int}
    (hmem : fd ∈ t.m_connections) (hnone : ∀ time, time ∉ t.times fd) (now : Int) :
    TimesOfClients { t with m_idleTime := t.m_idleTime.insertNew now fd } := by
  intro j time htime
  rcases mem_times_of_insertNew htime with ⟨rfl, rfl⟩ | hold
  · constructor
    · exact hmem
    · intro time' htime'
      rcases mem_times_of_insertNew htime' with ⟨heq, -⟩ | hold'
      · exact heq
      · exact absurd hold' (hnone time')
  · have hj : j ≠ fd := by
      rintro rfl
      exact hnone time hold
    constructor
    · exact (h j time hold).1
    · intro time' htime'
      rcases mem_times_of_insertNew htime' with ⟨-, heq⟩ | hold'
      · exact absurd heq hj
      · exact (h j time hold).2 time' hold'

/-! ## The members of a worker -/

theorem emplace_gained (t : ThreadWork) (s : NewSocket) :
    Gained t (t.emplace s) ∧ s.fd ∈ (t.emplace s).m_connections := by
  unfold emplace
  split
  · next hmem => exact ⟨.refl t, hmem⟩
  · exact ⟨gained_assign t s.fd _ rfl rfl, OrdMap.mem_of_lookup (OrdMap.lookup_assign_self _ _ _)⟩

theorem addToEpoll_gained (t : ThreadWork) (fd : Int) (added : Bool) :
    (added = true ∧ ∃ t', t.addToEpoll fd added = .ok t' ∧ Gained t t') ∨
      ∃ e, t.addToEpoll fd added = .threw e t := by
  cases added with
  | true => exact Or.inl ⟨rfl, _, rfl, fun _ h => h, rfl⟩
  | false => exact Or.inr ⟨_, rfl⟩

theorem accept_timesOfClients {w : Worker} (h : TimesOfClients w.work) (env : Env) :
    (w.accept env).Leaves True fun w' => TimesOfClients w'.work := by
  obtain ⟨hgained, hstored⟩ := emplace_gained w.work env.accepted
  unfold Worker.accept
  dsimp only
  split
  · exact h
  · rcases addToEpoll_gained (w.work.emplace env.accepted) env.accepted.fd
        (env.added && decide (env.accepted.fd ∉ w.work.m_connections)) with
      ⟨hadded, t, hok, hregistered⟩ | ⟨e, hthrew⟩
    · -- only a new client gets this far
      have hnew : env.accepted.fd ∉ w.work.m_connections := by
        simp only [Bool.and_eq_true, decide_eq_true_eq] at hadded
        exact hadded.2
      have helement := hregistered.trans (element_gained t env.accepted.fd env.spare).1
      have hgained' := hgained.trans helement
      have hnone : ∀ time,
          time ∉ (t.element env.accepted.fd env.spare).2.times env.accepted.fd := by
        intro time htime
        rw [mem_times, hgained'.idle] at htime
        exact hnew (h _ time htime).1
      have hgiven :=
        insertNew_timesOfClients (h.gained hgained') (helement.connections _ hstored) hnone env.now
      rw [hok]
      exact hgiven.gained ⟨fun _ hj => hj, rfl⟩
    · rw [hthrew]
      exact h.gained hgained

theorem afterResume_timesOfClients {w : Worker} (h : TimesOfClients w.work) (fd : Int)
    (spare : NewSocket) :
    (w.afterResume fd spare).Leaves True fun w' => TimesOfClients w'.work := by
  obtain ⟨hgained, hlookup⟩ := element_gained w.work fd spare
  have helement := h.gained hgained
  have hupdated := helement.gained (update_gained (w.work.element fd spare).2 fd
    (w.work.element fd spare).1 (w.work.element fd spare).1.conn.clearEvents)
  unfold Worker.afterResume
  dsimp only
  split
  · exact (disconnectClient_timesOfClients helement (OrdMap.mem_of_lookup hlookup) spare).map
      fun t ht => ht.1
  · split
    · exact hupdated
    · exact hupdated

theorem handleConnection_timesOfClients {w : Worker} (h : TimesOfClients w.work) (fd : Int)
    (events : UInt32) (env : Env) :
    (w.handleConnection fd events env).Leaves True fun w' => TimesOfClients w'.work := by
  have hready : ∃ r_id t, Gained w.work t ∧ w.handleConnection fd events env =
      Worker.resumed ⟨t, w.ordinator⟩ fd env.spare
        (w.ordinator.resume (runCallback env.script) r_id t) := by
    refine ⟨_, _, ?_, rfl⟩
    exact ((element_gained w.work fd env.spare).1.trans (update_gained _ _ _ _)).trans
      (coroutine_gained _ fd)
  obtain ⟨r_id, t, hgained, heq⟩ := hready
  rw [heq, Ordinator.resume]
  have ht := h.gained hgained
  have hrefused := afterResume_timesOfClients (w := ⟨t, w.ordinator⟩) ht fd env.spare
  split
  · exact hrefused
  · split
    · exact hrefused
    · split
      · trivial
      · split
        · trivial
        · next ended t' hrun =>
            -- a stretch has been run, of whichever coroutine the id is
            have ht' := ht.gained (runCallback_gained hrun)
            dsimp only
            split
            · exact ht'
            · exact afterResume_timesOfClients (w := ⟨t', _⟩) ht' fd env.spare

theorem resetConnectionTime_timesOfClients {t : ThreadWork} (h : TimesOfClients t) {fd : Int}
    (hmem : fd ∈ t.m_connections) (now : Int) :
    (t.resetConnectionTime fd now).Leaves True TimesOfClients := by
  unfold resetConnectionTime
  rcases eraseIdle_cases t fd with ⟨hundef, -⟩ | ⟨since, hsince, hok⟩
  · rw [hundef]
    trivial
  · rw [hok, Outcome.andThen_ok]
    show TimesOfClients _
    have herased : TimesOfClients { t with m_idleTime := t.m_idleTime.erase since } := by
      intro j time htime
      obtain ⟨-, htime⟩ := mem_times_erase.mp htime
      obtain ⟨hj, hone⟩ := h j time htime
      exact ⟨hj, fun time' htime' => hone time' (mem_times_erase.mp htime').2⟩
    apply insertNew_timesOfClients herased hmem
    intro time htime
    obtain ⟨hne, htime⟩ := mem_times_erase.mp htime
    exact hne ((h fd since hsince).2 time htime)

theorem dispatch_timesOfClients (server : BaseHTTPServer) {w : Worker} (h : TimesOfClients w.work)
    (ready : Ready) (env : Env) :
    (w.dispatch server ready env).Leaves True fun w' => TimesOfClients w'.work := by
  unfold Worker.dispatch
  split
  · exact accept_timesOfClients h env
  · refine (handleConnection_timesOfClients h ready.fd ready.events env).andThen (fun w' hw' => ?_)
      fun w' hw' => hw'
    split
    · next hmem => exact (resetConnectionTime_timesOfClients hw' hmem env.now).map fun t ht => ht
    · exact hw'

/-- What holds of a worker's idle times and of a client that is gone is kept
by the rest of a sweep. -/
theorem sweep_timesOfClients (server : BaseHTTPServer) (spare : NewSocket) {gone : Int → Prop}
    {entries : List (Int × Int)} {t : ThreadWork} (h : TimesOfClients t)
    (hgone : ∀ fd, gone fd → fd ∉ t.m_connections) (hentries : t.m_idleTime.entries = entries)
    (clock : Nat → Int) :
    (sweep server spare clock entries t).Leaves True fun t' =>
      TimesOfClients t' ∧ ∀ fd, gone fd → fd ∉ t'.m_connections := by
  have hstep : ∀ (t : ThreadWork) (since fd : Int),
      (TimesOfClients t ∧ ∀ j, gone j → j ∉ t.m_connections) → True → since ∈ t.times fd →
        (t.disconnectClient fd spare).Leaves True fun t' =>
          t'.m_idleTime = t.m_idleTime.erase since ∧
          TimesOfClients t' ∧ ∀ j, gone j → j ∉ t'.m_connections := by
    rintro t since fd ⟨ht, hnot⟩ - hsince
    obtain ⟨hmem, hone⟩ := ht fd since hsince
    refine (disconnectClient_timesOfClients ht hmem spare).mono ?_
    rintro t' ⟨ht', hconnections, time, htime, hidle⟩
    refine ⟨?_, ht', fun j hj => ?_⟩
    · rw [hidle, hone time htime]
    · rw [OrdMap.notMem_iff, hconnections]
      split
      · rfl
      · exact OrdMap.notMem_iff.mp (hnot j hj)
  exact sweep_invariant (D := fun _ => True) hstep ⟨h, hgone⟩ hentries clock fun _ _ => trivial

/-- No step of a worker's loop gives an idle time to anybody but its clients. -/
theorem step_timesOfClients {server : BaseHTTPServer} {s s' : Running} {act : Act}
    (h : TimesOfClients s.worker.work) (hstep : s.Step server act s') :
    TimesOfClients s'.worker.work := by
  have hnone : ∀ fd : Int, False → fd ∉ s.worker.work.m_connections := fun _ => False.elim
  have hdrop := fun spare clock => sweep_timesOfClients server spare h hnone rfl clock
  cases hstep.cases with
  | @dropped spare clock t hpoint hok =>
      have hleft := hdrop spare clock
      rw [← dropTimeoutedConnections, hok] at hleft
      exact hleft.1
  | @dropThrew spare clock e t hpoint hthrew =>
      have hleft := hdrop spare clock
      rw [← dropTimeoutedConnections, hthrew] at hleft
      exact hleft.1
  | waitedInVain hpoint => exact h
  | waitFailed hpoint => exact h
  | woken hpoint => exact h
  | @handled ready rest env w hpoint hok =>
      have hleft := dispatch_timesOfClients server h ready env
      rw [hok] at hleft
      exact hleft
  | @handleThrew ready rest env e w hpoint hthrew =>
      have hleft := dispatch_timesOfClients server h ready env
      rw [hthrew] at hleft
      exact hleft
  | finished hpoint => exact h

/-! ## One sweep -/

/-- The sweep returns, and has left every client as it was. -/
def KeepsClients (t : ThreadWork) : Outcome ThreadWork → Prop
  | .ok t' => ∀ fd, t'.view fd = t.view fd
  | _ => False

/-- A sweep keeps the clients exactly when the first one in `m_idleTime` has not
been idle for too long. -/
theorem dropTimeoutedConnections_keeps_iff {t : ThreadWork} (h : TimesOfClients t)
    (server : BaseHTTPServer) (spare : NewSocket) (clock : Nat → Int) :
    KeepsClients t (t.dropTimeoutedConnections server spare clock) ↔
      NoneTimedOut server clock t := by
  unfold NoneTimedOut dropTimeoutedConnections
  cases hentries : t.m_idleTime.entries with
  | nil =>
      rw [sweep]
      apply iff_of_true
      · exact fun fd => rfl
      · intro i hi
        cases hi
  | cons i rest =>
      obtain ⟨since, fd⟩ := i
      have hsince : since ∈ t.times fd :=
        OrdMap.lookup_eq_some_iff.mpr (hentries ▸ List.mem_cons_self)
      obtain ⟨hmem, hone⟩ := h fd since hsince
      rw [sweep, if_neg (not_not_intro (OrdMap.mem_of_lookup hsince))]
      by_cases hlate : timeDiff (clock 0) since > server.m_timeout
      · rw [if_pos hlate]
        apply iff_of_false
        · -- the client is disconnected, and no later turn of the loop brings it back
          have hfirst := disconnectClient_timesOfClients h hmem spare
          cases hdisconnected : t.disconnectClient fd spare with
          | undefined why => exact id
          | threw e t₁ => exact id
          | ok t₁ =>
              rw [hdisconnected] at hfirst
              obtain ⟨ht₁, hconnections, time, htime, hidle⟩ := hfirst
              have hrest : t₁.m_idleTime.entries = rest := by
                rw [hidle, hone time htime, OrdMap.entries_erase_head hentries]
              have hgone : ∀ j, j = fd → j ∉ t₁.m_connections := by
                intro j hj
                rw [OrdMap.notMem_iff, hconnections, if_pos hj]
              have hswept := sweep_timesOfClients server spare ht₁ hgone hrest
                fun n => clock (n + 1)
              rw [Outcome.andThen_ok]
              generalize sweep server spare (fun n => clock (n + 1)) rest t₁ = swept at hswept
              cases swept with
              | undefined why => exact id
              | threw e t' => exact id
              | ok t' =>
                  intro hkept
                  obtain ⟨el, hlookup⟩ := OrdMap.mem_iff.mp hmem
                  have hview : t'.m_connections.lookup fd = t.m_connections.lookup fd :=
                    congrArg View.element (hkept fd)
                  exact hswept.2 fd rfl (OrdMap.mem_of_lookup (hview.trans hlookup))
        · intro hnone
          exact absurd hlate (Int.not_lt.mpr (hnone (since, fd) rfl))
      · rw [if_neg hlate]
        apply iff_of_true
        · exact fun fd => rfl
        · intro i hi
          cases hi
          exact Int.not_lt.mp hlate

/-! ## The server -/

/-- `BaseHTTPServer` with its workers. -/
structure Server where
  server : BaseHTTPServer
  m_threads : List Running

/-- The constructor; `memory` is what stands where `m_timeout`, a number of 64 bits, will be. -/
def Server.construct (m_socket : SocketAsync) (memory : BitVec 64)
    (numThreads maxConcThreads : Nat) : Server where
  server := ⟨m_socket, memory.toInt⟩
  m_threads := List.replicate
    (if numThreads > maxConcThreads ∨ numThreads = 0 then maxConcThreads else numThreads) {}

inductive ServerAct where
  | setTimeout (timeout : Int)
  /-- A step of one of the workers. -/
  | thread (i : Nat) (act : Act)

namespace Server

/-- The steps of the server after which all go on; `none` when the step is not possible. -/
def step (s : Server) : ServerAct → Option Server
  | .setTimeout timeout => some { s with server := { s.server with m_timeout := timeout } }
  | .thread i act =>
      match s.m_threads[i]? with
      | none => none
      | some r =>
          match r.step s.server act with
          | some (.goesOn r') => some { s with m_threads := s.m_threads.set i r' }
          | _ => none

/-- If the step is `dropTimeoutedConnections` of a worker, that disconnects no client. -/
def DisconnectsNobody (s : Server) : ServerAct → Prop
  | .thread i (.drop spare clock) => ∀ r, s.m_threads[i]? = some r → r.point = .top →
      KeepsClients r.worker.work (r.worker.work.dropTimeoutedConnections s.server spare clock)
  | _ => True

/-- If the step is `dropTimeoutedConnections` of a worker, none of its clients has been idle for
more seconds than the memory of `m_timeout` says. -/
def WithinMemory (memory : BitVec 64) (s : Server) : ServerAct → Prop
  | .thread i (.drop _ clock) => ∀ r, s.m_threads[i]? = some r → r.point = .top →
      ∀ since fd, r.worker.work.m_idleTime.entries.head? = some (since, fd) →
        timeDiff (clock 0) since ≤ memory.toInt
  | _ => True

/-- What is known in a run without `setTimeout`. -/
structure Untouched (memory : BitVec 64) (s : Server) : Prop where
  timeout : s.server.m_timeout = memory.toInt
  times : ∀ r ∈ s.m_threads, TimesOfClients r.worker.work

theorem untouched_construct (m_socket : SocketAsync) (memory : BitVec 64)
    (numThreads maxConcThreads : Nat) :
    Untouched memory (construct m_socket memory numThreads maxConcThreads) where
  timeout := rfl
  times r hr := by
    rw [List.eq_of_mem_replicate hr]
    intro fd time htime
    exact absurd htime (notMem_times_new fd time)

theorem step_untouched {memory : BitVec 64} {s s' : Server} (h : Untouched memory s)
    {act : ServerAct} (hact : ∀ timeout, act ≠ .setTimeout timeout)
    (hstep : s.step act = some s') : Untouched memory s' := by
  cases act with
  | setTimeout timeout => exact absurd rfl (hact timeout)
  | thread i act =>
      unfold step at hstep
      dsimp only at hstep
      split at hstep
      · cases hstep
      · next r hr =>
          split at hstep
          · next r' hr' =>
              cases hstep
              constructor
              · exact h.timeout
              · intro r'' hmem
                rcases List.mem_or_eq_of_mem_set hmem with hold | rfl
                · exact h.times r'' hold
                · exact step_timesOfClients (h.times r (List.mem_of_getElem? hr)) hr'
          · cases hstep

theorem step_disconnectsNobody_iff {memory : BitVec 64} {s : Server} (h : Untouched memory s)
    (act : ServerAct) : DisconnectsNobody s act ↔ WithinMemory memory s act := by
  cases act with
  | setTimeout timeout => exact Iff.rfl
  | thread i act =>
      cases act with
      | wait result => exact Iff.rfl
      | handle env => exact Iff.rfl
      | finish => exact Iff.rfl
      | drop spare clock =>
          have hkeeps := fun r (hr : s.m_threads[i]? = some r) =>
            dropTimeoutedConnections_keeps_iff (h.times r (List.mem_of_getElem? hr))
              s.server spare clock
          constructor
          · intro hnobody r hr htop since fd hfirst
            rw [← h.timeout]
            exact (hkeeps r hr).mp (hnobody r hr htop) (since, fd) hfirst
          · intro hwithin r hr htop
            apply (hkeeps r hr).mpr
            rintro ⟨since, fd⟩ hfirst
            rw [h.timeout]
            exact hwithin r hr htop since fd hfirst

/-- **The memory of `m_timeout` decides.**  In a run of a server without `setTimeout`, no sweep of
any worker disconnects a client exactly when at every sweep the client that has been idle for
longest has been idle for at most as many seconds as the number that the memory of `m_timeout`
held before construction. -/
theorem disconnectsNobody_iff (m_socket : SocketAsync) (memory : BitVec 64)
    (numThreads maxConcThreads : Nat) {acts : List ServerAct}
    (hunset : ∀ timeout, .setTimeout timeout ∉ acts) :
    EveryStep step DisconnectsNobody (construct m_socket memory numThreads maxConcThreads) acts ↔
      EveryStep step (WithinMemory memory)
        (construct m_socket memory numThreads maxConcThreads) acts := by
  have hacts : ∀ act ∈ acts, ∀ timeout, act ≠ .setTimeout timeout := by
    rintro act hmem timeout rfl
    exact hunset timeout hmem
  have hkeep : ∀ s act s', Untouched memory s → (∀ timeout, act ≠ .setTimeout timeout) →
      s.step act = some s' → Untouched memory s' := fun s act s' h hact hs' =>
        step_untouched h hact hs'
  have hiff : ∀ s act, Untouched memory s → (DisconnectsNobody s act ↔ WithinMemory memory s act) :=
    fun s act h => step_disconnectsNobody_iff h act
  exact EveryStep.congr hkeep hiff (untouched_construct m_socket memory numThreads maxConcThreads)
    hacts

/-! ## A run with a client -/

/-- What the kernel grants to each of the workers. -/
def Promised (s : Server) : ServerAct → Prop
  | .setTimeout _ => True
  | .thread i act => ∀ r, s.m_threads[i]? = some r → r.Promised s.server act

/-- A client is accepted, and its idle time looked at a second later. -/
def afterSecond : List ServerAct :=
  [.thread 0 (.drop {} fun _ => 0), .thread 0 (.wait (.ready [⟨3, 1⟩])),
    .thread 0 (.handle (accepting 5 1).2), .thread 0 .finish,
    .thread 0 (.drop {} fun _ => 1 + 10 ^ 9)]

theorem afterSecond_unset (timeout : Int) : .setTimeout timeout ∉ afterSecond := by
  simp [afterSecond]

/-- The server with a worker at some point. -/
def oneWorker (memory : BitVec 64) (r : Running) : Server := ⟨⟨⟨3⟩, memory.toInt⟩, [r]⟩

/-- The steps of the run, in the states in which they are taken. -/
theorem everyStep_afterSecond {P : Server → ServerAct → Prop} {memory : BitVec 64}
    (hdrop : P (oneWorker memory {}) (.thread 0 (.drop {} fun _ => 0)))
    (hwait : P (oneWorker memory ⟨{}, .waiting⟩) (.thread 0 (.wait (.ready [⟨3, 1⟩]))))
    (haccept : P (oneWorker memory ⟨{}, .handling [⟨3, 1⟩]⟩)
      (.thread 0 (.handle (accepting 5 1).2)))
    (hfinish : P (oneWorker memory ⟨oneClient, .handling []⟩) (.thread 0 .finish))
    (hlast : P (oneWorker memory ⟨oneClient, .top⟩) (.thread 0 (.drop {} fun _ => 1 + 10 ^ 9))) :
    EveryStep step P (construct ⟨3⟩ memory 1 8) afterSecond := by
  have haccepted : EveryStep step P (oneWorker memory ⟨oneClient, .handling []⟩)
      [.thread 0 .finish, .thread 0 (.drop {} fun _ => 1 + 10 ^ 9)] :=
    .cons hfinish rfl ⟨hlast, fun _ _ => trivial⟩
  have hwoken : EveryStep step P (oneWorker memory ⟨{}, .handling [⟨3, 1⟩]⟩)
      [.thread 0 (.handle (accepting 5 1).2), .thread 0 .finish,
        .thread 0 (.drop {} fun _ => 1 + 10 ^ 9)] :=
    .cons haccept rfl haccepted
  exact .cons hdrop rfl (.cons hwait rfl hwoken)

/-- Where the memory of `m_timeout` held 60, the client stays. -/
theorem disconnectsNobody_sixty :
    EveryStep step DisconnectsNobody (construct ⟨3⟩ 60 1 8) afterSecond := by
  apply (disconnectsNobody_iff ⟨3⟩ 60 1 8 afterSecond_unset).mpr
  apply everyStep_afterSecond
  · intro r hr htop since fd hfirst
    cases hr
    cases hfirst
  · trivial
  · trivial
  · trivial
  · intro r hr htop since fd hfirst
    cases hr
    have hentries : oneClient.work.m_idleTime.entries = [(1, 5)] := by decide +kernel
    rw [hentries] at hfirst
    cases hfirst
    decide

/-- Where it held 0, the client is dropped after a second. -/
theorem client_dropped_unset :
    ¬ ∀ m_socket memory numThreads maxConcThreads acts, (∀ timeout, .setTimeout timeout ∉ acts) →
      EveryStep step Promised (construct m_socket memory numThreads maxConcThreads) acts →
        EveryStep step DisconnectsNobody
          (construct m_socket memory numThreads maxConcThreads) acts := by
  intro h
  have hpromised : EveryStep step Promised (construct ⟨3⟩ 0 1 8) afterSecond := by
    apply everyStep_afterSecond
    · exact fun r _ => trivial
    · intro r hr
      cases hr
      exact ⟨by decide, by simp [oneWorker]⟩
    · intro r hr
      cases hr
      exact accepting_promised_first 5 1
    · exact fun r _ => trivial
    · exact fun r _ => trivial
  have hrun := h ⟨3⟩ 0 1 8 afterSecond afterSecond_unset hpromised
  have hlast : DisconnectsNobody (oneWorker 0 ⟨oneClient, .top⟩)
      (.thread 0 (.drop {} fun _ => 1 + 10 ^ 9)) :=
    ((((hrun.2 _ rfl).2 _ rfl).2 _ rfl).2 _ rfl).1
  have hkept := hlast ⟨oneClient, .top⟩ rfl rfl
  have hlost := congrArg View.element (hkept 5)
  revert hlost
  decide +kernel

end Server
end HTTP
end AdvCppHW
