import AdvCppHW.AsyncTCP.ServerAsync
import AdvCppHW.Support.Transition
import Mathlib.Data.List.Nodup

/-!
# The connection table

`m_connections` holds the clients that are registered in the epoll, all of them open and each under
its own descriptor, whatever the kernel does with descriptors that were closed.  `handleConnection`
removes a connection that its callback has closed, or for which `EPOLLERR` was reported; but
`m_events` is not initialised, and what its memory held counts as reported with the first event.

* `TableMatches`, `NeverConstructs`, `RemovesClosed` — what is said about the table;
  `NoStaleError` — the condition.
* `accept_table`, `handleConnection_removed`, `handleConnection_kept` — what the members do to it.
* `connection_table` — the table over whole runs; `open_connection_removed` — an open connection is
  removed.
-/

namespace AdvCppHW
namespace AsyncTCP

open ServerAsync

/-- The keys are the registered clients, and all connections are open,
under their own descriptors. -/
structure TableMatches (s : ServerAsync) : Prop where
  keys : ∀ fd, fd ∈ s.m_connections ↔ fd ∈ s.registered ∧ fd ≠ s.m_socket.m_fd
  opened : ∀ fd c, s.m_connections.lookup fd = some c → c.isOpened = true
  own : ∀ fd c, s.m_connections.lookup fd = some c → c.m_socket.m_fd = fd

/-- The next event is for a client in the table, or for the listening socket. -/
def NeverConstructs (s : Running) : Prop :=
  ∀ ready rest, s.point = .handling (ready :: rest) → ready.fd ≠ s.server.m_socket.m_fd →
    ready.fd ∈ s.server.m_connections

/-- The callback leaves the connection closed, or `EPOLLERR` is reported. -/
def ToBeRemoved (s : ServerAsync) (c : ConnectionAsync) (ready : Ready) (env : Env) : Prop :=
  (s.called (c.setEvent ready.events) env).isOpened = false ∨ ready.events &&& EPOLLERR ≠ 0

/-- Handling the next event removes the connection of the event if it is to be removed, and no other
one. -/
def RemovesClosed (s : Running) (env : Env) (s' : Running) : Prop :=
  ∀ ready rest c, s.point = .handling (ready :: rest) → ready.fd ≠ s.server.m_socket.m_fd →
    s.server.m_connections.lookup ready.fd = some c → ∀ fd, fd ∈ s.server.m_connections →
      (fd ∉ s'.server.m_connections ↔ fd = ready.fd ∧ ToBeRemoved s.server c ready env)

/-- The condition under which it does: an `EPOLLERR` that stands in `m_events` before the
event makes no difference. -/
def NoStaleError (s : Running) (env : Env) : Prop :=
  ∀ ready rest c, s.point = .handling (ready :: rest) → ready.fd ≠ s.server.m_socket.m_fd →
    s.server.m_connections.lookup ready.fd = some c → isEventSet c EPOLLERR = true →
      ToBeRemoved s.server c ready env

/-- No accepted descriptor fails to be registered, and no exception leaves the callback. -/
def Undisturbed : Act → Prop
  | .accept env | .handle env => env.added = true ∧ env.thrown = none
  | _ => True

theorem isEventSet_setEvent (c : ConnectionAsync) (events e : UInt32) :
    isEventSet (c.setEvent events) e = true ↔ isEventSet c e = true ∨ events &&& e ≠ 0 := by
  have hor : (c.m_events ||| events) &&& e = (c.m_events &&& e) ||| (events &&& e) := by
    apply UInt32.toNat_inj.mp
    simp only [UInt32.toNat_and, UInt32.toNat_or, Nat.and_or_distrib_right]
  simp only [isEventSet, ConnectionAsync.setEvent, hor, ne_eq, UInt32.or_eq_zero_iff, not_and_or,
    decide_eq_true_eq]

/-! ## Members -/

theorem called_kept (s : ServerAsync) (c : ConnectionAsync) (env : Env) :
    Kept c (s.called c env) := by
  unfold called
  split
  · exact callback_kept ⟨c, env.errno⟩ env.calls
  · exact .refl c

theorem element_of_lookup {s : ServerAsync} {fd : Int} {c : ConnectionAsync}
    (h : s.m_connections.lookup fd = some c) (spare : NewSocket) : s.element fd spare = (c, s) := by
  simp [element, h]

/-- `removeFromEpoll` touches the registration of its descriptor only. -/
theorem removeFromEpoll_eq (s : ServerAsync) (fd : Int) :
    ∃ registered, s.removeFromEpoll fd = { s with registered := registered } ∧
      registered ⊆ s.registered ∧ ∀ j, j ≠ fd → (j ∈ registered ↔ j ∈ s.registered) := by
  unfold removeFromEpoll
  split
  · exact ⟨s.registered, rfl, Finset.Subset.refl _, fun _ _ => Iff.rfl⟩
  · refine ⟨s.registered.erase fd, rfl, Finset.erase_subset _ _, fun j hj => ?_⟩
    exact Finset.mem_erase.trans (and_iff_right hj)

/-- What the table and the epoll hold about a descriptor: nothing, or an open
connection whose events have `Q`. -/
def Entry (Q : UInt32 → Prop) (s : ServerAsync) (fd : Int) : Prop :=
  (s.m_connections.lookup fd = none ∧ fd ∉ s.registered) ∨
    ∃ c, s.m_connections.lookup fd = some c ∧ fd ∈ s.registered ∧ c.m_opened = true ∧
      c.m_socket.m_fd = fd ∧ 0 ≤ fd ∧ Q c.m_events

/-- The invariant. -/
structure Table (Q : UInt32 → Prop) (s : ServerAsync) : Prop where
  entry : ∀ fd, fd ≠ s.m_socket.m_fd → Entry Q s fd
  listening : s.m_connections.lookup s.m_socket.m_fd = none
  epoll : s.m_socket.isOpened = true → s.m_epollfd.isOpened = true

section Members

variable {Q : UInt32 → Prop} {s : ServerAsync} (h : Table Q s)

include h in
theorem Table.client {fd : Int} {c : ConnectionAsync} (hc : s.m_connections.lookup fd = some c) :
    fd ≠ s.m_socket.m_fd ∧ fd ∈ s.registered ∧ c.m_opened = true ∧ c.m_socket.m_fd = fd ∧ 0 ≤ fd ∧
      Q c.m_events := by
  have hne : fd ≠ s.m_socket.m_fd := by
    rintro rfl
    rw [h.listening] at hc
    cases hc
  rcases h.entry fd hne with ⟨hnone, -⟩ | ⟨c', hc', hrest⟩
  · rw [hnone] at hc
    cases hc
  · rw [hc'] at hc
    cases hc
    exact ⟨hne, hrest⟩

include h in
theorem Table.tableMatches : TableMatches s where
  keys fd := by
    constructor
    · intro hmem
      obtain ⟨c, hc⟩ := Support.OrdMap.mem_iff.mp hmem
      exact ⟨(h.client hc).2.1, (h.client hc).1⟩
    · rintro ⟨hreg, hne⟩
      rcases h.entry fd hne with ⟨-, hnot⟩ | ⟨c, hc, -⟩
      · exact absurd hreg hnot
      · exact Support.OrdMap.mem_of_lookup hc
  opened fd c hc := (h.client hc).2.2.1
  own fd c hc := (h.client hc).2.2.2.1

include h in
/-- The other fields do not matter. -/
theorem Table.congr {s' : ServerAsync} (hsocket : s'.m_socket = s.m_socket)
    (hepoll : s'.m_epollfd = s.m_epollfd) (hconnections : s'.m_connections = s.m_connections)
    (hregistered : s'.registered = s.registered) : Table Q s' where
  entry fd hfd := by
    rw [hsocket] at hfd
    unfold Entry
    rw [hconnections, hregistered]
    exact h.entry fd hfd
  listening := by
    rw [hsocket, hconnections]
    exact h.listening
  epoll := by
    rw [hsocket, hepoll]
    exact h.epoll

include h in
/-- What has to be shown when all descriptors but one keep what is held about them. -/
theorem Table.but (s' : ServerAsync) {fd : Int} (hfd : fd ≠ s.m_socket.m_fd)
    (hsocket : s'.m_socket = s.m_socket) (hepoll : s'.m_epollfd = s.m_epollfd)
    (hlookup : ∀ j, j ≠ fd → s'.m_connections.lookup j = s.m_connections.lookup j)
    (hreg : ∀ j, j ≠ fd → (j ∈ s'.registered ↔ j ∈ s.registered)) (hentry : Entry Q s' fd) :
    Table Q s' where
  entry j hj := by
    by_cases hself : j = fd
    · exact hself ▸ hentry
    · rw [hsocket] at hj
      unfold Entry
      rw [hlookup j hself, hreg j hself]
      exact h.entry j hj
  listening := by
    rw [hsocket, hlookup _ (Ne.symm hfd)]
    exact h.listening
  epoll := by
    rw [hsocket, hepoll]
    exact h.epoll

theorem setTimeout_leaves {fd : Int} {c : ConnectionAsync} (hc : s.m_connections.lookup fd = some c)
    (spare : NewSocket) (set : Bool) : (s.setTimeout fd spare set).Leaves False (· = s) := by
  simp only [setTimeout, element_of_lookup hc]
  split
  · rfl
  · split
    · rfl
    · rfl

/-- What a member leaves behind that works for one descriptor. -/
structure LeftTable (Q : UInt32 → Prop) (s s' : ServerAsync) (fd : Int) : Prop where
  table : Table Q s'
  socket : s'.m_socket = s.m_socket
  others : ∀ j, j ≠ fd → s'.m_connections.lookup j = s.m_connections.lookup j

theorem LeftTable.mem_iff {s' : ServerAsync} {fd : Int} (h : LeftTable Q s s' fd) {j : Int}
    (hj : j ≠ fd) : j ∈ s'.m_connections ↔ j ∈ s.m_connections := by
  rw [Support.OrdMap.mem_iff, Support.OrdMap.mem_iff, h.others j hj]

include h in
theorem accept_table {env : Env} (hadded : env.added = true) (hQ : Q env.accepted.garbage)
    (hnew : 0 ≤ env.accepted.fd → env.accepted.fd ≠ s.m_socket.m_fd ∧
      ∀ fd c, s.m_connections.lookup fd = some c → c.m_socket.m_fd ≠ env.accepted.fd) :
    (s.accept env).Leaves False fun s' => LeftTable Q s s' env.accepted.fd := by
  have hsame : LeftTable Q s s env.accepted.fd := ⟨h, rfl, fun _ _ => rfl⟩
  unfold accept
  split
  · exact hsame
  next hopen =>
  dsimp only
  split
  · exact hsame
  next hfd =>
  obtain ⟨hlisten, hunused⟩ := hnew (not_lt.mp hfd)
  have hnone : env.accepted.fd ∉ s.m_connections := by
    intro hmem
    obtain ⟨c, hc⟩ := Support.OrdMap.mem_iff.mp hmem
    exact hunused _ c hc (h.client hc).2.2.2.1
  have hepoll := h.epoll (by simpa [isOpened] using hopen)
  let c := ConnectionAsync.ofFD env.accepted.fd env.accepted.garbage
  let s' : ServerAsync := { s with
    m_connections := s.m_connections.assign env.accepted.fd c,
    registered := insert env.accepted.fd s.registered }
  have hc : s'.m_connections.lookup env.accepted.fd = some c :=
    Support.OrdMap.lookup_assign_self _ _ _
  have hemplace : s.try_emplace env.accepted = (true, { s' with registered := s.registered }) :=
    if_neg hnone
  have hadd : addToEpoll { s' with registered := s.registered } env.accepted.fd env.added =
      .ok s' := by
    simp [addToEpoll, s', hepoll, hadded]
  have hlookup : ∀ j, j ≠ env.accepted.fd → s'.m_connections.lookup j = s.m_connections.lookup j :=
    fun j hj => Support.OrdMap.lookup_assign_ne _ hj _
  have htable : LeftTable Q s s' env.accepted.fd := by
    refine ⟨h.but s' hlisten rfl rfl hlookup (fun j hj => ?_)
      (Or.inr ⟨c, hc, ?_, rfl, rfl, not_lt.mp hfd, hQ⟩), rfl, hlookup⟩
    · simp [s', hj]
    · simp [s']
  simp only [hemplace, Bool.not_true, Bool.false_eq_true, if_false, hadd, Outcome.andThen_ok]
  -- the timeouts change nothing, whether they can be set or not
  refine (setTimeout_leaves hc env.spare env.recieveTimeoutSet).andThen
    (Q := fun s₂ => LeftTable Q s s₂ _) (fun s₁ h₁ => ?_) fun s₁ h₁ => h₁ ▸ htable
  subst h₁
  exact (setTimeout_leaves hc env.spare env.sendTimeoutSet).mono fun s₂ h₂ => h₂ ▸ htable

/-- Behind the callback the connection still has its socket, or that is closed. -/
theorem called_socket {c : ConnectionAsync} (events : UInt32) (env : Env) :
    (s.called (c.setEvent events) env).m_socket = c.m_socket ∨
      (s.called (c.setEvent events) env).m_opened = false ∧
        (s.called (c.setEvent events) env).m_socket.isOpened = false :=
  (called_kept s (c.setEvent events) env).socket

theorem isEventSet_called {c : ConnectionAsync} (events e : UInt32) (env : Env) :
    isEventSet (s.called (c.setEvent events) env) e = true ↔
      isEventSet c e = true ∨ events &&& e ≠ 0 := by
  rw [← isEventSet_setEvent, isEventSet, isEventSet, (called_kept s (c.setEvent events) env).events]

section HandleConnection

variable {fd : Int} {c : ConnectionAsync} (hc : s.m_connections.lookup fd = some c)
  {events : UInt32} {env : Env} (hthrown : env.thrown = none)

include h hc hthrown in
/-- A connection that the callback leaves closed, or whose events have `EPOLLERR`, is removed. -/
theorem handleConnection_removed
    (hgone : (s.called (c.setEvent events) env).isOpened = false ∨
      isEventSet (s.called (c.setEvent events) env) EPOLLERR = true) :
    ∃ s', s.handleConnection fd c events env = .ok s' ∧ fd ∉ s'.m_connections ∧
      LeftTable Q s s' fd := by
  obtain ⟨hne, -, -, hsock, hfd, -⟩ := h.client hc
  have hsocket := called_socket (s := s) (c := c) events env
  have hresult : s.handleConnection fd c events env =
      .ok (((s.update fd c (s.called (c.setEvent events) env)).removeFromEpoll
        fd).eraseConnection fd) := by
    have hbool : (!(s.called (c.setEvent events) env).isOpened ||
        isEventSet (s.called (c.setEvent events) env) EPOLLERR) = true := by
      simpa using hgone
    simp only [handleConnection, hthrown, ite_self, hbool, if_true, hsock]
  generalize s.called (c.setEvent events) env = c' at hsocket hresult
  obtain ⟨registered, hremoved, hsubset, hreg⟩ := removeFromEpoll_eq (s.update fd c c') fd
  rw [hremoved] at hresult
  have hc' : (s.m_connections.assign fd c').lookup fd = some c' :=
    Support.OrdMap.lookup_assign_self _ _ _
  have herase : eraseConnection { s.update fd c c' with registered := registered } fd =
      { s with
        m_connections := (s.m_connections.assign fd c').erase fd,
        registered :=
          if c'.m_socket.isOpened then registered.erase c'.m_socket.m_fd else registered } := by
    simp only [eraseConnection, update, hc']
  rw [herase] at hresult
  -- closing the socket, in the callback or with the connection, takes the descriptor out of the
  -- epoll
  have hfinal : ∀ j,
      j ∈ (if c'.m_socket.isOpened then registered.erase c'.m_socket.m_fd else registered) ↔
        j ≠ fd ∧ j ∈ s.registered := by
    have hopened : c.m_socket.isOpened = true := by
      simp only [SocketAsync.isOpened, hsock, decide_eq_true_eq]
      omega
    intro j
    rcases hsocket with hsame | ⟨-, hclosed⟩
    · have hupdate : (s.update fd c c').registered = s.registered := if_pos hsame
      rw [hsame, if_pos hopened, hsock, Finset.mem_erase]
      refine and_congr_right fun hj => ?_
      rw [hreg j hj, hupdate]
    · have hdiff : c'.m_socket ≠ c.m_socket := by
        intro heq
        rw [heq, hopened] at hclosed
        cases hclosed
      have hupdate : (s.update fd c c').registered = s.registered.erase fd := by
        rw [update, if_neg hdiff, hsock]
      rw [if_neg (by simp [hclosed])]
      by_cases hj : j = fd
      · subst hj
        refine iff_of_false (fun hmem => ?_) fun hmem => hmem.1 rfl
        have hmem' := hsubset hmem
        rw [hupdate] at hmem'
        exact Finset.notMem_erase _ _ hmem'
      · rw [hreg j hj, hupdate, Finset.mem_erase]
  have hlookup : ∀ j, j ≠ fd →
      ((s.m_connections.assign fd c').erase fd).lookup j = s.m_connections.lookup j := by
    intro j hj
    rw [Support.OrdMap.lookup_erase_ne _ hj, Support.OrdMap.lookup_assign_ne _ hj]
  have hnone : ((s.m_connections.assign fd c').erase fd).lookup fd = none :=
    Support.OrdMap.lookup_erase_self _ _
  refine ⟨_, hresult, Support.OrdMap.notMem_iff.mpr hnone, ?_, rfl, hlookup⟩
  exact h.but _ hne rfl rfl hlookup (fun j hj => (hfinal j).trans (and_iff_right hj))
    (Or.inl ⟨hnone, fun hmem => ((hfinal fd).mp hmem).1 rfl⟩)

include h hc hthrown in
/-- Any other connection stays, with its events cleared. -/
theorem handleConnection_kept (hQ : Q 0)
    (hopen : (s.called (c.setEvent events) env).isOpened = true)
    (hnone : isEventSet (s.called (c.setEvent events) env) EPOLLERR = false) :
    ∃ s', s.handleConnection fd c events env = .ok s' ∧ fd ∈ s'.m_connections ∧
      LeftTable Q s s' fd := by
  obtain ⟨hne, hreg, -, hsock, hfd, -⟩ := h.client hc
  have hsame := (called_socket (s := s) (c := c) events env).resolve_right fun hclosed => by
    rw [ConnectionAsync.isOpened, hclosed.1] at hopen
    cases hopen
  have hresult : s.handleConnection fd c events env =
      .ok ((s.update fd c (s.called (c.setEvent events) env)).update fd
        (s.called (c.setEvent events) env) (s.called (c.setEvent events) env).clearEvents) := by
    simp [handleConnection, hthrown, hopen, hnone]
  generalize s.called (c.setEvent events) env = c' at hsame hresult hopen
  have hupdate : (s.update fd c c').update fd c' c'.clearEvents =
      { s with m_connections := (s.m_connections.assign fd c').assign fd c'.clearEvents } := by
    simp [update, hsame, ConnectionAsync.clearEvents]
  rw [hupdate] at hresult
  have hself : ((s.m_connections.assign fd c').assign fd c'.clearEvents).lookup fd =
      some c'.clearEvents := Support.OrdMap.lookup_assign_self _ _ _
  have hlookup : ∀ j, j ≠ fd → ((s.m_connections.assign fd c').assign fd c'.clearEvents).lookup j =
      s.m_connections.lookup j := by
    intro j hj
    rw [Support.OrdMap.lookup_assign_ne _ hj, Support.OrdMap.lookup_assign_ne _ hj]
  have hsock' : c'.clearEvents.m_socket.m_fd = fd := by
    rw [← hsock, ← hsame]
    rfl
  refine ⟨_, hresult, Support.OrdMap.mem_of_lookup hself, ?_, rfl, hlookup⟩
  exact h.but _ hne rfl rfl hlookup (fun _ _ => Iff.rfl)
    (Or.inr ⟨c'.clearEvents, hself, hreg, hopen, hsock', hfd, hQ⟩)

end HandleConnection

include h in
/-- Handling an event of a client removes it or keeps it; all others stay as they are. -/
theorem dispatch_client {ready : Ready} {c : ConnectionAsync} {env : Env}
    (hc : s.m_connections.lookup ready.fd = some c) (hthrown : env.thrown = none) (hQ : Q 0) :
    ∃ s', s.dispatch ready env = .ok s' ∧ LeftTable Q s s' ready.fd ∧
      (ready.fd ∉ s'.m_connections ↔
        ToBeRemoved s c ready env ∨ isEventSet c EPOLLERR = true) := by
  have hdispatch : s.dispatch ready env = s.handleConnection ready.fd c ready.events env := by
    rw [dispatch, if_neg (h.client hc).1, element_of_lookup hc]
  have hset := isEventSet_called (s := s) (c := c) ready.events EPOLLERR env
  rw [hdispatch]
  by_cases hgone : (s.called (c.setEvent ready.events) env).isOpened = false ∨
      isEventSet (s.called (c.setEvent ready.events) env) EPOLLERR = true
  · obtain ⟨s', hok, hnone, hleft⟩ := handleConnection_removed h hc hthrown hgone
    refine ⟨s', hok, hleft, iff_of_true hnone ?_⟩
    rcases hgone with hclosed | hevent
    · exact Or.inl (Or.inl hclosed)
    · rcases hset.mp hevent with hstale | hreported
      · exact Or.inr hstale
      · exact Or.inl (Or.inr hreported)
  · obtain ⟨hopen, hnone⟩ := not_or.mp hgone
    obtain ⟨s', hok, hmem, hleft⟩ := handleConnection_kept h hc hthrown hQ
      (Bool.not_eq_false _ ▸ hopen) (Bool.not_eq_true _ ▸ hnone)
    refine ⟨s', hok, hleft, iff_of_false (not_not_intro hmem) ?_⟩
    rintro ((hclosed | hreported) | hstale)
    · exact hopen hclosed
    · exact hnone (hset.mpr (Or.inr hreported))
    · exact hnone (hset.mpr (Or.inl hstale))

end Members

/-! ## Steps -/

/-- The events still to be handled are for the listening socket or for clients, each once. -/
def Pending (s : ServerAsync) (rest : List Ready) : Prop :=
  (rest.map Ready.fd).Nodup ∧
    ∀ ready ∈ rest, ready.fd = s.m_socket.m_fd ∨ ready.fd ∈ s.m_connections

/-- What holds in every state of a run. -/
structure InRun (Q : UInt32 → Prop) (s : Running) : Prop where
  table : Table Q s.server
  pending : ∀ rest, s.point = .handling rest → Pending s.server rest

theorem inRun_of_table {Q : UInt32 → Prop} {s : ServerAsync} (h : Table Q s) (point : Point)
    (hpoint : ∀ rest, point ≠ .handling rest) : InRun Q ⟨s, point⟩ :=
  ⟨h, fun rest hrest => absurd hrest (hpoint rest)⟩

theorem leads_leaves {x : Outcome ServerAsync} {P : ServerAsync → Prop} {next : Point}
    {s' : Running} (hx : x.Leaves False P) (h : leads next x = some s') :
    P s'.server ∧ (s'.point = next ∨ s'.point = .outside) := by
  cases x with
  | ok s =>
      cases h
      exact ⟨hx, Or.inl rfl⟩
  | threw e s =>
      cases h
      exact ⟨hx, Or.inr rfl⟩
  | undefined why => cases h

theorem Pending.tail {s s' : ServerAsync} {ready : Ready} {rest : List Ready}
    (h : Pending s (ready :: rest)) (hsocket : s'.m_socket = s.m_socket)
    (hothers : ∀ j, j ≠ ready.fd → j ∈ s.m_connections → j ∈ s'.m_connections) :
    Pending s' rest := by
  obtain ⟨hnodup, hall⟩ := h
  obtain ⟨hnotin, hnodup⟩ := List.nodup_cons.mp hnodup
  refine ⟨hnodup, fun ready' hmem => ?_⟩
  rcases hall ready' (List.mem_cons_of_mem _ hmem) with hlisten | hclient
  · exact Or.inl (by rw [hlisten, hsocket])
  · refine Or.inr (hothers _ ?_ hclient)
    intro heq
    exact hnotin (heq ▸ List.mem_map_of_mem hmem)

theorem close_table (Q : UInt32 → Prop) (s : ServerAsync) : Table Q s.close where
  entry fd _ := Or.inl ⟨rfl, Finset.notMem_empty fd⟩
  listening := rfl
  epoll hopen := by
    have hclosed : s.close.m_socket.isOpened = false := s.m_socket.isOpened_close
    rw [hclosed] at hopen
    cases hopen

theorem step_table {Q : UInt32 → Prop} {s s' : Running} (h : InRun Q s) {act : Act}
    (hpromised : s.Promised act) (hundisturbed : Undisturbed act) (hQ : Q 0)
    (hgarbage : ∀ env, act = .accept env ∨ act = .handle env → Q env.accepted.garbage)
    (hstep : s.Step act s') : InRun Q s' := by
  obtain ⟨server, point⟩ := s
  obtain ⟨htable, hpending⟩ := h
  unfold Running.Step Running.step at hstep
  split at hstep
  · cases hstep
    refine inRun_of_table ?_ .outside (by simp)
    exact htable.congr rfl rfl rfl rfl
  · next env hpoint =>
      obtain ⟨htable', hpoint' | hpoint'⟩ := leads_leaves
        (accept_table htable hundisturbed.1 (hgarbage env (Or.inl rfl)) hpromised) hstep
      all_goals
        refine ⟨htable'.table, fun rest hrest => ?_⟩
        rw [hpoint'] at hrest
        cases hrest
  · cases hstep
    exact inRun_of_table (close_table Q server) .outside (by simp)
  · cases hstep
    refine inRun_of_table ?_ .top (by simp)
    exact htable.congr rfl rfl rfl rfl
  · split at hstep
    · cases hstep
      exact inRun_of_table htable .outside (by simp)
    · split at hstep
      · cases hstep
        exact inRun_of_table htable .outside (by simp)
      · cases hstep
        exact inRun_of_table htable .waiting (by simp)
  · cases hstep
    exact inRun_of_table htable .top (by simp)
  · cases hstep
    exact inRun_of_table htable .outside (by simp)
  · next events hpoint =>
      cases hstep
      obtain ⟨hnodup, hregistered⟩ := hpromised
      refine ⟨htable, fun rest hrest => ?_⟩
      cases hrest
      refine ⟨hnodup, fun ready hmem => ?_⟩
      by_cases hlisten : ready.fd = server.m_socket.m_fd
      · exact Or.inl hlisten
      · exact Or.inr ((htable.tableMatches.keys ready.fd).mpr ⟨hregistered ready hmem, hlisten⟩)
  · next ready rest env hpoint =>
      have hall := hpending (ready :: rest) hpoint
      -- the events behind this one keep their clients
      have hleft : (server.dispatch ready env).Leaves False fun t =>
          Table Q t ∧ t.m_socket = server.m_socket ∧
            ∀ j, j ≠ ready.fd → j ∈ server.m_connections → j ∈ t.m_connections := by
        by_cases hlisten : ready.fd = server.m_socket.m_fd
        · rw [dispatch, if_pos hlisten]
          refine (accept_table htable hundisturbed.1 (hgarbage env (Or.inr rfl)) hpromised).mono ?_
          rintro t ⟨htable', hsocket, hothers⟩
          refine ⟨htable', hsocket, fun j _ hmem => ?_⟩
          obtain ⟨c, hc⟩ := Support.OrdMap.mem_iff.mp hmem
          have hne : j ≠ env.accepted.fd := by
            rintro rfl
            obtain ⟨-, -, -, hsock, hnonneg, -⟩ := htable.client hc
            exact (hpromised hnonneg).2 _ c hc hsock
          exact Support.OrdMap.mem_of_lookup ((hothers j hne).trans hc)
        · obtain ⟨c, hc⟩ := Support.OrdMap.mem_iff.mp
            ((hall.2 ready List.mem_cons_self).resolve_left hlisten)
          obtain ⟨t, hok, hleft, -⟩ := dispatch_client htable hc hundisturbed.2 hQ
          rw [hok]
          exact ⟨hleft.table, hleft.socket, fun j hj => (hleft.mem_iff hj).mpr⟩
      obtain ⟨⟨htable', hsocket, hothers⟩, hpoint'⟩ := leads_leaves hleft hstep
      refine ⟨htable', fun rest' hrest' => ?_⟩
      rcases hpoint' with hpoint' | hpoint'
      · rw [hpoint'] at hrest'
        cases hrest'
        exact hall.tail hsocket hothers
      · rw [hpoint'] at hrest'
        cases hrest'
  · cases hstep
    exact inRun_of_table htable .top (by simp)
  · cases hstep

/-! ## Runs -/

/-- A server that was opened on these descriptors. -/
abbrev start (socket epoll : Int) (callback : Bool) : Running :=
  ⟨.opened socket epoll callback, .outside⟩

/-- A run in which the kernel keeps its promises and nothing is disturbed. -/
abbrev ReachesUndisturbed : Running → Running → Prop :=
  Support.Reaches Running.Step fun s act => s.Promised act ∧ Undisturbed act

theorem inRun_start (Q : UInt32 → Prop) (socket : Int) {epoll : Int} (hepoll : 0 ≤ epoll)
    (callback : Bool) : InRun Q (start socket epoll callback) := by
  refine inRun_of_table ⟨fun fd hfd => Or.inl ⟨rfl, ?_⟩, rfl, fun _ => ?_⟩ .outside (by simp)
  · rw [opened, Finset.mem_singleton]
    exact hfd
  · have hne : epoll ≠ -1 := by omega
    exact decide_eq_true hne

theorem InRun.neverConstructs {Q : UInt32 → Prop} {s : Running} (h : InRun Q s) :
    NeverConstructs s :=
  fun ready _ hpoint hclient =>
    ((h.pending _ hpoint).2 ready List.mem_cons_self).resolve_left hclient

/-- An event that is handled in a run removes what it should, exactly if no
stale `EPOLLERR` matters. -/
theorem removesClosed_iff {Q : UInt32 → Prop} {s s' : Running} (h : InRun Q s) (hQ : Q 0)
    {env : Env} (hthrown : env.thrown = none) (hstep : s.Step (.handle env) s') :
    RemovesClosed s env s' ↔ NoStaleError s env := by
  -- what the step does, where either of the two says anything
  have hremoved : ∀ ready rest c, s.point = .handling (ready :: rest) →
      s.server.m_connections.lookup ready.fd = some c → LeftTable Q s.server s'.server ready.fd ∧
        (ready.fd ∉ s'.server.m_connections ↔
          ToBeRemoved s.server c ready env ∨ isEventSet c EPOLLERR = true) := by
    intro ready rest c hpoint hc
    obtain ⟨t, hok, hleft, hiff⟩ := dispatch_client h.table hc hthrown hQ
    simp only [Running.Step, Running.step, hpoint, hok] at hstep
    cases hstep
    exact ⟨hleft, hiff⟩
  constructor
  · intro hremoves ready rest c hpoint hclient hc hstale
    obtain ⟨-, hiff⟩ := hremoved ready rest c hpoint hc
    have hgone := hiff.mpr (Or.inr hstale)
    exact ((hremoves ready rest c hpoint hclient hc ready.fd
      (Support.OrdMap.mem_of_lookup hc)).mp hgone).2
  · intro hnoStale ready rest c hpoint hclient hc fd hmem
    obtain ⟨hleft, hiff⟩ := hremoved ready rest c hpoint hc
    by_cases hfd : fd = ready.fd
    · subst hfd
      rw [hiff, and_iff_right rfl]
      exact ⟨fun hgone => hgone.elim id (hnoStale ready rest c hpoint hclient hc), Or.inl⟩
    · refine iff_of_false (not_not_intro ?_) fun hboth => hfd hboth.1
      exact (hleft.mem_iff hfd).mpr hmem

/-- In a run in which nothing is disturbed, the table matches the epoll in every state, and `run`
finds the connection of each event in it.  Handling an event removes what it should, exactly if no
stale `EPOLLERR` matters. -/
theorem connection_table {socket epoll : Int} (hepoll : 0 ≤ epoll) {callback : Bool} {s : Running}
    (hrun : ReachesUndisturbed (start socket epoll callback) s) :
    TableMatches s.server ∧ NeverConstructs s ∧
      ∀ env s', Undisturbed (.handle env) → s.Step (.handle env) s' →
        (RemovesClosed s env s' ↔ NoStaleError s env) := by
  have hinv : InRun (fun _ => True) s := by
    refine hrun.invariant (fun s act s' hinv hadmitted hs => ?_)
      (inRun_start _ socket hepoll callback)
    exact step_table hinv hadmitted.1 hadmitted.2 trivial (fun _ _ => trivial) hs
  refine ⟨hinv.table.tableMatches, hinv.neverConstructs, fun env s' hundisturbed hs => ?_⟩
  exact removesClosed_iff hinv trivial hundisturbed.2 hs

/-- The memory of `m_events` of an accepted connection does not hold `EPOLLERR`. -/
def CleanMemory : Act → Prop
  | .accept env | .handle env => env.accepted.garbage &&& EPOLLERR = 0
  | _ => True

/-- Where all connections are constructed in such memory, no `EPOLLERR` is ever stale. -/
theorem noStaleError_of_cleanMemory {socket epoll : Int} (hepoll : 0 ≤ epoll) {callback : Bool}
    {s : Running} (hrun : Support.Reaches Running.Step
      (fun s act => (s.Promised act ∧ Undisturbed act) ∧ CleanMemory act)
      (start socket epoll callback) s)
    (env : Env) : NoStaleError s env := by
  have hinv : InRun (fun events => events &&& EPOLLERR = 0) s := by
    refine hrun.invariant (fun s act s' hinv hadmitted hs => ?_)
      (inRun_start _ socket hepoll callback)
    refine step_table hinv hadmitted.1.1 hadmitted.1.2 (by decide) (fun env hact => ?_) hs
    rcases hact with rfl | rfl
    · exact hadmitted.2
    · exact hadmitted.2
  intro ready rest c hpoint hclient hc hstale
  obtain ⟨-, -, -, -, -, hclean⟩ := hinv.table.client hc
  rw [isEventSet, hclean] at hstale
  cases hstale

/-! ## A client -/

/-- A server on the descriptors 3 and 4 after it has accepted its first
client, with descriptor 5. -/
def serving (garbage : UInt32) : ServerAsync :=
  { ServerAsync.opened 3 4 true with
    m_connections := Support.OrdMap.empty.assign 5 (.ofFD 5 garbage),
    registered := insert 5 {3} }

theorem accepted_promised (garbage : UInt32) :
    Running.Promised ⟨.opened 3 4 true, .handling [⟨3, 1⟩]⟩
      (.handle { accepted := ⟨5, garbage⟩ }) := by
  intro _
  refine ⟨?_, fun fd c hc => ?_⟩
  · show (5 : Int) ≠ 3
    decide
  · cases hc

/-- The client is accepted, and the next events are reported. -/
theorem reaches_serving (garbage : UInt32) {events : List Ready}
    (hevents : Running.Promised ⟨serving garbage, .waiting⟩ (.wait (.ready events))) :
    ReachesUndisturbed (start 3 4 true) ⟨serving garbage, .handling events⟩ := by
  have htop : ReachesUndisturbed (start 3 4 true) ⟨.opened 3 4 true, .top⟩ :=
    .single ⟨.run, ⟨trivial, trivial⟩, rfl⟩
  have hwaiting : ReachesUndisturbed (start 3 4 true) ⟨.opened 3 4 true, .waiting⟩ :=
    htop.tail ⟨.check, ⟨trivial, trivial⟩, rfl⟩
  have hready : ReachesUndisturbed (start 3 4 true) ⟨.opened 3 4 true, .handling [⟨3, 1⟩]⟩ :=
    hwaiting.tail ⟨.wait (.ready [⟨3, 1⟩]), ⟨⟨by decide, by decide⟩, trivial⟩, rfl⟩
  exact (((hready.tail
    ⟨.handle { accepted := ⟨5, garbage⟩ }, ⟨accepted_promised garbage, rfl, rfl⟩, rfl⟩).tail
    ⟨.finish, ⟨trivial, trivial⟩, rfl⟩).tail
    ⟨.check, ⟨trivial, trivial⟩, rfl⟩).tail
    ⟨.wait (.ready events), ⟨hevents, trivial⟩, rfl⟩

/-- In one batch the callback closes the client's connection, and another client is accepted
under the same descriptor. -/
theorem connection_table_reuse :
    ∃ s, ReachesUndisturbed (start 3 4 true) s ∧ s.point = .handling [] ∧
      5 ∈ s.server.m_connections ∧ TableMatches s.server := by
  have hevents : Running.Promised ⟨serving 0, .waiting⟩ (.wait (.ready [⟨5, 1⟩, ⟨3, 1⟩])) :=
    ⟨by decide, by decide⟩
  have hclosed : Running.Step ⟨serving 0, .handling [⟨5, 1⟩, ⟨3, 1⟩]⟩
      (.handle { calls := [.close] }) ⟨.opened 3 4 true, .handling [⟨3, 1⟩]⟩ := by
    unfold Running.Step
    decide +kernel
  have hrun : ReachesUndisturbed (start 3 4 true) ⟨serving 0, .handling []⟩ :=
    ((reaches_serving 0 hevents).tail
      ⟨.handle { calls := [.close] }, ⟨fun hfd => absurd hfd (by decide), rfl, rfl⟩, hclosed⟩).tail
      ⟨.handle { accepted := ⟨5, 0⟩ }, ⟨accepted_promised 0, rfl, rfl⟩, rfl⟩
  exact ⟨_, hrun, rfl, by decide, (connection_table (by decide) hrun).1⟩

/-- The memory of `m_events` has held `EPOLLERR`.  The client's first event does not report it, and
the callback leaves the connection open; it is removed. -/
theorem open_connection_removed :
    ∃ s env s', ReachesUndisturbed (start 3 4 true) s ∧ Undisturbed (.handle env) ∧
      s.Step (.handle env) s' ∧ ¬RemovesClosed s env s' := by
  have hevents : Running.Promised ⟨serving EPOLLERR, .waiting⟩ (.wait (.ready [⟨5, 1⟩])) :=
    ⟨by decide, by decide⟩
  have hstep : Running.Step ⟨serving EPOLLERR, .handling [⟨5, 1⟩]⟩ (.handle {})
      ⟨.opened 3 4 true, .handling []⟩ := by
    unfold Running.Step
    decide +kernel
  refine ⟨_, {}, _, reaches_serving EPOLLERR hevents, ⟨rfl, rfl⟩, hstep, fun hremoves => ?_⟩
  have hself := hremoves ⟨5, 1⟩ [] (.ofFD 5 EPOLLERR) rfl (by decide) rfl 5 (by decide)
  obtain ⟨-, hclosed | hreported⟩ := hself.mp (by decide)
  · exact absurd hclosed (by decide)
  · exact hreported (by decide)

end AsyncTCP
end AdvCppHW
