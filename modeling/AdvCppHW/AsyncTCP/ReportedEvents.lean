import AdvCppHW.AsyncTCP.ConnectionTable

/-!
# The events a callback sees

`m_events` collects the reported events and is cleared behind the callback.  No constructor sets it,
so that the first callback for a connection sees what its memory held, too.

* `Tracked` — a run, together with the memory that connections were constructed in for
  which no event was handled yet.
* `Owned` — the invariant: `m_events` holds that memory, and nothing in any other connection.
* `seesReported_iff` — when a callback sees exactly the reported events.
-/

namespace AdvCppHW
namespace AsyncTCP

open ServerAsync Support

/-! ## Event masks -/

theorem and_not_eq_zero_iff {a b : UInt32} : a &&& ~~~b = 0 ↔ ∀ m, a &&& m ≠ 0 → b &&& m ≠ 0 := by
  constructor
  · intro h m ha hb
    apply ha
    calc a &&& m = (a &&& m) &&& (b ||| ~~~b) := by simp
      _ = (a &&& (b &&& m)) ||| ((a &&& ~~~b) &&& m) := by
        apply UInt32.toNat_inj.mp
        simp only [UInt32.toNat_and, UInt32.toNat_or]
        apply Nat.eq_of_testBit_eq
        intro i
        simp only [Nat.testBit_and, Nat.testBit_or]
        grind
      _ = 0 := by simp [h, hb]
  · intro h
    by_contra hne
    exact h (~~~b) hne (by simp)

/-- What stood in `m_events` does not show exactly if it is reported, too. -/
theorem isEventSet_iff_reported {c : ConnectionAsync} {events : UInt32} :
    (∀ m, isEventSet (c.setEvent events) m = true ↔ events &&& m ≠ 0) ↔
      c.m_events &&& ~~~events = 0 := by
  rw [and_not_eq_zero_iff]
  refine forall_congr' fun m => ?_
  rw [isEventSet_setEvent, or_iff_right_iff_imp, isEventSet, decide_eq_true_eq]

/-! ## Runs with their memory -/

/-- The callback does not throw. -/
def CallbackReturns : Act → Prop
  | .handle env => env.thrown = none
  | _ => True

namespace Running

/-- The client whose event the step handles. -/
def woken (s : Running) : Act → Option Int
  | .handle _ =>
      match s.point with
      | .handling (ready :: _) => if ready.fd = s.server.m_socket.m_fd then none else some ready.fd
      | _ => none
  | _ => none

end Running

/-- What the memory of `m_events` held, if the step constructs a connection. -/
def Act.memory : Act → Option UInt32
  | .accept env | .handle env => some env.accepted.garbage
  | _ => none

/-- A state, and for each connection that no event was handled for what the memory
of its `m_events` held. -/
structure Tracked where
  running : Running
  fresh : Int → Option UInt32

namespace Tracked

/-- A connection in the table behind a step was constructed in the step, or its event
was handled, or neither. -/
def freshAfter (t : Tracked) (act : Act) (s' : Running) (fd : Int) : Option UInt32 :=
  if fd ∉ s'.server.m_connections then none
  else if fd ∉ t.running.server.m_connections then act.memory
  else if t.running.woken act = some fd then none
  else t.fresh fd

def Step (t : Tracked) (act : Act) (t' : Tracked) : Prop :=
  t.running.Step act t'.running ∧ t'.fresh = t.freshAfter act t'.running

/-- Runs in which the kernel keeps its promises and the callback does not throw. -/
abbrev Reaches : Tracked → Tracked → Prop :=
  Support.Reaches Step fun t act => t.running.Promised act ∧ CallbackReturns act

/-- A server that was opened on these descriptors. -/
def start (socket epoll : Int) (callback : Bool) : Tracked :=
  ⟨AsyncTCP.start socket epoll callback, fun _ => none⟩

/-- The callback that is invoked next sees exactly the events that are reported. -/
def SeesReported (s : Running) : Prop :=
  ∀ ready rest spare, s.point = .handling (ready :: rest) → ready.fd ≠ s.server.m_socket.m_fd →
    s.server.m_callback = true → ∀ m,
      (isEventSet ((s.server.element ready.fd spare).1.setEvent ready.events) m = true ↔
        ready.events &&& m ≠ 0)

/-- If the event that is handled next is the first one of its connection, it reports all that the
memory of `m_events` held. -/
def MemoryReported (t : Tracked) : Prop :=
  ∀ ready rest, t.running.point = .handling (ready :: rest) →
    ready.fd ≠ t.running.server.m_socket.m_fd → t.running.server.m_callback = true →
      ∀ garbage, t.fresh ready.fd = some garbage → garbage &&& ~~~ready.events = 0

end Tracked

/-! ## What the members leave -/

/-- The invariant: each connection has its key for a descriptor, what is registered is in the table,
and `m_events` is clear unless no event was handled for the connection. -/
structure Owned (fresh : Int → Option UInt32) (s : ServerAsync) : Prop where
  own : ∀ fd c, s.m_connections.lookup fd = some c → c.m_socket.m_fd = fd
  known : ∀ fd ∈ s.registered, fd ≠ s.m_socket.m_fd → fd ∈ s.m_connections
  epoll : s.m_epollfd.isOpened = false → s.registered = ∅
  events : ∀ fd c, s.m_connections.lookup fd = some c → c.m_events = (fresh fd).getD 0

/-- What `accept` leaves: nothing new, or a connection for the new socket, whether or not
that could be registered. -/
inductive Accepted (s : ServerAsync) (new : NewSocket) : ServerAsync → Prop
  | same : Accepted s new s
  | stored (hunused : new.fd ∉ s.m_connections) (registered : Finset Int)
      (hregistered : registered = s.registered ∨
        s.m_epollfd.isOpened = true ∧ registered = insert new.fd s.registered) :
      Accepted s new { s with
        m_connections := s.m_connections.assign new.fd (.ofFD new.fd new.garbage)
        registered := registered }

/-- What `handleConnection` leaves: the connection is gone, or its events are cleared. -/
structure Handled (s : ServerAsync) (fd : Int) (s' : ServerAsync) : Prop where
  socket : s'.m_socket = s.m_socket
  epollfd : s'.m_epollfd = s.m_epollfd
  others : ∀ j, j ≠ fd → s'.m_connections.lookup j = s.m_connections.lookup j
  registered : s'.registered ⊆ s.registered
  entry : (s'.m_connections.lookup fd = none ∧ fd ∉ s'.registered) ∨
    ∃ c, s'.m_connections.lookup fd = some c ∧ c.m_socket.m_fd = fd ∧ c.m_events = 0

theorem setTimeout_same {s : ServerAsync} {fd : Int} (hmem : fd ∈ s.m_connections)
    (spare : NewSocket) (set : Bool) : (s.setTimeout fd spare set).Leaves False (· = s) := by
  obtain ⟨c, hc⟩ := OrdMap.mem_iff.mp hmem
  exact setTimeout_leaves hc spare set

theorem addToEpoll_registered (s : ServerAsync) (fd : Int) (added : Bool) :
    (s.addToEpoll fd added).Leaves False fun s' => ∃ registered, s' =
    { s with registered := registered } ∧
      (registered = s.registered ∨ s.m_epollfd.isOpened = true ∧
        registered = insert fd s.registered) := by
  unfold addToEpoll
  split
  · exact ⟨s.registered, rfl, Or.inl rfl⟩
  · next hepoll =>
      split
      · exact ⟨_, rfl, Or.inr ⟨by simpa using hepoll, rfl⟩⟩
      · exact ⟨s.registered, rfl, Or.inl rfl⟩

theorem accept_accepted {s : ServerAsync} {env : Env}
    (hunused : 0 ≤ env.accepted.fd → env.accepted.fd ∉ s.m_connections) :
    (s.accept env).Leaves False (Accepted s env.accepted) := by
  unfold accept
  split
  · exact .same
  dsimp only
  split
  · exact .same
  next hfd =>
  have hnew := hunused (not_lt.mp hfd)
  have hemplace : s.try_emplace env.accepted = (true, { s with
      m_connections :=
        s.m_connections.assign env.accepted.fd (.ofFD env.accepted.fd env.accepted.garbage) }) :=
    if_neg hnew
  simp only [hemplace, Bool.not_true, Bool.false_eq_true, if_false]
  -- the timeouts change nothing, whether they can be set or not
  have hkeep : ∀ set s', (Accepted s env.accepted s' ∧ env.accepted.fd ∈ s'.m_connections) →
      (s'.setTimeout env.accepted.fd env.spare set).Leaves False fun s'' =>
        Accepted s env.accepted s'' ∧ env.accepted.fd ∈ s''.m_connections := by
    intro set s' hs'
    exact (setTimeout_same hs'.2 env.spare set).mono fun s'' heq => heq ▸ hs'
  have hadd : ((addToEpoll { s with
      m_connections :=
        s.m_connections.assign env.accepted.fd (.ofFD env.accepted.fd env.accepted.garbage) }
      env.accepted.fd env.added)).Leaves False fun s' =>
        Accepted s env.accepted s' ∧ env.accepted.fd ∈ s'.m_connections := by
    refine (addToEpoll_registered _ _ _).mono ?_
    rintro s' ⟨registered, rfl, hregistered⟩
    exact ⟨.stored hnew registered hregistered,
      OrdMap.mem_of_lookup (OrdMap.lookup_assign_self _ _ _)⟩
  have hboth := (hadd.andThen (hkeep env.recieveTimeoutSet) fun _ h => h).andThen
    (hkeep env.sendTimeoutSet) fun _ h => h
  exact hboth.mono fun s' h => h.1

theorem removeFromEpoll_registered {s : ServerAsync}
    (hepoll : s.m_epollfd.isOpened = false → s.registered = ∅) (fd : Int) :
    fd ∉ (s.removeFromEpoll fd).registered := by
  unfold removeFromEpoll
  split
  · next hclosed =>
      rw [hepoll (by simpa using hclosed)]
      exact Finset.notMem_empty fd
  · exact Finset.notMem_erase fd s.registered

section Client

variable {fresh : Int → Option UInt32} {s : ServerAsync} (h : Owned fresh s) {fd : Int}
  {c : ConnectionAsync} (hc : s.m_connections.lookup fd = some c)

include h in
theorem removed_handled (c c' : ConnectionAsync) :
    Handled s fd (((s.update fd c c').removeFromEpoll fd).eraseConnection fd) := by
  have hupdate : (s.update fd c c').registered ⊆ s.registered := by
    unfold update
    dsimp only
    split
    · exact Finset.Subset.refl _
    · exact Finset.erase_subset _ _
  have hepoll : (s.update fd c c').m_epollfd.isOpened = false →
      (s.update fd c c').registered = ∅ := by
    intro hclosed
    apply Finset.subset_empty.mp
    rw [← h.epoll hclosed]
    exact hupdate
  have hnot := removeFromEpoll_registered hepoll fd
  obtain ⟨registered, hremoved, hsubset, -⟩ := removeFromEpoll_eq (s.update fd c c') fd
  rw [hremoved] at hnot ⊢
  have hlookup : (s.m_connections.assign fd c').lookup fd = some c' :=
    OrdMap.lookup_assign_self _ _ _
  have herase : ∃ registered', registered' ⊆ registered ∧
      eraseConnection { s.update fd c c' with registered := registered } fd =
        { s with m_connections := (s.m_connections.assign fd c').erase fd,
                 registered := registered' } := by
    simp only [eraseConnection, update, hlookup]
    split
    · exact ⟨_, Finset.erase_subset _ _, rfl⟩
    · exact ⟨_, Finset.Subset.refl _, rfl⟩
  obtain ⟨registered', hsubset', herased⟩ := herase
  rw [herased]
  exact {
    socket := rfl
    epollfd := rfl
    others := fun j hj => by
      rw [OrdMap.lookup_erase_ne _ hj, OrdMap.lookup_assign_ne _ hj]
    registered := (hsubset'.trans hsubset).trans hupdate
    entry := Or.inl ⟨OrdMap.lookup_erase_self _ _, fun hmem => hnot (hsubset' hmem)⟩ }

theorem kept_handled {c c' : ConnectionAsync} (hsame : c'.m_socket = c.m_socket)
    (hown : c.m_socket.m_fd = fd) :
    Handled s fd ((s.update fd c c').update fd c' c'.clearEvents) := by
  have hupdate : (s.update fd c c').update fd c' c'.clearEvents =
      { s with m_connections := (s.m_connections.assign fd c').assign fd c'.clearEvents } := by
    simp [update, hsame, ConnectionAsync.clearEvents]
  rw [hupdate]
  exact {
    socket := rfl
    epollfd := rfl
    others := fun j hj => by
      rw [OrdMap.lookup_assign_ne _ hj, OrdMap.lookup_assign_ne _ hj]
    registered := Finset.Subset.refl _
    entry := Or.inr ⟨c'.clearEvents, OrdMap.lookup_assign_self _ _ _,
      (congrArg SocketAsync.m_fd hsame).trans hown, rfl⟩ }

include h hc in
/-- A callback that returns leaves the connection removed or with its events cleared. -/
theorem handleConnection_handled {events : UInt32} {env : Env} (hthrown : env.thrown = none) :
    ∃ s', s.handleConnection fd c events env = .ok s' ∧ Handled s fd s' := by
  have hown := h.own fd c hc
  have hsocket := called_socket (s := s) (c := c) events env
  simp only [handleConnection, hthrown, ite_self, hown]
  split
  · exact ⟨_, rfl, removed_handled h _ _⟩
  · next hstays =>
      have hopen : (s.called (c.setEvent events) env).m_opened = true := by
        simp only [Bool.or_eq_true, not_or, ConnectionAsync.isOpened] at hstays
        simpa using hstays.1
      have hsame := hsocket.resolve_right fun hclosed => by
        rw [hclosed.1] at hopen
        cases hopen
      exact ⟨_, rfl, kept_handled hsame hown⟩

include h hc in
theorem dispatch_handled {ready : Ready} (hready : ready.fd = fd) (hclient : fd ≠ s.m_socket.m_fd)
    {env : Env} (hthrown : env.thrown = none) :
    ∃ s', s.dispatch ready env = .ok s' ∧ Handled s fd s' := by
  subst hready
  rw [dispatch, if_neg hclient, element_of_lookup hc]
  exact handleConnection_handled h hc hthrown

end Client

/-! ## What a step keeps -/

section Keeps

variable {fresh fresh' : Int → Option UInt32} {s s' : ServerAsync} (h : Owned fresh s)
include h

theorem Owned.same (hsocket : s'.m_socket = s.m_socket) (hepoll : s'.m_epollfd = s.m_epollfd)
    (hconnections : s'.m_connections = s.m_connections) (hregistered : s'.registered = s.registered)
    (hfresh : ∀ fd ∈ s.m_connections, fresh' fd = fresh fd) : Owned fresh' s' where
  own := by
    rw [hconnections]
    exact h.own
  known := by
    rw [hconnections, hregistered, hsocket]
    exact h.known
  epoll := by
    rw [hepoll, hregistered]
    exact h.epoll
  events fd c hc := by
    rw [hconnections] at hc
    rw [hfresh fd (OrdMap.mem_of_lookup hc)]
    exact h.events fd c hc

theorem Owned.accepted {new : NewSocket} (hs' : Accepted s new s')
    (hfresh : ∀ fd ∈ s.m_connections, fresh' fd = fresh fd)
    (hnew : ∀ fd ∈ s'.m_connections, fd ∉ s.m_connections → fresh' fd = some new.garbage) :
    Owned fresh' s' := by
  cases hs' with
  | same => exact h.same rfl rfl rfl rfl hfresh
  | stored hunused registered hregistered =>
      have hlookup : ∀ fd c,
          (s.m_connections.assign new.fd (.ofFD new.fd new.garbage)).lookup fd = some c →
          fd = new.fd ∧ c = .ofFD new.fd new.garbage ∨ s.m_connections.lookup fd = some c := by
        intro fd c hc
        by_cases hfd : fd = new.fd
        · subst hfd
          rw [OrdMap.lookup_assign_self] at hc
          cases hc
          exact Or.inl ⟨rfl, rfl⟩
        · rw [OrdMap.lookup_assign_ne _ hfd] at hc
          exact Or.inr hc
      refine ⟨?_, ?_, ?_, ?_⟩
      · intro fd c hc
        rcases hlookup fd c hc with ⟨rfl, rfl⟩ | hold
        · rfl
        · exact h.own fd c hold
      · intro fd hmem hclient
        apply OrdMap.mem_assign.mpr
        by_cases hfd : fd = new.fd
        · exact Or.inl hfd
        · have hold : fd ∈ s.registered := by
            rcases hregistered with heq | ⟨-, heq⟩
            · exact heq ▸ hmem
            · have hmem' : fd ∈ insert new.fd s.registered := heq ▸ hmem
              exact (Finset.mem_insert.mp hmem').resolve_left hfd
          exact Or.inr (h.known fd hold hclient)
      · intro hclosed
        rcases hregistered with heq | ⟨hopen, -⟩
        · exact heq.trans (h.epoll hclosed)
        · exact absurd (hopen.symm.trans hclosed) (by decide)
      · intro fd c hc
        rcases hlookup fd c hc with ⟨rfl, rfl⟩ | hold
        · rw [hnew new.fd (OrdMap.mem_of_lookup hc) hunused]
          rfl
        · rw [hfresh fd (OrdMap.mem_of_lookup hold)]
          exact h.events fd c hold

theorem Owned.handled {fd : Int} (hs' : Handled s fd s')
    (hfresh : ∀ j ∈ s.m_connections, j ≠ fd → fresh' j = fresh j)
    (hwoken : fd ∈ s'.m_connections → fresh' fd = none) : Owned fresh' s' where
  own j c hc := by
    by_cases hj : j = fd
    · subst hj
      rcases hs'.entry with ⟨hnone, -⟩ | ⟨c', hc', hown, -⟩
      · rw [hnone] at hc
        cases hc
      · rw [hc'] at hc
        cases hc
        exact hown
    · rw [hs'.others j hj] at hc
      exact h.own j c hc
  known j hmem hclient := by
    rw [hs'.socket] at hclient
    by_cases hj : j = fd
    · subst hj
      rcases hs'.entry with ⟨-, hnot⟩ | ⟨c', hc', -⟩
      · exact absurd hmem hnot
      · exact OrdMap.mem_of_lookup hc'
    · have hold := h.known j (hs'.registered hmem) hclient
      rw [OrdMap.mem_iff, hs'.others j hj, ← OrdMap.mem_iff]
      exact hold
  epoll hclosed := by
    rw [hs'.epollfd] at hclosed
    apply Finset.subset_empty.mp
    rw [← h.epoll hclosed]
    exact hs'.registered
  events j c hc := by
    by_cases hj : j = fd
    · subst hj
      rw [hwoken (OrdMap.mem_of_lookup hc)]
      rcases hs'.entry with ⟨hnone, -⟩ | ⟨c', hc', -, hclear⟩
      · rw [hnone] at hc
        cases hc
      · rw [hc'] at hc
        cases hc
        exact hclear
    · rw [hs'.others j hj] at hc
      rw [hfresh j (OrdMap.mem_of_lookup hc) hj]
      exact h.events j c hc

end Keeps

theorem owned_close (fresh : Int → Option UInt32) (s : ServerAsync) : Owned fresh s.close where
  own fd c hc := by cases hc
  known fd hmem := absurd hmem (Finset.notMem_empty fd)
  epoll _ := rfl
  events fd c hc := by cases hc

theorem Accepted.subset {s s' : ServerAsync} {new : NewSocket} (h : Accepted s new s') {fd : Int}
    (hfd : fd ∈ s.m_connections) : fd ∈ s'.m_connections := by
  cases h with
  | same => exact hfd
  | stored hunused registered hregistered => exact OrdMap.mem_assign.mpr (Or.inr hfd)

theorem Accepted.socket {s s' : ServerAsync} {new : NewSocket} (h : Accepted s new s') :
    s'.m_socket = s.m_socket := by
  cases h <;> rfl

namespace Tracked

section FreshAfter

variable {t : Tracked} {act : Act} {s' : Running} {fd : Int}

theorem freshAfter_old (hold : fd ∈ t.running.server.m_connections)
    (hstays : fd ∈ s'.server.m_connections)
    (hwoken : t.running.woken act ≠ some fd) : t.freshAfter act s' fd = t.fresh fd := by
  rw [freshAfter, if_neg (not_not.mpr hstays), if_neg (not_not.mpr hold), if_neg hwoken]

/-- A connection whose event is not handled keeps its memory. -/
theorem freshAfter_none (hold : fd ∈ t.running.server.m_connections)
    (hstays : fd ∈ s'.server.m_connections) (hwoken : t.running.woken act = none) :
    t.freshAfter act s' fd = t.fresh fd := by
  apply freshAfter_old hold hstays
  rw [hwoken]
  exact (Option.some_ne_none fd).symm

theorem freshAfter_new (hnew : fd ∉ t.running.server.m_connections)
    (hstored : fd ∈ s'.server.m_connections) : t.freshAfter act s' fd = act.memory := by
  rw [freshAfter, if_neg (not_not.mpr hstored), if_pos hnew]

theorem freshAfter_woken (hold : fd ∈ t.running.server.m_connections)
    (hwoken : t.running.woken act = some fd) : t.freshAfter act s' fd = none := by
  by_cases hgone : fd ∉ s'.server.m_connections
  · rw [freshAfter, if_pos hgone]
  · rw [freshAfter, if_neg hgone, if_neg (not_not.mpr hold), if_pos hwoken]

end FreshAfter

/-- What holds in every state of a run. -/
structure InRun (t : Tracked) : Prop where
  owned : Owned t.fresh t.running.server
  pending : ∀ rest, t.running.point = .handling rest → Pending t.running.server rest

section Step

variable {t t' : Tracked} (h : t.InRun) {act : Act}
include h

/-- A step that leaves the table alone, between two batches. -/
theorem inRun_of_same (hstep : t.Step act t') (hwoken : t.running.woken act = none)
    (hsocket : t'.running.server.m_socket = t.running.server.m_socket)
    (hepoll : t'.running.server.m_epollfd = t.running.server.m_epollfd)
    (hconnections : t'.running.server.m_connections = t.running.server.m_connections)
    (hregistered : t'.running.server.registered = t.running.server.registered)
    (hpending : ∀ rest, t'.running.point = .handling rest → Pending t'.running.server rest) :
    t'.InRun where
  owned := by
    rw [hstep.2]
    refine h.owned.same hsocket hepoll hconnections hregistered fun fd hfd => ?_
    exact freshAfter_none hfd (hconnections ▸ hfd) hwoken
  pending := hpending

/-- A step in which `accept` was called. -/
theorem inRun_of_accepted {new : NewSocket} (hstep : t.Step act t')
    (hwoken : t.running.woken act = none) (hmemory : act.memory = some new.garbage)
    (haccepted : Accepted t.running.server new t'.running.server)
    (hpending : ∀ rest, t'.running.point = .handling rest → Pending t'.running.server rest) :
    t'.InRun where
  owned := by
    rw [hstep.2]
    refine h.owned.accepted haccepted (fun fd hfd => ?_) fun fd hstored hnew => ?_
    · exact freshAfter_none hfd (haccepted.subset hfd) hwoken
    · rw [freshAfter_new hnew hstored, hmemory]
  pending := hpending

theorem unused_of_promised {new : NewSocket}
    (hnew : ∀ fd c, t.running.server.m_connections.lookup fd = some c → c.m_socket.m_fd ≠ new.fd) :
    new.fd ∉ t.running.server.m_connections := by
  intro hmem
  obtain ⟨c, hc⟩ := OrdMap.mem_iff.mp hmem
  exact hnew new.fd c hc (h.owned.own new.fd c hc)

/-- A step in which the event of a client was handled. -/
theorem inRun_of_handled {fd : Int} (hstep : t.Step act t') (hwoken : t.running.woken act = some fd)
    (hfd : fd ∈ t.running.server.m_connections)
    (hhandled : Handled t.running.server fd t'.running.server)
    (hpending : ∀ rest, t'.running.point = .handling rest → Pending t'.running.server rest) :
    t'.InRun where
  owned := by
    rw [hstep.2]
    refine h.owned.handled hhandled (fun j hj hne => ?_) fun _ => freshAfter_woken hfd hwoken
    have hstays : j ∈ t'.running.server.m_connections := by
      rw [OrdMap.mem_iff, hhandled.others j hne, ← OrdMap.mem_iff]
      exact hj
    refine freshAfter_old hj hstays ?_
    rw [hwoken]
    intro heq
    exact hne (Option.some.inj heq).symm
  pending := hpending

theorem step_inRun (hpromised : t.running.Promised act) (hreturns : CallbackReturns act)
    (hstep : t.Step act t') : t'.InRun := by
  obtain ⟨⟨server, point⟩, fresh⟩ := t
  obtain ⟨⟨server', point'⟩, fresh'⟩ := t'
  have hrun : Running.step ⟨server, point⟩ act = some ⟨server', point'⟩ := hstep.1
  unfold Running.step at hrun
  split at hrun
  · cases hrun
    exact inRun_of_same h hstep rfl rfl rfl rfl rfl (by simp)
  · next env hpoint =>
      have hleaves := accept_accepted fun hfd => unused_of_promised h (hpromised hfd).2
      obtain ⟨haccepted, hpoint | hpoint⟩ := leads_leaves hleaves hrun
      all_goals
        refine inRun_of_accepted h hstep rfl rfl haccepted ?_
        intro rest hrest
        rw [hpoint] at hrest
        cases hrest
  · cases hrun
    exact ⟨owned_close fresh' server, by simp⟩
  · cases hrun
    exact inRun_of_same h hstep rfl rfl rfl rfl rfl (by simp)
  · split at hrun
    · cases hrun
      exact inRun_of_same h hstep rfl rfl rfl rfl rfl (by simp)
    · split at hrun
      · cases hrun
        exact inRun_of_same h hstep rfl rfl rfl rfl rfl (by simp)
      · cases hrun
        exact inRun_of_same h hstep rfl rfl rfl rfl rfl (by simp)
  · cases hrun
    exact inRun_of_same h hstep rfl rfl rfl rfl rfl (by simp)
  · cases hrun
    exact inRun_of_same h hstep rfl rfl rfl rfl rfl (by simp)
  · next events hpoint =>
      cases hrun
      obtain ⟨hnodup, hregistered⟩ := hpromised
      refine inRun_of_same h hstep rfl rfl rfl rfl rfl ?_
      rintro rest ⟨⟩
      refine ⟨hnodup, fun ready hmem => ?_⟩
      by_cases hlisten : ready.fd = server.m_socket.m_fd
      · exact Or.inl hlisten
      · exact Or.inr (h.owned.known ready.fd (hregistered ready hmem) hlisten)
  · next ready rest env hhandling =>
      obtain rfl : point = .handling (ready :: rest) := hhandling
      have hall := h.pending (ready :: rest) rfl
      by_cases hlisten : ready.fd = server.m_socket.m_fd
      · rw [dispatch, if_pos hlisten] at hrun
        have hleaves := accept_accepted fun hfd => unused_of_promised h (hpromised hfd).2
        obtain ⟨haccepted, hpoint⟩ := leads_leaves hleaves hrun
        refine inRun_of_accepted h hstep (if_pos hlisten) rfl haccepted ?_
        intro rest' hrest
        rcases hpoint with hpoint | hpoint
        · rw [hpoint] at hrest
          cases hrest
          exact hall.tail haccepted.socket fun j _ hj => haccepted.subset hj
        · rw [hpoint] at hrest
          cases hrest
      · have hmem := (hall.2 ready List.mem_cons_self).resolve_left hlisten
        obtain ⟨c, hc⟩ := OrdMap.mem_iff.mp hmem
        obtain ⟨s', hok, hhandled⟩ := dispatch_handled h.owned hc rfl hlisten hreturns
        rw [hok] at hrun
        cases hrun
        refine inRun_of_handled h hstep (if_neg hlisten) hmem hhandled ?_
        rintro rest' ⟨⟩
        refine hall.tail hhandled.socket fun j hj hold => ?_
        rw [OrdMap.mem_iff, hhandled.others j hj, ← OrdMap.mem_iff]
        exact hold
  · cases hrun
    exact inRun_of_same h hstep rfl rfl rfl rfl rfl (by simp)
  · cases hrun

end Step
end Tracked

/-! ## Runs -/

namespace Tracked

theorem inRun_start (socket : Int) {epoll : Int} (hepoll : 0 ≤ epoll) (callback : Bool) :
    (start socket epoll callback).InRun where
  owned :=
    { own := fun fd c hc => by cases hc
      known := fun fd hmem hclient => absurd (Finset.mem_singleton.mp hmem) hclient
      epoll := fun hclosed => by
        have hne : epoll ≠ -1 := by omega
        exact absurd (of_decide_eq_false hclosed) (not_not.mpr hne)
      events := fun fd c hc => by cases hc }
  pending := by simp [start]

theorem reaches_inRun {socket epoll : Int} (hepoll : 0 ≤ epoll) {callback : Bool} {t : Tracked}
    (hrun : Reaches (start socket epoll callback) t) : t.InRun :=
  hrun.invariant (fun _ _ _ hinv hadmitted hs => step_inRun hinv hadmitted.1 hadmitted.2 hs)
    (inRun_start socket hepoll callback)

/-- The memory of its connections can be told along any run of the server. -/
theorem exists_reaches {s s' : Running} {fresh : Int → Option UInt32}
    (hrun : Support.Reaches Running.Step (fun s act => s.Promised act ∧ CallbackReturns act) s s') :
    ∃ fresh', Reaches ⟨s, fresh⟩ ⟨s', fresh'⟩ := by
  induction hrun with
  | refl => exact ⟨fresh, .refl⟩
  | tail _ hlast ih =>
      obtain ⟨fresh₁, hreaches⟩ := ih
      obtain ⟨act, hadmitted, hs⟩ := hlast
      exact ⟨freshAfter ⟨_, fresh₁⟩ act _, hreaches.tail ⟨act, hadmitted, hs, rfl⟩⟩

/-- **When callbacks see exactly the reported events.**  In every state of a run whose callbacks
return, the callback that is invoked next finds an event set if and only if `epoll_wait` has
reported it, exactly when it is not the first one for its connection or everything that the memory
of `m_events` held is reported, too. -/
theorem seesReported_iff {socket epoll : Int} (hepoll : 0 ≤ epoll) {callback : Bool} {t : Tracked}
    (hrun : Reaches (start socket epoll callback) t) :
    SeesReported t.running ↔ MemoryReported t := by
  have hinv := reaches_inRun hepoll hrun
  -- the connection is in the table, and its events are the memory it was constructed in, or none
  have hconnection : ∀ ready rest, t.running.point = .handling (ready :: rest) →
      ready.fd ≠ t.running.server.m_socket.m_fd →
        ∃ c, t.running.server.m_connections.lookup ready.fd = some c ∧
          c.m_events = (t.fresh ready.fd).getD 0 := by
    intro ready rest hpoint hclient
    have hmem := ((hinv.pending _ hpoint).2 ready List.mem_cons_self).resolve_left hclient
    obtain ⟨c, hc⟩ := OrdMap.mem_iff.mp hmem
    exact ⟨c, hc, hinv.owned.events ready.fd c hc⟩
  constructor
  · intro hsees ready rest hpoint hclient hcallback garbage hgarbage
    obtain ⟨c, hc, hevents⟩ := hconnection ready rest hpoint hclient
    have hreported := hsees ready rest {} hpoint hclient hcallback
    rw [element_of_lookup hc, isEventSet_iff_reported, hevents, hgarbage] at hreported
    exact hreported
  · intro hmemory ready rest spare hpoint hclient hcallback
    obtain ⟨c, hc, hevents⟩ := hconnection ready rest hpoint hclient
    rw [element_of_lookup hc, isEventSet_iff_reported, hevents]
    cases hfresh : t.fresh ready.fd with
    | none => simp
    | some garbage => exact hmemory ready rest hpoint hclient hcallback garbage hfresh

/-! ## A client -/

/-- A client was accepted, and `EPOLLIN` is reported for it. -/
theorem reaches_first_event (garbage : UInt32) :
    ∃ fresh, Reaches (start 3 4 true) ⟨⟨serving garbage, .handling [⟨5, 1⟩]⟩, fresh⟩ := by
  have hevents : Running.Promised ⟨serving garbage, .waiting⟩ (.wait (.ready [⟨5, 1⟩])) :=
    ⟨by decide, by
      intro ready hmem
      rw [List.mem_singleton.mp hmem]
      exact Finset.mem_insert_self 5 {3}⟩
  apply exists_reaches
  apply (reaches_serving garbage hevents).mono
  rintro s act ⟨hpromised, hundisturbed⟩
  refine ⟨hpromised, ?_⟩
  cases act with
  | handle env => exact hundisturbed.2
  | _ => trivial

theorem seesReported_clean : SeesReported ⟨serving 0, .handling [⟨5, 1⟩]⟩ := by
  obtain ⟨fresh, hrun⟩ := reaches_first_event 0
  have hepoll : (0 : Int) ≤ 4 := by decide
  refine (seesReported_iff hepoll hrun).mpr ?_
  rintro ready rest ⟨⟩ - - garbage hgarbage
  have hevents := (reaches_inRun hepoll hrun).owned.events 5 (.ofFD 5 0) rfl
  have hzero : (0 : UInt32) = garbage := hevents.trans (by rw [hgarbage]; rfl)
  rw [← hzero]
  decide

/-- The memory of `m_events` held `EPOLLOUT`; the callback finds it set, though only `EPOLLIN` is
reported. -/
theorem callback_sees_memory :
    ∃ t, Reaches (start 3 4 true) t ∧ ¬ SeesReported t.running := by
  obtain ⟨fresh, hrun⟩ := reaches_first_event 4
  refine ⟨_, hrun, ?_⟩
  intro hsees
  replace hsees : SeesReported ⟨serving 4, .handling [⟨5, 1⟩]⟩ := hsees
  have hset := hsees ⟨5, 1⟩ [] {} rfl (by decide) rfl 4
  exact absurd (hset.mp (by decide)) (by decide)

end Tracked
end AsyncTCP
end AdvCppHW
